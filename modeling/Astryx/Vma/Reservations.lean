import Astryx.Vma.Layout
import Astryx.Vma.Teardown

/-!
# Reservations keep sweeps away from new mappings

Phase 3 commits an area only after it has found no reservation in its way, under the lock under
which reservations are published. So a commit and a teardown that is in flight at that moment have
disjoint ranges, as long as the teardown found a slot: there are 64.

That the sweep then leaves the entries of the new area alone needs more than disjoint ranges. The
sweep stops at a saturated end with a counter that wraps, and the walk drops the bits of an address
above 47, so a range that is not made of canonical addresses is swept through entries it did not
reserve (`sweep_clears_committed`). `MmOp.Respects` asks for canonical ranges of those calls whose
range comes from the caller, which is enough for the table of reservations; what is said of entries
is said of runs in which these ranges lie in the user half (`MmOp.InUserHalf`).
-/

namespace Astryx

open List Thread MmSystem Transition Option

variable {s s' : MmSystem}

/-! ## Ranges -/

/-- The range is empty or consists of canonical addresses, and does not reach the end of the `u64`
range. -/
def Canonical (lo length : ℕ) : Prop :=
  length = 0 ∨ lo + length ≤ 2 ^ 47 ∨ (2 ^ 64 - 2 ^ 47 ≤ lo ∧ lo + length < 2 ^ 64)

/-- The two ranges have an address in common. -/
def Meets (lo length base len : ℕ) : Prop := max lo base < min (lo + length) (base + len)

variable {lo cr3 space : ℕ} {phase : Phase} {op : MmOp}

/-- Between canonical ranges, addresses with one entry are addresses of one page. -/
lemma mem_of_entryOf_eq {length base len pg va : ℕ} (hlo : lo % 4096 = 0)
    (hlength : length % 4096 = 0) (hc : Canonical lo length) (hc' : Canonical base len)
    (hpg : lo ≤ pg ∧ pg < lo + length) (hva : base ≤ va ∧ va < base + len)
    (he : entryOf pg = entryOf va) : lo ≤ va ∧ va < lo + length := by
  rw [entryOf, entryOf] at he
  rw [Canonical] at hc hc'
  omega

variable {w : Sweep} {th : Thread} {tid : ℕ}

/-- A sweep of a canonical range stops at its end. -/
lemma Sweep.stop_eq (h : Canonical w.lo w.length) (hlo : w.lo < 2 ^ 64) :
    w.stop = w.lo + w.length := by
  rw [Sweep.stop, Word.satAdd]
  rw [Canonical] at h
  omega

/-! ## The teardown table -/

/-- What a publication does: it takes a free slot, or there is none, or nothing is to be
reserved. -/
lemma teardownPublish_cases (tds : Teardowns) (lo hi : ℕ) (hcr3 : cr3 ≠ 0) :
    (hi ≤ lo ∧ teardownPublish tds cr3 lo hi = (tds, none)) ∨
    ((∀ t ∈ tds, t.cr3 ≠ 0) ∧ teardownPublish tds cr3 lo hi = (tds, none)) ∨
    ∃ i t, tds[i]? = some t ∧ t.cr3 = 0 ∧
      teardownPublish tds cr3 lo hi = (tds.set i ⟨cr3, lo, hi⟩, some i) := by
  rw [teardownPublish]
  split
  next h => exact .inl ⟨h.resolve_left hcr3, rfl⟩
  split
  next i hi =>
    obtain ⟨hlt, hfree, -⟩ := List.findIdx?_eq_some_iff_getElem.mp hi
    exact .inr (.inr ⟨i, tds[i], List.getElem?_eq_getElem hlt, of_decide_eq_true hfree, rfl⟩)
  next hnone =>
    refine .inr (.inl ⟨fun t ht => ?_, rfl⟩)
    have := List.findIdx?_eq_none_iff.mp hnone t ht
    exact of_decide_eq_false this

/-- No conflict means that no reservation of the address space meets the range. -/
lemma not_meets_of_teardownConflict {tds : Teardowns} {hi : ℕ}
    (hcr3 : cr3 ≠ 0 ∧ cr3 ≠ 2 ^ 64 - 1) (h : teardownConflict tds cr3 lo hi = none)
    {t : TeardownSlot} (ht : t ∈ tds) (htc : t.cr3 = cr3) : ¬ (lo < t.hi ∧ t.lo < hi) := by
  rw [teardownConflict, if_neg (not_or.mpr hcr3), List.min?_eq_none_iff, map_eq_nil_iff,
    filter_eq_nil_iff] at h
  exact fun hm => h t ht (decide_eq_true ⟨htc, hm.1, hm.2⟩)

section CountP

variable {α : Type*} {l : List α} {i : ℕ} {a b : α} {p : α → Bool}

lemma countP_set_of_eq (h : l[i]? = some a) (hab : p b = p a) :
    (l.set i b).countP p = l.countP p := by
  obtain ⟨hi, rfl⟩ := List.getElem?_eq_some_iff.mp h
  rw [countP_set hi, hab]
  split
  next hp => exact Nat.sub_add_cancel (countP_pos_iff.mpr ⟨_, getElem_mem hi, hp⟩)
  · rfl

lemma countP_set_of_gain (h : l[i]? = some a) (ha : p a = false) (hb : p b) :
    (l.set i b).countP p = l.countP p + 1 := by
  obtain ⟨hi, rfl⟩ := List.getElem?_eq_some_iff.mp h
  rw [countP_set hi, hb, ha]
  rfl

lemma countP_set_of_loss (h : l[i]? = some a) (ha : p a) (hb : p b = false) :
    (l.set i b).countP p + 1 = l.countP p := by
  obtain ⟨hi, rfl⟩ := List.getElem?_eq_some_iff.mp h
  rw [countP_set hi, hb, ha]
  exact Nat.sub_add_cancel (countP_pos_iff.mpr ⟨_, getElem_mem hi, ha⟩)

end CountP

/-! ## The invariant -/

/-- A sweep holds its reservation, unless it has nothing to sweep, and nothing has been committed in
its range since it began. -/
structure SweepOk (s : MmSystem) (space : ℕ) (w : Sweep) : Prop where
  lo_lt : w.lo < 2 ^ 64
  lo_page : w.lo % 4096 = 0
  length_pages : w.length % 4096 = 0
  canonical : Canonical w.lo w.length
  next : w.lo ≤ w.next
  slot : ∀ k, w.slot = some k → s.tds[k]? = some ⟨(s.spaces space).cr3, w.lo, w.stop⟩
  empty : w.slot = none → w.length = 0
  later : ∀ c ∈ s.commits, c.space = space → w.mark ≤ c.time → ¬ Meets w.lo w.length c.base c.length

lemma SweepOk.advance (h : SweepOk s space w) (hmore : w.next < w.stop) :
    SweepOk s space w.advance := by
  have hnext : w.lo ≤ Word.add w.next 0x1000 := by
    have := h.next
    have hc := h.canonical
    have := h.lo_page
    have := h.length_pages
    rw [w.stop_eq hc h.lo_lt] at hmore
    rw [Canonical] at hc
    rw [Word.add]
    omega
  have hslot := h.slot
  rw [Sweep.stop] at hslot
  rw [Sweep.advance]
  exact ⟨h.lo_lt, h.lo_page, h.length_pages, h.canonical, hnext, hslot, h.empty, h.later⟩

/-- The base of a placement is where a fixed call wants it or one the kernel has chosen. -/
structure Placement.Ok (p : Placement) : Prop where
  base_lt : p.base < 2 ^ 64
  canonical : Canonical p.base p.call.roundedLength
  page : p.call.isFixed → p.base % 4096 = 0

/-- The thread has a slot. -/
def Thread.holds (th : Thread) : Bool := th.phase.slot.isSome

/-- The slot is taken. -/
def TeardownSlot.isTaken (t : TeardownSlot) : Bool := t.cr3 ≠ 0

/-- What is known of a thread in the middle of a call. -/
def PhaseOk (s : MmSystem) (space : ℕ) : Phase → Prop
  | .idle => True
  | .clearing p => p.Ok ∧ p.call.isFixed
  | .placing p | .awaiting p => p.Ok
  | .sweeping w after => SweepOk s space w ∧ ∀ p ∈ after, p.Ok

/-- What every step with canonical ranges and few teardowns in flight preserves. -/
structure MmSystem.Inv (s : MmSystem) : Prop where
  size : s.tds.length = teardownSlots
  cr3 : ∀ space, (s.spaces space).cr3 ≠ 0 ∧ (s.spaces space).cr3 ≠ 2 ^ 64 - 1
  phases : ∀ (i : ℕ) (th : Thread), s.threads[i]? = some th → PhaseOk s th.space th.phase
  /-- A slot belongs to one thread. -/
  slots : ∀ (i j : ℕ) (ti tj : Thread) (k : ℕ), s.threads[i]? = some ti →
    s.threads[j]? = some tj → i ≠ j →
    ti.phase.slot = some k → tj.phase.slot ≠ some k
  /-- Every slot that is taken belongs to a thread. -/
  taken : s.tds.countP TeardownSlot.isTaken = s.threads.countP holds
  commits : ∀ c ∈ s.commits, c.time < s.commits.length ∧ Canonical c.base c.length

lemma MmSystem.Fresh.inv (h : s.Fresh) : s.Inv := by
  have hidle : ∀ (i : ℕ) (th : Thread), s.threads[i]? = some th →
      th.phase = .idle := fun i th hth =>
    h.idle th (mem_of_getElem? hth)
  refine ⟨by rw [h.tds]; rfl, h.cr3, fun i th hth => ?_, fun i j ti tj k hi _ _ hk => ?_, ?_, ?_⟩
  · rw [hidle i th hth]
    trivial
  · rw [hidle i ti hi] at hk
    cases hk
  · rw [h.tds, countP_eq_zero.mpr fun t ht => ?_, countP_eq_zero.mpr fun th hth => ?_]
    · rw [holds, h.idle th hth]
      nofun
    · rw [eq_of_mem_replicate ht]
      nofun
  · rw [h.commits]
    exact nofun

/-- A phase is in order as long as its reservation stays and no commit meets its range. -/
lemma PhaseOk.frame (h : PhaseOk s space phase)
    (hcr3 : (s'.spaces space).cr3 = (s.spaces space).cr3)
    (hslot : ∀ k, phase.slot = some k → s'.tds[k]? = s.tds[k]?)
    (hcommits : ∀ c ∈ s'.commits, c ∈ s.commits ∨ ∀ w after, phase = .sweeping w after →
      c.space = space → ¬ Meets w.lo w.length c.base c.length) : PhaseOk s' space phase := by
  cases phase with
  | sweeping w after =>
    refine ⟨{ h.1 with slot := fun k hk => ?_, later := fun c hc hspace hmark => ?_ }, h.2⟩
    · rw [hslot k hk, hcr3]
      exact h.1.slot k hk
    rcases hcommits c hc with hc | hnew
    · exact h.1.later c hc hspace hmark
    · exact hnew w after rfl hspace
  | _ => exact h

/-- The rule for all steps of a thread: what has to be shown is the new phase of the thread itself,
that the others keep their slots, and that the slots are still counted. -/
lemma MmSystem.Inv.step (h : s.Inv) (hthreads : s'.threads = s.threads.set tid { th with phase })
    (hsize : s'.tds.length = s.tds.length) (hcr3 : ∀ q, (s'.spaces q).cr3 = (s.spaces q).cr3)
    (hphase : PhaseOk s' th.space phase)
    (hothers : ∀ (i : ℕ) (ti : Thread) (k : ℕ), i ≠ tid → s.threads[i]? = some ti →
      ti.phase.slot = some k →
      s'.tds[k]? = s.tds[k]? ∧ phase.slot ≠ some k)
    (hclear : ∀ c ∈ s'.commits, c ∈ s.commits ∨
      ∀ (i : ℕ) (ti : Thread) (w : Sweep) (after : Option Placement), s.threads[i]? = some ti →
      ti.phase = .sweeping w after → c.space = ti.space → ¬ Meets w.lo w.length c.base c.length)
    (hcommits : ∀ c ∈ s'.commits, c.time < s'.commits.length ∧ Canonical c.base c.length)
    (htaken : s'.tds.countP TeardownSlot.isTaken = s'.threads.countP holds) : s'.Inv := by
  -- a thread of the new list is the one that moved or an old one
  have hget : ∀ (i : ℕ) (ti : Thread), s'.threads[i]? = some ti →
      (i = tid ∧ ti = { th with phase }) ∨ (i ≠ tid ∧ s.threads[i]? = some ti) := by
    intro i ti hi
    rw [hthreads, List.getElem?_set] at hi
    by_cases hit : tid = i
    · rw [if_pos hit] at hi
      split at hi
      · exact .inl ⟨hit.symm, (some.inj hi).symm⟩
      · cases hi
    · rw [if_neg hit] at hi
      exact .inr ⟨fun heq => hit heq.symm, hi⟩
  refine ⟨by rw [hsize, h.size], fun q => by rw [hcr3]; exact h.cr3 q, fun i ti hi => ?_,
    fun i j ti tj k hi hj hij hk hk' => ?_, htaken, hcommits⟩
  · rcases hget i ti hi with ⟨rfl, rfl⟩ | ⟨hne, hi⟩
    · exact hphase
    · refine (h.phases i ti hi).frame (hcr3 _)
        (fun k hk => (hothers i ti k hne hi hk).1) fun c hc => ?_
      exact (hclear c hc).imp_right fun hnew w after => hnew i ti w after hi
  rcases hget i ti hi with ⟨rfl, rfl⟩ | ⟨hit, hi⟩ <;> rcases hget j tj hj
    with ⟨rfl, rfl⟩ | ⟨hjt, hj⟩
  · exact hij rfl
  · exact (hothers j tj k hjt hj hk').2 hk
  · exact (hothers i ti k hit hi hk).2 hk'
  · exact h.slots i j ti tj k hi hj hij hk hk'

/-! ## Steps of a thread -/

section Steps

variable {after : Option Placement} {s : MmSystem} {tid : ℕ} {th : Thread} {m : Mm}
  {length base : ℕ} {w : Sweep}
  {p : Placement}

lemma leave_cr3 (hm : m.space.cr3 = (s.spaces th.space).cr3) (phase : Phase) (q : ℕ) :
    ((s.leave tid th m phase).spaces q).cr3 = (s.spaces q).cr3 := by
  show (Function.update s.spaces th.space m.space q).cr3 = _
  by_cases hq : q = th.space
  · simp [hq, hm]
  · simp [hq]

variable {phase : Phase} {k lo : ℕ}

lemma countP_holds_le (l : List Thread) : l.countP holds ≤ l.countP (·.phase.isSweeping) := by
  refine countP_mono_left fun t _ hs => ?_
  rw [holds] at hs
  cases hp : t.phase with
  | sweeping w after => rfl
  | _ =>
    rw [hp] at hs
    cases hs

lemma resume_slot (after : Option Placement) : (Phase.resume after).slot = none := by
  cases after <;> rfl

/-- A mapping is committed. -/
def MmSystem.committed (s : MmSystem) (tid : ℕ) (th : Thread) (m : Mm)
    (base length : ℕ) : MmSystem :=
  { s.leave tid th m .idle with commits := ⟨th.space, base, length, s.commits.length⟩ :: s.commits }

lemma noteMmapPlacement_cr3 (vs : VmSpace) (base : ℕ) (isFixed isStackAlloc : Bool) :
    (vs.noteMmapPlacement base isFixed isStackAlloc).cr3 = vs.cr3 := by
  rw [VmSpace.noteMmapPlacement]
  split <;> rfl

lemma insertVma_cr3 {vs vs' : VmSpace} {x : VmArea} (h : vs.insertVma x = some vs') :
    vs'.cr3 = vs.cr3 := by
  rw [insertVma_eq_some h]

/-- A base the kernel picks is canonical. -/
lemma Placement.ok_of_pick (hf : p.call.isFixed = false)
    (h : p.call.pick k m = some p.base) : p.Ok := by
  have hle := MmapCall.pick_le h
  have hmax : stackAslrMax ≤ 2 ^ 47 := by decide
  refine ⟨by omega, .inr (.inl (by omega)), fun hfix => ?_⟩
  rw [hf] at hfix
  cases hfix

/-- A section of phase 3 ends at a base in order. -/
lemma Placement.Ok.phase3 (hp : p.Ok) {m' : Mm} {step : Phase3Step}
    (h : p.call.mmapPhase3 p.backing p.name p.evictsLeft 8 p.base m = (m', base, step)) (n : ℕ) :
    Placement.Ok { p with base, evictsLeft := n } := by
  cases hf : p.call.isFixed with
  | true =>
    obtain ⟨m'', step', heq, -⟩ :=
      MmapCall.mmapPhase3_fixed hf p.backing p.name p.evictsLeft 8 p.base m
    rw [h] at heq
    obtain ⟨-, hbase⟩ := Prod.mk.inj heq
    rw [(Prod.mk.inj hbase).1]
    exact ⟨hp.base_lt, hp.canonical, hp.page⟩
  | false =>
    rcases (MmapCall.mmapPhase3_cases h).1 with rfl | ⟨k, hk⟩
    · exact ⟨hp.base_lt, hp.canonical, hp.page⟩
    · exact Placement.ok_of_pick hf hk

/-- What a section of phase 3 can do: give up or wait, commit a range clear of reservations, or
begin an eviction. -/
lemma place_cases (s : MmSystem) (tid : ℕ) (th : Thread) (hp : p.Ok) :
    (∃ phase, s.place tid th p = s.leave tid th (s.mm th.space) phase ∧ phase.slot = none ∧
      phase.isSweeping = false ∧ ∀ s', PhaseOk s' th.space phase) ∨
    (∃ m base, s.place tid th p = s.committed tid th m base p.call.roundedLength ∧ m.tds = s.tds ∧
      m.space.cr3 = (s.spaces th.space).cr3 ∧ base < 2 ^ 64 ∧ Canonical base p.call.roundedLength ∧
      teardownConflict s.tds (s.spaces th.space).cr3 base
        (Word.satAdd base p.call.roundedLength) = none) ∨
    (∃ q : Placement, q.Ok ∧ q.call.isFixed ∧
      s.place tid th p = s.tearDown tid th q.base q.call.roundedLength (some q)) := by
  rw [MmSystem.place]
  rcases h3 : p.call.mmapPhase3 p.backing p.name p.evictsLeft 8 p.base (s.mm th.space)
    with ⟨m, base, step⟩
  have hok := hp.phase3 h3
  rcases (MmapCall.mmapPhase3_cases h3).2 with ⟨rfl, rfl⟩ | hatt
  · exact .inl ⟨.idle, rfl, rfl, rfl, fun _ => trivial⟩
  rcases MmapCall.mmapAttempt_cases hatt with ⟨rfl, rfl | rfl⟩ | ⟨space, hconf, hins, rfl, rfl⟩ |
    ⟨⟨hfix, -, -⟩, rfl, rfl⟩
  · exact .inl ⟨.idle, rfl, rfl, rfl, fun _ => trivial⟩
  · exact .inl ⟨.awaiting { p with base }, rfl, rfl, rfl, fun _ => hok p.evictsLeft⟩
  · refine .inr (.inl ⟨_, base, rfl, rfl, ?_, (hok 0).base_lt, (hok 0).canonical, hconf⟩)
    rw [noteMmapPlacement_cr3, insertVma_cr3 hins]
    rfl
  · exact .inr (.inr ⟨{ p with base, evictsLeft := p.evictsLeft - 1 }, hok _, hfix, rfl⟩)

section Moves

variable (h : s.Inv)
include h

/-- A sweep that begins now is older than every later commit. -/
lemma sweepOk_begin {slot : Option ℕ}
    (hm : m.space.cr3 = (s.spaces th.space).cr3) (hlt : lo < 2 ^ 64) (hlo : lo % 4096 = 0)
    (hlength : length % 4096 = 0) (hc : Canonical lo length) (hempty : slot = none → length = 0)
    (hslot : ∀ k, slot = some k →
      m.tds[k]? = some ⟨(s.spaces th.space).cr3, lo, Word.satAdd lo length⟩) :
    SweepOk (s.leave tid th m phase) th.space ⟨lo, length, slot, lo, s.commits.length⟩ := by
  refine ⟨hlt, hlo, hlength, hc, le_rfl, fun k hk => ?_, hempty, fun c hcm _ hmark => ?_⟩
  · rw [leave_cr3 hm]
    exact hslot k hk
  · exact absurd (h.commits c hcm).1 (not_lt.mpr hmark)

variable (hth : s.threads[tid]? = some th)
include hth

/-- A section that neither publishes nor commits, of a thread without a reservation. -/
lemma inv_quiet (htds : m.tds = s.tds) (hcr3 : m.space.cr3 = (s.spaces th.space).cr3)
    (hold : th.phase.slot = none) (hnew : phase.slot = none)
    (hok : PhaseOk (s.leave tid th m phase) th.space phase) : (s.leave tid th m phase).Inv := by
  refine h.step rfl (congrArg List.length htds) (leave_cr3 hcr3 phase) hok (fun i ti k _ _ _ => ?_)
    (fun c hc => .inl hc) h.commits ?_
  · refine ⟨?_, by rw [hnew]; exact (some_ne_none k).symm⟩
    show m.tds[k]? = _
    rw [htds]
  have hsame : holds { th with phase } = th.holds := by
    rw [holds, holds, hold, hnew]
  show m.tds.countP _ = (s.threads.set tid { th with phase }).countP _
  rw [htds, h.taken, countP_set_of_eq hth hsame]

lemma MmSystem.Inv.isTaken {t : TeardownSlot}
    (hk : th.phase.slot = some k) (ht : s.tds[k]? = some t) : t.isTaken := by
  cases hp : th.phase with
  | sweeping w after =>
    rw [hp] at hk
    have hok := h.phases tid th hth
    rw [hp] at hok
    have hentry := hok.1.slot k hk
    rw [ht] at hentry
    rw [some.inj hentry]
    exact decide_eq_true (h.cr3 th.space).1
  | _ =>
    rw [hp] at hk
    cases hk

/-- A teardown begins. With few in flight there is a slot for it. -/
lemma inv_tearDown (hidle : th.phase.isSweeping = false) (hlt : lo < 2 ^ 64) (hlo : lo % 4096 = 0)
    (hlength : length % 4096 = 0) (hc : Canonical lo length) (hafter : ∀ p ∈ after, p.Ok)
    (hfew : (s.tearDown tid th lo length after).inFlight ≤ teardownSlots) :
    (s.tearDown tid th lo length after).Inv := by
  have hold : th.phase.slot = none := by
    cases hp : th.phase with
    | sweeping w after =>
      rw [hp] at hidle
      cases hidle
    | _ => rfl
  have hcr3 := (h.cr3 th.space).1
  rw [tearDown, Mm.beginTeardown] at hfew ⊢
  dsimp only [mm] at hfew ⊢
  rcases teardownPublish_cases s.tds lo (Word.satAdd lo length) hcr3 with
    ⟨hempty, heq⟩ | ⟨hfull, heq⟩ | ⟨i, t, hi, hfree, heq⟩ <;> rw [heq] at hfew ⊢
  · -- nothing to reserve
    have hzero : length = 0 := by
      rw [Word.satAdd] at hempty
      omega
    exact inv_quiet h hth rfl rfl hold rfl
      ⟨sweepOk_begin h rfl hlt hlo hlength hc (fun _ => hzero) (by rintro _ ⟨⟩), hafter⟩
  · -- a full table means as many teardowns in flight already
    have htaken : s.tds.countP TeardownSlot.isTaken = teardownSlots := by
      rw [← h.size, countP_eq_length]
      exact fun t ht => decide_eq_true (hfull t ht)
    have hle := countP_holds_le s.threads
    rw [inFlight, leave, countP_set_of_gain hth hidle rfl] at hfew
    have := h.taken
    omega
  have hlength' : (s.tds.set i ⟨(s.spaces th.space).cr3, lo, Word.satAdd lo length⟩).length =
      s.tds.length := length_set
  refine h.step rfl hlength' (leave_cr3 rfl _)
    ⟨sweepOk_begin h rfl hlt hlo hlength hc (by rintro ⟨⟩) fun k hk => ?_, hafter⟩
      (fun j tj k _ hj hk => ?_)
    (fun c hc => .inl hc) h.commits ?_
  · rw [← some.inj hk]
    exact List.getElem?_set_self (List.getElem?_eq_some_iff.mp hi).1
  · -- the slot was free, so it is nobody else's
    have hne : i ≠ k := by
      rintro rfl
      exact of_decide_eq_true (h.isTaken hj hk hi) hfree
    exact ⟨List.getElem?_set_ne hne, fun heq => hne (some.inj heq)⟩
  have hth0 : th.holds = false := by rw [holds, hold]; rfl
  show (s.tds.set i _).countP _ = (s.threads.set tid _).countP _
  rw [countP_set_of_gain hi (decide_eq_false (not_not.mpr hfree)) (decide_eq_true hcr3), h.taken,
    countP_set_of_gain hth hth0 rfl]

lemma inv_sweepPage (hw : th.phase = .sweeping w after) (hmore : w.next < w.stop) :
    (s.sweepPage tid th w after).Inv := by
  have hok := h.phases tid th hth
  rw [hw] at hok
  have hphase : PhaseOk s th.space (.sweeping w.advance after) := ⟨hok.1.advance hmore, hok.2⟩
  refine h.step rfl rfl (fun _ => rfl) (hphase.frame rfl (fun _ _ => rfl) fun c hc => .inl hc)
    (fun i ti k hne hi hk => ⟨rfl, ?_⟩) (fun c hc => .inl hc) h.commits ?_
  · have := h.slots i tid ti th k hi hth hne hk
    rw [hw] at this
    rw [Phase.slot, w.advance_slot]
    exact this
  have hsame : holds { th with phase := .sweeping w.advance after } = th.holds := by
    rw [holds, holds, hw, Phase.slot, w.advance_slot, Phase.slot]
  show s.tds.countP _ = (s.threads.set tid _).countP _
  rw [countP_set_of_eq hth hsame, h.taken]

lemma inv_retire (hw : th.phase = .sweeping w after) :
    (s.leave tid th ((s.mm th.space).endTeardown w.slot) (.resume after)).Inv := by
  have hok := h.phases tid th hth
  rw [hw] at hok
  have hresume : ∀ s', PhaseOk s' th.space (.resume after) := fun s' => by
    cases after with
    | none => trivial
    | some p => exact hok.2 p rfl
  cases hslot : w.slot with
  | none =>
    have hold : th.phase.slot = none := by rw [hw]; exact hslot
    exact inv_quiet h hth rfl rfl hold (resume_slot after) (hresume _)
  | some k =>
    have hold : th.phase.slot = some k := by rw [hw]; exact hslot
    have hentry := hok.1.slot k hslot
    have hlength : (s.tds.set k ⟨0, 0, 0⟩).length = s.tds.length := length_set
    refine h.step rfl hlength (leave_cr3 rfl _) (hresume _) (fun i ti j hne hi hj => ⟨?_, ?_⟩)
      (fun c hc => .inl hc) h.commits ?_
    · -- nobody else holds the slot
      refine List.getElem?_set_ne ?_
      rintro rfl
      exact h.slots i tid ti th k hi hth hne hj hold
    · rw [resume_slot]
      exact (some_ne_none j).symm
    have hth1 : th.holds := by rw [holds, hold]; rfl
    have hth0 : holds { th with phase := .resume after } = false := by
      rw [holds, resume_slot]
      rfl
    have htds := countP_set_of_loss (b := (⟨0, 0, 0⟩ : TeardownSlot)) hentry
      (h.isTaken hth hold hentry) rfl
    have hthreads := countP_set_of_loss hth hth1 hth0
    have := h.taken
    show (s.tds.set k ⟨0, 0, 0⟩).countP _ = (s.threads.set tid _).countP _
    omega

/-- A range that meets no reservation meets no range that is being swept. -/
lemma MmSystem.Inv.clear_of_conflict {space : ℕ} (hb : base < 2 ^ 64) (hc : Canonical base length)
    (hconf : teardownConflict s.tds (s.spaces space).cr3 base (Word.satAdd base length) = none)
    (hw : th.phase = .sweeping w after) (hspace : space = th.space) :
    ¬ Meets w.lo w.length base length := by
  have hok := h.phases tid th hth
  rw [hw] at hok
  have hstop := w.stop_eq hok.1.canonical hok.1.lo_lt
  rw [Meets]
  cases hslot : w.slot with
  | none =>
    have := hok.1.empty hslot
    omega
  | some k =>
    have hentry := hok.1.slot k hslot
    have hno := not_meets_of_teardownConflict (h.cr3 space) hconf (mem_of_getElem? hentry)
      (by rw [hspace])
    rw [Canonical] at hc
    simp only [Word.satAdd, hstop] at hno
    omega

lemma inv_committed (hold : th.phase.slot = none) (htds : m.tds = s.tds)
    (hcr3 : m.space.cr3 = (s.spaces th.space).cr3) (hb : base < 2 ^ 64) (hc : Canonical base length)
    (hconf : teardownConflict s.tds (s.spaces th.space).cr3 base (Word.satAdd base length) = none) :
    (s.committed tid th m base length).Inv := by
  have hspaces : ∀ q, ((s.leave tid th m .idle).spaces q).cr3 =
      (s.spaces q).cr3 := leave_cr3 hcr3 .idle
  refine h.step rfl (congrArg List.length htds) hspaces trivial
    (fun i ti k _ _ _ => ⟨?_, nofun⟩) (forall_mem_cons.mpr ⟨.inr ?_, fun _ => .inl⟩)
    (forall_mem_cons.mpr ⟨⟨Nat.lt_succ_self _, hc⟩, fun c hcm =>
      (h.commits c hcm).imp_left Nat.lt_succ_of_lt⟩) ?_
  · show m.tds[k]? = _
    rw [htds]
  · exact fun i ti w after hi => h.clear_of_conflict hi hb hc hconf
  have hsame : holds { th with phase := .idle } = th.holds := by
    rw [holds, holds, hold]
    rfl
  show m.tds.countP _ = (s.threads.set tid { th with phase := .idle }).countP _
  rw [htds, h.taken, countP_set_of_eq hth hsame]

lemma inv_place (hp : p.Ok) (hidle : th.phase.isSweeping = false) (hold : th.phase.slot = none)
    (hfew : (s.place tid th p).inFlight ≤ teardownSlots) : (s.place tid th p).Inv := by
  rcases place_cases s tid th hp with
    ⟨phase, heq, hslot, -, hok⟩ | ⟨m, base, heq, htds, hcr3, hb, hc, hconf⟩ | ⟨q, hq, hfix, heq⟩
  · rw [heq]
    exact inv_quiet h hth rfl rfl hold hslot (hok _)
  · rw [heq]
    exact inv_committed h hth hold htds hcr3 hb hc hconf
  rw [heq] at hfew ⊢
  exact inv_tearDown h hth hidle hq.base_lt (hq.page hfix) (pageAlignUp_mod _) hq.canonical
    (fun q' hq' => some.inj hq' ▸ hq) hfew

/-- Phase 1 ends with a base in order, when a fixed call asks for a canonical range. -/
lemma inv_startMmap (hold : th.phase.slot = none)
    {c : MmapCall} (hc : c.isFixed → Canonical (pageAlignDown c.addrHint) c.roundedLength) :
    (s.startMmap tid th c).Inv := by
  rw [startMmap]
  split
  · exact h
  split
  · exact h
  rename_i base backing name h1
  have hchoose := MmapCall.mmapPhase1_ok h1
  have hok : Placement.Ok ⟨c, base, backing, name, 2⟩ := by
    rw [MmapCall.chooseBase] at hchoose
    cases hf : c.isFixed with
    | true =>
      dsimp only at hchoose
      split_ifs at hchoose
      rw [← Except.ok.inj hchoose]
      refine ⟨?_, hc hf, fun _ => pageAlignDown_mod _⟩
      show pageAlignDown c.addrHint < 2 ^ 64
      rw [pageAlignDown_eq]
      omega
    | false =>
      rw [hf, if_neg Bool.false_ne_true] at hchoose
      split at hchoose
      next b hb =>
        rw [Except.ok.inj hchoose] at hb
        exact Placement.ok_of_pick hf hb
      · cases hchoose
  split
  next hfix => exact inv_quiet h hth rfl rfl hold rfl ⟨hok, (Bool.and_eq_true _ _ ▸ hfix).1⟩
  · exact inv_quiet h hth rfl rfl hold rfl hok

end Moves

end Steps

/-! ## Runs -/

/-- What the code does not check: that the range a caller names is made of canonical addresses and
does not reach the end of the `u64` range. -/
def MmOp.Respects : MmOp → Prop
  | .thread _ (.mmap c) => c.isFixed → Canonical (pageAlignDown c.addrHint) c.roundedLength
  | .thread _ (.munmap addr length) =>
    addr < 2 ^ 64 ∧ (addr % 4096 = 0 → Canonical addr (pageAlignUp length))
  | _ => True

/-- The range a caller names lies in the user half. Above it are the kernel's large leaves; a sweep
there stores to the memory behind them, which `present` does not describe. -/
def MmOp.InUserHalf : MmOp → Prop
  | .thread _ (.mmap c) =>
    c.isFixed → c.roundedLength = 0 ∨ pageAlignDown c.addrHint + c.roundedLength ≤ 2 ^ 47
  | .thread _ (.munmap addr length) =>
    addr < 2 ^ 64 ∧ (addr % 4096 = 0 → pageAlignUp length = 0 ∨ addr + pageAlignUp length ≤ 2 ^ 47)
  | _ => True

lemma MmOp.InUserHalf.respects (h : op.InUserHalf) : op.Respects := by
  rcases op with ⟨tid, c | ⟨addr, length⟩ | _ | _ | _ | _ | _⟩ | ⟨space, va⟩
  · exact fun hfixed => (h hfixed).imp_right .inl
  · exact ⟨h.1, fun hpage => (h.2 hpage).imp_right .inl⟩
  all_goals trivial

/-- The step leaves at most 64 teardowns in flight. -/
def MmSystem.FewInFlight (s : MmSystem) (op : MmOp) : Prop :=
  ∀ s', mmStep s op = some s' → s'.inFlight ≤ teardownSlots

lemma inv_act {op : ThreadOp} (h : s.Inv) (hth : s.threads[tid]? = some th)
    (hresp : (MmOp.thread tid op).Respects) (hfew : s'.inFlight ≤ teardownSlots)
    (hs : s.act tid th op = some s') : s'.Inv := by
  have hok := h.phases tid th hth
  cases op with
  | mmap c =>
    rw [act] at hs
    split at hs
    next hp =>
      cases hs
      exact inv_startMmap h hth (by rw [hp]; rfl) hresp
    · cases hs
  | munmap addr length =>
    rw [act] at hs
    split at hs
    next hp =>
      rw [← some.inj hs, startMunmap] at hfew ⊢
      split_ifs at hfew ⊢ with hargs
      · exact h
      · rw [not_or, not_not] at hargs
        exact inv_tearDown h hth (by rw [hp]; rfl) hresp.1 hargs.2 (pageAlignUp_mod _)
          (hresp.2 hargs.2) nofun hfew
    · cases hs
  | clear =>
    rw [act] at hs
    split at hs
    next p hp =>
      rw [hp] at hok
      rw [← some.inj hs] at hfew ⊢
      exact inv_tearDown h hth (by rw [hp]; rfl) hok.1.base_lt (hok.1.page hok.2)
        (pageAlignUp_mod _)
        hok.1.canonical (fun q hq => some.inj hq ▸ hok.1) hfew
    · cases hs
  | sweep =>
    rw [act] at hs
    split at hs
    next w after hp =>
      split_ifs at hs with hmore
      rw [← some.inj hs]
      exact inv_sweepPage h hth hp hmore
    · cases hs
  | retire =>
    rw [act] at hs
    split at hs
    next w after hp =>
      split_ifs at hs
      rw [← some.inj hs]
      exact inv_retire h hth hp
    · cases hs
  | place =>
    rw [act] at hs
    split at hs
    next p hp =>
      rw [hp] at hok
      rw [← some.inj hs] at hfew ⊢
      exact inv_place h hth hok (by rw [hp]; rfl) (by rw [hp]; rfl) hfew
    next p hp =>
      rw [hp] at hok
      rw [← some.inj hs] at hfew ⊢
      exact inv_place h hth hok (by rw [hp]; rfl) (by rw [hp]; rfl) hfew
    · cases hs
  | timeout =>
    rw [act] at hs
    split at hs
    next p hp =>
      rw [← some.inj hs]
      exact inv_quiet h hth rfl rfl (by rw [hp]; rfl) rfl trivial
    · cases hs

lemma mmStep_inv (h : s.Inv) (hresp : op.Respects) (hfew : s.FewInFlight op)
    (hs : mmStep s op = some s') : s'.Inv := by
  cases op with
  | thread tid op =>
    obtain ⟨th, hth, hact⟩ := bind_eq_some_iff.mp hs
    exact inv_act h hth hresp (hfew s' hs) hact
  | fault space va =>
    rw [← some.inj hs, MmSystem.fault]
    split
    · exact ⟨h.size, h.cr3, fun i th hi =>
        (h.phases i th hi).frame rfl (fun _ _ => rfl) fun c hc => .inl hc,
        h.slots, h.taken, h.commits⟩
    · exact h

/-- A committed range is clear of the reservations of its address space and of the ranges that are
being swept in it. -/
structure MmSystem.ClearFor (s : MmSystem) (c : Commit) : Prop where
  reserved : ∀ t ∈ s.tds, t.cr3 = (s.spaces c.space).cr3 →
    ¬ (t.lo < c.base + c.length ∧ c.base < t.hi)
  swept : ∀ th ∈ s.threads, ∀ w after, th.phase = .sweeping w after → th.space = c.space →
    ¬ Meets w.lo w.length c.base c.length

/-- The entries of an area are those of its addresses; `s'` has the ones of every area committed to
`space` since the mark as `s` has them. -/
def MmSystem.Spares (s s' : MmSystem) (space mark : ℕ) : Prop :=
  ∀ c ∈ s.commits, c.space = space → mark ≤ c.time → ∀ va, c.base ≤ va → va < c.base + c.length →
    s'.present space (entryOf va) = s.present space (entryOf va)

lemma act_commits {op : ThreadOp} (hop : op ≠ .place) (hs : s.act tid th op = some s') :
    s'.commits = s.commits := by
  cases op with
  | place => exact absurd rfl hop
  | _ =>
    simp only [act, startMmap, startMunmap] at hs
    repeat' split at hs
    all_goals cases hs
    all_goals rfl

/-- A step commits nothing, or commits a range that is clear. -/
lemma mmStep_clear (h : s.Inv) (hs : mmStep s op = some s') {c : Commit}
    (hc : s'.commits = c :: s.commits) : s.ClearFor c := by
  -- a step that leaves the commits alone is none that commits
  have hsame : s'.commits ≠ s.commits := fun heq => by
    rw [heq] at hc
    exact absurd (congrArg List.length hc) (ne_of_lt (Nat.lt_succ_self _))
  have hplace : ∀ tid th p, s' = s.place tid th p → p.Ok → s.ClearFor c := by
    rintro tid th p rfl hp
    rcases place_cases s tid th hp with ⟨phase, heq, -⟩ | ⟨m, base, heq, -, -, hb, hcan, hconf⟩
      | ⟨q, -, -, heq⟩
    · exact absurd (by rw [heq]; rfl) hsame
    · rw [heq] at hc
      obtain ⟨rfl, -⟩ := List.cons.inj hc
      refine ⟨fun t ht htc hmeet => ?_, fun ti hti w after hw hspace => ?_⟩
      · refine not_meets_of_teardownConflict (h.cr3 th.space) hconf ht htc ⟨hmeet.2, ?_⟩
        have hlt := hmeet.1
        dsimp only at hlt
        rw [Canonical] at hcan
        rw [Word.satAdd]
        omega
      · obtain ⟨i, hi⟩ := List.getElem?_of_mem hti
        exact h.clear_of_conflict hi hb hcan hconf hw hspace.symm
    · exact absurd (by rw [heq]; rfl) hsame
  cases op with
  | fault space va =>
    rw [← some.inj hs, MmSystem.fault] at hsame
    split at hsame <;> exact absurd rfl hsame
  | thread tid op =>
    obtain ⟨th, hth, hact⟩ := bind_eq_some_iff.mp hs
    have hok := h.phases tid th hth
    by_cases hop : op = .place
    · subst hop
      rw [act] at hact
      split at hact
      next p hp =>
        rw [hp] at hok
        exact hplace tid th p (some.inj hact).symm hok
      next p hp =>
        rw [hp] at hok
        exact hplace tid th p (some.inj hact).symm hok
      · cases hact
    · exact absurd (act_commits hop hact) hsame

/-- A page of a sweep has no entry of an area that was committed since the sweep began. -/
lemma sweep_spares {after : Option Placement}
    (h : s.Inv) (hth : s.threads[tid]? = some th) (hw : th.phase = .sweeping w after)
    (hs : mmStep s (.thread tid .sweep) = some s') : s.Spares s' th.space w.mark := by
  obtain ⟨th', hth', hact⟩ := bind_eq_some_iff.mp hs
  rw [hth] at hth'
  cases hth'
  rw [act, hw] at hact
  dsimp only at hact
  split_ifs at hact with hmore
  cases hact
  have hok := h.phases tid th hth
  rw [hw] at hok
  rw [w.stop_eq hok.1.canonical hok.1.lo_lt] at hmore
  intro c hc hspace hmark va hlo hhi
  show (if th.space = th.space ∧ entryOf va = entryOf w.next then false else _) = _
  rw [if_neg]
  rintro ⟨-, hentry⟩
  have hin := mem_of_entryOf_eq hok.1.lo_page hok.1.length_pages hok.1.canonical (h.commits c hc).2
    ⟨hok.1.next, hmore⟩ ⟨hlo, hhi⟩ hentry.symm
  refine hok.1.later c hc hspace hmark ?_
  rw [Meets]
  omega

instance MmSystem.decidableFewInFlight (s : MmSystem) (op : MmOp) : Decidable (s.FewInFlight op) :=
  match h : mmStep s op with
  | none => isTrue fun s' hs' => by rw [h] at hs'; cases hs'
  | some t => decidable_of_iff (t.inFlight ≤ teardownSlots)
      ⟨fun ht s' hs' => by rw [h] at hs'; cases hs'; exact ht, fun ht => ht t h⟩

instance MmOp.decidableRespects (op : MmOp) : Decidable op.Respects := by
  unfold MmOp.Respects Canonical
  split <;> infer_instance

instance MmOp.decidableInUserHalf (op : MmOp) : Decidable op.InUserHalf := by
  unfold MmOp.InUserHalf
  split <;> infer_instance

/-- **Reservations.** In every run with ranges in the user half and at most 64 teardowns in flight,
and for every next step of it: an area is committed clear of all reservations and sweeps of its
address space, and a page that is swept has no entry of an area committed since the records of the
swept range were removed. -/
theorem mmRun_reserved (s₀ : MmSystem) (ops : List MmOp) (n : ℕ) (s : MmSystem) (h₀ : s₀.Fresh)
    (hg : Guarded mmStep (fun s op => op.InUserHalf ∧ s.FewInFlight op) s₀ ops)
    (hrun : run mmStep s₀ (ops.take n) = some s)
    (op : MmOp) (s' : MmSystem) (hs : mmStep s op = some s') :
    (∀ c, s'.commits = c :: s.commits → s.ClearFor c) ∧
      ∀ tid th w after, op = .thread tid .sweep → s.threads[tid]? = some th →
        th.phase = .sweeping w after → s.Spares s' th.space w.mark := by
  have hinv : s.Inv := run_guarded (fun s op s' h hok hs => mmStep_inv h hok.1.respects hok.2 hs)
    h₀.inv (guarded_take hg n) hrun
  refine ⟨fun c => mmStep_clear hinv hs, ?_⟩
  rintro tid th w after rfl hth hw
  exact sweep_spares hinv hth hw hs

/-- No reservation leaks: a taken slot belongs to a thread that sweeps, and to one only. -/
theorem reservations_of_reachable (s : {s // ∃ s₀ ops, MmSystem.Fresh s₀ ∧
    Guarded mmStep (fun s op => op.Respects ∧ s.FewInFlight op) s₀ ops ∧
    run mmStep s₀ ops = some s}) :
    s.1.tds.countP TeardownSlot.isTaken = s.1.threads.countP Thread.holds ∧
      ∀ (i j : ℕ) ti tj k, s.1.threads[i]? = some ti → s.1.threads[j]? = some tj → i ≠ j →
        ti.phase.slot = some k → tj.phase.slot ≠ some k := by
  obtain ⟨s, s₀, ops, h₀, hg, hrun⟩ := s
  have h : s.Inv := run_guarded (fun _ _ _ h hok => mmStep_inv h hok.1 hok.2) h₀.inv hg hrun
  exact ⟨h.taken, h.slots⟩

/-- Two threads in one empty space. -/
def twoThreads : MmSystem :=
  { spaces := fun _ => VmSpace.newUser 0x1000 0 0, present := fun _ _ => false
    tds := .empty, threads := [⟨0, .idle⟩, ⟨0, .idle⟩], commits := [] }

lemma twoThreads_fresh : twoThreads.Fresh := by
  refine ⟨rfl, fun th hth => ?_, rfl, fun space => ?_⟩
  · simp only [twoThreads, mem_cons, not_mem_nil, or_false, or_self_iff] at hth
    rw [hth]
  · show (VmSpace.newUser 0x1000 0 0).cr3 ≠ 0 ∧ (VmSpace.newUser 0x1000 0 0).cr3 ≠ 2 ^ 64 - 1
    decide

/-- A page at `0x10000000` is mapped and unmapped again; while its entry is still to be cleared, the
other thread maps a page where the kernel likes and touches it. -/
def unmapBesideMap : List MmOp :=
  [.thread 0 (.mmap (anonCall 0x10000000 0x1000 mapFixedNoreplace)), .thread 0 .place,
    .fault 0 0x10000000,
    .thread 0 (.munmap 0x10000000 0x1000), .thread 1 (.mmap (anonCall 0 0x1000 0)),
      .thread 1 .place,
    .fault 0 0x7EFFFFFFF000]

/-- The slot of the thread that sweeps is the only one taken. -/
theorem reservations_of_reachable_of_two :
    ∃ s, run mmStep twoThreads unmapBesideMap = some s ∧ s.threads.countP Thread.holds = 1 ∧
      s.tds.countP TeardownSlot.isTaken = 1 := by
  obtain ⟨s, hrun, hone⟩ : ∃ s, run mmStep twoThreads unmapBesideMap = some s ∧
      s.threads.countP Thread.holds = 1 := exists_of_decide (by decide +kernel)
  have h := reservations_of_reachable ⟨s, _, _, twoThreads_fresh, by decide +kernel, hrun⟩
  exact ⟨s, hrun, hone, h.1.trans hone⟩

theorem mmRun_reserved_of_two :
    ∃ s, run mmStep twoThreads unmapBesideMap = some s ∧
      ∃ s', mmStep s (.thread 0 .sweep) = some s' ∧ s.Spares s' 0 1 ∧
        s.commits.map Commit.base = [0x7EFFFFFFF000, 0x10000000] ∧
        s'.present 0 (entryOf 0x10000000) = false ∧
        s'.present 0 (entryOf 0x7EFFFFFFF000) = true := by
  refine ⟨_, rfl, _, rfl, ?_, by decide +kernel, by decide +kernel, by decide +kernel⟩
  exact (mmRun_reserved twoThreads unmapBesideMap 7 _ twoThreads_fresh (by decide +kernel) rfl
    (.thread 0 .sweep) _ rfl).2 0 _ _ _ rfl rfl rfl

/-- The address `0x1000010000000` is not canonical: its walk is that of `0x10000000`. It is
unmapped, and before the entry is cleared the other thread maps a page at `0x10000000` and touches
it. -/
def unmapBeyond : List MmOp :=
  [.thread 0 (.munmap 0x1000010000000 0x1000),
    .thread 1 (.mmap (anonCall 0x10000000 0x1000 mapFixedNoreplace)), .thread 1 .place,
      .fault 0 0x10000000]

theorem sweep_clears_committed :
    ∃ s, run mmStep twoThreads unmapBeyond = some s ∧ s.inFlight = 1 ∧
      s.commits = [⟨0, 0x10000000, 0x1000, 0⟩] ∧ s.present 0 (entryOf 0x10000000) = true ∧
      ∃ s', mmStep s (.thread 0 .sweep) = some s' ∧ s'.present 0 (entryOf 0x10000000) = false :=
  ⟨_, rfl, by decide +kernel, by decide +kernel, by decide +kernel, _, rfl, by decide +kernel⟩

end Astryx
