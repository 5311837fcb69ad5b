import Astryx.Tlb.Shootdown

/-!
# How far a request has come

For each call and each CPU it is to reach, the request is published and pending, taken and being
served, or served, in which case the CPU is clean and stays so. After a timeout the flag takes the
place of the request. `Phase` says this for each point of a call, and `Kept` what a step must leave
alone for it to stay true of a call that does not take the step.
-/

namespace Astryx.Shootdown

open Function List

/-! ## Invalidation -/

/-- The instructions remove every translation of the page. -/
def Covers (ops : List TlbOp) (page : ℕ) : Prop := .flush ∈ ops ∨ .invlpg page ∈ ops

variable {e : Translation} {op : TlbOp} {page : ℕ} {ops : List TlbOp} {rest : List Frame} {pc : Pc}

lemma mem_apply {tlb : List Translation} (h : e ∈ op.apply tlb) :
    e ∈ tlb ∧ ¬ Covers [op] e.page := by
  cases op with
  | invlpg page =>
    obtain ⟨hmem, hne⟩ := mem_filter.mp h
    refine ⟨hmem, ?_⟩
    rintro (hc | hc)
    · cases mem_singleton.mp hc
    · cases mem_singleton.mp hc
      exact absurd rfl (of_decide_eq_true hne)
  | flush => cases h

lemma covers_cons (h : Covers (op :: ops) page) : Covers [op] page ∨ Covers ops page := by
  rcases h with h | h
  · rcases mem_cons.mp h with rfl | h
    · exact .inl (.inl mem_cons_self)
    · exact .inr (.inl h)
  rcases mem_cons.mp h with rfl | h
  · exact .inl (.inr mem_cons_self)
  · exact .inr (.inr h)

lemma not_covers_nil (page : ℕ) : ¬ Covers [] page := by
  rintro (h | h) <;> cases h

/-- Unless the bound wraps, every page of the range is invalidated. -/
lemma covers_localInvlpgRange {lo hi : ℕ} (hwrap : hi + (pageSize - 1) < 2 ^ 64)
    (h : InRange lo hi page) : Covers (localInvlpgRange lo hi) page := by
  obtain ⟨a, hlo, hhi, rfl⟩ := h
  have hfirst : lo / pageSize ≤ a / pageSize := Nat.div_le_div_right hlo
  have hlast : a / pageSize < (hi + (pageSize - 1)) / pageSize := by
    rw [pageSize]
    omega
  rw [localInvlpgRange, Nat.mod_eq_of_lt hwrap]
  split
  · exact .inl mem_cons_self
  refine .inr (mem_map.mpr ⟨a / pageSize - lo / pageSize, mem_range.mpr ?_, ?_⟩)
  · omega
  · simp [hfirst]

/-! ## A request on its way -/

/-- The activation has taken the request of the call, has read of it what it has read, and what it
still is to invalidate includes all that is stale. -/
def Serving (s : State) (id : ℕ) (c : Call) (b : ℕ) : Frame → Prop
  | .service (.readCr3 request) => request = id
  | .service (.readLo request cr3) => request = id ∧ cr3 = c.cr3
  | .service (.readHi request cr3 lo) => request = id ∧ cr3 = c.cr3 ∧ lo = c.lo
  | .service (.invalidate request op ops) =>
    request = id ∧ ∀ e ∈ s.tlb b, Stale id c e → Covers (op :: ops) e.page
  | _ => False

/-- The slot holds the request of the call, and it is pending, or taken and being served, or
served. -/
structure Asked (s : State) (id : ℕ) (c : Call) (b : ℕ) : Prop where
  cr3 : (s.slots b).cr3 = c.cr3
  lo : (s.slots b).lo = c.lo
  hi : (s.slots b).hi = c.hi
  progress : (s.slots b).pending = true ∧ (s.slots b).owner = id ∨
    (s.slots b).pending = false ∧ ((∃ f ∈ s.stack b, Serving s id c b f) ∨ Clean s id c b)

/-- The flag of the CPU is up, or it is about to flush; and every timer interrupt there that has
flushed did so after the call began. -/
structure Flagged (s : State) (id b : ℕ) : Prop where
  due : s.force b = true ∨ .service .flush ∈ s.stack b
  ticks : ∀ since, .tick (.clear since) ∈ s.stack b → id < since

variable {m : Machine} {s s' : State} {id b cpu : ℕ} {c : Call} {f : Frame}

/-- Translations that are new were cached after the call began. -/
def TlbKept (s s' : State) (id : ℕ) : Prop := ∀ b, ∀ e ∈ s'.tlb b, e ∈ s.tlb b ∨ id < e.born

section

variable (ht : ∀ e ∈ s'.tlb b, e ∈ s.tlb b ∨ id < e.born)

include ht

lemma mem_of_stale (he : e ∈ s'.tlb b) (hst : Stale id c e) : e ∈ s.tlb b :=
  (ht e he).resolve_right (not_lt.mpr hst.2.2)

theorem Clean.kept (h : Clean s id c b) : Clean s' id c b :=
  fun e he hst => h e (mem_of_stale ht he hst) hst

theorem Serving.kept (h : Serving s id c b f) : Serving s' id c b f := by
  rcases f with _ | pc | _
  · exact h
  · cases pc with
    | invalidate request op ops => exact ⟨h.1, fun e he hst => h.2 e (mem_of_stale ht he hst) hst⟩
    | _ => exact h
  · exact h

/-- Whoever serves the request stays. -/
theorem Asked.kept (h : Asked s id c b) (hslots : s'.slots b = s.slots b)
    (hstack : ∀ f ∈ s.stack b, Serving s id c b f → f ∈ s'.stack b) : Asked s' id c b := by
  refine ⟨by rw [hslots, h.cr3], by rw [hslots, h.lo], by rw [hslots, h.hi], ?_⟩
  rw [hslots]
  refine h.progress.imp_right fun hp => ⟨hp.1, hp.2.imp ?_ fun hc => hc.kept ht⟩
  rintro ⟨f, hf, hserving⟩
  exact ⟨f, hstack f hf hserving, hserving.kept ht⟩

end

lemma Serving.serves (h : Serving s id c b f) : f.serves id := by
  rcases f with _ | pc | _
  · cases h
  · cases pc with
    | readCr3 request => exact decide_eq_true h
    | readLo request cr3 | readHi request cr3 lo | invalidate request op ops =>
      exact decide_eq_true h.1
    | _ => cases h
  · cases h

/-- What is left of an invalidation that covers everything stale: it is being served, or the CPU is
clean. -/
lemma serving_rest (hstack : s.stack b = .service (Service.rest id ops) :: rest)
    (h : ∀ e ∈ s.tlb b, Stale id c e → Covers ops e.page) :
    (∃ f ∈ s.stack b, Serving s id c b f) ∨ Clean s id c b := by
  cases ops with
  | nil => exact .inr fun e he hst => not_covers_nil _ (h e he hst)
  | cons op ops =>
    refine .inl ⟨_, ?_, (show Serving s id c b (.service (.invalidate id op ops)) from ⟨rfl, h⟩)⟩
    rw [hstack]
    exact mem_cons_self

/-! ## What holds of a call -/

/-- The fields of a slot that have been stored before the given one. -/
def Stored (slot : Slot) (c : Call) : Field → Prop
  | .cr3 => True
  | .lo => slot.cr3 = c.cr3
  | .hi => slot.cr3 = c.cr3 ∧ slot.lo = c.lo
  | .pending => slot.cr3 = c.cr3 ∧ slot.lo = c.lo ∧ slot.hi = c.hi

/-- What is known at each access of a call. -/
def Phase (m : Machine) (s : State) (id : ℕ) (c : Call) : Pc → Prop
  | .invalidate ops => ∀ e ∈ s.tlb c.cpu, Stale id c e → Covers ops e.page
  | .publish done todo field => Clean s id c c.cpu ∧ m.targets c.cpu c.cr3 = done ++ todo ∧
    (∀ b ∈ done, Asked s id c b) ∧ ∀ b, todo.head? = some b → Stored (s.slots b) c field
  | .poll left still _ =>
    Clean s id c c.cpu ∧ (∀ b ∈ left ++ still, b ∈ m.targets c.cpu c.cr3 ∧ Asked s id c b) ∧
    ∀ b ∈ m.targets c.cpu c.cr3, b ∈ left ++ still ∨ Clean s id c b
  | .clear _ remaining =>
    Clean s id c c.cpu ∧ ∀ b ∈ m.targets c.cpu c.cr3, b ∈ remaining ∨ Clean s id c b
  | .post left => Clean s id c c.cpu ∧
    ∀ b ∈ m.targets c.cpu c.cr3, b ∈ left ∨ Flagged s id b ∨ Clean s id c b
  | .ret true => Clean s id c c.cpu ∧ ∀ b ∈ m.targets c.cpu c.cr3, Clean s id c b
  | .ret false => Clean s id c c.cpu ∧ ∀ b ∈ m.targets c.cpu c.cr3, Flagged s id b ∨ Clean s id c b

/-- What a step leaves to a call that does not take it. -/
structure Kept (m : Machine) (s s' : State) (id : ℕ) (c : Call) : Prop where
  tlb : TlbKept s s' id
  slots : ∀ b, c.pc.uses b = true → (s'.slots b).cr3 = (s.slots b).cr3 ∧
    (s'.slots b).lo = (s.slots b).lo ∧
    (s'.slots b).hi = (s.slots b).hi
  asked : ∀ b, c.pc.uses b = true → b ∈ m.targets c.cpu c.cr3 → Asked s id c b → Asked s' id c b
  flagged : ∀ b, Flagged s id b → Flagged s' id b ∨ Clean s' id c b

theorem Phase.kept (h : Phase m s id c c.pc) (hk : Kept m s s' id c) : Phase m s' id c c.pc := by
  have hflag : ∀ b, Flagged s id b ∨ Clean s id c b → Flagged s' id b ∨ Clean s' id c b := by
    rintro b (hb | hb)
    · exact hk.flagged b hb
    · exact .inr (hb.kept (hk.tlb b))
  have huses := hk.asked
  have hslots := hk.slots
  cases hpc : c.pc with
  | invalidate ops =>
    rw [hpc] at h
    exact fun e he hst => h e (mem_of_stale (hk.tlb c.cpu) he hst) hst
  | publish done todo field =>
    rw [hpc] at h huses hslots
    obtain ⟨hself, htargets, hdone, hstored⟩ := h
    refine ⟨hself.kept (hk.tlb _), htargets, fun b hb => ?_, fun b hb => ?_⟩
    · refine huses b (decide_eq_true (.inl hb)) ?_ (hdone b hb)
      rw [htargets]
      exact mem_append_left todo hb
    have hst := hstored b hb
    cases field with
    | cr3 => exact trivial
    | lo =>
      obtain ⟨hcr3, -, -⟩ := hslots b (decide_eq_true (.inr ⟨nofun, hb⟩))
      exact hcr3.trans hst
    | hi =>
      obtain ⟨hcr3, hlo, -⟩ := hslots b (decide_eq_true (.inr ⟨nofun, hb⟩))
      exact ⟨hcr3.trans hst.1, hlo.trans hst.2⟩
    | pending =>
      obtain ⟨hcr3, hlo, hhi⟩ := hslots b (decide_eq_true (.inr ⟨nofun, hb⟩))
      exact ⟨hcr3.trans hst.1, hlo.trans hst.2.1, hhi.trans hst.2.2⟩
  | poll left still iters =>
    rw [hpc] at h huses
    obtain ⟨hself, hasked, hrest⟩ := h
    refine ⟨hself.kept (hk.tlb _), fun b hb => ?_, fun b hb =>
      (hrest b hb).imp_right (·.kept (hk.tlb b))⟩
    obtain ⟨htarget, hb'⟩ := hasked b hb
    exact ⟨htarget, huses b (decide_eq_true (mem_append.mp hb)) htarget hb'⟩
  | clear left remaining =>
    rw [hpc] at h
    exact ⟨h.1.kept (hk.tlb _), fun b hb => (h.2 b hb).imp_right (·.kept (hk.tlb b))⟩
  | post left =>
    rw [hpc] at h
    exact ⟨h.1.kept (hk.tlb _), fun b hb => (h.2 b hb).imp_right (hflag b)⟩
  | ret clean =>
    rw [hpc] at h
    cases clean with
    | true => exact ⟨h.1.kept (hk.tlb _), fun b hb => (h.2 b hb).kept (hk.tlb b)⟩
    | false => exact ⟨h.1.kept (hk.tlb _), fun b hb => hflag b (h.2 b hb)⟩

/-! ## Steps touch one CPU -/

/-- Nothing of the CPU is touched. -/
structure SameAt (s s' : State) (b : ℕ) : Prop where
  slots : s'.slots b = s.slots b
  force : s'.force b = s.force b
  tlb : s'.tlb b = s.tlb b
  stack : s'.stack b = s.stack b

lemma Asked.same (h : Asked s id c b) (hs : SameAt s s' b) : Asked s' id c b := by
  refine h.kept (fun e he => .inl ?_) hs.slots fun f hf _ => ?_
  · rwa [hs.tlb] at he
  · rwa [hs.stack]

lemma Flagged.same (h : Flagged s id b) (hs : SameAt s s' b) : Flagged s' id b := by
  constructor
  · rw [hs.force, hs.stack]
    exact h.due
  · rw [hs.stack]
    exact h.ticks

/-- A step that touches the CPU `x` only has to be looked at there. -/
lemma Kept.at (x : ℕ) (hsame : ∀ b ≠ x, SameAt s s' b)
    (htlb : ∀ e ∈ s'.tlb x, e ∈ s.tlb x ∨ id < e.born)
    (hslots : c.pc.uses x → (s'.slots x).cr3 = (s.slots x).cr3 ∧ (s'.slots x).lo = (s.slots x).lo ∧
      (s'.slots x).hi = (s.slots x).hi)
    (hasked : c.pc.uses x → x ∈ m.targets c.cpu c.cr3 → Asked s id c x → Asked s' id c x)
    (hflagged : Flagged s id x → Flagged s' id x ∨ Clean s' id c x) : Kept m s s' id c where
  tlb := by
    intro b e he
    by_cases hb : b = x
    · subst hb
      exact htlb e he
    · rw [(hsame b hb).tlb] at he
      exact .inl he
  slots := by
    intro b hu
    by_cases hb : b = x
    · subst hb
      exact hslots hu
    · rw [(hsame b hb).slots]
      exact ⟨rfl, rfl, rfl⟩
  asked := by
    intro b hu ht ha
    by_cases hb : b = x
    · subst hb
      exact hasked hu ht ha
    · exact ha.same (hsame b hb)
  flagged := by
    intro b hf
    by_cases hb : b = x
    · subst hb
      exact hflagged hf
    · exact .inl (hf.same (hsame b hb))

lemma Kept.setPc (h : Kept m s s' id c) (k : ℕ) (d : Call) (pc : Pc) :
    Kept m s (s'.setPc k d pc) id c where
  tlb := h.tlb
  slots := h.slots
  asked := fun b hu ht ha => (h.asked b hu ht ha).same ⟨rfl, rfl, rfl, rfl⟩
  flagged := fun b hf => (h.flagged b hf).imp (fun hf => hf.same ⟨rfl, rfl, rfl, rfl⟩) fun hc => hc

lemma Phase.setPc (h : Phase m s id c pc) :
    Phase m (s.setPc id c pc) id { c with pc := pc } pc := by
  have hasked : ∀ b, Asked s id c b → Asked (s.setPc id c pc) id { c with pc := pc } b := by
    intro b ha
    have hsame : Asked (s.setPc id c pc) id c b := ha.same ⟨rfl, rfl, rfl, rfl⟩
    exact ⟨hsame.cr3, hsame.lo, hsame.hi, hsame.progress⟩
  have hflagged : ∀ b, Flagged s id b → Flagged (s.setPc id c pc) id b := fun b hf =>
    hf.same ⟨rfl, rfl, rfl, rfl⟩
  cases pc with
  | publish done todo field => exact ⟨h.1, h.2.1, fun b hb => hasked b (h.2.2.1 b hb), h.2.2.2⟩
  | poll left still iters =>
    exact ⟨h.1, fun b hb => ⟨(h.2.1 b hb).1, hasked b (h.2.1 b hb).2⟩, h.2.2⟩
  | post left => exact ⟨h.1, fun b hb => (h.2 b hb).imp_right fun hf => hf.imp_left (hflagged b)⟩
  | ret clean =>
    cases clean with
    | true => exact h
    | false => exact ⟨h.1, fun b hb => (h.2 b hb).imp_left (hflagged b)⟩
  | _ => exact h

/-- Every CPU caches translations of its own page table, and a timer interrupt that has flushed left
none from before. -/
structure Tidy (m : Machine) (s : State) : Prop where
  own : ∀ b, ∀ e ∈ s.tlb b, e.cr3 = m.cr3 b
  ticks : ∀ b since, .tick (.clear since) ∈ s.stack b → since ≤ s.begun ∧
    ∀ e ∈ s.tlb b, since ≤ e.born

lemma Tidy.at (h : Tidy m s) (x : ℕ) (hsame : ∀ b ≠ x, SameAt s s' b) (hbegun : s.begun ≤ s'.begun)
    (hown : ∀ e ∈ s'.tlb x, e.cr3 = m.cr3 x)
    (hticks : ∀ since, .tick (.clear since) ∈ s'.stack x → since ≤ s'.begun ∧
      ∀ e ∈ s'.tlb x, since ≤ e.born) : Tidy m s' where
  own := by
    intro b
    by_cases hb : b = x
    · subst hb
      exact hown
    · rw [(hsame b hb).tlb]
      exact h.own b
  ticks := by
    intro b
    by_cases hb : b = x
    · subst hb
      exact hticks
    rw [(hsame b hb).tlb, (hsame b hb).stack]
    intro since hmem
    obtain ⟨hle, hborn⟩ := h.ticks b since hmem
    exact ⟨hle.trans hbegun, hborn⟩

/-- A CPU loses translations and activations, and gains none that are timer interrupts. -/
lemma Tidy.shrink (h : Tidy m s) (cpu : ℕ) (hsame : ∀ b ≠ cpu, SameAt s s' b)
    (hbegun : s'.begun = s.begun) (htlb : ∀ e ∈ s'.tlb cpu, e ∈ s.tlb cpu)
    (hticks : ∀ since, .tick (.clear since) ∈ s'.stack cpu → .tick (.clear since) ∈ s.stack cpu) :
    Tidy m s' := by
  refine h.at cpu hsame hbegun.ge (fun e he => h.own cpu e (htlb e he)) (fun since hmem => ?_)
  obtain ⟨hle, hborn⟩ := h.ticks cpu since (hticks since hmem)
  exact ⟨by rw [hbegun]; exact hle, fun e he => hborn e (htlb e he)⟩

/-- What holds in every state. -/
structure Inv (m : Machine) (s : State) : Prop extends Tidy m s where
  fresh : ∀ id, s.begun ≤ id → s.calls id = none
  home : ∀ id c, s.calls id = some c → c.cpu < m.ncpus
  range : ∀ id c, s.calls id = some c → c.hi + (pageSize - 1) < 2 ^ 64
  alone : ∀ i j c d b, s.calls i = some c → s.calls j = some d → c.pc.uses b = true →
    d.pc.uses b = true → i = j
  phase : ∀ id c, s.calls id = some c → Phase m s id c c.pc

lemma boot_inv (m : Machine) : Inv m boot where
  own := nofun
  ticks := nofun
  fresh := fun _ _ => rfl
  home := nofun
  range := nofun
  alone := nofun
  phase := nofun

lemma Inv.lt_begun (h : Inv m s) (hc : s.calls id = some c) : id < s.begun := by
  by_contra hge
  rw [h.fresh id (not_lt.mp hge)] at hc
  cases hc

theorem Inv.of_kept (h : Inv m s) (hcalls : s'.calls = s.calls) (hbegun : s'.begun = s.begun)
    (htidy : Tidy m s') (hkept : ∀ id c, s.calls id = some c → Kept m s s' id c) : Inv m s' where
  toTidy := htidy
  fresh := by
    rw [hcalls, hbegun]
    exact h.fresh
  home := by
    rw [hcalls]
    exact h.home
  range := by
    rw [hcalls]
    exact h.range
  alone := by
    rw [hcalls]
    exact h.alone
  phase := by
    intro id c hc
    rw [hcalls] at hc
    exact (h.phase id c hc).kept (hkept id c hc)

theorem Inv.of_call (h : Inv m s) (hc : s.calls id = some c) (hcalls : s'.calls = s.calls)
    (hbegun : s'.begun = s.begun) (htidy : Tidy m s')
    (hkept : ∀ k d, s.calls k = some d → k ≠ id → Kept m s s' k d) (hphase : Phase m s' id c pc)
    (halone : ∀ b, pc.uses b → ∀ k d, s.calls k = some d → k ≠ id → d.pc.uses b = false) :
    Inv m (s'.setPc id c pc) := by
  have hcases : ∀ {k d}, (s'.setPc id c pc).calls k = some d →
      k = id ∧ d = { c with pc := pc } ∨ k ≠ id ∧ s.calls k = some d := by
    intro k d hd
    rw [← hcalls]
    exact Transition.eq_some_of_update hd
  refine ⟨⟨htidy.own, htidy.ticks⟩, ?_, ?_, ?_, ?_, ?_⟩
  · intro k hk
    replace hk : s'.begun ≤ k := hk
    rw [hbegun] at hk
    have hne : k ≠ id := ne_of_gt (lt_of_lt_of_le (h.lt_begun hc) hk)
    show update s'.calls id _ k = none
    rw [update_of_ne hne, hcalls]
    exact h.fresh k hk
  · intro k d hd
    rcases hcases hd with ⟨-, rfl⟩ | ⟨-, hd⟩
    · exact h.home id c hc
    · exact h.home k d hd
  · intro k d hd
    rcases hcases hd with ⟨-, rfl⟩ | ⟨-, hd⟩
    · exact h.range id c hc
    · exact h.range k d hd
  · intro i j d d' b hi hj hu hu'
    rcases hcases hi with ⟨rfl, rfl⟩ | ⟨hne, hi'⟩
    · rcases hcases hj with ⟨rfl, -⟩ | ⟨hne, hj⟩
      · rfl
      · rw [halone b hu j d' hj hne] at hu'
        cases hu'
    rcases hcases hj with ⟨rfl, rfl⟩ | ⟨-, hj⟩
    · rw [halone b hu' i d hi' hne] at hu
      cases hu
    · exact h.alone i j d d' b hi' hj hu hu'
  intro k d hd
  rcases hcases hd with ⟨rfl, rfl⟩ | ⟨hne, hd⟩
  · exact hphase.setPc
  · exact (h.phase k d hd).kept ((hkept k d hd hne).setPc id c pc)

/-! ## What the steps leave to a call -/

lemma mem_of_mem_top {x g : Frame} {l l' : List Frame} (hl : l = f :: rest) (hl' : l' = g :: rest)
    (hx : x ∈ l) (hne : x ≠ f) : x ∈ l' := by
  rw [hl] at hx
  rw [hl']
  exact mem_cons_of_mem g ((mem_cons.mp hx).resolve_left hne)

lemma Flagged.mono (h : Flagged s id b) (hforce : s.force b → s'.force b)
    (hflush : .service .flush ∈ s.stack b → .service .flush ∈ s'.stack b)
    (hticks : ∀ since, .tick (.clear since) ∈ s'.stack b → .tick (.clear since) ∈ s.stack b) :
    Flagged s' id b :=
  ⟨h.due.imp hforce hflush, fun since hmem => h.ticks since (hticks since hmem)⟩

/-- An activation that neither serves a request nor is about to flush. -/
def Frame.Idle (f : Frame) : Prop := (∀ id, f.serves id = false) ∧ f ≠ .service .flush

lemma Frame.Idle.not_serving (h : f.Idle) : ¬ Serving s id c b f := by
  intro hserving
  have hserves := hserving.serves
  rw [h.1 id] at hserves
  cases hserves

section Effects

variable {l rest : List Frame} {tlb : List Translation} {slot : Slot}

lemma sameAt_setStack (hb : b ≠ cpu) : SameAt s (s.setStack cpu l) b :=
  ⟨rfl, rfl, rfl, update_of_ne hb _ _⟩

lemma Tidy.push (h : Tidy m s)
    (hl : ∀ since, .tick (.clear since) ∈ l → .tick (.clear since) ∈ s.stack cpu) :
    Tidy m (s.setStack cpu l) := by
  refine h.shrink cpu (fun _ => sameAt_setStack) rfl (fun _ => id) fun since hmem => hl since ?_
  rwa [show (s.setStack cpu l).stack cpu = l from update_self ..] at hmem

/-- Activations come and go, but those that matter to a call stay. -/
lemma Kept.setStack (hkeep : ∀ f ∈ s.stack cpu, f ∈ l ∨ f.Idle)
    (hticks : ∀ since, .tick (.clear since) ∈ l → .tick (.clear since) ∈ s.stack cpu) :
    Kept m s (s.setStack cpu l) id c := by
  have hstack : (s.setStack cpu l).stack cpu = l := update_self ..
  refine Kept.at cpu (fun b => sameAt_setStack) (fun e he => .inl he)
    (fun _ => ⟨rfl, rfl, rfl⟩) ?_ ?_
  · intro _ _ ha
    refine Asked.kept (s := s) (fun _ he => .inl he) ha rfl fun f hf hserving => ?_
    rw [hstack]
    exact (hkeep f hf).resolve_right fun hidle => hidle.not_serving hserving
  intro hf
  refine .inl (hf.mono (fun hv => hv) (fun hflush => ?_) (fun since hmem => ?_))
  · rw [hstack]
    exact (hkeep _ hflush).resolve_right fun hidle => hidle.2 rfl
  · rw [hstack] at hmem
    exact hticks since hmem

lemma sameAt_setTlb (hb : b ≠ cpu) : SameAt s (s.setTlb cpu tlb) b :=
  ⟨rfl, rfl, update_of_ne hb _ _, rfl⟩

lemma Kept.setTlb (htlb : ∀ e ∈ tlb, e ∈ s.tlb cpu ∨ id < e.born) :
    Kept m s (s.setTlb cpu tlb) id c := by
  have hself : (s.setTlb cpu tlb).tlb cpu = tlb := update_self ..
  have hkept : TlbKept s (s.setTlb cpu tlb) id := by
    intro b e he
    by_cases hb : b = cpu
    · subst hb
      rw [hself] at he
      exact htlb e he
    · rw [(sameAt_setTlb hb).tlb] at he
      exact .inl he
  exact ⟨hkept, fun _ _ => ⟨rfl, rfl, rfl⟩, fun b _ _ ha => ha.kept (hkept b) rfl fun _ hf _ => hf,
    fun b hf => .inl ⟨hf.due, hf.ticks⟩⟩

lemma sameAt_setSlot (hb : b ≠ cpu) : SameAt s (s.setSlot cpu slot) b :=
  ⟨update_of_ne hb _ _, rfl, rfl, rfl⟩

lemma Kept.setSlot (hunused : c.pc.uses cpu = false) : Kept m s (s.setSlot cpu slot) id c := by
  refine Kept.at cpu (fun b => sameAt_setSlot) (fun e he => .inl he) (fun hu => ?_) (fun hu => ?_)
    (fun hf => .inl ⟨hf.due, hf.ticks⟩)
  · rw [hunused] at hu
    cases hu
  · rw [hunused] at hu
    cases hu

lemma Kept.setForce : Kept m s (s.setForce cpu true) id c :=
  Kept.at cpu (fun _ hb => ⟨rfl, update_of_ne hb _ _, rfl, rfl⟩) (fun _ he => .inl he)
    (fun _ => ⟨rfl, rfl, rfl⟩)
    (fun _ _ ha => ⟨ha.cr3, ha.lo, ha.hi, ha.progress⟩)
    (fun hf => .inl ⟨.inl (update_self ..), hf.ticks⟩)

/-! ## Steps of one CPU -/

section Steps

variable (cpu) (h : Inv m s) (hcalls : s'.calls = s.calls) (hbegun : s'.begun = s.begun)
  (hsame : ∀ b ≠ cpu, SameAt s s' b)

include h hcalls hbegun hsame

lemma Inv.shrink (htlb : ∀ e ∈ s'.tlb cpu, e ∈ s.tlb cpu)
    (hticks : ∀ since, .tick (.clear since) ∈ s'.stack cpu → .tick (.clear since) ∈ s.stack cpu)
    (hslots : (s'.slots cpu).cr3 = (s.slots cpu).cr3 ∧ (s'.slots cpu).lo = (s.slots cpu).lo ∧
      (s'.slots cpu).hi = (s.slots cpu).hi)
    (hasked : ∀ id c, s.calls id = some c → cpu ∈ m.targets c.cpu c.cr3 → Asked s id c cpu →
      Asked s' id c cpu)
    (hflagged : ∀ id c, Flagged s id cpu → Flagged s' id cpu ∨ Clean s' id c cpu) : Inv m s' :=
  h.of_kept hcalls hbegun (h.toTidy.shrink cpu hsame hbegun htlb hticks) fun id c hc =>
    Kept.at cpu hsame (fun e he => .inl (htlb e he)) (fun _ => hslots) (fun _ => hasked id c hc)
      (hflagged id c)

lemma Inv.emptied (hslots : s'.slots cpu = s.slots cpu) (htlb : s'.tlb cpu = [])
    (hticks : ∀ since, .tick (.clear since) ∈ s'.stack cpu → since ≤ s.begun) : Inv m s' := by
  have hnone : ∀ {P : Translation → Prop}, ∀ e ∈ s'.tlb cpu, P e := by
    rw [htlb]
    exact nofun
  refine h.of_kept hcalls hbegun (h.at cpu hsame hbegun.ge hnone fun since hmem => ⟨?_, hnone⟩)
    fun id c _ => ?_
  · rw [hbegun]
    exact hticks since hmem
  refine Kept.at cpu hsame hnone (fun _ => by rw [hslots]; exact ⟨rfl, rfl, rfl⟩) (fun _ _ ha => ?_)
    (fun _ => .inr hnone)
  refine ⟨by rw [hslots, ha.cr3], by rw [hslots, ha.lo], by rw [hslots, ha.hi], ?_⟩
  rw [hslots]
  exact ha.progress.imp_right fun hp => ⟨hp.1, .inr hnone⟩

/-- A CPU goes on with a request: whoever asked for it is served as far. -/
lemma Inv.serve {old new : Service} (hslots : s'.slots cpu = s.slots cpu)
    (hforce : s'.force cpu = s.force cpu) (hstack : s.stack cpu = .service old :: rest)
    (hstack' : s'.stack cpu = .service new :: rest) (hold : old ≠ .flush)
    (htlb : ∀ e ∈ s'.tlb cpu, e ∈ s.tlb cpu)
    (hserve : ∀ id c, s.calls id = some c → cpu ∈ m.targets c.cpu c.cr3 → Asked s id c cpu →
      Serving s id c cpu (.service old) → (∃ f ∈ s'.stack cpu, Serving s' id c cpu f) ∨
      Clean s' id c cpu) : Inv m s' := by
  have hticks : ∀ since, .tick (.clear since) ∈ s'.stack cpu →
      .tick (.clear since) ∈ s.stack cpu := fun since hmem =>
    mem_of_mem_top hstack' hstack hmem nofun
  refine h.shrink cpu hcalls hbegun hsame htlb hticks (by rw [hslots]; exact ⟨rfl, rfl, rfl⟩)
    (fun id c hc ht ha => ?_)
    (fun id c hf => .inl (hf.mono (fun hv => by rw [hforce, hv]) (fun hmem => ?_) hticks))
  · refine ⟨by rw [hslots, ha.cr3], by rw [hslots, ha.lo], by rw [hslots, ha.hi], ?_⟩
    rw [hslots]
    refine ha.progress.imp_right fun hp => ⟨hp.1, ?_⟩
    have hkept : ∀ e ∈ s'.tlb cpu, e ∈ s.tlb cpu ∨ id < e.born := fun e he => .inl (htlb e he)
    rcases hp.2 with ⟨f, hf, hserving⟩ | hclean
    · rw [hstack] at hf
      rcases mem_cons.mp hf with rfl | hf
      · exact hserve id c hc ht ha hserving
      refine .inl ⟨f, ?_, hserving.kept hkept⟩
      rw [hstack']
      simp [hf]
    · exact .inr (hclean.kept hkept)
  · exact mem_of_mem_top hstack hstack' hmem fun heq => hold (Frame.service.inj heq).symm

end Steps

lemma Inv.setStack (h : Inv m s) (hkeep : ∀ f ∈ s.stack cpu, f ∈ l ∨ f.Idle)
    (hticks : ∀ since, .tick (.clear since) ∈ l → .tick (.clear since) ∈ s.stack cpu) :
    Inv m (s.setStack cpu l) :=
  h.of_kept rfl rfl (h.push hticks) fun _ _ _ => Kept.setStack hkeep hticks

lemma Inv.pop (h : Inv m s) (hstack : s.stack cpu = f :: rest) (hidle : f.Idle) :
    Inv m (s.setStack cpu rest) := by
  refine h.setStack ?_ fun since hmem => ?_
  · rw [hstack]
    exact forall_mem_cons.mpr ⟨.inr hidle, fun _ => .inl⟩
  · rw [hstack]
    simp [hmem]

end Effects

end Astryx.Shootdown
