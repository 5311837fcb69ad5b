import Astryx.Lib.Rows
import Astryx.Sched.Runqueues

/-!
# The runqueues mirror the thread table

At the end of every pass of `mirrorMaintain` the runqueues should hold what the thread table says:
every runnable thread once, at its priority, on the CPU of its slot and of its pin, and nothing
else, with bitmap, count and deadline to match. All of it but the deadlines holds after every pass.
The pass sets the deadlines before it evens out the load, so a thread that it then moves is still
counted on the CPU it has left, and not on the one it is queued on. The deadlines are right too when
there is nothing to move: one CPU, a pass that does not balance, or no thread that may be moved.

## Main results

* `step_inv`, `run_inv` — an id is always queued at a level as often as records with that id have
  that slot
* `mirrorMaintain_mirrored` — the runqueues mirror the table after a pass
-/

namespace Astryx.Sched

open Function List Option Transition FirstMatch

variable {q : PerCpuRq} {rqs : Rqs} {t t' : Thread} {ts ts' : List Thread} {cpu prio tid x : ℕ}

/-! ## One runqueue -/

lemma min_level (hp : prio < nprio) : min prio (nprio - 1) = prio := by
  omega

namespace PerCpuRq

lemma sum_length_update (f : ℕ → List ℕ) {p : ℕ} (hp : p < nprio) (l : List ℕ) :
    ∑ k ∈ Finset.range nprio, (update f p l k).length + (f p).length =
      ∑ k ∈ Finset.range nprio, (f k).length + l.length := by
  exact Rows.sum_update (fun _ => List.length) f hp l

lemma count_enqueue (hp : prio < nprio) (q : PerCpuRq) (tid p x : ℕ) :
    ((q.enqueue tid prio).lists p).count x = (q.lists p).count x +
      if p = prio ∧ x = tid then 1 else 0 := by
  rw [enqueue]
  dsimp only
  rw [min_level hp]
  by_cases hpp : p = prio
  · subst hpp
    by_cases hx : x = tid
    · simp [hx]
    · simp [hx, Ne.symm hx]
  · rw [update_of_ne hpp, if_neg (fun h => hpp h.1), add_zero]

lemma dequeue_of_mem (hp : prio < nprio) (hmem : tid ∈ q.lists prio) : (q.dequeue tid prio).2 := by
  rw [dequeue, min_level hp, if_pos hmem]

lemma count_dequeue (hp : prio < nprio) (hmem : tid ∈ q.lists prio) (p x : ℕ) :
    (((q.dequeue tid prio).1.lists p).count x + if p = prio ∧ x = tid then 1 else 0) =
      (q.lists p).count x := by
  rw [dequeue, min_level hp, if_pos hmem]
  dsimp only
  by_cases hpp : p = prio
  · subst hpp
    rw [update_self]
    by_cases hx : x = tid
    · subst hx
      have hpos := count_pos_iff.mpr hmem
      rw [count_erase_self, if_pos ⟨rfl, rfl⟩]
      omega
    · rw [count_erase_of_ne hx, if_neg (fun h => hx h.2), add_zero]
  · rw [update_of_ne hpp, if_neg (fun h => hpp h.1), add_zero]

lemma consistent_new : PerCpuRq.new.Consistent := ⟨by decide, by decide⟩

lemma Consistent.setMinDeadline (h : q.Consistent) (d : ℕ) :
    (q.setMinDeadline d).Consistent := ⟨h.bitmap, h.count⟩

lemma Consistent.enqueue (h : q.Consistent) (hp : prio < nprio) (tid : ℕ) :
    (q.enqueue tid prio).Consistent where
  bitmap p hpn := by
    rw [PerCpuRq.enqueue]
    dsimp only
    rw [min_level hp, BitVec.getLsbD_or, BitVec.getLsbD_twoPow, h.bitmap p hpn]
    by_cases hpp : p = prio
    · subst hpp
      have hlt : p < 32 := hp
      simp [hlt]
    · rw [update_of_ne hpp]
      simp [Ne.symm hpp]
  count := by
    have hsum := sum_length_update q.lists hp (q.lists prio ++ [tid])
    rw [length_append, length_singleton] at hsum
    rw [PerCpuRq.enqueue]
    dsimp only
    rw [min_level hp, h.count]
    omega

lemma Consistent.dequeue (h : q.Consistent) (hp : prio < nprio) (tid : ℕ) :
    (q.dequeue tid prio).1.Consistent := by
  rw [PerCpuRq.dequeue, min_level hp]
  split
  next hmem =>
    constructor
    · intro p hpn
      dsimp only
      by_cases hpp : p = prio
      · subst hpp
        have hlt : p < 32 := hp
        rw [update_self]
        split
        next hnil => simp [hnil, hlt]
        next hne =>
          rw [h.bitmap p hpn, isEmpty_eq_false_iff.mpr hne,
            isEmpty_eq_false_iff.mpr (ne_nil_of_mem hmem)]
      rw [update_of_ne hpp]
      split
      · rw [BitVec.getLsbD_and, BitVec.getLsbD_not, BitVec.getLsbD_twoPow, h.bitmap p hpn]
        have hlt : p < 32 := hpn
        simp [Ne.symm hpp, hlt]
      · exact h.bitmap p hpn
    have hsum := sum_length_update q.lists hp ((q.lists prio).erase tid)
    have hpos := length_pos_of_mem hmem
    rw [length_erase_of_mem hmem] at hsum
    dsimp only
    rw [h.count]
    omega
  · exact h

end PerCpuRq

/-! ## Queues and slots

The invariant counts: the number of times an id is queued at a level of a CPU is the number of
records with that id and that slot. Every change of the runqueues moves one thread from its slot to
another one. -/

/-- How often a thread claims a place. -/
def tally (ts : List Thread) (cpu prio x : ℕ) : ℕ :=
  ts.countP fun t => decide (t.tid = x ∧ t.mirrorSlot = some (cpu, prio))

/-- The threads are queued where their slots say, and nothing else is queued. -/
structure Tracked (rqs : Rqs) (ts : List Thread) : Prop where
  counts : ∀ cpu prio x, ((rqs cpu).lists prio).count x = tally ts cpu prio x
  consistent : ∀ cpu, (rqs cpu).Consistent
  slots : ∀ t ∈ ts, ∀ cpu prio, t.mirrorSlot = some (cpu, prio) → cpu < maxCpus ∧ prio < nprio
  priorities : ∀ t ∈ ts, t.priority < nprio
  pins : ∀ t ∈ ts, ∀ a ∈ t.cpuAffinity, a < maxCpus

/-- Whether a slot is the place. -/
def mark (slot : Option (ℕ × ℕ)) (tid cpu prio x : ℕ) : ℕ :=
  if tid = x ∧ slot = some (cpu, prio) then 1 else 0

lemma tally_cons (t : Thread) (ts : List Thread) (cpu prio x : ℕ) :
    tally (t :: ts) cpu prio x = mark t.mirrorSlot t.tid cpu prio x + tally ts cpu prio x := by
  rw [tally, countP_cons, add_comm, tally, mark]
  simp

lemma Tracked.perm (h : Tracked rqs ts) (hp : ts.Perm ts') : Tracked rqs ts' where
  counts cpu prio x := (h.counts cpu prio x).trans (hp.countP_eq _)
  consistent := h.consistent
  slots t ht := h.slots t (hp.mem_iff.mpr ht)
  priorities t ht := h.priorities t (hp.mem_iff.mpr ht)
  pins t ht := h.pins t (hp.mem_iff.mpr ht)

lemma Tracked.mem_lists (h : Tracked rqs (t :: ts)) (hs : t.mirrorSlot = some (cpu, prio)) :
    t.tid ∈ (rqs cpu).lists prio := by
  have hc := h.counts cpu prio t.tid
  rw [tally_cons, mark, if_pos ⟨rfl, hs⟩] at hc
  exact count_pos_iff.mp (by omega)

lemma Tracked.dequeueSlot (h : Tracked rqs (t :: ts)) :
    Tracked (dequeueSlot rqs t.tid t.mirrorSlot) ts := by
  refine ⟨?_, ?_, fun u hu => h.slots u (by simp [hu]), fun u hu => h.priorities u (by simp [hu]),
    fun u hu => h.pins u (by simp [hu])⟩
  · intro cpu prio x
    have hc := h.counts cpu prio x
    rw [tally_cons, mark] at hc
    cases hslot : t.mirrorSlot with
    | none =>
      rw [hslot, if_neg (by simp), zero_add] at hc
      exact hc
    | some s =>
      obtain ⟨c, p⟩ := s
      have hp := (h.slots t mem_cons_self c p hslot).2
      have hd := PerCpuRq.count_dequeue hp (h.mem_lists hslot) prio x
      rw [Astryx.Sched.dequeueSlot]
      by_cases hcpu : cpu = c
      · subst hcpu
        rw [update_self]
        have hiff : (t.tid = x ∧ t.mirrorSlot = some (cpu, prio)) ↔ (prio = p ∧ x = t.tid) := by
          rw [hslot]
          simp [eq_comm, and_comm]
        rw [if_congr hiff rfl rfl] at hc
        omega
      rw [update_of_ne hcpu]
      rw [hslot, if_neg (by simp [Ne.symm hcpu]), zero_add] at hc
      exact hc
  intro cpu
  cases hslot : t.mirrorSlot with
  | none => exact h.consistent cpu
  | some s =>
    obtain ⟨c, p⟩ := s
    have hp := (h.slots t mem_cons_self c p hslot).2
    exact (forall_update_iff rqs fun _ q => q.Consistent).mpr
      ⟨(h.consistent c).dequeue hp t.tid, fun k _ => h.consistent k⟩ cpu

/-- A thread that is not in the table enters it with its slot, and the queue of that slot. -/
lemma Tracked.enqueueSlot (h : Tracked rqs ts)
    (hslots : ∀ cpu prio, t.mirrorSlot = some (cpu, prio) → cpu < maxCpus ∧ prio < nprio)
    (hprio : t.priority < nprio) (hpin : ∀ a ∈ t.cpuAffinity, a < maxCpus) :
    Tracked (enqueueSlot rqs t.tid t.mirrorSlot) (t :: ts) := by
  refine ⟨?_, ?_, forall_mem_cons.mpr ⟨hslots, h.slots⟩, forall_mem_cons.mpr ⟨hprio, h.priorities⟩,
    forall_mem_cons.mpr ⟨hpin, h.pins⟩⟩
  · intro cpu prio x
    rw [tally_cons, mark, ← h.counts cpu prio x]
    cases hslot : t.mirrorSlot with
    | none =>
      rw [if_neg (by simp), zero_add]
      rfl
    | some s =>
      obtain ⟨c, p⟩ := s
      have he := PerCpuRq.count_enqueue (hslots c p hslot).2 (rqs c) t.tid prio x
      rw [Astryx.Sched.enqueueSlot]
      by_cases hcpu : cpu = c
      · subst hcpu
        rw [update_self, he, add_comm]
        congr 1
        refine if_congr ?_ rfl rfl
        simp [eq_comm, and_comm]
      · rw [update_of_ne hcpu, if_neg (by simp [Ne.symm hcpu]), zero_add]
  intro cpu
  cases hslot : t.mirrorSlot with
  | none => exact h.consistent cpu
  | some s =>
    obtain ⟨c, p⟩ := s
    exact (forall_update_iff rqs fun _ q => q.Consistent).mpr
      ⟨(h.consistent c).enqueue (hslots c p hslot).2 t.tid, fun k _ => h.consistent k⟩ cpu

lemma Tracked.replaceHead (h : Tracked rqs (t :: ts)) (htid : t'.tid = t.tid)
    (hslot : t'.mirrorSlot = t.mirrorSlot) (hprio : t'.priority < nprio)
    (hpin : ∀ a ∈ t'.cpuAffinity, a < maxCpus) : Tracked rqs (t' :: ts) where
  counts cpu prio x := by
    rw [h.counts cpu prio x, tally_cons, tally_cons, htid, hslot]
  consistent := h.consistent
  slots := by
    refine forall_mem_cons.mpr ⟨?_, fun u hu => h.slots u (by simp [hu])⟩
    rw [hslot]
    exact h.slots t mem_cons_self
  priorities := forall_mem_cons.mpr ⟨hprio, fun u hu => h.priorities u (by simp [hu])⟩
  pins := forall_mem_cons.mpr ⟨hpin, fun u hu => h.pins u (by simp [hu])⟩

/-! ## The loop over the table -/

lemma targetCpuFor_lt (affinity : Option ℕ) (lastCpu : ℕ) :
    targetCpuFor affinity lastCpu < maxCpus := by
  rw [targetCpuFor]
  split
  · assumption
  · decide

/-- The pass changes only where a thread is queued and the CPU it belongs to. -/
def Thread.Rehomed (t t' : Thread) : Prop :=
  ∃ lastCpu slot, t' = { t with lastCpu := lastCpu, mirrorSlot := slot }

section

variable (ncpus : ℕ) (timerDead : List ℕ) (rqs : Rqs) (t : Thread)

lemma wakeEdge_rehomed :
    ∃ lastCpu, wakeEdge ncpus timerDead rqs t = { t with lastCpu := lastCpu } := by
  rw [wakeEdge]
  split
  · exact ⟨_, rfl⟩
  · exact ⟨t.lastCpu, rfl⟩

lemma reconcile_rehomed : t.Rehomed (reconcile ncpus timerDead rqs t).2 := by
  obtain ⟨lastCpu, hw⟩ := wakeEdge_rehomed ncpus timerDead rqs t
  rw [reconcile, hw]
  split
  · exact ⟨lastCpu, t.mirrorSlot, rfl⟩
  · exact ⟨lastCpu, _, rfl⟩

end

lemma Tracked.reconcile (h : Tracked rqs (t :: ts)) (ncpus : ℕ) (timerDead : List ℕ) :
    Tracked (reconcile ncpus timerDead rqs t).1 ((reconcile ncpus timerDead rqs t).2 :: ts) := by
  obtain ⟨lastCpu, hw⟩ := wakeEdge_rehomed ncpus timerDead rqs t
  have hprio := h.priorities t mem_cons_self
  have hpin := h.pins t mem_cons_self
  have h' : Tracked rqs ({ t with lastCpu := lastCpu } :: ts) := h.replaceHead rfl rfl hprio hpin
  rw [Astryx.Sched.reconcile, hw]
  split
  · exact h'
  have hd := h'.dequeueSlot
  refine Tracked.enqueueSlot (t :=
    { t with lastCpu := lastCpu, mirrorSlot := Thread.desiredSlot { t with lastCpu := lastCpu } })
    hd (fun cpu prio hs => ?_) hprio hpin
  obtain ⟨-, hs⟩ := Option.ite_none_right_eq_some.mp hs
  cases hs
  exact ⟨targetCpuFor_lt _ _, hprio⟩

lemma mem_sweep {ncpus : ℕ} {timerDead : List ℕ} (h : t' ∈ (sweep ncpus timerDead rqs ts).2) :
    ∃ rqs', ∃ t ∈ ts, t' = (Astryx.Sched.reconcile ncpus timerDead rqs' t).2 := by
  induction ts generalizing rqs with
  | nil => cases h
  | cons t ts ih =>
    rcases mem_cons.mp h with rfl | hmem
    · exact ⟨rqs, t, mem_cons_self, rfl⟩
    · obtain ⟨rqs', u, hu, heq⟩ := ih hmem
      exact ⟨rqs', u, mem_cons_of_mem t hu, heq⟩

lemma map_tid_sweep (ncpus : ℕ) (timerDead : List ℕ) (rqs : Rqs) (ts : List Thread) :
    (sweep ncpus timerDead rqs ts).2.map Thread.tid = ts.map Thread.tid := by
  induction ts generalizing rqs with
  | nil => rfl
  | cons t ts ih =>
    obtain ⟨lastCpu, slot, ht⟩ := reconcile_rehomed ncpus timerDead rqs t
    simp [sweep, ih, ht]

lemma Tracked.sweep (ncpus : ℕ) (timerDead : List ℕ) (done : List Thread)
    (h : Tracked rqs (done ++ ts)) :
    Tracked (sweep ncpus timerDead rqs ts).1 (done ++ (sweep ncpus timerDead rqs ts).2) := by
  induction ts generalizing rqs done with
  | nil => exact h
  | cons t ts ih =>
    have hstep := (h.perm perm_middle).reconcile ncpus timerDead
    -- the thread that has been dealt with joins those before it
    have hrest := ih (done ++ [(Astryx.Sched.reconcile ncpus timerDead rqs t).2]) (hstep.perm (by
      rw [append_assoc]
      exact perm_middle.symm))
    rw [append_assoc] at hrest
    exact hrest

/-! ## Evening out the load -/

section Balance

variable {src dst ncpus : ℕ} {load : ℕ → ℕ}

lemma extremeCpu_lt (before : ℕ → ℕ → Bool) (load : ℕ → ℕ) (h : 0 < ncpus) :
    extremeCpu before load ncpus < ncpus := by
  refine foldlRecOn (motive := (· < ncpus)) _ _ h fun best hbest c hc => ?_
  split
  · exact mem_range.mp hc
  · exact hbest

/-- A search that keeps one of the two candidates finds an element of the list. -/
lemma mem_of_foldl_best {better : Thread → Thread → Bool} {best : Option Thread} {l : List Thread}
    (h : l.foldl (fun best t => match best with
      | some b => if better t b then some t else some b
      | none => some t) best = some t) : t ∈ l ∨ best = some t := by
  induction l generalizing best with
  | nil => exact Or.inr h
  | cons u l ih =>
    rcases ih h with hmem | hbest
    · simp [hmem]
    cases best with
    | none =>
      cases hbest
      simp
    | some b =>
      dsimp only at hbest
      split at hbest
      · cases hbest
        simp
      · exact Or.inr hbest

lemma pickBalanceVictim_spec (h : pickBalanceVictim load ncpus ts = some (src, dst, t))
    (hn : 0 < ncpus) :
    src < ncpus ∧ dst < ncpus ∧ src ≠ dst ∧ t ∈ ts ∧ t.cpuAffinity = none ∧ t.ctxRspValid ∧
      onCpu src t.mirrorSlot := by
  rw [pickBalanceVictim] at h
  obtain ⟨hcond, h⟩ := Option.ite_none_left_eq_some.mp h
  rw [map_eq_some_iff] at h
  obtain ⟨u, hu, heq⟩ := h
  obtain ⟨rfl, rfl, rfl⟩ := heq
  rcases mem_of_foldl_best hu with hmem | hnone
  · rw [mem_filter, Thread.movable, Bool.and_eq_true, Bool.and_eq_true, isNone_iff_eq_none] at hmem
    exact ⟨extremeCpu_lt _ _ hn, extremeCpu_lt _ _ hn, fun heq => hcond (Or.inl heq), hmem.1,
      hmem.2.1.1, hmem.2.1.2, hmem.2.2⟩
  · cases hnone

lemma exists_split (hnodup : (ts.map Thread.tid).Nodup) (ht : t ∈ ts) (f : Thread → Thread) :
    ∃ pre post, ts = pre ++ t :: post ∧ updateFirst (fun u => u.tid == t.tid) f ts = pre ++
      f t :: post ∧
      ∀ u ∈ pre ++ post, u.tid ≠ t.tid := by
  have hfind : ts.find? (fun u => u.tid == t.tid) = some t := by
    obtain ⟨v, hv⟩ :=
      Option.isSome_iff_exists.mp
        ((List.find?_isSome (p := fun u => u.tid == t.tid)).mpr ⟨t, ht, beq_self_eq_true _⟩)
    rw [hv, inj_on_of_nodup_map hnodup (mem_of_find?_eq_some hv) ht
      (by simpa using List.find?_some hv)]
  obtain ⟨pre, post, hts, hup, -⟩ := split_of_find? f hfind
  refine ⟨pre, post, hts, hup, ?_⟩
  have hperm : (ts.map Thread.tid).Perm (t.tid :: (pre ++ post).map Thread.tid) := by
    rw [hts]
    exact (perm_middle : (pre ++ t :: post).Perm _).map Thread.tid
  rw [hperm.nodup_iff, nodup_cons] at hnodup
  exact fun u hu heq => hnodup.1 (heq ▸ mem_map_of_mem hu)

lemma applyBalanceMigration_spec (h : Tracked rqs ts) (hnodup : (ts.map Thread.tid).Nodup)
    (ht : t ∈ ts) (hslot : t.mirrorSlot = some (src, prio)) (hdst : dst < maxCpus) :
    Tracked (applyBalanceMigration rqs ts src dst t.tid prio).1
      (applyBalanceMigration rqs ts src dst t.tid prio).2 ∧
      (applyBalanceMigration rqs ts src dst t.tid prio).2 =
        updateFirst (fun u => u.tid == t.tid) (fun u => u.movedTo dst prio) ts := by
  obtain ⟨pre, post, hts, hup, -⟩ := exists_split hnodup ht fun u => u.movedTo dst prio
  have hsplit : Tracked rqs (t :: (pre ++ post)) := h.perm (hts ▸ perm_middle)
  have hp := (h.slots t ht src prio hslot).2
  have hd : (rqs src).dequeue t.tid prio = (((rqs src).dequeue t.tid prio).1, true) :=
    Prod.ext rfl (PerCpuRq.dequeue_of_mem hp (hsplit.mem_lists hslot))
  rw [applyBalanceMigration, hd]
  refine ⟨?_, rfl⟩
  have hrest := hsplit.dequeueSlot
  rw [hslot] at hrest
  have hmoved := hrest.enqueueSlot (t := t.movedTo dst prio)
    (by rintro _ _ ⟨⟩; exact ⟨hdst, hp⟩) (h.priorities t ht) (h.pins t ht)
  refine hmoved.perm ?_
  rw [hup]
  exact perm_middle.symm

end Balance

/-! ## The invariant -/

/-- What holds of the table and its runqueues at all times. -/
structure Inv (s : State) : Prop where
  tracked : Tracked s.rqs s.threads
  nodup : (s.threads.map Thread.tid).Nodup

/-- Every thread is where it is to be. -/
def Settled (ts : List Thread) : Prop := ∀ t ∈ ts, t.mirrorSlot = t.desiredSlot

lemma boot_inv (n : ℕ) : Inv (boot n) where
  tracked := ⟨fun _ _ _ => rfl, fun _ =>
    PerCpuRq.consistent_new, by simp [boot], by simp [boot], by simp [boot]⟩
  nodup := nodup_nil

section Pass

variable {s : State} {timerDead : List ℕ}

lemma swept_inv (h : Inv s) (timerDead : List ℕ) : Inv (swept timerDead s) where
  tracked := by
    have hsweep := Tracked.sweep s.ncpus timerDead [] h.tracked
    exact ⟨hsweep.counts, fun cpu => (hsweep.consistent cpu).setMinDeadline _, hsweep.slots,
      hsweep.priorities, hsweep.pins⟩
  nodup := by
    have htids : (swept timerDead s).threads.map Thread.tid = s.threads.map Thread.tid :=
      map_tid_sweep ..
    rw [htids]
    exact h.nodup

lemma swept_settled (timerDead : List ℕ) (s : State) : Settled (swept timerDead s).threads := by
  intro t ht
  obtain ⟨-, -, -, rfl⟩ := mem_sweep ht
  rw [reconcile]
  split
  · assumption
  · rfl

/-- The thread that a pass moves waits on the first CPU and is not pinned. -/
lemma migration_spec {src dst : ℕ} (hm : migration timerDead s = some (src, dst, t)) :
    src < maxCpus ∧ dst < maxCpus ∧ dst < s.cpuCount ∧ src ≠ dst ∧ t ∈ (swept timerDead s).threads ∧
    t.cpuAffinity = none ∧
      t.ctxRspValid ∧ t.isMirroredRunnable ∧ t.mirrorSlot = some (src, t.priority) := by
  obtain ⟨hn, hm⟩ := Option.ite_none_right_eq_some.mp hm
  obtain ⟨hsrc, hdst, hne, hmem, hpin, hctx, hon⟩ := pickBalanceVictim_spec hm (by omega)
  have hset := swept_settled timerDead s t hmem
  rw [Thread.desiredSlot] at hset
  rw [State.ncpus] at hsrc hdst
  split at hset
  next hrun =>
    rw [hset, onCpu, beq_iff_eq] at hon
    rw [hon] at hset
    exact ⟨by omega, by omega, by omega, hne, hmem, hpin, hctx, hrun, hset⟩
  · rw [hset] at hon
    cases hon

/-- A pass keeps the invariant and leaves every thread in the slot it should have. -/
theorem mirrorMaintain_spec (h : Inv s) (timerDead : List ℕ) :
    Inv (mirrorMaintain timerDead s) ∧ Settled (mirrorMaintain timerDead s).threads := by
  have hinv := swept_inv h timerDead
  rw [mirrorMaintain]
  cases hm : migration timerDead s with
  | none => exact ⟨⟨hinv.tracked, hinv.nodup⟩, swept_settled timerDead s⟩
  | some m =>
    obtain ⟨src, dst, t⟩ := m
    obtain ⟨-, hdst, -, -, hmem, hpin, -, hrun, hslot⟩ := migration_spec hm
    have hprio : (t.mirrorSlot.getD (0, 0)).2 = t.priority := by rw [hslot]; rfl
    dsimp only
    rw [hprio]
    obtain ⟨htr, hts⟩ := applyBalanceMigration_spec hinv.tracked hinv.nodup hmem hslot hdst
    obtain ⟨pre, post, hsplit, hup, -⟩ :=
      exists_split hinv.nodup hmem fun u => u.movedTo dst t.priority
    refine ⟨⟨htr, ?_⟩, ?_⟩
    · have hnodup := hinv.nodup
      rw [hsplit] at hnodup
      rw [hts, hup]
      simpa [Thread.movedTo] using hnodup
    rw [hts, hup]
    intro u hu
    rcases mem_append.mp hu with hu | hu
    · exact swept_settled timerDead s u (hsplit ▸ mem_append_left _ hu)
    rcases mem_cons.mp hu with rfl | hu
    · -- the moved thread is not pinned and now belongs to the CPU it was moved to
      have htarget : targetCpuFor t.cpuAffinity dst = dst := by
        rw [targetCpuFor, hpin]
        exact if_pos hdst
      have hrun' : (t.movedTo dst t.priority).isMirroredRunnable := hrun
      rw [Thread.desiredSlot, if_pos hrun']
      show some (dst, t.priority) = some (targetCpuFor t.cpuAffinity dst, t.priority)
      rw [htarget]
    · exact swept_settled timerDead s u (hsplit ▸ mem_append_right _ (by simp [hu]))

end Pass

/-! ## The other steps -/

variable {dst : ℕ} {live : List ℕ} {rqs' : Rqs}

lemma stealFirst_split (hs : stealFirst dst live rqs ts = some (rqs', ts')) :
    ∃ pre t post src prio q, ts = pre ++ t :: post ∧ ts' = pre ++ t.movedTo dst t.priority :: post ∧
      t.stealSlot dst live = some (src, prio) ∧ (rqs src).dequeue t.tid prio = (q, true) ∧
      rqs' = update (update rqs src q) dst ((update rqs src q dst).enqueue t.tid t.priority) := by
  induction ts generalizing ts' with
  | nil => cases hs
  | cons t ts ih =>
    rw [stealFirst] at hs
    split at hs
    rotate_left
    split at hs
    rotate_left
    · rename_i src prio hslot _ q hd
      cases hs
      exact ⟨[], t, ts, src, prio, q, rfl, rfl, hslot, hd, rfl⟩
    -- the thread is passed over
    all_goals
      obtain ⟨⟨_, ts''⟩, hr, ⟨⟩⟩ := map_eq_some_iff.mp hs
      obtain ⟨pre, u, post, src, prio, q, rfl, rfl, hrest⟩ := ih hr
      exact ⟨t :: pre, u, post, src, prio, q, rfl, rfl, hrest⟩

lemma stealFirst_spec (hdst : dst < maxCpus)
    (h : Tracked rqs ts) (hs : stealFirst dst live rqs ts = some (rqs', ts')) :
    Tracked rqs' ts' ∧ ts'.map Thread.tid = ts.map Thread.tid := by
  obtain ⟨pre, t, post, src, prio, q, rfl, rfl, hsl, hd, rfl⟩ := stealFirst_split hs
  have hslot : t.mirrorSlot = some (src, prio) := by
    obtain ⟨-, hsl⟩ := Option.ite_none_right_eq_some.mp hsl
    split at hsl
    next hm =>
      split at hsl
      · rw [hm, hsl]
      · cases hsl
    · cases hsl
  have hmid := h.perm perm_middle
  have ht : t ∈ t :: (pre ++ post) := mem_cons_self
  have hrest := hmid.dequeueSlot
  rw [hslot] at hrest
  have hmoved := hrest.enqueueSlot (t := t.movedTo dst t.priority)
    (by rintro _ _ ⟨⟩; exact ⟨hdst, hmid.priorities t ht⟩) (hmid.priorities t ht) (hmid.pins t ht)
  obtain rfl : ((rqs src).dequeue t.tid prio).1 = q := congrArg Prod.fst hd
  refine ⟨hmoved.perm perm_middle.symm, ?_⟩
  rw [map_append, map_cons, map_append, map_cons]
  rfl

lemma removeThread_perm (hnodup : (ts.map Thread.tid).Nodup) (ht : t ∈ ts) (swap : Bool) :
    ts.Perm (t :: removeThread t.tid swap ts) := by
  obtain ⟨pre, post, hts, -, hoff⟩ := exists_split hnodup ht id
  have hidx : ts.findIdx (fun u => u.tid == t.tid) = pre.length := by
    rw [hts, findIdx_append]
    have hpre : pre.findIdx (fun u => u.tid == t.tid) = pre.length := by
      refine findIdx_eq_length.mpr fun u hu => ?_
      simpa using hoff u (mem_append_left post hu)
    rw [hpre, if_neg (by omega), findIdx_cons]
    simp
  have herase : ts.eraseIdx pre.length = pre ++ post := by
    rw [hts, eraseIdx_append_of_length_le (le_refl _), Nat.sub_self]
    rfl
  simp only [removeThread, hidx]
  have hplain : ts.Perm (t :: ts.eraseIdx pre.length) := by
    rw [herase, hts]
    exact perm_middle
  split
  next last hlast =>
    have hset : ts.set pre.length last = pre ++ last :: post := by
      rw [hts, set_append_right _ _ (le_refl _), Nat.sub_self]
      rfl
    rw [hset, hts]
    -- the last record goes to the place of the one that is removed, which may be its own
    rcases eq_nil_or_concat post with rfl | ⟨post, l, rfl⟩
    · exact perm_middle.trans (by simp)
    have hl : l = last := by
      rw [hts, concat_eq_append, ← cons_append, ← append_assoc, List.getLast?_concat] at hlast
      exact some.inj hlast
    have hdrop : (pre ++ last :: post.concat l).dropLast = pre ++ last :: post := by
      rw [concat_eq_append, ← cons_append, ← append_assoc, dropLast_concat]
    rw [hdrop, hl, concat_eq_append]
    refine perm_middle.trans (List.Perm.cons t ?_)
    rw [← append_assoc]
    exact (perm_append_singleton last _).trans perm_middle.symm
  · exact hplain

lemma mirrorForget_eq (hslot : ∀ cpu prio, t.mirrorSlot = some (cpu, prio) → cpu < maxCpus) :
    mirrorForget rqs t.mirrorSlot t.tid = dequeueSlot rqs t.tid t.mirrorSlot := by
  cases hs : t.mirrorSlot with
  | none => rfl
  | some slot =>
    obtain ⟨cpu, prio⟩ := slot
    exact if_pos (hslot cpu prio hs)

lemma Edit.apply_priority_lt (e : Edit) (t : Thread) : (e.apply t).priority < nprio := by
  rw [Edit.apply]
  have hn : nprio = 32 := rfl
  dsimp only
  omega

lemma Edit.apply_pin_lt {e : Edit} (h : ¬ e.namesCpu = false) (t : Thread) :
    ∀ a ∈ (e.apply t).cpuAffinity, a < maxCpus := by
  intro a ha
  rw [Bool.not_eq_false, Edit.namesCpu] at h
  have ha' : e.cpuAffinity = some a := ha
  rw [ha'] at h
  simpa using h

variable {s : State}

lemma Inv.push (h : Inv s) (hnew : t.tid ∉ s.threads.map Thread.tid) (hslot : t.mirrorSlot = none)
    (hprio : t.priority < nprio) (hpin : ∀ a ∈ t.cpuAffinity, a < maxCpus) :
    Inv { s with threads := s.threads ++ [t] } := by
  have htr := h.tracked.enqueueSlot (fun cpu prio hs => by rw [hslot] at hs; cases hs) hprio hpin
  rw [hslot] at htr
  refine ⟨htr.perm (perm_append_singleton _ _).symm, ?_⟩
  have hperm : ((s.threads ++ [t]).map Thread.tid).Perm (t.tid :: s.threads.map Thread.tid) :=
    (perm_append_singleton _ _).map Thread.tid
  rw [hperm.nodup_iff, nodup_cons]
  exact ⟨hnew, h.nodup⟩

theorem step_inv {s' : State} {op : Op} (h : Inv s) (hs : step s op = some s') : Inv s' := by
  cases op with
  | maintain timerDead =>
    cases hs
    exact (mirrorMaintain_spec h timerDead).1
  | steal dst live =>
    cases hs
    rw [tryStealTo]
    split
    · exact h
    next hcond =>
      split
      next rqs ts hsteal =>
        obtain ⟨htr, htids⟩ := stealFirst_spec (by omega) h.tracked hsteal
        exact ⟨htr, by rw [htids]; exact h.nodup⟩
      · exact h
  | spawn tid e =>
    obtain ⟨hcond, hs⟩ := Option.ite_none_left_eq_some.mp hs
    rw [not_or] at hcond
    cases hs
    exact h.push hcond.1 rfl (e.apply_priority_lt _) (e.apply_pin_lt hcond.2 _)
  | edit tid e =>
    obtain ⟨hcond, rfl⟩ := of_guard_not hs
    cases hfind : s.threads.find? fun t => t.tid == tid with
    | none =>
      rw [updateFirst_of_find?_none hfind]
      exact ⟨h.tracked, h.nodup⟩
    | some t =>
      obtain ⟨pre, post, hts, hup, -⟩ := split_of_find? e.apply hfind
      rw [hup]
      have hmid : Tracked s.rqs (t :: (pre ++ post)) := h.tracked.perm (hts ▸ perm_middle)
      have hnew : Tracked s.rqs (e.apply t :: (pre ++ post)) :=
        hmid.replaceHead rfl rfl (e.apply_priority_lt t) (e.apply_pin_lt hcond t)
      refine ⟨hnew.perm perm_middle.symm, ?_⟩
      have hnodup := h.nodup
      rw [hts] at hnodup
      simpa [Edit.apply] using hnodup
  | remove tid swap =>
    obtain ⟨t, hfind, rfl⟩ := map_eq_some_iff.mp hs
    have ht := mem_of_find?_eq_some hfind
    have htid : t.tid = tid := by simpa using List.find?_some hfind
    have hperm := removeThread_perm h.nodup ht swap
    rw [htid] at hperm
    have hmid := h.tracked.perm hperm
    constructor
    · rw [mirrorForget_eq fun cpu prio hs => (h.tracked.slots t ht cpu prio hs).1]
      exact hmid.dequeueSlot
    · exact ((hperm.map Thread.tid).nodup_iff.mp h.nodup).of_cons
  | online n =>
    cases hs
    exact ⟨h.tracked, h.nodup⟩

theorem run_inv {n : ℕ} {ops : List Op} (h : run step (boot n) ops = some s) : Inv s :=
  run_invariant (fun _ _ _ => step_inv) (boot_inv n) h

/-! ## The mirror at the end of a pass -/

/-- The threads in the queue of a CPU. -/
def State.queuedOn (s : State) (cpu : ℕ) : List ℕ := (List.range nprio).flatMap (s.rqs cpu).lists

/-- The runnable threads, and nothing else, are queued where they should be. -/
structure Queued (s : State) : Prop where
  /-- A runnable thread has a slot at its priority, on its pinned CPU if it has one. -/
  slot : ∀ t ∈ s.threads, t.isMirroredRunnable → t.priority < nprio ∧
    ∃ cpu < maxCpus, t.mirrorSlot = some (cpu, t.priority) ∧ ∀ a ∈ t.cpuAffinity, cpu = a
  /-- It is queued there, once, and nowhere else. -/
  once : ∀ t ∈ s.threads, t.isMirroredRunnable → ∀ cpu < maxCpus, ∀ prio < nprio,
    ((s.rqs cpu).lists prio).count t.tid = if t.mirrorSlot = some (cpu, prio) then 1 else 0
  /-- Nothing else is queued. -/
  only : ∀ cpu < maxCpus,
    ∀ prio < nprio, ∀ x ∈ (s.rqs cpu).lists prio, ∃ t ∈ s.threads, t.tid = x ∧ t.isMirroredRunnable
  consistent : ∀ cpu < maxCpus, (s.rqs cpu).Consistent

/-- The runqueues mirror the thread table. -/
structure Mirrored (s : State) : Prop extends Queued s where
  /-- The deadline of a runqueue is the earliest one of the threads queued on it. -/
  deadline : ∀ cpu < maxCpus, (s.rqs cpu).minDeadline =
    earliest ((s.threads.filter fun t => decide (t.tid ∈ s.queuedOn cpu)).map Thread.deadline)

lemma tally_of_mem (hnodup : (ts.map Thread.tid).Nodup) (ht : t ∈ ts) (cpu prio : ℕ) :
    tally ts cpu prio t.tid = if t.mirrorSlot = some (cpu, prio) then 1 else 0 := by
  obtain ⟨pre, post, hts, -, hoff⟩ := exists_split hnodup ht id
  have hperm : ts.Perm (t :: (pre ++ post)) := hts ▸ perm_middle
  have hrest : tally (pre ++ post) cpu prio t.tid = 0 := by
    rw [tally, countP_eq_zero]
    intro u hu
    simpa using fun htid => absurd htid (hoff u hu)
  have htally : tally ts cpu prio t.tid = tally (t :: (pre ++ post)) cpu prio t.tid :=
    hperm.countP_eq _
  rw [htally, tally_cons, hrest, add_zero, mark]
  exact if_congr (and_iff_right rfl) rfl rfl

/-- A thread is queued in its slot, once, and nowhere else. -/
theorem queued_of_reachable (n : ℕ) (s : {s // ∃ ops, run step (boot n) ops = some s}) :
    (∀ cpu, (s.1.rqs cpu).Consistent) ∧ ∀ t ∈ s.1.threads, ∀ cpu prio,
      ((s.1.rqs cpu).lists prio).count t.tid =
        if t.mirrorSlot = some (cpu, prio) then 1 else 0 := by
  have h : Inv s.1 := s.2.elim fun _ => run_inv
  refine ⟨h.tracked.consistent, fun t ht cpu prio => ?_⟩
  rw [h.tracked.counts, tally_of_mem h.nodup ht]

/-- A record of a thread that is ready. -/
def readyThread (pin : Option ℕ) : Edit := ⟨.ready, 8, pin, 0, 0, true⟩

/-- Two threads last ran on the first of two CPUs, and the pass moves one of them to the other. -/
theorem queued_of_reachable_of_moved : ∃ s, run step (boot 2)
    [.spawn 1 (readyThread none), .spawn 2 (readyThread none), .maintain []] = some s ∧
      ∃ t ∈ s.threads, t.mirrorSlot = some (1, 8) ∧ ((s.rqs 1).lists 8).count t.tid = 1 ∧
        ((s.rqs 0).lists 8).count t.tid = 0 := by
  obtain ⟨s, hrun, t, ht, hslot⟩ : ∃ s, run step (boot 2)
      [.spawn 1 (readyThread none), .spawn 2 (readyThread none), .maintain []] = some s ∧
        ∃ t ∈ s.threads, t.mirrorSlot = some (1, 8) := exists_of_decide (by decide +kernel)
  have hcount := (queued_of_reachable 2 ⟨s, _, hrun⟩).2 t ht
  refine ⟨s, hrun, t, ht, hslot, ?_, ?_⟩
  · rw [hcount, if_pos hslot]
  · rw [hcount, hslot]
    rfl

lemma mem_queuedOn_iff (h : Inv s) (ht : t ∈ s.threads) :
    t.tid ∈ s.queuedOn cpu ↔ onCpu cpu t.mirrorSlot := by
  have hcount : ∀ prio, t.tid ∈ (s.rqs cpu).lists prio ↔ t.mirrorSlot = some (cpu, prio) := by
    intro prio
    rw [← count_pos_iff, h.tracked.counts cpu prio t.tid, tally_of_mem h.nodup ht]
    split <;> simp_all
  rw [State.queuedOn, mem_flatMap]
  constructor
  · rintro ⟨prio, -, hmem⟩
    rw [(hcount prio).mp hmem]
    simp [onCpu]
  intro hon
  cases hs : t.mirrorSlot with
  | none =>
    rw [hs] at hon
    cases hon
  | some slot =>
    obtain ⟨c, prio⟩ := slot
    rw [hs, onCpu, beq_iff_eq] at hon
    subst hon
    exact ⟨prio, mem_range.mpr (h.tracked.slots t ht c prio hs).2, (hcount prio).mpr hs⟩

lemma Inv.queued (h : Inv s) (hset : Settled s.threads) : Queued s := by
  refine ⟨?_, ?_, ?_, fun cpu _ => h.tracked.consistent cpu⟩
  · intro t ht hrun
    refine ⟨h.tracked.priorities t ht, targetCpuFor t.cpuAffinity t.lastCpu,
      targetCpuFor_lt _ _, ?_, ?_⟩
    · rw [hset t ht, Thread.desiredSlot, if_pos hrun]
    intro a ha
    rw [targetCpuFor, mem_def.mp ha]
    exact if_pos (h.tracked.pins t ht a ha)
  · intro t ht _ cpu _ prio _
    rw [h.tracked.counts cpu prio t.tid, tally_of_mem h.nodup ht]
  · intro cpu _ prio _ x hx
    rw [← count_pos_iff, h.tracked.counts cpu prio x, tally, countP_pos_iff] at hx
    obtain ⟨t, ht, hdec⟩ := hx
    obtain ⟨htid, hslot⟩ := of_decide_eq_true hdec
    refine ⟨t, ht, htid, ?_⟩
    rw [hset t ht, Thread.desiredSlot] at hslot
    by_contra hrun
    rw [if_neg hrun] at hslot
    cases hslot

/-- Where every thread is in the slot it should have, the deadline of a runqueue may be read off
those slots. -/
lemma Inv.earliest_queuedOn (h : Inv s) (hset : Settled s.threads) (cpu : ℕ) :
    earliest ((s.threads.filter fun t => decide (t.tid ∈ s.queuedOn cpu)).map Thread.deadline) =
      minsOf s.threads cpu := by
  have hfilter : s.threads.filter (fun t => decide (t.tid ∈ s.queuedOn cpu)) =
      s.threads.filter fun t => onCpu cpu t.desiredSlot := by
    refine filter_congr fun t ht => ?_
    simp [← hset t ht, Bool.decide_congr (mem_queuedOn_iff h ht)]
  rw [hfilter, minsOf]

/-- A pass over this state moves no thread to even out the load: there is one CPU, it is not a
sixteenth pass, or every runnable thread is pinned or in the middle of a switch. -/
def State.NothingToMove (s : State) : Prop :=
  s.ncpus ≤ 1 ∨ s.balancePasses % balanceEveryPasses ≠ 0 ∨
    ∀ t ∈ s.threads, t.isMirroredRunnable → t.ctxRspValid → t.cpuAffinity ≠ none

instance State.NothingToMove.decidable (s : State) :
    Decidable s.NothingToMove := inferInstanceAs (Decidable (_ ∨ _ ∨ _))

lemma migration_eq_none (h : s.NothingToMove) (timerDead : List ℕ) :
    migration timerDead s = none := by
  cases hm : migration timerDead s with
  | none => rfl
  | some m =>
    obtain ⟨src, dst, t⟩ := m
    obtain ⟨-, -, -, -, hmem, hpin, hctx, hrun, -⟩ := migration_spec hm
    obtain ⟨⟨hcpus, hpass⟩, -⟩ := Option.ite_none_right_eq_some.mp hm
    obtain hone | hpasses | hpinned := h
    · exact absurd hcpus hone.not_gt
    · exact absurd hpass hpasses
    · -- the loop changes neither what makes the thread runnable nor its pin
      obtain ⟨rqs, u, hu, rfl⟩ := mem_sweep hmem
      obtain ⟨lastCpu, slot, heq⟩ := reconcile_rehomed s.ncpus timerDead rqs u
      rw [heq] at hpin hctx hrun
      exact absurd hpin (hpinned u hu hrun hctx)

/-- The threads that a pass leaves where they are, when it moves one. -/
lemma exists_rest_of_migration {timerDead : List ℕ} {src dst : ℕ} (h : Inv s)
    (hm : migration timerDead s = some (src, dst, t)) :
    ∃ rest, (swept timerDead s).threads.Perm (t :: rest) ∧
      (mirrorMaintain timerDead s).threads.Perm (t.movedTo dst t.priority :: rest) := by
  have hinv := swept_inv h timerDead
  obtain ⟨-, hdst, -, -, hmem, -, -, -, hslot⟩ := migration_spec hm
  have hprio : (t.mirrorSlot.getD (0, 0)).2 = t.priority := by rw [hslot]; rfl
  obtain ⟨pre, post, hsplit, hup, -⟩ :=
    exists_split hinv.nodup hmem fun u => u.movedTo dst t.priority
  obtain ⟨-, hts⟩ := applyBalanceMigration_spec hinv.tracked hinv.nodup hmem hslot hdst
  have hthreads : (mirrorMaintain timerDead s).threads = pre ++
      t.movedTo dst t.priority :: post := by
    rw [mirrorMaintain, hm, ← hup, ← hts, ← hprio]
  exact ⟨pre ++ post, hsplit ▸ perm_middle, hthreads ▸ perm_middle⟩

/-- **The runqueues mirror the table at the end of a pass**, in every state that can be reached: the
runnable threads are queued as they should be, and the deadlines are those of the queued threads if
the pass finds nothing to move. -/
theorem mirrorMaintain_mirrored {n : ℕ} {ops : List Op} {s : State}
    (hrun : run step (boot n) ops = some s) (timerDead : List ℕ) :
    Queued (mirrorMaintain timerDead s) ∧
    (s.NothingToMove → Mirrored (mirrorMaintain timerDead s)) := by
  obtain ⟨hinv, hset⟩ := mirrorMaintain_spec (run_inv hrun) timerDead
  refine ⟨hinv.queued hset, fun hstill => ⟨hinv.queued hset, fun cpu _ => ?_⟩⟩
  rw [hinv.earliest_queuedOn hset, mirrorMaintain, migration_eq_none hstill]
  rfl

/-- Two threads wait on two CPUs, both pinned, so that the pass, which balances, has nothing to
move. -/
theorem mirrorMaintain_mirrored_of_pinned :
    ∃ s, run step (boot 2)
      [.spawn 1 (readyThread (some 0)), .spawn 2 (readyThread (some 1))] = some s ∧
      Mirrored (mirrorMaintain [] s) := by
  obtain ⟨s, hs, hstill⟩ :
    ∃ s, run step (boot 2)
      [.spawn 1 (readyThread (some 0)), .spawn 2 (readyThread (some 1))] = some s ∧
      s.NothingToMove := ⟨_, rfl, by decide⟩
  exact ⟨s, hs, (mirrorMaintain_mirrored hs []).2 hstill⟩

/-- Two threads become ready that last ran on the first of two CPUs. The pass queues both there and
then moves one to the second CPU, whose deadline stays unset although that thread is due at tick
100. -/
theorem mirrorMaintain_not_mirrored :
    ∃ s, run step (boot 2) [.spawn 1 (readyThread none), .spawn 2 (readyThread none)] = some s ∧
      ¬ Mirrored (mirrorMaintain [] s) := by
  have hrun : (run step (boot 2) [.spawn 1 (readyThread none), .spawn 2 (readyThread none)]).map
      (fun s => (((mirrorMaintain [] s).rqs 1).minDeadline,
        earliest (((mirrorMaintain [] s).threads.filter fun t =>
          decide (t.tid ∈ (mirrorMaintain [] s).queuedOn 1)).map
          Thread.deadline))) = some (u64Max, 100) := by decide +kernel
  obtain ⟨s, hs, heval⟩ := map_eq_some_iff.mp hrun
  rw [Prod.mk.injEq] at heval
  refine ⟨s, hs, fun hm => ?_⟩
  have hdead := hm.deadline 1 (by decide)
  rw [heval.1, heval.2] at hdead
  cases hdead

end Astryx.Sched
