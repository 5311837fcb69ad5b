import Astryx.Sched.Mirror

/-!
# Every runnable thread is visible to a picker

The scheduler of a CPU considers the threads whose slot is on that CPU, but for those that another
CPU still runs or is on the stack of. A thread gets its slot from a maintenance pass, which passes
over the ids from `0x1000` on: these are the idle threads of the application processors, numbered
`0x1000 + cpu`. All other ids come from one counter that is never reset. Once it has reached
`0x1000` a new thread is taken for an idle one by every pass and is never queued, and its id is that
of an idle thread if there is one.

## Main results

* `kernelStep_inv` — what every event keeps while ids are below `0x1000`
* `visible_of_guarded` — the threads are visible after every pass
-/

namespace Astryx.Sched

open List Option Transition

/-- The thread table and `NEXT_TID`. -/
structure Kernel where
  table : State
  nextTid : ℕ

/-- The boot processor runs its idle thread, which has id 0. -/
def kernelBoot : Kernel :=
  ⟨{ boot 1 with threads := [⟨0, .running, 0, some 0, 0, 0, none, true, false⟩] }, 1⟩

/-- The record that a kernel process, `create_thread`, fork and clone push. -/
def newThread (tid : ℕ) (state : ThreadState) (priority readySinceTick : ℕ) : Thread :=
  ⟨tid, state, min priority (nprio - 1), none, 0, readySinceTick, none, true, false⟩

/-- The record that an application processor pushes for itself. -/
def apIdleThread (cpu : ℕ) : Thread :=
  ⟨idleTid + cpu, .running, 0, some cpu, 0, 0, none, true, true⟩

/-- What changes the table or the queues. -/
inductive Event
  | create (state : ThreadState) (priority readySinceTick : ℕ)
  /-- The next processor comes online. -/
  | startAp
  | maintain (timerDead : List ℕ)
  | steal (dst : ℕ) (live : List ℕ)
  /-- A record is changed; affinity and last CPU name CPUs that are online. -/
  | edit (tid : ℕ) (e : Edit)
  | remove (tid : ℕ) (swap : Bool)
  deriving DecidableEq

/-- One event. -/
def kernelStep (k : Kernel) : Event → Option Kernel
  | .create state priority readySinceTick =>
    some ⟨{ k.table with
      threads := k.table.threads ++ [newThread k.nextTid state priority readySinceTick] },
      k.nextTid + 1⟩
  | .startAp =>
    if k.table.cpuCount < maxCpus then
      some { k with
        table := { k.table with
          threads := k.table.threads ++ [apIdleThread k.table.cpuCount]
          cpuCount := k.table.cpuCount + 1 } }
    else none
  | .maintain timerDead => some { k with table := mirrorMaintain timerDead k.table }
  | .steal dst live =>
    if dst < k.table.cpuCount then some { k with table := tryStealTo dst live k.table } else none
  | .edit tid e =>
    if e.lastCpu < k.table.cpuCount ∧ e.cpuAffinity.all (· < k.table.cpuCount) then
      (step k.table (.edit tid e)).map fun s => { k with table := s }
    else none
  | .remove tid swap => (step k.table (.remove tid swap)).map fun s => { k with table := s }

/-- Ids are below the first idle one when they are given out. -/
def TidsLeft (k : Kernel) : Event → Prop
  | .create _ _ _ => k.nextTid < idleTid
  | _ => True

instance instDecidableTidsLeft (k : Kernel) (e : Event) : Decidable (TidsLeft k e) := by
  cases e <;> dsimp only [TidsLeft] <;> infer_instance

/-- The thread that is current on each CPU, and the one whose kernel stack the CPU is on. -/
structure Liveness where
  current : ℕ → ℕ
  onStack : ℕ → ℕ

/-- `defer_if_live_on_other_cpu`: another CPU runs the thread, or is on its stack still. -/
def deferIfLiveOnOtherCpu (live : Liveness) (ncpus tid selfCpu : ℕ) : Bool :=
  tid ≠ 0 && (List.range ncpus).any fun cpu =>
    cpu ≠ selfCpu && (live.current cpu = tid || live.onStack cpu = tid)

/-- The candidate filter of `schedule` on a CPU. -/
def admits (live : Liveness) (ncpus cpu : ℕ) (t : Thread) : Bool :=
  onCpu cpu t.mirrorSlot && !deferIfLiveOnOtherCpu live ncpus t.tid cpu

/-- Ids are unique, and each ready thread but the idle ones has a slot on a CPU that is online and
that its affinity allows, whose scheduler then admits it unless another CPU runs it or is on its
stack. -/
structure Visible (live : Liveness) (s : State) : Prop where
  distinct : (s.threads.map Thread.tid).Nodup
  slot : ∀ t ∈ s.threads, t.state = .ready → t.apIdle = false →
    ∃ cpu prio, t.mirrorSlot = some (cpu, prio) ∧
    cpu < s.cpuCount ∧ (∀ a ∈ t.cpuAffinity, a = cpu) ∧
      ((∀ c < s.cpuCount, c ≠ cpu → live.current c ≠ t.tid ∧ live.onStack c ≠ t.tid) →
        admits live s.ncpus cpu t)

/-! ## Where threads are placed -/

variable {t t' : Thread} {ts ts' : List Thread} {rqs rqs' : Rqs} {n ncpus dst : ℕ}
  {timerDead live : List ℕ}

/-- What a pass or a steal may change of a record: where it is queued, and the CPU it belongs to,
which is then one of the first `n`. -/
def Thread.Rehoused (n : ℕ) (t t' : Thread) : Prop :=
  ∃ lastCpu slot, t' = { t with lastCpu := lastCpu, mirrorSlot := slot } ∧
    (lastCpu = t.lastCpu ∨ lastCpu < n)

lemma reconcile_rehoused (ncpus : ℕ) (timerDead : List ℕ) (rqs : Rqs) (t : Thread) :
    t.Rehoused ncpus (reconcile ncpus timerDead rqs t).2 := by
  have hwake : ∃ lastCpu, wakeEdge ncpus timerDead rqs t = { t with lastCpu := lastCpu } ∧
      (lastCpu = t.lastCpu ∨ lastCpu < ncpus) := by
    rw [wakeEdge]
    split
    next hcond =>
      refine ⟨_, rfl, .inr ?_⟩
      have hwarm : min t.lastCpu (ncpus - 1) < ncpus := by omega
      rw [hcond.2.2.1, wakeTargetWithLoads, if_neg (by omega)]
      dsimp only
      split
      · exact hwarm
      refine foldlRecOn (motive := (· < ncpus)) _ _ hwarm fun best hbest c hc => ?_
      split
      · exact mem_range.mp hc
      · exact hbest
    · exact ⟨t.lastCpu, rfl, .inl rfl⟩
  obtain ⟨lastCpu, hw, hlast⟩ := hwake
  rw [reconcile, hw]
  split
  · exact ⟨lastCpu, t.mirrorSlot, rfl, hlast⟩
  · exact ⟨lastCpu, _, rfl, hlast⟩

variable {s : State}

lemma mem_swept (h : t' ∈ (swept timerDead s).threads) :
    ∃ t ∈ s.threads, t.Rehoused s.ncpus t' := by
  obtain ⟨-, t, ht, rfl⟩ := mem_sweep h
  exact ⟨t, ht, reconcile_rehoused ..⟩

lemma mem_mirrorMaintain (h : Inv s) (hmem : t' ∈ (mirrorMaintain timerDead s).threads) :
    ∃ t ∈ s.threads, t.Rehoused s.cpuCount t' := by
  have hle : s.ncpus ≤ s.cpuCount := min_le_left _ _
  have hswept : ∀ u ∈ (swept timerDead s).threads, ∃ t ∈ s.threads, t.Rehoused s.cpuCount u := by
    intro u hu
    obtain ⟨t, ht, lastCpu, slot, heq, hlast⟩ := mem_swept hu
    exact ⟨t, ht, lastCpu, slot, heq, hlast.imp_right fun hlt => hlt.trans_le hle⟩
  cases hm : migration timerDead s with
  | none =>
    rw [mirrorMaintain, hm] at hmem
    exact hswept t' hmem
  | some m =>
    obtain ⟨src, dst, victim⟩ := m
    obtain ⟨rest, hbefore, hafter⟩ := exists_rest_of_migration h hm
    rcases mem_cons.mp (hafter.mem_iff.mp hmem) with rfl | hrest
    · obtain ⟨t, ht, lastCpu, slot, rfl, -⟩ := hswept victim (hbefore.mem_iff.mpr mem_cons_self)
      exact ⟨t, ht, dst, _, rfl, .inr (migration_spec hm).2.2.1⟩
    · exact hswept t' (hbefore.mem_iff.mpr (mem_cons_of_mem victim hrest))

lemma map_tid_mirrorMaintain (h : Inv s) (timerDead : List ℕ) :
    ((mirrorMaintain timerDead s).threads.map Thread.tid).Perm (s.threads.map Thread.tid) := by
  have hswept : (swept timerDead s).threads.map Thread.tid = s.threads.map Thread.tid :=
    map_tid_sweep ..
  rw [← hswept]
  cases hm : migration timerDead s with
  | none => rw [mirrorMaintain, hm]
  | some m =>
    obtain ⟨src, dst, victim⟩ := m
    obtain ⟨rest, hbefore, hafter⟩ := exists_rest_of_migration h hm
    exact (hafter.map Thread.tid).trans (hbefore.map Thread.tid).symm

lemma mem_stealFirst (hdst : dst < n) (hs : stealFirst dst live rqs ts = some (rqs', ts'))
    (hmem : t' ∈ ts') : ∃ t ∈ ts, t.Rehoused n t' := by
  have hsame : ∀ u : Thread, u.Rehoused n u := fun u => ⟨u.lastCpu, u.mirrorSlot, rfl, .inl rfl⟩
  obtain ⟨pre, t, post, -, -, -, rfl, rfl, -⟩ := stealFirst_split hs
  rw [mem_append, mem_cons] at hmem
  obtain hmem | rfl | hmem := hmem
  · exact ⟨t', mem_append_left _ hmem, hsame t'⟩
  · exact ⟨t, mem_append_right _ mem_cons_self, dst, _, rfl, .inr hdst⟩
  · exact ⟨t', mem_append_right _ (mem_cons_of_mem t hmem), hsame t'⟩

lemma mem_tryStealTo (hdst : dst < n) (hmem : t' ∈ (tryStealTo dst live s).threads) :
    ∃ t ∈ s.threads, t.Rehoused n t' := by
  rw [tryStealTo] at hmem
  split at hmem
  · exact ⟨t', hmem, t'.lastCpu, t'.mirrorSlot, rfl, .inl rfl⟩
  split at hmem
  next hs => exact mem_stealFirst hdst hs hmem
  · exact ⟨t', hmem, t'.lastCpu, t'.mirrorSlot, rfl, .inl rfl⟩

@[simp] lemma cpuCount_mirrorMaintain (timerDead : List ℕ) (s : State) :
    (mirrorMaintain timerDead s).cpuCount = s.cpuCount := by
  rw [mirrorMaintain]
  split <;> rfl

@[simp] lemma cpuCount_tryStealTo (dst : ℕ) (live : List ℕ) (s : State) :
    (tryStealTo dst live s).cpuCount = s.cpuCount := by
  rw [tryStealTo]
  split
  · rfl
  · split <;> rfl

/-! ## The invariant -/

/-- A record that belongs to CPUs that are online, with an id of its kind: from the counter, or the
one of an application processor that is online. -/
structure Placed (nextTid cpuCount : ℕ) (t : Thread) : Prop where
  lastCpu : t.lastCpu < cpuCount
  pin : ∀ a ∈ t.cpuAffinity, a < cpuCount
  tid : if t.apIdle then idleTid < t.tid ∧ t.tid < idleTid + cpuCount else t.tid < nextTid

lemma Placed.rehoused {nextTid cpuCount : ℕ} (h : Placed nextTid cpuCount t)
    (hr : t.Rehoused cpuCount t') : Placed nextTid cpuCount t' := by
  obtain ⟨lastCpu, -, rfl, hlast⟩ := hr
  refine ⟨?_, h.pin, h.tid⟩
  rcases hlast with rfl | hlt
  · exact h.lastCpu
  · exact hlt

lemma Placed.mono {nextTid nextTid' cpuCount cpuCount' : ℕ} (h : Placed nextTid cpuCount t)
    (ht : nextTid ≤ nextTid') (hc : cpuCount ≤ cpuCount') : Placed nextTid' cpuCount' t := by
  refine ⟨lt_of_lt_of_le h.lastCpu hc, fun a ha => lt_of_lt_of_le (h.pin a ha) hc, ?_⟩
  have htid := h.tid
  cases hidle : t.apIdle with
  | true =>
    rw [hidle, if_pos rfl] at htid
    exact ⟨htid.1, lt_of_lt_of_le htid.2 (Nat.add_le_add_left hc _)⟩
  | false =>
    rw [hidle] at htid
    exact htid.trans_le ht

/-- What holds in every state. -/
structure KernelInv (k : Kernel) : Prop where
  inv : Inv k.table
  online : 0 < k.table.cpuCount ∧ k.table.cpuCount ≤ maxCpus
  tids : k.nextTid ≤ idleTid
  placed : ∀ t ∈ k.table.threads, Placed k.nextTid k.table.cpuCount t

lemma kernelBoot_inv : KernelInv kernelBoot where
  inv := (boot_inv 1).push (by simp [boot]) rfl (by decide) (by decide)
  online := by decide
  tids := by decide
  placed := by
    intro t ht
    rw [mem_singleton.mp ht]
    exact ⟨by decide, by decide, by decide⟩

variable {k k' : Kernel} {e : Event}

lemma KernelInv.tid_notMem_of_fresh {tid : ℕ} (h : KernelInv k) (hlo : k.nextTid ≤ tid)
    (hhi : tid ≤ idleTid ∨ idleTid + k.table.cpuCount ≤ tid) :
    tid ∉ k.table.threads.map Thread.tid := by
  intro hmem
  obtain ⟨t, ht, rfl⟩ := mem_map.mp hmem
  have := (h.placed t ht).tid
  split at this <;> omega

/-- The table stays right when a thread is created, as long as ids have not run past the first idle
one. -/
lemma KernelInv.create_inv (h : KernelInv k) (state : ThreadState) (priority readySinceTick : ℕ) :
    Inv { k.table with
      threads := k.table.threads ++ [newThread k.nextTid state priority readySinceTick] } := by
  refine h.inv.push (h.tid_notMem_of_fresh le_rfl (.inl h.tids)) rfl ?_ ?_
  · show min priority (nprio - 1) < nprio
    have : 0 < nprio := by decide
    omega
  · rintro - ⟨⟩

theorem kernelStep_inv (h : KernelInv k) (hok : TidsLeft k e) (hs : kernelStep k e = some k') :
    KernelInv k' := by
  cases e with
  | create state priority readySinceTick =>
    cases hs
    refine ⟨h.create_inv state priority readySinceTick, h.online, hok,
      forall_mem_append.mpr ⟨fun t ht => ?_, forall_mem_singleton.mpr ?_⟩⟩
    · exact (h.placed t ht).mono (Nat.le_succ _) le_rfl
    · exact ⟨h.online.1, nofun, Nat.lt_succ_self _⟩
  | startAp =>
    obtain ⟨hlt, rfl⟩ := of_guard hs
    have hfresh : (apIdleThread k.table.cpuCount).tid ∉ k.table.threads.map Thread.tid :=
      h.tid_notMem_of_fresh (le_trans h.tids (Nat.le_add_right _ _)) (.inr le_rfl)
    have hpush := h.inv.push hfresh rfl (show 0 < nprio by decide) (by rintro a ⟨⟩; exact hlt)
    refine ⟨⟨hpush.tracked, hpush.nodup⟩, ⟨Nat.succ_pos _, hlt⟩, h.tids,
      forall_mem_append.mpr ⟨fun t ht => (h.placed t ht).mono le_rfl (Nat.le_succ _),
        forall_mem_singleton.mpr ?_⟩⟩
    refine ⟨Nat.succ_pos _, (by rintro a ⟨⟩; exact Nat.lt_succ_self _), ?_⟩
    have := h.online.1
    show idleTid < idleTid + k.table.cpuCount ∧
      idleTid + k.table.cpuCount < idleTid + (k.table.cpuCount + 1)
    omega
  | maintain timerDead =>
    cases hs
    refine ⟨(mirrorMaintain_spec h.inv timerDead).1, by simpa using h.online, h.tids, ?_⟩
    intro t ht
    obtain ⟨u, hu, hr⟩ := mem_mirrorMaintain h.inv ht
    simpa using (h.placed u hu).rehoused hr
  | steal dst live =>
    obtain ⟨hdst, rfl⟩ := of_guard hs
    have hstep : step k.table (.steal dst live) = some (tryStealTo dst live k.table) := rfl
    refine ⟨step_inv h.inv hstep, by simpa using h.online, h.tids, ?_⟩
    intro t ht
    obtain ⟨u, hu, hr⟩ := mem_tryStealTo hdst ht
    simpa using (h.placed u hu).rehoused hr
  | edit tid e =>
    obtain ⟨hcond, hs⟩ := Option.ite_none_right_eq_some.mp hs
    obtain ⟨s, hstep, rfl⟩ := map_eq_some_iff.mp hs
    have hinv := step_inv h.inv hstep
    obtain ⟨-, rfl⟩ := of_guard_not hstep
    refine ⟨hinv, h.online, h.tids, ?_⟩
    intro t ht
    rcases FirstMatch.mem_updateFirst ht with ht | ⟨u, hu, rfl⟩
    · exact h.placed t ht
    have hold := h.placed u (mem_of_find?_eq_some hu)
    refine ⟨hcond.1, fun a ha => ?_, hold.tid⟩
    have haff : e.cpuAffinity = some a := ha
    have hall := hcond.2
    rw [haff] at hall
    simpa using hall
  | remove tid swap =>
    obtain ⟨s, hstep, rfl⟩ := map_eq_some_iff.mp hs
    have hinv := step_inv h.inv hstep
    obtain ⟨u, hfind, rfl⟩ := map_eq_some_iff.mp hstep
    refine ⟨hinv, h.online, h.tids, ?_⟩
    intro t ht
    have htid : u.tid = tid := by simpa using List.find?_some hfind
    have hperm := removeThread_perm h.inv.nodup (mem_of_find?_eq_some hfind) swap
    rw [htid] at hperm
    simp [h.placed, hperm.mem_iff.mpr, ht]

lemma run_kernelInv {es : List Event} (hg : Guarded kernelStep TidsLeft kernelBoot es)
    (hrun : run kernelStep kernelBoot es = some k) : KernelInv k :=
  run_guarded (fun _ _ _ => kernelStep_inv) kernelBoot_inv hg hrun

/-! ## Visibility -/

lemma not_deferIfLiveOnOtherCpu {live : Liveness} {tid cpu : ℕ}
    (h : ∀ c < s.cpuCount, c ≠ cpu → live.current c ≠ tid ∧ live.onStack c ≠ tid) :
    deferIfLiveOnOtherCpu live s.ncpus tid cpu = false := by
  rw [deferIfLiveOnOtherCpu, Bool.and_eq_false_iff]
  refine .inr (any_eq_false.mpr fun c hc => ?_)
  have hc : c < s.cpuCount := (mem_range.mp hc).trans_le (min_le_left _ _)
  by_cases hself : c = cpu
  · simp [hself]
  · simp [h c hc hself]

/-- A pass gives every ready thread a slot on a CPU that is online. -/
lemma KernelInv.visible (h : KernelInv k) (live : Liveness) (timerDead : List ℕ) :
    Visible live (mirrorMaintain timerDead k.table) := by
  have hk' : KernelInv { k with table := mirrorMaintain timerDead k.table } :=
    kernelStep_inv (e := .maintain timerDead) h trivial rfl
  obtain ⟨-, hsettled⟩ := mirrorMaintain_spec h.inv timerDead
  refine ⟨hk'.inv.nodup, ?_⟩
  intro t ht hready hidle
  obtain ⟨hlast, hpin, htid⟩ := hk'.placed t ht
  rw [hidle] at htid
  have hrunnable : t.isMirroredRunnable := ⟨hready, lt_of_lt_of_le htid hk'.tids⟩
  -- the CPU the thread belongs to is online, so the pass takes it as it is
  have hcpu : t.cpuAffinity.getD t.lastCpu < (mirrorMaintain timerDead k.table).cpuCount := by
    cases haff : t.cpuAffinity with
    | none => exact hlast
    | some a => exact hpin a haff
  have htarget : targetCpuFor t.cpuAffinity t.lastCpu = t.cpuAffinity.getD t.lastCpu :=
    if_pos (lt_of_lt_of_le hcpu hk'.online.2)
  have hslot : t.mirrorSlot = some (t.cpuAffinity.getD t.lastCpu, t.priority) := by
    rw [hsettled t ht, Thread.desiredSlot, if_pos hrunnable, htarget]
  refine ⟨_, _, hslot, hcpu, ?_, fun hlive => ?_⟩
  · intro a ha
    rw [mem_def.mp ha]
    rfl
  · have hon : onCpu (t.cpuAffinity.getD t.lastCpu) t.mirrorSlot := by
      rw [hslot]
      exact beq_self_eq_true _
    rw [admits, hon, Bool.true_and, not_deferIfLiveOnOtherCpu hlive]
    rfl

/-- While the counter has not passed the first idle id, ids are unique in every state, and every
pass leaves each ready thread visible to the scheduler of a CPU, whatever the CPUs run meanwhile. -/
theorem visible_of_guarded {es : List Event} (hg : Guarded kernelStep TidsLeft kernelBoot es)
    (hrun : run kernelStep kernelBoot es = some k) :
    (k.table.threads.map Thread.tid).Nodup ∧
    ∀ live timerDead, Visible live (mirrorMaintain timerDead k.table) := by
  have hk := run_kernelInv hg hrun
  exact ⟨hk.inv.nodup, hk.visible⟩

/-- Two processors are started, and of two threads one is pinned to the second. -/
theorem visible_of_guarded_two_cpus :
    ∃ k, run kernelStep kernelBoot
        [.create .ready 8 0, .startAp, .create .ready 8 0,
          .edit 2 ⟨.ready, 8, some 1, 0, 0, true⟩] = some k ∧
      (k.table.threads.map Thread.tid).Nodup ∧
      ∀ live timerDead, Visible live (mirrorMaintain timerDead k.table) := by
  have hg : Guarded kernelStep TidsLeft kernelBoot
      [.create .ready 8 0, .startAp, .create .ready 8 0,
        .edit 2 ⟨.ready, 8, some 1, 0, 0, true⟩] := by decide
  exact ⟨_, rfl, visible_of_guarded hg rfl⟩

/-! ## Past the first idle id -/

/-- No pass ever gives a slot to a thread whose id is an idle one. -/
lemma not_visible_of_late_tid (h : Inv s) (ht : t ∈ s.threads) (hready : t.state = .ready)
    (hidle : t.apIdle = false) (htid : idleTid ≤ t.tid) (live : Liveness) (timerDead : List ℕ) :
    ¬ Visible live (mirrorMaintain timerDead s) := by
  intro hv
  have hid : t.tid ∈ (mirrorMaintain timerDead s).threads.map Thread.tid :=
    (map_tid_mirrorMaintain h timerDead).mem_iff.mpr (mem_map_of_mem ht)
  obtain ⟨t', ht', htid'⟩ := mem_map.mp hid
  obtain ⟨u, hu, lastCpu, slot, rfl, -⟩ := mem_mirrorMaintain h ht'
  have hut : u = t := inj_on_of_nodup_map h.nodup hu ht htid'
  subst hut
  obtain ⟨cpu, prio, hslot, -⟩ := hv.slot _ ht' hready hidle
  have hnone : ¬ Thread.isMirroredRunnable { u with lastCpu := lastCpu, mirrorSlot := slot } :=
    fun hr => absurd hr.2 (not_lt.mpr htid)
  rw [(mirrorMaintain_spec h timerDead).2 _ ht', Thread.desiredSlot, if_neg hnone] at hslot
  cases hslot

lemma run_create (n : ℕ) (k : Kernel) (state : ThreadState) (priority readySinceTick : ℕ) :
    ∃ ts, run kernelStep k (List.replicate n (.create state priority readySinceTick)) =
      some ⟨{ k.table with threads := ts }, k.nextTid + n⟩ := by
  induction n generalizing k with
  | zero => exact ⟨k.table.threads, rfl⟩
  | succ n ih =>
    obtain ⟨ts, hts⟩ := ih ⟨{ k.table with
      threads := k.table.threads ++ [newThread k.nextTid state priority readySinceTick] },
        k.nextTid + 1⟩
    refine ⟨ts, ?_⟩
    rw [replicate_succ, run_cons, kernelStep, bind_some, hts]
    simp only [add_assoc, add_comm 1 n]

lemma guarded_create (n : ℕ) (k : Kernel) (h : k.nextTid + n ≤ idleTid) (state : ThreadState)
    (priority readySinceTick : ℕ) :
    Guarded kernelStep TidsLeft k (List.replicate n (.create state priority readySinceTick)) := by
  induction n generalizing k with
  | zero => exact trivial
  | succ n ih =>
    refine ⟨?_, fun k' hk' => ?_⟩
    · show k.nextTid < idleTid
      omega
    · cases hk'
      exact ih _ (by dsimp only; omega)

/-- The thread created after 4095 others waits on no runqueue. -/
theorem not_visible_of_many_threads :
    ∃ k, run kernelStep kernelBoot
      (List.replicate 4095 (.create .ready 8 0) ++ [.create .ready 8 0]) = some k ∧
      ∀ live, ¬ Visible live (mirrorMaintain [] k.table) := by
  obtain ⟨ts, hts⟩ := run_create 4095 kernelBoot .ready 8 0
  have hk := run_kernelInv (guarded_create 4095 kernelBoot (by decide) .ready 8 0) hts
  refine ⟨_, by rw [run_append, hts]; rfl, fun live => ?_⟩
  exact not_visible_of_late_tid (hk.create_inv .ready 8 0)
    (mem_append_right _ mem_cons_self) rfl rfl
    (show idleTid ≤ 1 + 4095 by decide) live []

end Astryx.Sched
