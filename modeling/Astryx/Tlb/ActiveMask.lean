import Astryx.Lib.Transition
import Mathlib

/-!
# Which CPUs run on a page table

`mm/tlb.rs` keeps for each page table the set of CPUs that have it loaded, so that a shootdown
reaches all of them. Every switch of the scheduler, of a thread's first run and of an exiting thread
is bracketed: the CPU enters its bit for the new table, writes its CR3, and clears its bit for the
old one. Ring 0 is not preempted, so a bracket runs to its end on one CPU, and what can happen
between its parts happens on other CPUs.

`execve` is the exception. It writes CR3 and returns to user mode without entering the new table
anywhere. And a table that is torn down is forgotten even if a CPU has not left it, since the wait
for that is bounded.
-/

namespace Astryx.Tlb

open Function Transition

/-- `MAX_CPUS` -/
def maxCpus : ℕ := 16

/-! ## The masks -/

/-- `CR3_ACTIVE_CPUS` -/
abbrev ActiveCpus := ℕ → Option (BitVec 64)

/-- The bit of a CPU. -/
def cpuBit (cpu : ℕ) : BitVec 64 := BitVec.twoPow 64 cpu

/-- `note_cr3_load` on a CPU. -/
def noteCr3Load (map : ActiveCpus) (cpu cr3 : ℕ) : ActiveCpus :=
  if cr3 = 0 ∨ maxCpus ≤ cpu then map
  else update map cr3 (some ((map cr3).getD 0 ||| cpuBit cpu))

/-- `note_cr3_unload` on a CPU. -/
def noteCr3Unload (map : ActiveCpus) (cpu cr3 : ℕ) : ActiveCpus :=
  if cr3 = 0 ∨ maxCpus ≤ cpu then map
  else match map cr3 with
    | some mask => update map cr3 (some (mask &&& ~~~ cpuBit cpu))
    | none => map

/-- The entry of a page table is removed. -/
def forgetCr3 (map : ActiveCpus) (cr3 : ℕ) : ActiveCpus :=
  if cr3 = 0 then map else update map cr3 none

/-- The CPUs noted for a page table. -/
def snapshotActiveMask (map : ActiveCpus) (cr3 : ℕ) : BitVec 64 :=
  if cr3 = 0 then 0 else (map cr3).getD 0

/-- The CPUs that a shootdown from the given one interrupts. -/
def shootdownTargets (map : ActiveCpus) (self cr3 : ℕ) : BitVec 64 :=
  snapshotActiveMask map cr3 &&& ~~~ cpuBit self

/-- The CPU is noted for the page table. -/
def Active (map : ActiveCpus) (cr3 cpu : ℕ) : Prop :=
  (snapshotActiveMask map cr3).getLsbD cpu = true

instance instDecidableActive (map : ActiveCpus) (cr3 cpu : ℕ) : Decidable (Active map cr3 cpu) :=
  inferInstanceAs (Decidable (_ = _))

variable {map : ActiveCpus} {cr3 c cpu i self : ℕ}

lemma getLsbD_cpuBit (hcpu : cpu < maxCpus) : (cpuBit cpu).getLsbD i = decide (i = cpu) := by
  have h64 : cpu < 64 := lt_of_lt_of_le hcpu (by decide)
  rw [cpuBit, BitVec.getLsbD_twoPow, decide_eq_true h64, Bool.true_and]
  exact decide_eq_decide.mpr eq_comm

lemma getLsbD_clear {mask : BitVec 64} (h : mask.getLsbD i) (hcpu : cpu < maxCpus) (hne : i ≠ cpu) :
    (mask &&& ~~~ cpuBit cpu).getLsbD i := by
  have hlt : i < 64 := BitVec.lt_of_getLsbD h
  rw [BitVec.getLsbD_and, BitVec.getLsbD_not, getLsbD_cpuBit hcpu, h, decide_eq_true hlt,
    decide_eq_false hne]
  rfl

lemma snapshotActiveMask_update (hc : c ≠ cr3) (m : Option (BitVec 64)) :
    snapshotActiveMask (update map cr3 m) c = snapshotActiveMask map c := by
  simp [snapshotActiveMask, hc]

theorem Active.noteCr3Load (h : Active map c i) (cpu cr3 : ℕ) :
    Active (noteCr3Load map cpu cr3) c i := by
  rw [Astryx.Tlb.noteCr3Load]
  split
  · exact h
  next hcond =>
    by_cases hc : c = cr3
    · subst hc
      rw [not_or] at hcond
      rw [Active, snapshotActiveMask, if_neg hcond.1] at h
      rw [Active, snapshotActiveMask, if_neg hcond.1, update_self, Option.getD_some,
        BitVec.getLsbD_or, h, Bool.true_or]
    · rw [Active, snapshotActiveMask_update hc]
      exact h

theorem Active.noteCr3Unload (h : Active map c i) (hne : i ≠ cpu ∨ c ≠ cr3) :
    Active (noteCr3Unload map cpu cr3) c i := by
  rw [Astryx.Tlb.noteCr3Unload]
  split
  · exact h
  next hcond =>
    rw [not_or, not_le] at hcond
    split
    next mask hmask =>
      by_cases hc : c = cr3
      · subst hc
        have hi : i ≠ cpu := hne.resolve_right fun hc => hc rfl
        rw [Active, snapshotActiveMask, if_neg hcond.1, hmask, Option.getD_some] at h
        rw [Active, snapshotActiveMask, if_neg hcond.1, update_self, Option.getD_some]
        exact getLsbD_clear h hcond.2 hi
      · rw [Active, snapshotActiveMask_update hc]
        exact h
    · exact h

theorem Active.forgetCr3 (h : Active map c i) (hc : c ≠ cr3) : Active (forgetCr3 map cr3) c i := by
  rw [Astryx.Tlb.forgetCr3]
  split
  · exact h
  · rw [Active, snapshotActiveMask_update hc]
    exact h

/-- A CPU that is entered is a target of every other CPU. -/
lemma Active.mem_shootdownTargets (h : Active map c i) (hself : self < maxCpus) (hne : i ≠ self) :
    (shootdownTargets map self c).getLsbD i :=
  getLsbD_clear h hself hne

/-! ## The CPUs -/

/-- The bracketed switches. -/
inductive Site
  /-- `schedule`, before the context switch. -/
  | scheduleKernel
  /-- `schedule`, after it, for a process with the given page table. -/
  | scheduleThread (processCr3 : ℕ)
  /-- `user_mode_bootstrap` -/
  | userModeBootstrap (userCr3 : ℕ)
  | exitThread
  | exitGroup
  deriving DecidableEq

/-- The page table that is switched to. -/
def Site.target (kernelCr3 : ℕ) : Site → ℕ
  | scheduleKernel => kernelCr3
  | scheduleThread processCr3 => if processCr3 ≠ 0 then processCr3 else kernelCr3
  | userModeBootstrap userCr3 => userCr3
  | exitThread => kernelCr3
  | exitGroup => kernelCr3

/-- Whether the site switches on a CPU with the given page table. -/
def Site.switches (kernelCr3 current : ℕ) (site : Site) : Bool :=
  match site with
  | scheduleThread _ => site.target kernelCr3 ≠ current
  | _ => site.target kernelCr3 ≠ 0 ∧ site.target kernelCr3 ≠ current

/-- Where a CPU is. -/
inductive Pc
  | user
  | kernel
  /-- About to enter its bit for the new page table. -/
  | load (new current : ℕ)
  /-- About to write CR3. -/
  | switch (new current : ℕ)
  /-- About to clear its bit for the old one. -/
  | unload (current : ℕ)
  deriving DecidableEq

/-- The masks and what each CPU is doing. -/
structure Machine where
  active : ActiveCpus
  /-- CR3 of each CPU. -/
  cr3 : ℕ → ℕ
  pc : ℕ → Pc

/-- A step of a CPU, or a teardown. -/
inductive Event
  | begin (cpu : ℕ) (site : Site)
  | advance (cpu : ℕ)
  | trap (cpu : ℕ)
  | returnToUser (cpu : ℕ)
  /-- The switch of `sys_exec` to the page table of the new image. -/
  | exec (cpu newCr3 : ℕ)
  /-- A page table is torn down: `free_user_page_tables`. -/
  | teardown (cr3 : ℕ)
  deriving DecidableEq

/-- A CPU goes on. -/
def Machine.setPc (s : Machine) (cpu : ℕ) (pc : Pc) : Machine := { s with pc := update s.pc cpu pc }

/-- A CPU switches. -/
def Machine.setCr3 (s : Machine) (cpu cr3 : ℕ) : Machine := { s with cr3 := update s.cr3 cpu cr3 }

/-- The next step of a switch. -/
def bracketStep (s : Machine) (cpu : ℕ) : Option Machine :=
  match s.pc cpu with
  | .load new current =>
    some ({ s with active := noteCr3Load s.active cpu new }.setPc cpu (.switch new current))
  | .switch new current => some ((s.setCr3 cpu new).setPc cpu (.unload current))
  | .unload current =>
    some ({ s with active := noteCr3Unload s.active cpu current }.setPc cpu .kernel)
  | _ => none

/-- A CPU that runs kernel code outside of a bracket may do as given. -/
def inKernel (s : Machine) (cpu : ℕ) (next : Machine) : Option Machine :=
  if cpu < maxCpus ∧ s.pc cpu = .kernel then some next else none

/-- One event. -/
def step (kernelCr3 : ℕ) (s : Machine) : Event → Option Machine
  | .begin cpu site => inKernel s cpu <|
    if site.switches kernelCr3 (s.cr3 cpu)
      then s.setPc cpu (.load (site.target kernelCr3) (s.cr3 cpu)) else s
  | .advance cpu => if cpu < maxCpus then bracketStep s cpu else none
  | .trap cpu => if cpu < maxCpus ∧ s.pc cpu = .user then some (s.setPc cpu .kernel) else none
  | .returnToUser cpu => inKernel s cpu (s.setPc cpu .user)
  | .exec cpu newCr3 => inKernel s cpu (s.setCr3 cpu newCr3)
  | .teardown cr3 =>
    if cr3 = 0 ∨ cr3 = kernelCr3 then some s else some { s with active := forgetCr3 s.active cr3 }

/-- All CPUs are in the kernel. -/
def boot (kernelCr3 : ℕ) : Machine := ⟨fun _ => none, fun _ => kernelCr3, fun _ => .kernel⟩

/-- Every CPU that executes user instructions on a user page table is entered for it, so that every
shootdown from another CPU targets it. -/
def Covered (kernelCr3 : ℕ) (s : Machine) : Prop :=
  ∀ cpu < maxCpus, s.pc cpu = .user → s.cr3 cpu ≠ kernelCr3 → Active s.active (s.cr3 cpu) cpu ∧
    ∀ self < maxCpus, cpu ≠ self → (shootdownTargets s.active self (s.cr3 cpu)).getLsbD cpu = true

/-- The CPU has entered itself for the page table and is about to load it. -/
def Pc.loads (cr3 : ℕ) : Pc → Bool
  | switch new _ => new == cr3
  | _ => false

/-- No CPU has the page table loaded or is about to load it. -/
def Unused (s : Machine) (cr3 : ℕ) : Prop :=
  ∀ cpu < maxCpus, s.cr3 cpu ≠ cr3 ∧ (s.pc cpu).loads cr3 = false

/-- An image is replaced only on a CPU that is entered for the new page table, and only page tables
that no CPU uses are torn down. -/
def Tracked (s : Machine) : Event → Prop
  | .exec cpu newCr3 => Active s.active newCr3 cpu
  | .teardown cr3 => Unused s cr3
  | _ => True

instance instDecidableTracked (s : Machine) (e : Event) : Decidable (Tracked s e) := by
  cases e <;> dsimp only [Tracked, Unused] <;> infer_instance

/-! ## The bracket -/

/-- A CPU is entered for a page table, unless it is the kernel's. -/
def Named (kernelCr3 : ℕ) (s : Machine) (cpu cr3 : ℕ) : Prop :=
  cr3 = kernelCr3 ∨ Active s.active cr3 cpu

/-- What is known in the middle of a switch. -/
def Phase (kernelCr3 : ℕ) (s : Machine) (cpu : ℕ) : Pc → Prop
  | .load new current => (new = kernelCr3 ∨ new ≠ 0) ∧ current = s.cr3 cpu ∧ new ≠ current
  | .switch new current => Named kernelCr3 s cpu new ∧ current = s.cr3 cpu ∧ new ≠ current
  | .unload current => current ≠ s.cr3 cpu
  | _ => True

/-- The invariant: every CPU is entered for the page table it has loaded, all through a bracket. -/
structure Bracketed (kernelCr3 : ℕ) (s : Machine) : Prop where
  named : ∀ cpu < maxCpus, Named kernelCr3 s cpu (s.cr3 cpu)
  phase : ∀ cpu < maxCpus, Phase kernelCr3 s cpu (s.pc cpu)

section Steps

variable {kernelCr3 : ℕ} {s s' : Machine} {e : Event}

lemma boot_bracketed (kernelCr3 : ℕ) : Bracketed kernelCr3 (boot kernelCr3) :=
  ⟨fun _ _ => .inl rfl, fun _ _ => trivial⟩

variable (h : Bracketed kernelCr3 s)

include h

lemma Bracketed.setPc {pc : Pc} (hpc : Phase kernelCr3 s cpu pc) :
    Bracketed kernelCr3 (s.setPc cpu pc) where
  named := h.named
  phase := (forall_update_iff s.pc fun k pc => k < maxCpus → Phase kernelCr3 s k pc).mpr
    ⟨fun _ => hpc, fun k _ => h.phase k⟩

/-- The masks change, but no CPU loses the page table it has loaded or is about to load. -/
lemma Bracketed.setActive (map : ActiveCpus)
    (hcur : ∀ k < maxCpus, Active s.active (s.cr3 k) k → Active map (s.cr3 k) k)
    (hnew : ∀ k < maxCpus, ∀ new current, s.pc k = .switch new current → Active s.active new k →
      Active map new k) :
    Bracketed kernelCr3 { s with active := map } where
  named := fun k hk => (h.named k hk).imp_right (hcur k hk)
  phase := by
    intro k hk
    have hp := h.phase k hk
    cases hpc : s.pc k with
    | switch new current =>
      rw [hpc] at hp
      exact ⟨hp.1.imp_right (hnew k hk new current hpc), hp.2⟩
    | _ =>
      rw [hpc] at hp
      exact hp

lemma Bracketed.setCr3 {new : ℕ} (pc : Pc) (hnew : Named kernelCr3 s cpu new)
    (hpc : Phase kernelCr3 (s.setCr3 cpu new) cpu pc) :
    Bracketed kernelCr3 ((s.setCr3 cpu new).setPc cpu pc) where
  named := (forall_update_iff s.cr3 fun k cr3 => k < maxCpus → Named kernelCr3 s k cr3).mpr
    ⟨fun _ => hnew, fun k _ => h.named k⟩
  phase := by
    intro k hk
    by_cases hkc : k = cpu
    · subst hkc
      show Phase kernelCr3 _ k (update s.pc k pc k)
      rw [update_self]
      exact hpc
    have hp := h.phase k hk
    have hcr3 : (s.setCr3 cpu new).cr3 k = s.cr3 k := update_of_ne hkc _ _
    show Phase kernelCr3 ((s.setCr3 cpu new).setPc cpu pc) k (update s.pc cpu pc k)
    rw [update_of_ne hkc]
    cases hpk : s.pc k with
    | load new' current | switch new' current =>
      rw [hpk] at hp
      exact ⟨hp.1, hp.2.1.trans hcr3.symm, hp.2.2⟩
    | unload current =>
      rw [hpk] at hp
      exact fun heq => hp (heq.trans hcr3)
    | _ =>
      rw [hpk] at hp
      exact hp

omit h in
lemma Site.target_ne_zero {site : Site} {current : ℕ} (h : site.switches kernelCr3 current) :
    site.target kernelCr3 ≠ current ∧
    (site.target kernelCr3 = kernelCr3 ∨ site.target kernelCr3 ≠ 0) := by
  cases site with
  | scheduleThread processCr3 =>
    refine ⟨of_decide_eq_true h, ?_⟩
    rw [Site.target]
    split
    next hne => exact .inr hne
    · exact .inl rfl
  | _ =>
    have hboth := of_decide_eq_true h
    exact ⟨hboth.2, .inr hboth.1⟩

lemma Bracketed.bracketStep (hcpu : cpu < maxCpus)
    (hs : bracketStep s cpu = some s') : Bracketed kernelCr3 s' := by
  have hp := h.phase cpu hcpu
  rw [Astryx.Tlb.bracketStep] at hs
  split at hs
  next new current hpc =>
    rw [hpc] at hp
    cases hs
    have hload := h.setActive (noteCr3Load s.active cpu new) (fun k _ ha => ha.noteCr3Load cpu new)
      (fun k _ _ _ _ ha => ha.noteCr3Load cpu new)
    refine hload.setPc ⟨?_, hp.2⟩
    -- the kernel's own page table need not be entered
    rcases hp.1 with hk | hne
    · exact .inl hk
    refine .inr ?_
    rw [Active, noteCr3Load, if_neg (by omega), snapshotActiveMask, if_neg hne]
    simp [getLsbD_cpuBit hcpu]
  next new current hpc =>
    rw [hpc] at hp
    cases hs
    refine h.setCr3 _ hp.1 ?_
    show current ≠ update s.cr3 cpu new cpu
    rw [update_self]
    exact hp.2.2.symm
  next current hpc =>
    rw [hpc] at hp
    cases hs
    -- the bit that is cleared is that of a page table this CPU has left
    have hunload := h.setActive (noteCr3Unload s.active cpu current)
      (fun k _ ha => ha.noteCr3Unload (by
        by_cases hk : k = cpu
        · subst hk
          exact .inr hp.symm
        · exact .inl hk))
      (fun k _ new' current' hk ha =>
        ha.noteCr3Unload (.inl (by rintro rfl; rw [hpc] at hk; cases hk)))
    exact hunload.setPc trivial
  · cases hs

/-- A step that keeps to the rules keeps every CPU entered for its page table. -/
theorem Bracketed.step (hok : Tracked s e) (hs : step kernelCr3 s e = some s') :
    Bracketed kernelCr3 s' := by
  have hkernel : ∀ {cpu : ℕ} {next : Machine}, inKernel s cpu next = some s' → cpu < maxCpus ∧
      next = s' := by
    intro cpu next hn
    obtain ⟨hcond, hn⟩ := Option.ite_none_right_eq_some.mp hn
    exact ⟨hcond.1, Option.some.inj hn⟩
  cases e with
  | begin cpu site =>
    obtain ⟨-, rfl⟩ := hkernel hs
    split
    next hsw =>
      obtain ⟨hne, hzero⟩ := Site.target_ne_zero hsw
      exact h.setPc ⟨hzero, rfl, hne⟩
    · exact h
  | advance cpu =>
    obtain ⟨hcpu, hs⟩ := Option.ite_none_right_eq_some.mp hs
    exact h.bracketStep hcpu hs
  | trap cpu =>
    obtain ⟨-, rfl⟩ := of_guard hs
    exact h.setPc trivial
  | returnToUser cpu =>
    obtain ⟨-, rfl⟩ := hkernel hs
    exact h.setPc trivial
  | exec cpu newCr3 =>
    obtain ⟨hcond, rfl⟩ := of_guard hs
    have hpc : update s.pc cpu .kernel = s.pc := by
      simp [← hcond.2]
    have hset := h.setCr3 .kernel (.inr hok) trivial
    show Bracketed kernelCr3 ⟨s.active, update s.cr3 cpu newCr3, s.pc⟩
    rw [← hpc]
    exact hset
  | teardown cr3 =>
    rw [Astryx.Tlb.step] at hs
    split at hs
    · cases hs
      exact h
    cases hs
    refine h.setActive _ (fun k hk ha => ha.forgetCr3 (hok k hk).1)
      (fun k hk new current hpc ha => ha.forgetCr3 ?_)
    have hnew := (hok k hk).2
    rw [hpc] at hnew
    exact ne_of_beq_false hnew

lemma Bracketed.covered : Covered kernelCr3 s := by
  intro cpu hcpu _ huser
  have hactive := (h.named cpu hcpu).resolve_left huser
  exact ⟨hactive, fun self => hactive.mem_shootdownTargets⟩

end Steps

/-- While the rules are kept, every CPU in user mode is a target of every shootdown for its page
table. -/
theorem covered_of_guarded {kernelCr3 : ℕ} {es : List Event} {s : Machine}
    (hg : Guarded (step kernelCr3) Tracked (boot kernelCr3) es)
    (hrun : run (step kernelCr3) (boot kernelCr3) es = some s) : Covered kernelCr3 s :=
  (run_guarded (fun _ _ _ hi hok hs => hi.step hok hs) (boot_bracketed kernelCr3) hg hrun).covered

/-- A thread of a process with page table 5 runs for the first time. -/
theorem covered_of_guarded_bootstrap :
    ∃ s, run (step 1) (boot 1)
      [.begin 0 (.userModeBootstrap 5), .advance 0, .advance 0, .advance 0,
        .returnToUser 0] = some s ∧
      s.pc 0 = .user ∧ s.cr3 0 = 5 ∧ Covered 1 s := by
  have hg : Guarded (step 1) Tracked (boot 1)
      [.begin 0 (.userModeBootstrap 5), .advance 0, .advance 0, .advance 0, .returnToUser 0] := by
        decide
  exact ⟨_, rfl, rfl, rfl, covered_of_guarded hg rfl⟩

/-- The thread replaces its image by one with page table 6 and returns to user mode: nothing says
that CPU 0 runs on it. -/
theorem not_covered_after_exec :
    ∃ s, run (step 1) (boot 1)
      [.begin 0 (.userModeBootstrap 5), .advance 0, .advance 0, .advance 0, .returnToUser 0,
          .trap 0, .exec 0 6, .teardown 5, .returnToUser 0] = some s ∧ ¬ Covered 1 s := by
  refine ⟨_, rfl, fun h => ?_⟩
  have hactive := (h 0 (by decide) rfl (by decide)).1
  cases hactive

end Astryx.Tlb
