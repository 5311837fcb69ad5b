import Astryx.Kernel.Calls

/-!
# Calls that stay out of the upper half

`Job.Low` says of a page loop that none of its pages lies in the upper half. Loops that are low do
nothing there, on any page table: each page is one `LocalAt` step (`step_confined`). Conversely, on
a page table whose upper half is mapped throughout, a loop that is not low does do something there:
the pages before the first bad one are harmless and leave the upper half as it was (`loop_reaches`).

Both directions are about all prefixes of the execution, since a loop with a saturated end does not
finish. The pre-flight of `mremap` is skipped when the caller holds the process table; the second
direction uses that branch to get to what comes after it.
-/

namespace Astryx

open Function List PageWork MmapCall

variable {va : ℕ} {m : Machine} {c : MmapCall}

open Machine

/-! ## Confinement -/

/-- Since `m₀` nothing was done in the upper half. -/
structure Confined (m₀ m : Machine) : Prop where
  effects : ∀ e ∈ m.effects, ¬ inKernelHalf e.va
  root : ∀ i ≥ 256, m.root i = m₀.root i

variable {m' : Machine} {stop pages : ℕ} {rest : List Job} {j : Job} {m₀ : Machine}
  {pg evictsLeft length dest bytes : ℕ}
  {work : PageWork} {name : AreaName} {backing : VmBacking} {areas : List VmArea}

lemma LocalAt.confined (h : LocalAt va m m') (hm : Confined m₀ m) (hva : ¬ inKernelHalf va) :
    Confined m₀ m' := by
  obtain ⟨es, hes, hall⟩ := h.effects
  refine ⟨?_, fun i hi => ?_⟩
  · rw [hes]
    exact forall_mem_append.mpr ⟨fun e he => hall e he ▸ hva, hm.effects⟩
  have hne : i ≠ pml4Idx va := by
    rintro rfl
    exact hva (decide_eq_true hi)
  rw [h.root i hne, hm.root i hi]

lemma releaseFrame_local (m : Machine) (pg phys : ℕ) : LocalAt pg m (releaseFrame m pg phys) := by
  have h : LocalAt pg m (m.pageRefDec phys).2 := .pageRefSet _ _
  rw [releaseFrame]
  dsimp only
  split
  · exact h.log rfl
  · exact h

lemma PageWork.run_local (work : PageWork) (m : Machine) (pg : ℕ) :
    LocalAt pg m (work.run m pg) := by
  rcases work with - | prot | -
  · rw [run, sweepPage]
    split
    · exact .refl pg m
    · exact (m.storeLeaf_local pg 0).trans (releaseFrame_local _ pg _)
  · rw [run, retagPage]
    split
    · exact m.storeLeaf_local pg _
    · exact .refl pg m
  rw [run, discardPage]
  split
  · exact (m.storeLeaf_local pg 0).trans (releaseFrame_local _ pg _)
  · exact .refl pg m

/-! ## Loops without a page in the upper half -/

/-- No page from `pg` below `stop` is in the upper half. -/
def PagesLow (pg stop : ℕ) : Prop := ∀ k, pg + 4096 * k < stop → ¬ inKernelHalf (pg + 4096 * k)

/-- None of the `pages` pages from `va` on is in the upper half. -/
def CountLow (va pages : ℕ) : Prop := ∀ k < pages, ¬ inKernelHalf (Word.add va (4096 * k))

/-- The addresses of the job are in the user half. -/
def Job.Low : Job → Prop
  | .loop _ pg stop => PagesLow pg stop
  | .attach va _ pages | .copy va pages => CountLow va pages
  | .resolve _ va stop _ undo => PagesLow va stop ∧ PagesLow undo.1 undo.2

/-- The end of the job does not wrap. -/
def Job.Bounded : Job → Prop
  | .loop _ _ stop => stop < 2 ^ 64
  | .attach _ _ _ | .copy _ _ => True
  | .resolve _ _ stop _ undo => stop < 2 ^ 64 ∧ undo.2 < 2 ^ 64

lemma not_inKernelHalf_iff : ¬ inKernelHalf va ↔ va / 2 ^ 39 % 512 < 256 := by
  simp [inKernelHalf, pml4Idx]

lemma page_succ (pg k : ℕ) : pg + 4096 * (k + 1) = pg + 4096 + 4096 * k := by omega

lemma PagesLow.next (h : PagesLow pg stop) (hstop : stop < 2 ^ 64) (hpg : pg < stop) :
    pg + 4096 < 2 ^ 64 ∧ PagesLow (pg + 4096) stop := by
  have h0 := not_inKernelHalf_iff.mp (h 0 (by omega))
  refine ⟨by omega, fun k hk => ?_⟩
  have := h (k + 1) (by rwa [page_succ])
  rwa [page_succ] at this

lemma PagesLow.head (h : PagesLow pg stop) (hpg : pg < stop) : ¬ inKernelHalf pg := by
  have := h 0 (by omega)
  rwa [mul_zero, add_zero] at this

lemma CountLow.head (h : CountLow va (pages + 1)) : ¬ inKernelHalf va := by
  have := not_inKernelHalf_iff.mp (h 0 (by omega))
  rw [not_inKernelHalf_iff]
  rw [Word.add] at this
  omega

lemma add_add (va k : ℕ) :
    Word.add (Word.add va 4096) (4096 * k) = Word.add va (4096 * (k + 1)) := by
  simp only [Word.add]
  omega

lemma CountLow.next (h : CountLow va (pages + 1)) :
    CountLow (Word.add va 4096) pages := fun k hk => by
  rw [add_add]
  exact h (k + 1) (by omega)

lemma countLow_succ (hva : ¬ inKernelHalf va) (h : CountLow (Word.add va 4096) pages) :
    CountLow va (pages + 1) := by
  intro k hk
  rcases k with - | k
  · rw [not_inKernelHalf_iff] at hva ⊢
    rw [Word.add]
    omega
  · rw [← add_add]
    exact h k (by omega)

/-- So are all jobs. -/
def AllLow (jobs : List Job) : Prop := ∀ j ∈ jobs, j.Low ∧ j.Bounded

lemma allLow_cons : AllLow (j :: rest) ↔ (j.Low ∧ j.Bounded) ∧ AllLow rest := forall_mem_cons

theorem step_confined {s : Machine × List Job} (hm : Confined m₀ s.1)
    (hjobs : AllLow s.2) : Confined m₀ (Job.step s).1 ∧ AllLow (Job.step s).2 := by
  obtain ⟨m, jobs⟩ := s
  rcases jobs with - | ⟨j, rest⟩
  · exact ⟨hm, hjobs⟩
  obtain ⟨⟨hlow, hbound⟩, hrest⟩ := allLow_cons.mp hjobs
  rcases j with ⟨work, pg, stop⟩ | ⟨va, phys, pages⟩ | ⟨areas, va, stop, whole, undo⟩ | ⟨va, pages⟩
  · rw [Job.step]
    split
    next hpg =>
      obtain ⟨hwrap, hnext⟩ := PagesLow.next hlow hbound hpg
      refine ⟨(work.run_local m pg).confined hm (PagesLow.head hlow hpg),
        allLow_cons.mpr ⟨?_, hrest⟩⟩
      rw [Word.add_eq hwrap]
      exact ⟨hnext, hbound⟩
    · exact ⟨hm, hrest⟩
  · rcases pages with - | pages
    · exact ⟨hm, hrest⟩
    · exact ⟨(m.mapPageIn_local va _ _).confined hm (CountLow.head hlow),
        allLow_cons.mpr ⟨⟨CountLow.next hlow, trivial⟩, hrest⟩⟩
  · have hundo : AllLow [.loop .sweep undo.1 undo.2] := fun j hj => by
      rw [mem_singleton.mp hj]
      exact ⟨hlow.2, hbound.2⟩
    rw [Job.step]
    split
    · exact ⟨hm, hrest⟩
    split
    next hva =>
      have hlocal := m.resolveUserWritePage_local va areas 4
      have hhead := PagesLow.head hlow.1 hva
      split
      next hres =>
        refine ⟨(hlocal.of_eq hres).confined hm hhead, allLow_cons.mpr ⟨?_, hrest⟩⟩
        obtain ⟨hwrap, hnext⟩ := PagesLow.next hlow.1 hbound.1 hva
        rw [Word.satAdd_eq hwrap]
        exact ⟨⟨hnext, hlow.2⟩, hbound⟩
      next hres => exact ⟨(hlocal.of_eq hres).confined hm hhead, hundo⟩
    split
    · exact ⟨hm, hrest⟩
    · exact ⟨hm, hundo⟩
  rcases pages with - | pages
  · exact ⟨hm, hrest⟩
  · exact ⟨((LocalAt.refl va m).log rfl).confined hm (CountLow.head hlow),
      allLow_cons.mpr ⟨⟨CountLow.next hlow, trivial⟩, hrest⟩⟩

/-- Low loops leave the upper half alone at every point of their execution. -/
lemma run_confined {jobs : List Job} (hm : m.effects = []) (hjobs : AllLow jobs)
    (n : ℕ) : Confined m (Job.step^[n] (m, jobs)).1 := by
  have : Confined m (Job.step^[n] (m, jobs)).1 ∧ AllLow (Job.step^[n] (m, jobs)).2 := by
    induction n with
    | zero =>
      refine ⟨⟨fun e he => ?_, fun _ _ => rfl⟩, hjobs⟩
      rw [iterate_zero_apply, hm] at he
      cases he
    | succ n ih =>
      rw [iterate_succ_apply']
      exact step_confined ih.1 ih.2
  exact this.1

/-! ## Loops with a page in the upper half -/

/-- An upper half that is mapped throughout, by supervisor 2 MiB leaves. -/
def mappedRoot : Root := fun i =>
  if 256 ≤ i then .table false fun _ =>
    .table false fun _ => .huge (pagePresent ||| pageWritable ||| pageHuge)
  else .absent

/-- The upper half is mapped throughout, and the pre-flight of `mremap` is skipped. -/
structure Mapped (m : Machine) : Prop where
  root : ∀ i ≥ 256, m.root i = mappedRoot i
  held : m.tableHeld = true

lemma LocalAt.mapped (h : LocalAt va m m') (hm : Mapped m) (hva : ¬ inKernelHalf va) :
    Mapped m' := by
  refine ⟨fun i hi => ?_, h.held.trans hm.held⟩
  have hne : i ≠ pml4Idx va := by
    rintro rfl
    exact hva (decide_eq_true hi)
  rw [h.root i hne, hm.root i hi]

lemma Mapped.root_at (hm : Mapped m) (hva : inKernelHalf va) :
    m.root (pml4Idx va) = .table false fun _ =>
      .table false fun _ => .huge (pagePresent ||| pageWritable ||| pageHuge) := by
  have hi : 256 ≤ pml4Idx va := of_decide_eq_true hva
  rw [hm.root _ hi, mappedRoot, if_pos hi]

lemma Mapped.pdAt (hm : Mapped m) (hva : inKernelHalf va) :
    m.pdAt va = .huge (pagePresent ||| pageWritable ||| pageHuge) := by
  rw [Machine.pdAt, hm.root_at hva]

/-- An effect is in the kernel's half. -/
def Strays (m : Machine) : Prop := ∃ e ∈ m.effects, inKernelHalf e.va

lemma strays_of_local (h : LocalAt va m m') (hm : Strays m) : Strays m' := by
  obtain ⟨es, hes, -⟩ := h.effects
  obtain ⟨e, he, hva⟩ := hm
  exact ⟨e, by rw [hes]; exact mem_append_right _ he, hva⟩

/-- A leaf of the upper half is stored to as if it were a table. -/
lemma Mapped.storeLeaf_strays (hm : Mapped m) (hva : inKernelHalf va) (pte : ℕ) :
    Strays (m.storeLeaf va pte) := by
  rw [Machine.storeLeaf, hm.pdAt hva]
  exact ⟨_, mem_cons_self, hva⟩

lemma Mapped.run_strays (hm : Mapped m) (work : PageWork) (hva : inKernelHalf va) :
    Strays (work.run m va) := by
  have hpd := hm.pdAt hva
  have hpresent : isPresent (m.readPte va) := by
    rw [Machine.readPte, hpd]
    show isPresent (pagePresent ||| pageWritable ||| pageHuge)
    decide
  rcases work with - | prot | -
  · rw [run, sweepPage, Machine.virtToPhysIn, hpd]
    exact strays_of_local (releaseFrame_local _ va _) (hm.storeLeaf_strays hva 0)
  · rw [run, retagPage]
    rw [if_pos hpresent]
    exact hm.storeLeaf_strays hva _
  · rw [run, discardPage, if_pos hpresent]
    exact strays_of_local (releaseFrame_local _ va _) (hm.storeLeaf_strays hva 0)

/-- Mapping a user page there opens the supervisor entry of the root to user mode. -/
lemma Mapped.mapPageIn_strays (hm : Mapped m) (hva : inKernelHalf va) (phys : ℕ) :
    Strays (m.mapPageIn va phys (pagePresent ||| pageUser ||| pageWritable)).1 := by
  have hopen : Strays (m.getOrCreatePml4 va true).1 := by
    rw [Machine.getOrCreatePml4, hm.root_at hva]
    exact ⟨_, mem_cons_self, hva⟩
  have hwalk : Strays (m.walkCreate va true).1 := by
    rw [Machine.walkCreate]
    split
    next h =>
      rw [h] at hopen
      exact hopen
    next h =>
      rw [h] at hopen
      split
      next h' => exact strays_of_local ((getOrCreatePdpt_local _ va true).of_eq h') hopen
      next h' =>
        exact strays_of_local (getOrCreatePd_local _ va true)
          (strays_of_local ((getOrCreatePdpt_local _ va true).of_eq h') hopen)
  have huser : decide ((pagePresent ||| pageUser ||| pageWritable) &&& pageUser ≠ 0) := by decide
  rw [Machine.mapPageIn, huser]
  split
  next h =>
    rw [h] at hwalk
    exact hwalk
  next h =>
    rw [h] at hwalk
    exact strays_of_local (storeLeaf_local _ va _) hwalk

/-- A loop with a bad page gets there. The induction is on the number of pages before it. -/
theorem loop_reaches (hstop : stop < 2 ^ 64) (k : ℕ) :
    ∀ (m : Machine) (pg : ℕ), Mapped m → pg + 4096 * k < stop → inKernelHalf (pg + 4096 * k) →
      ∃ n, Strays (Job.step^[n] (m, .loop work pg stop :: rest)).1 := by
  induction k with
  | zero =>
    intro m pg hm hk hbad
    refine ⟨1, ?_⟩
    rw [iterate_one, Job.step, if_pos (by omega)]
    exact hm.run_strays work (by simpa using hbad)
  | succ k ih =>
    intro m pg hm hk hbad
    rw [page_succ] at hk hbad
    have hnext : pg + 4096 < stop := (Nat.le_add_right _ _).trans_lt hk
    have hpage : pg < stop := (Nat.le_add_right _ _).trans_lt hnext
    by_cases hpg : inKernelHalf pg
    · refine ⟨1, ?_⟩
      rw [iterate_one, Job.step, if_pos hpage]
      exact hm.run_strays work hpg
    obtain ⟨n, hn⟩ := ih _ (pg + 4096) ((work.run_local m pg).mapped hm hpg) hk hbad
    refine ⟨n + 1, ?_⟩
    rw [iterate_succ_apply, Job.step, if_pos hpage, Word.add_eq (hnext.trans hstop)]
    exact hn

lemma loop_ends (hstop : stop < 2 ^ 64) (m : Machine) (pg : ℕ) (hm : Mapped m)
    (hlow : PagesLow pg stop) :
    ∃ n m', Job.step^[n] (m, .loop work pg stop :: rest) = (m', rest) ∧ Mapped m' := by
  induction hd : stop - pg using Nat.strong_induction_on generalizing m pg with
  | _ d ih =>
    by_cases hpg : pg < stop
    · obtain ⟨hwrap, hnext⟩ := hlow.next hstop hpg
      have hm' := (work.run_local m pg).mapped hm (hlow.head hpg)
      obtain ⟨n, m', hn, hmapped⟩ := ih (stop - (pg + 4096)) (by omega) _ _ hm' hnext rfl
      refine ⟨n + 1, m', ?_, hmapped⟩
      rw [iterate_succ_apply, Job.step, if_pos hpg, Word.add_eq hwrap]
      exact hn
    · refine ⟨1, m, ?_, hm⟩
      simp [Job.step, hpg]

/-- The loops of `shmat` and of the copy run for a number of pages: they stray or they end. -/
lemma attach_runs (rest : List Job) (pages : ℕ) :
    ∀ (m : Machine) (va phys : ℕ), Mapped m →
      (∃ n, Strays (Job.step^[n] (m, .attach va phys pages :: rest)).1) ∨
        CountLow va pages ∧
        ∃ n m', Job.step^[n] (m, .attach va phys pages :: rest) = (m', rest) ∧ Mapped m' := by
  induction pages with
  | zero =>
    intro m va phys hm
    refine .inr ⟨fun k hk => absurd hk (Nat.not_lt_zero k), 1, m, ?_, hm⟩
    simp [Job.step]
  | succ pages ih =>
    intro m va phys hm
    by_cases hva : inKernelHalf va
    · refine .inl ⟨1, ?_⟩
      exact hm.mapPageIn_strays hva phys
    have hm' := (m.mapPageIn_local va phys
      (pagePresent ||| pageUser ||| pageWritable)).mapped hm hva
    rcases ih _ (Word.add va 0x1000) (phys + 0x1000) hm' with ⟨n, hn⟩ | ⟨hlow, n, m', hn, hmapped⟩
    · exact .inl ⟨n + 1, hn⟩
    · exact .inr ⟨countLow_succ hva hlow, n + 1, m', hn, hmapped⟩

lemma copy_runs (rest : List Job) (pages : ℕ) :
    ∀ (m : Machine) (va : ℕ), Mapped m →
      (∃ n, Strays (Job.step^[n] (m, .copy va pages :: rest)).1) ∨
        CountLow va pages ∧
        ∃ n m', Job.step^[n] (m, .copy va pages :: rest) = (m', rest) ∧ Mapped m' := by
  induction pages with
  | zero =>
    intro m va hm
    refine .inr ⟨fun k hk => absurd hk (Nat.not_lt_zero k), 1, m, ?_, hm⟩
    simp [Job.step]
  | succ pages ih =>
    intro m va hm
    by_cases hva : inKernelHalf va
    · refine .inl ⟨1, ?_⟩
      exact ⟨.bytes va, mem_cons_self, hva⟩
    have hm' := ((LocalAt.refl va m).log (e := .bytes va) rfl).mapped hm hva
    rcases ih _ (Word.add va 0x1000) hm' with ⟨n, hn⟩ | ⟨hlow, n, m', hn, hmapped⟩
    · exact .inl ⟨n + 1, hn⟩
    · exact .inr ⟨countLow_succ hva hlow, n + 1, m', hn, hmapped⟩

/-- The pre-flight, which the second direction does not go through. -/
def Job.isResolve : Job → Bool
  | .resolve .. => true
  | _ => false

/-- If nothing strays, every loop was low, and the next one is reached. -/
lemma jobs_low_or_stray (jobs : List Job) :
    ∀ m : Machine, Mapped m → (∀ j ∈ jobs, j.Bounded) →
      (∃ n, Strays (Job.step^[n] (m, jobs)).1) ∨ ∀ j ∈ jobs, j.isResolve = false → j.Low := by
  induction jobs with
  | nil => exact fun m _ _ => .inr nofun
  | cons j rest ih =>
    intro m hm hbound
    obtain ⟨hj, hrest⟩ := forall_mem_cons.mp hbound
    -- once the first loop has ended, the others are as the induction says
    have hend : (j.isResolve = false → j.Low) →
        (∃ n m', Job.step^[n] (m, j :: rest) = (m', rest) ∧ Mapped m') →
        (∃ n, Strays (Job.step^[n] (m, j :: rest)).1) ∨
          ∀ i ∈ j :: rest, i.isResolve = false → i.Low := by
      rintro hlow ⟨n, m', hn, hm'⟩
      rcases ih m' hm' hrest with ⟨k, hk⟩ | hall
      · refine .inl ⟨k + n, ?_⟩
        rw [iterate_add_apply, hn]
        exact hk
      · exact .inr (forall_mem_cons.mpr ⟨hlow, hall⟩)
    rcases j with ⟨work, pg, stop⟩ | ⟨va, phys, pages⟩ | ⟨areas, va, stop, whole, undo⟩
      | ⟨va, pages⟩
    · by_cases hlow : PagesLow pg stop
      · exact hend (fun _ => hlow) (loop_ends hj m pg hm hlow)
      simp only [PagesLow, not_forall, not_not] at hlow
      obtain ⟨k, hk, hbad⟩ := hlow
      exact .inl (loop_reaches hj k m pg hm hk hbad)
    · rcases attach_runs rest pages m va phys hm with hstray | ⟨hlow, hends⟩
      · exact .inl hstray
      · exact hend (fun _ => hlow) hends
    · refine hend nofun ⟨1, m, ?_, hm⟩
      simp [Job.step, hm.held]
    rcases copy_runs rest pages m va hm with hstray | ⟨hlow, hends⟩
    · exact .inl hstray
    · exact hend (fun _ => hlow) hends

/-! ## The loops of the six calls -/

/-- It is a sweep. -/
def Job.IsSweep (j : Job) : Prop := ∃ base length, j = sweepJob base length

lemma Job.IsSweep.bounded (h : j.IsSweep) : j.Bounded := by
  obtain ⟨base, length, rfl⟩ := h
  show Word.satAdd base length < 2 ^ 64
  rw [Word.satAdd]
  omega

lemma Job.IsSweep.isResolve (h : j.IsSweep) : j.isResolve = false := by
  obtain ⟨base, length, rfl⟩ := h
  rfl

lemma evictionJobs_sweep :
    ∀ {base : ℕ} {m : Mm}, ∀ j ∈ c.evictionJobs backing name evictsLeft base m, j.IsSweep := by
  induction evictsLeft with
  | zero =>
    intro base m j hj
    rw [evictionJobs] at hj
    split at hj <;> cases hj
  | succ n ih =>
    intro base m j hj
    rw [evictionJobs] at hj
    split at hj
    · rcases mem_cons.mp hj with rfl | hj
      · exact ⟨_, _, rfl⟩
      · exact ih j hj
    · cases hj

lemma mmapJobs_sweep {m : Mm} : ∀ j ∈ mmapJobs c m, j.IsSweep := by
  intro j hj
  obtain ⟨-, hj⟩ := mem_ite_nil_left.mp hj
  split at hj
  · cases hj
  split at hj
  · rcases mem_cons.mp hj with rfl | hj
    · exact ⟨_, _, rfl⟩
    · exact evictionJobs_sweep j hj
  · exact evictionJobs_sweep j hj

lemma munmapJobs_sweep {addr : ℕ} : ∀ j ∈ munmapJobs addr length, j.IsSweep := by
  intro j hj
  rw [mem_singleton.mp (mem_ite_nil_left.mp hj).2]
  exact ⟨_, _, rfl⟩

lemma mmapCommit_result {P : ℕ → Prop}
    (hkeep : ∀ evictsLeft base m, P base → P (c.mmapPhase3 backing name evictsLeft 8 base m).2.1) :
    ∀ {base : ℕ} {m : Mm}, P base → 0 ≤ (c.mmapCommit backing name evictsLeft base m).2 →
      ∃ b, P b ∧ (c.mmapCommit backing name evictsLeft base m).2 = asI64 b := by
  have hneg : ¬ 0 ≤ ENOMEM := by decide
  induction evictsLeft with
  | zero =>
    intro base m hbase hpos
    have hb' := hkeep 0 base m hbase
    rw [mmapCommit] at hpos ⊢
    rcases hphase : c.mmapPhase3 backing name 0 8 base m with ⟨m', b', step⟩
    rw [hphase] at hpos hb'
    rcases step with (- | b) | slot | -
    · exact absurd hpos hneg
    · exact ⟨b', hb', by rw [mmapPhase3_done hphase]⟩
    · exact absurd hpos hneg
    · exact absurd hpos hneg
  | succ n ih =>
    intro base m hbase hpos
    have hb' := hkeep (n + 1) base m hbase
    rw [mmapCommit] at hpos ⊢
    rcases hphase : c.mmapPhase3 backing name (n + 1) 8 base m with ⟨m', b', step⟩
    rw [hphase] at hpos hb'
    rcases step with (- | b) | slot | -
    · exact absurd hpos hneg
    · exact ⟨b', hb', by rw [mmapPhase3_done hphase]⟩
    · exact ih hb' hpos
    · exact absurd hpos hneg

lemma sysMmap_success {m : Mm} (hpos : 0 ≤ (sysMmap c m).2) :
    c.length ≠ 0 ∧ ∃ base backing name m₁, c.mmapPhase1 m = .ok (base, backing, name) ∧
      (sysMmap c m).2 = (c.mmapCommit backing name 2 base m₁).2 := by
  rw [sysMmap] at hpos ⊢
  by_cases hlen : c.length = 0
  · rw [if_pos hlen] at hpos
    exact absurd hpos (show ¬ 0 ≤ EINVAL by decide)
  rw [if_neg hlen] at hpos ⊢
  refine ⟨hlen, ?_⟩
  rcases hphase : c.mmapPhase1 m with e | ⟨base, backing, name⟩
  · rw [hphase] at hpos
    exact absurd hpos (Int.not_le.mpr (mmapPhase1_error hphase))
  dsimp only
  split
  · exact ⟨base, backing, name, _, rfl, rfl⟩
  · exact ⟨base, backing, name, _, rfl, rfl⟩

/-- What a fixed `mmap` returns on success is the base of the range it swept. -/
lemma sysMmap_fixed (hf : c.isFixed) (hr : c.isNoreplace = false) {m : Mm}
    (hpos : 0 ≤ (sysMmap c m).2) :
    ∃ base < 2 ^ 64, sweepJob base c.roundedLength ∈ mmapJobs c m ∧
      (sysMmap c m).2 = asI64 base := by
  obtain ⟨hlen, base, backing, name, m₁, hphase, hres⟩ := sysMmap_success hpos
  refine ⟨base, ?_, ?_, ?_⟩
  · have hchoose := mmapPhase1_ok hphase
    rw [chooseBase, if_pos hf] at hchoose
    dsimp only at hchoose
    split_ifs at hchoose
    rw [← Except.ok.inj hchoose, pageAlignDown_eq]
    omega
  · rw [mmapJobs, if_neg hlen, hphase]
    dsimp only
    rw [if_pos (by rw [hf, hr]; rfl)]
    simp
  rw [hres] at hpos ⊢
  obtain ⟨b, rfl, hb⟩ := mmapCommit_result (fun evictsLeft b m hb => by
    obtain ⟨m', step, heq, -⟩ := mmapPhase3_fixed hf backing name evictsLeft 8 b m
    rw [heq]
    exact hb) rfl hpos
  exact hb

/-- What a kernel-chosen `mmap` returns lies in the lower half, with the length of the mapping. -/
lemma sysMmap_chosen (hf : c.isFixed = false) {m : Mm} (hpos : 0 ≤ (sysMmap c m).2) :
    ∃ base, base + c.roundedLength ≤ stackAslrMax ∧ (sysMmap c m).2 = asI64 base := by
  obtain ⟨hlen, base, backing, name, m₁, hphase, hres⟩ := sysMmap_success hpos
  rw [hres] at hpos ⊢
  refine mmapCommit_result (fun evictsLeft b m hb => ?_) ?_ hpos
  · rcases hp : c.mmapPhase3 backing name evictsLeft 8 b m with ⟨m', b', step⟩
    rcases (mmapPhase3_cases hp).1 with rfl | ⟨k, hk⟩
    · exact hb
    · exact pick_le hk
  have hchoose := mmapPhase1_ok hphase
  rw [chooseBase, hf, if_neg Bool.false_ne_true] at hchoose
  split at hchoose
  next b hb =>
    rw [← Except.ok.inj hchoose]
    exact pick_le hb
  · cases hchoose

/-- The moved bytes and the undo of the move are the only ranges that `mremap` does not get from the
calls it is made of. -/
lemma moveJobs_low {c : MremapCall}
    (hundo : PagesLow dest (Word.satAdd dest (pageAlignUp c.newSize)))
    (h : ∀ j ∈ c.moveJobs areas dest bytes, j.isResolve = false → j.Low) :
    ∀ j ∈ c.moveJobs areas dest bytes, j.Low := by
  intro j hj
  by_cases hres : j.isResolve = false
  · exact h j hj hres
  have hcopy : CountLow dest ((bytes + 4095) / 4096) :=
    h (.copy dest ((bytes + 4095) / 4096)) (by simp [MremapCall.moveJobs]) rfl
  rcases mem_append.mp hj with hj | hj
  · rcases mem_cons.mp hj with rfl | hj
    · refine ⟨fun k hk => ?_, hundo⟩
      have hk' : dest + 4096 * k < min (dest + bytes) (2 ^ 64 - 1) := hk
      have := hcopy k (by omega)
      rwa [Word.add_eq (by omega)] at this
    · rw [mem_singleton.mp hj] at hres
      exact absurd rfl hres
  · exact absurd (munmapJobs_sweep j hj).isResolve hres

lemma asI64_toNat {x : ℕ} (hx : x < 2 ^ 64) (h : 0 ≤ asI64 x) : (asI64 x).toNat = x := by
  rw [asI64] at h ⊢
  split_ifs at h ⊢ with hlt
  · exact Int.toNat_natCast x
  · omega

lemma pagesLow_of_le {base : ℕ} (h : base + length ≤ stackAslrMax) :
    PagesLow base (Word.satAdd base length) := by
  intro k hk
  rw [stackAslrMax] at h
  have hk' : base + 4096 * k < min (base + length) (2 ^ 64 - 1) := hk
  rw [not_inKernelHalf_iff]
  omega

/-- The loops of `mremap` are sweeps and those of one move, all of which is there. The range that an
unsuccessful move unmaps again is low if the other loops are. -/
lemma mremap_job_cases (c : MremapCall) (m : Mm) : ∀ j ∈ c.jobs m, j.IsSweep ∨
    ∃ areas dest bytes, j ∈ c.moveJobs areas dest bytes ∧
      (∀ i ∈ c.moveJobs areas dest bytes, i ∈ c.jobs m) ∧
      ((∀ i ∈ c.jobs m, i.isResolve = false → i.Low) →
        PagesLow dest (Word.satAdd dest (pageAlignUp c.newSize))) := by
  intro j hj
  rw [MremapCall.jobs] at hj ⊢
  dsimp only at hj ⊢
  obtain ⟨hnew, hj⟩ := mem_ite_nil_left.mp hj
  rw [if_neg hnew]
  split at hj
  · split at hj
    · exact .inl (munmapJobs_sweep j hj)
    · cases hj
  rename_i hgrow
  rw [if_neg hgrow]
  split at hj
  next hfixed =>
    rw [if_pos hfixed]
    rcases mem_append.mp hj with hj | hj
    · exact .inl (mmapJobs_sweep j hj)
    obtain ⟨hplace, hj⟩ := mem_ite_nil_left.mp hj
    rw [if_neg hplace]
    split at hj
    next hmay =>
      rw [if_pos hmay]
      rcases mem_append.mp hj with hj | hj
      · exact .inl (mmapJobs_sweep j hj)
      obtain ⟨hdest, hj⟩ := mem_ite_nil_left.mp hj
      rw [if_neg hdest]
      refine .inr ⟨_, _, _, hj, fun i hi =>
        mem_append_right _ (by simp [hi]), fun _ => ?_⟩
      -- the kernel chose the destination
      obtain ⟨base, hle, hres⟩ := sysMmap_chosen (c := c.mmapCall 0 c.newSize 0)
        (show decide (mapAnonymous &&& (mapFixed ||| mapFixedNoreplace) ≠ 0) = false by decide)
          (Int.not_lt.mp hdest)
      rw [hres] at hdest ⊢
      rw [asI64_toNat (by rw [stackAslrMax] at hle; omega) (Int.not_lt.mp hdest)]
      exact pagesLow_of_le hle
    · cases hj
  next hfixed =>
    rw [if_neg hfixed]
    rcases mem_append.mp hj with hj | hj
    · exact .inl (mmapJobs_sweep j hj)
    obtain ⟨hdest, hj⟩ := mem_ite_nil_left.mp hj
    rw [if_neg hdest]
    refine .inr ⟨_, _, _, hj, fun i => mem_append_right _, fun hlow => ?_⟩
    -- the destination is the range that was swept
    obtain ⟨base, hbase, hsweep, hres⟩ :=
      sysMmap_fixed (c := c.mmapCall c.newAddr c.newSize mapFixed)
      (show decide ((mapAnonymous ||| mapFixed) &&& (mapFixed ||| mapFixedNoreplace) ≠ 0) by decide)
      (show decide ((mapAnonymous ||| mapFixed) &&& mapFixedNoreplace ≠ 0) = false by decide)
        (Int.not_lt.mp hdest)
    have := hlow _ (mem_append_left _ hsweep) rfl
    rw [hres] at hdest ⊢
    rw [asI64_toNat hbase (Int.not_lt.mp hdest)]
    exact this

lemma UserCall.jobs_bounded (call : UserCall) (m : Mm) : ∀ j ∈ call.jobs m, j.Bounded := by
  intro j hj
  rcases call with c | ⟨addr, length⟩ | ⟨addr, len, prot⟩ | ⟨addr, len, advice⟩ | c | ⟨seg, shmaddr⟩
  · exact (mmapJobs_sweep j hj).bounded
  · exact (munmapJobs_sweep j hj).bounded
  · rw [mem_singleton.mp (mem_ite_nil_left.mp hj).2]
    exact pageAlignUp_lt _
  · rw [mem_singleton.mp (mem_ite_nil_left.mp hj).2]
    exact pageAlignUp_lt _
  · rcases mremap_job_cases c m j hj with h | ⟨areas, dest, bytes, hmem, -, -⟩
    · exact h.bounded
    have hsat : ∀ a b, Word.satAdd a b < 2 ^ 64 := fun a b => by
      rw [Word.satAdd]
      omega
    rcases mem_append.mp hmem with hj | hj
    · rcases mem_cons.mp hj with rfl | hj
      · exact ⟨hsat _ _, hsat _ _⟩
      · rw [mem_singleton.mp hj]
        trivial
    · exact (munmapJobs_sweep j hj).bounded
  · rw [mem_singleton.mp (mem_ite_nil_left.mp hj).2]
    trivial

/-- Only `mremap` has a pre-flight. -/
lemma UserCall.jobs_low (call : UserCall) (m : Mm)
    (h : ∀ j ∈ call.jobs m, j.isResolve = false → j.Low) : ∀ j ∈ call.jobs m, j.Low := by
  intro j hj
  by_cases hres : j.isResolve = false
  · exact h j hj hres
  rcases call with c | ⟨addr, length⟩ | ⟨addr, len, prot⟩ | ⟨addr, len, advice⟩ | c | ⟨seg, shmaddr⟩
  · exact absurd (mmapJobs_sweep j hj).isResolve hres
  · exact absurd (munmapJobs_sweep j hj).isResolve hres
  · rw [mem_singleton.mp (mem_ite_nil_left.mp hj).2] at hres
    exact absurd rfl hres
  · rw [mem_singleton.mp (mem_ite_nil_left.mp hj).2] at hres
    exact absurd rfl hres
  · rcases mremap_job_cases c m j hj with hsweep | ⟨areas, dest, bytes, hmem, hsub, hundo⟩
    · exact absurd hsweep.isResolve hres
    · exact moveJobs_low (hundo h) (fun i hi => h i (hsub i hi)) j hmem
  · rw [mem_singleton.mp (mem_ite_nil_left.mp hj).2] at hres
    exact absurd rfl hres

/-! ## Calls -/

/-- The upper half is made of 2 MiB leaves and the lower half of 4 KiB leaves. -/
structure Root.Split (root : Root) : Prop where
  upper : ∀ i ≥ 256, ∀ u pdpt, root i = .table u pdpt → ∀ j u' pd, pdpt j = .table u' pd →
    ∀ k u'' pt, pd k ≠ .table u'' pt
  lower : ∀ i < 256, ∀ u pdpt, root i = .table u pdpt → ∀ j u' pd, pdpt j = .table u' pd →
    ∀ k pte, pd k ≠ .huge pte

lemma mappedRoot_split : Root.Split mappedRoot := by
  refine ⟨fun i hi u pdpt h j u' pd h' k u'' pt => ?_, fun i hi u pdpt h => ?_⟩
  · rw [mappedRoot, if_pos hi] at h
    obtain ⟨-, rfl⟩ := Pml4Entry.table.inj h
    obtain ⟨-, rfl⟩ := PdptEntry.table.inj h'
    exact nofun
  · rw [mappedRoot, if_neg (not_le.mpr hi)] at h
    cases h

/-- A process in which nothing of the call has happened yet. -/
structure Machine.Fresh (m : Machine) : Prop where
  split : Root.Split m.root
  effects : m.effects = []

/-- **Which calls stay out of the upper half.** A call leaves the upper half alone, on every page
table and at every point of its execution, exactly when none of the page loops it runs has a page
there. -/
theorem call_confined_iff (call : UserCall) (mm : Mm) :
    (∀ m : Machine, m.Fresh → ∀ n, Confined m (Job.step^[n] (m, call.jobs mm)).1) ↔
    ∀ j ∈ call.jobs mm, j.Low := by
  have hbound := call.jobs_bounded mm
  refine ⟨fun h => ?_, fun hlow m hm n => ?_⟩
  · -- the page table that maps the upper half throughout
    let m : Machine :=
      { root := mappedRoot, count := fun _ => 0, frames := fun _ => none, tableHeld := true
        effects := [] }
    rcases jobs_low_or_stray (call.jobs mm) m ⟨fun _ _ => rfl, rfl⟩ hbound
      with ⟨n, e, he, hva⟩ | hlow
    · exact absurd hva ((h m ⟨mappedRoot_split, rfl⟩ n).effects e he)
    · exact call.jobs_low mm hlow
  · exact run_confined hm.effects (fun j hj => ⟨hlow j hj, hbound j hj⟩) n

/-- One page unmapped in the direct map: a word of the 2 MiB frame behind it is overwritten, and the
page itself is freed. -/
theorem munmap_strays :
    ∃ m : Machine, m.Fresh ∧
      (Job.step^[1] (m, munmapJobs 0xFFFF800000005000 0x1000)).1.effects =
        [.free 0xFFFF800000005000 0x5000, .frame 0xFFFF800000005000 0] :=
  ⟨{
    root := mappedRoot, count := fun _ => 0, frames := fun _ => none, tableHeld := true,
    effects := [] },
    ⟨mappedRoot_split, rfl⟩, by decide +kernel⟩

end Astryx
