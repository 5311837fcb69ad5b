import Astryx.Lib.Transition
import Mathlib

/-!
# Advisory file locks

`FILE_LOCKS` (`vfs/mod.rs`) under `flock` and the lock commands of `fcntl`
(`subsys/linux/syscall.rs`). A call tests for a conflict in one critical section and inserts its
entry in another, so two calls can both pass the test.

## Main results

* `lockRun_excludes` — no two entries conflict if no two calls that conflict are between test and
  insertion at once
-/

namespace Astryx.Vfs

open List Transition

/-- A lock on a range of a file. -/
structure FileLockEntry where
  mountIdx : ℕ
  inode : ℕ
  pid : ℕ
  start : ℕ
  end_ : ℕ
  lockType : ℤ
  deriving DecidableEq

/-- The type of a lock for writing. -/
def F_WRLCK : ℤ := 1

/-- A lock that is held and the one that is asked for are on one file, by two processes, and one is
exclusive. -/
abbrev FileLockEntry.Conflicts (l e : FileLockEntry) : Prop :=
  l.mountIdx = e.mountIdx ∧ l.inode = e.inode ∧ l.pid ≠ e.pid ∧
    (e.lockType = F_WRLCK ∨ l.lockType = F_WRLCK)

/-- What `LOCK_UN`, `F_UNLCK` and `close` do, and an insertion does first. -/
def releaseLocks (locks : List FileLockEntry) (mountIdx inode pid : ℕ) : List FileLockEntry :=
  locks.filter fun l => ¬ (l.mountIdx = mountIdx ∧ l.inode = inode ∧ l.pid = pid)

/-- The lock replaces those of the process on the file. -/
def insertLock (locks : List FileLockEntry) (e : FileLockEntry) : List FileLockEntry :=
  releaseLocks locks e.mountIdx e.inode e.pid ++ [e]

/-- The table, and the calls of threads that found no conflict and have not inserted yet. -/
structure LockSystem where
  locks : List FileLockEntry
  tested : List (ℕ × FileLockEntry)

/-- A critical section. -/
inductive LockOp where
  /-- The first critical section of a call; one that finds a conflict ends with `EAGAIN`. -/
  | test (tid : ℕ) (e : FileLockEntry)
  | insert (tid : ℕ)
  | release (mountIdx inode pid : ℕ)
  | exit (pid : ℕ)

/-- One critical section. -/
def lockStep (s : LockSystem) : LockOp → Option LockSystem
  | .test tid e =>
    if ∃ x ∈ s.tested, x.1 = tid then none
    else some (if ∃ l ∈ s.locks, l.Conflicts e then s
      else { s with tested := (tid, e) :: s.tested })
  | .insert tid => (s.tested.find? (·.1 = tid)).map fun x =>
    ⟨insertLock s.locks x.2, s.tested.filter (·.1 ≠ tid)⟩
  | .release mountIdx inode pid => some { s with locks := releaseLocks s.locks mountIdx inode pid }
  | .exit pid => some { s with locks := s.locks.filter (·.pid ≠ pid) }

/-- No call for a lock that conflicts is between its two critical sections. -/
def LockOk (s : LockSystem) : LockOp → Prop
  | .test _ e => ∀ x ∈ s.tested, ¬ x.2.Conflicts e
  | _ => True

instance LockOk.decidable (s : LockSystem) (op : LockOp) : Decidable (LockOk s op) := by
  cases op <;> dsimp only [LockOk] <;> infer_instance

/-- The locks that are held or as good as held. -/
def LockSystem.taken (s : LockSystem) : List FileLockEntry := s.locks ++ s.tested.map Prod.snd

/-- No two locks that are held or about to be conflict. -/
def LockSystem.Excludes (s : LockSystem) : Prop := ∀ e ∈ s.taken, ∀ f ∈ s.taken, ¬ e.Conflicts f

lemma lockStep_excludes {s t : LockSystem} {op : LockOp} (h : s.Excludes) (hok : LockOk s op)
    (hstep : lockStep s op = some t) : t.Excludes := by
  -- only a test that succeeds takes a lock
  have hless : t.taken ⊆ s.taken → t.Excludes := fun hsub e he f hf => h e (hsub he) f (hsub hf)
  cases op with
  | test tid e =>
    obtain ⟨-, rfl⟩ := of_guard_not hstep
    split_ifs with hconflict
    · exact h
    have hnew : ∀ f ∈ s.taken, ¬ f.Conflicts e :=
      forall_mem_append.mpr ⟨fun f hf hc => hconflict ⟨f, hf, hc⟩, forall_mem_map.mpr hok⟩
    have htaken : ∀ f ∈ LockSystem.taken { s with tested := (tid, e) :: s.tested }, f = e ∨
        f ∈ s.taken := by
      simp [LockSystem.taken, or_left_comm]
    intro f hf g hg hc
    rcases htaken f hf with rfl | hf' <;> rcases htaken g hg with rfl | hg'
    · exact hc.2.2.1 rfl
    · exact hnew g hg' ⟨hc.1.symm, hc.2.1.symm, hc.2.2.1.symm, hc.2.2.2.symm⟩
    · exact hnew f hf' hc
    · exact h f hf' g hg' hc
  | insert tid =>
    obtain ⟨x, hx, rfl⟩ := Option.map_eq_some_iff.mp hstep
    have hheld : x.2 ∈ s.taken := mem_append_right _ (mem_map_of_mem (mem_of_find?_eq_some hx))
    refine hless (append_subset.mpr ⟨append_subset.mpr ⟨?_, ?_⟩, ?_⟩)
    · exact fun f hf => mem_append_left _ (mem_filter.mp hf).1
    · exact fun f hf => mem_singleton.mp hf ▸ hheld
    · exact fun f hf => mem_append_right _ ((filter_sublist.map _).subset hf)
  | release mountIdx inode pid | exit pid =>
    cases hstep
    exact hless (filter_sublist.append_right _).subset

/-- **File locks exclude**, if conflicting calls do not overlap. -/
theorem lockRun_excludes {ops : List LockOp} (hok : Guarded lockStep LockOk ⟨[], []⟩ ops)
    {t : LockSystem} (hrun : run lockStep ⟨[], []⟩ ops = some t) :
    ∀ e ∈ t.locks, ∀ f ∈ t.locks, ¬ e.Conflicts f := by
  have hinv : t.Excludes := run_guarded (fun _ _ _ => lockStep_excludes)
    (fun _ he => absurd he not_mem_nil) hok hrun
  exact fun e he f hf => hinv e (mem_append_left _ he) f (mem_append_left _ hf)

/-- The second process tries again after the first has closed the file. -/
def retried : List LockOp :=
  [.test 1 ⟨0, 5, 1, 0, 0, 1⟩, .insert 1, .test 2 ⟨0, 5, 2, 0, 0, 1⟩, .release 0 5 1,
  .test 2 ⟨0, 5, 2, 0, 0, 1⟩, .insert 2]

theorem lockRun_excludes_of_retry :
    ∃ t, run lockStep ⟨[], []⟩ retried = some t ∧ t.locks = [⟨0, 5, 2, 0, 0, 1⟩] ∧
    ∀ e ∈ t.locks, ∀ f ∈ t.locks, ¬ e.Conflicts f := by
  have hok : Guarded lockStep LockOk ⟨[], []⟩ retried := by decide
  exact ⟨_, rfl, rfl, lockRun_excludes hok rfl⟩

/-- Both test before either inserts: two exclusive locks on one file. -/
theorem lock_twice :
    (run lockStep ⟨[], []⟩ [.test 1 ⟨0, 5, 1, 0, 0, 1⟩, .test 2 ⟨0, 5, 2, 0, 0, 1⟩, .insert 1,
      .insert 2]).map
    (·.locks) = some [⟨0, 5, 1, 0, 0, 1⟩, ⟨0, 5, 2, 0, 0, 1⟩] := rfl

end Astryx.Vfs
