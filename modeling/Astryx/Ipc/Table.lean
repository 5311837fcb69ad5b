import Astryx.Ipc.Pipe
import Astryx.Lib.Transition
import Astryx.Lib.Word

/-!
# The table of pipes

The calls of `ipc/pipe.rs` that open and close the ends of a pipe. Each holds the lock of
`PIPE_TABLE` all the time, so it is one step. The table counts the ends of a pipe in 32 bits; beside
it stand the ends that are open. Only a call that closes a reader removes pipes without an end, and
it removes all of them; a pipe whose last end is a writer stays.

A pipe is found by its number, and no two pipes have the same one, so the table is a function of the
number.

## Main results

* `tableRun_present_iff` — a pipe is in the table exactly while an end is open, if no writer is the
  last end to be closed
* `lastWriter_leaves_pipe` — a pipe stays when its writer is closed last
-/

namespace Astryx.Ipc

open Function Transition

/-- The kinds of ends. -/
inductive End where
  | reader
  | writer
  deriving DecidableEq

namespace Pipe

/-- The ends of a kind that the pipe counts. -/
def ends (p : Pipe) : End → ℕ
  | .reader => p.readers
  | .writer => p.writers

/-- The count of a kind changes. -/
def setEnds (p : Pipe) (n : ℕ) : End → Pipe
  | .reader => { p with readers := n }
  | .writer => { p with writers := n }

/-- An end is left. -/
def live (p : Pipe) : Bool := 0 < p.readers || 0 < p.writers

end Pipe

/-! ## The calls -/

section

variable (e : End) (id : ℕ) (pipes : ℕ → Option Pipe)

/-- The count of the pipe with the number changes, if there is one. -/
def recount (f : ℕ → ℕ) : ℕ → Option Pipe :=
  update pipes id ((pipes id).map fun p => p.setEnds (f (p.ends e)) e)

/-- The count saturates. -/
def pipeAddReader : ℕ → Option Pipe := recount .reader id pipes fun n => min (n + 1) (2 ^ 32 - 1)

/-- The count saturates. -/
def pipeAddWriter : ℕ → Option Pipe := recount .writer id pipes fun n => min (n + 1) (2 ^ 32 - 1)

/-- The pipes without an end are removed, whatever their number. -/
def pipeCloseReader : ℕ → Option Pipe :=
  fun k => (recount .reader id pipes (· - 1) k).filter Pipe.live

/-- Nothing is removed. -/
def pipeCloseWriter : ℕ → Option Pipe := recount .writer id pipes (· - 1)

/-- The call that opens one more end. -/
def pipeAdd : ℕ → Option Pipe :=
  match e with
  | .reader => pipeAddReader id pipes
  | .writer => pipeAddWriter id pipes

/-- The call that closes an end. -/
def pipeClose : ℕ → Option Pipe :=
  match e with
  | .reader => pipeCloseReader id pipes
  | .writer => pipeCloseWriter id pipes

end

/-- `PIPE_TABLE` and `NEXT_PIPE_ID`, with the ends of each pipe that are open. -/
structure PipeTable where
  pipes : ℕ → Option Pipe
  nextId : ℕ
  ends : ℕ → End → ℕ

/-- The table at boot. -/
def PipeTable.boot : PipeTable := ⟨fun _ => none, 1, fun _ _ => 0⟩

/-- All open ends of a pipe. -/
def total (ends : End → ℕ) : ℕ := ends .reader + ends .writer

/-- A call on the table. -/
inductive TableOp where
  | create
  | add (e : End) (id : ℕ)
  | close (e : End) (id : ℕ)

/-- One call. Who opens an end of a pipe has one of its ends, and who closes one has it. -/
def tableStep (s : PipeTable) : TableOp → Option PipeTable
  | .create =>
    some ⟨update s.pipes s.nextId (some (.new s.nextId)), Word.add s.nextId 1,
      update s.ends s.nextId fun _ => 1⟩
  | .add e id =>
    if 0 < total (s.ends id) then
      some { s with
        pipes := pipeAdd e id s.pipes
        ends := update s.ends id (update (s.ends id) e (s.ends id e + 1)) }
    else none
  | .close e id =>
    if 0 < s.ends id e then
      some { s with
        pipes := pipeClose e id s.pipes
        ends := update s.ends id (update (s.ends id) e (s.ends id e - 1)) }
    else none

/-- No writer is closed last, and neither numbers nor counts run out. -/
def KeepsTable (s : PipeTable) : TableOp → Prop
  | .create => s.nextId < 2 ^ 64 - 1
  | .add e id => s.ends id e < 2 ^ 32 - 1
  | .close .reader _ => True
  | .close .writer id => total (s.ends id) ≠ 1

instance decidableKeepsTable (s : PipeTable) : DecidablePred (KeepsTable s)
  | .create | .add _ _ => inferInstanceAs (Decidable (_ < _))
  | .close .reader _ => inferInstanceAs (Decidable True)
  | .close .writer _ => inferInstanceAs (Decidable (_ ≠ _))

/-! ## The invariant -/

/-- The entry of a pipe with these open ends: there is one if an end is open, and it counts them. -/
def Agrees (ends : End → ℕ) : Option Pipe → Prop
  | some p => p.ends = ends ∧ 0 < total ends
  | none => total ends = 0

/-- Every entry of the table agrees with the open ends, and numbers to come are not in use. -/
structure PipeTable.Inv (s : PipeTable) : Prop where
  agrees : ∀ id, Agrees (s.ends id) (s.pipes id)
  fresh : ∀ id, s.nextId ≤ id → s.pipes id = none

variable {e : End} {id n : ℕ} {p : Pipe} {o : Option Pipe} {ends : End → ℕ} {s s' : PipeTable}

lemma Pipe.setEnds_ends (p : Pipe) (n : ℕ) (e : End) :
    (p.setEnds n e).ends = update p.ends e n := by
  funext e'
  cases e <;> cases e' <;> rfl

lemma Pipe.live_iff : p.live ↔ 0 < total p.ends := by
  simp [live, total, ends]

lemma total_update (ends : End → ℕ) (e : End) (n : ℕ) :
    total (update ends e n) + ends e = total ends + n := by
  cases e <;> simp [total] <;> omega

lemma Agrees.isSome_iff (h : Agrees ends o) : o.isSome ↔ 0 < total ends := by
  cases o with
  | none => simp [show total ends = 0 from h]
  | some p => simp [h.2]

/-- A pipe with an open end is not removed. -/
lemma Agrees.filter_eq (h : Agrees ends o) : o.filter Pipe.live = o := by
  cases o with
  | none => rfl
  | some p => simp [Option.filter, Pipe.live_iff, h.1, h.2]

/-- A count follows the open ends, and a pipe without one is removed. -/
lemma agrees_filter (hp : p.ends = ends) (e : End) (n : ℕ) :
    Agrees (update ends e n) ((some (p.setEnds n e)).filter Pipe.live) := by
  have hends : (p.setEnds n e).ends = update ends e n := by rw [Pipe.setEnds_ends, hp]
  by_cases hpos : 0 < total (update ends e n)
  · rw [Option.filter_some_pos (Pipe.live_iff.mpr (hends ▸ hpos))]
    exact ⟨hends, hpos⟩
  · have hdead : (p.setEnds n e).live = false :=
      Bool.eq_false_iff.mpr fun hlive => hpos (hends ▸ Pipe.live_iff.mp hlive)
    rw [Option.filter_some_neg hdead]
    exact Nat.eq_zero_of_not_pos hpos

namespace PipeTable.Inv

section

variable (h : s.Inv) (f : ℕ → ℕ) (hopen : 0 < total (s.ends id)) (hf : f (s.ends id e) = n)
include h hopen hf

/-- One count changes with the open ends, and pipes without an end are removed. -/
lemma filter_recount : Inv { s with
    pipes := fun k => (recount e id s.pipes f k).filter Pipe.live
    ends := update s.ends id (update (s.ends id) e n) } := by
  have hid := h.agrees id
  obtain ⟨p, hp⟩ := Option.isSome_iff_exists.mp (hid.isSome_iff.mpr hopen)
  rw [hp] at hid
  refine ⟨fun k => ?_, fun k hk => ?_⟩ <;> dsimp only [recount]
  · by_cases hk : k = id
    · subst hk
      rw [update_self, update_self, hp, Option.map_some, hid.1, hf]
      exact agrees_filter hid.1 e n
    · rw [update_of_ne hk, update_of_ne hk, (h.agrees k).filter_eq]
      exact h.agrees k
  · have hne : k ≠ id := by
      rintro rfl
      rw [h.fresh k hk] at hp
      cases hp
    rw [update_of_ne hne, h.fresh k hk]
    rfl

/-- Nothing is removed when the pipe keeps an end. -/
lemma recount_inv (hpos : s.ends id e < total (s.ends id) + n) : Inv { s with
    pipes := recount e id s.pipes f
    ends := update s.ends id (update (s.ends id) e n) } := by
  have hinv := h.filter_recount f hopen hf
  have hall : (fun k => (recount e id s.pipes f k).filter Pipe.live) = recount e id s.pipes f := by
    funext k
    by_cases hk : k = id
    · subst hk
      have hself := total_update (s.ends k) e n
      have hagrees := hinv.agrees k
      simp only [update_self] at hagrees
      have hsome := hagrees.isSome_iff.mpr (by omega)
      obtain ⟨p, hp⟩ := Option.isSome_iff_exists.mp hsome
      rw [hp]
      exact (Option.filter_eq_some_iff.mp hp).1.symm
    · rw [recount, update_of_ne hk]
      exact (h.agrees k).filter_eq
  rwa [hall] at hinv

end

lemma create (h : s.Inv) (hnext : s.nextId < 2 ^ 64 - 1) (hs : tableStep s .create = some s') :
    s'.Inv := by
  cases hs
  have hadd : Word.add s.nextId 1 = s.nextId + 1 := Word.add_eq (by omega)
  refine ⟨fun k => ?_, fun k hk => ?_⟩ <;> dsimp only at *
  · by_cases hk : k = s.nextId
    · rw [hk, update_self, update_self]
      exact ⟨funext fun e => by cases e <;> rfl, by decide⟩
    · rw [update_of_ne hk, update_of_ne hk]
      exact h.agrees k
  · rw [update_of_ne (by omega)]
    exact h.fresh k (by omega)

end PipeTable.Inv

lemma tableStep_inv {op : TableOp} (h : s.Inv) (hok : KeepsTable s op)
    (hs : tableStep s op = some s') : s'.Inv := by
  cases op with
  | create => exact h.create hok hs
  | add e id =>
    obtain ⟨hopen, rfl⟩ := of_guard hs
    have hf : min (s.ends id e + 1) (2 ^ 32 - 1) = s.ends id e + 1 := min_eq_left hok
    have hpos : s.ends id e < total (s.ends id) + (s.ends id e + 1) := by omega
    cases e with
    | reader => exact h.recount_inv (fun n => min (n + 1) (2 ^ 32 - 1)) hopen hf hpos
    | writer => exact h.recount_inv (fun n => min (n + 1) (2 ^ 32 - 1)) hopen hf hpos
  | close e id =>
    obtain ⟨hend, rfl⟩ := of_guard hs
    cases e with
    | reader => exact h.filter_recount (· - 1) (Nat.add_pos_left hend _) rfl
    | writer =>
      refine h.recount_inv (· - 1) (Nat.add_pos_right _ hend) rfl ?_
      have hlast : total (s.ends id) ≠ 1 := hok
      rw [total] at hlast ⊢
      omega

/-- **Pipes are freed with their last end.** Along every run in which no writer is closed last, a
pipe is in the table exactly while one of its ends is open, and closing an end of one pipe does not
touch the others. -/
theorem tableRun_present_iff {ops : List TableOp} (hok : Guarded tableStep KeepsTable .boot ops)
    (m : ℕ) (hrun : run tableStep .boot (ops.take m) = some s) :
    (∀ id, (s.pipes id).isSome ↔ 0 < s.ends id .reader + s.ends id .writer) ∧
      ∀ e id s', tableStep s (.close e id) = some s' → ∀ k ≠ id, s'.pipes k = s.pipes k := by
  have hboot : PipeTable.boot.Inv := ⟨fun _ => rfl, fun _ _ => rfl⟩
  have h : s.Inv := run_guarded (fun _ _ _ => tableStep_inv) hboot (guarded_take hok m) hrun
  refine ⟨fun id => (h.agrees id).isSome_iff, fun e id s' hs k hk => ?_⟩
  obtain ⟨-, rfl⟩ := of_guard hs
  have hother : ∀ e, recount e id s.pipes (· - 1) k = s.pipes k := fun e => update_of_ne hk ..
  cases e with
  | reader =>
    exact (congrArg (Option.filter Pipe.live) (hother .reader)).trans (h.agrees k).filter_eq
  | writer => exact hother .writer

/-- Two pipes, one of which is closed at both ends after its writer was duplicated. -/
def twoPipes : List TableOp :=
  [.create, .create, .add .writer 1, .close .writer 1, .close .writer 1, .close .reader 1]

theorem tableRun_present_iff_of_twoPipes :
    ∃ s, run tableStep .boot twoPipes = some s ∧ s.pipes 1 = none ∧ (s.pipes 2).isSome := by
  have hok : Guarded tableStep KeepsTable .boot twoPipes := by decide
  obtain ⟨s, hrun, hone, htwo⟩ : ∃ s, run tableStep .boot twoPipes = some s ∧
      s.ends 1 .reader + s.ends 1 .writer = 0 ∧ 0 < s.ends 2 .reader + s.ends 2 .writer :=
    exists_of_decide (by decide)
  have h := (tableRun_present_iff hok 6 hrun).1
  refine ⟨s, hrun, Option.not_isSome_iff_eq_none.mp fun hsome => ?_, (h 2).mpr htwo⟩
  exact absurd ((h 1).mp hsome) (by omega)

/-- A pipe whose writer is closed last has no open end and stays in the table. -/
theorem lastWriter_leaves_pipe :
    ∃ s, run tableStep .boot [.create, .close .reader 1, .close .writer 1] = some s ∧
      s.ends 1 .reader + s.ends 1 .writer = 0 ∧ (s.pipes 1).isSome :=
  exists_of_decide (by decide)

end Astryx.Ipc
