import Astryx.Epoll.Sources

/-!
# Event counters

What `try_read` and `write` of `ipc/eventfd.rs` hand back, and one counter under any calls of them.
In `EFD_SEMAPHORE` mode a read takes one off the counter and returns the whole of it, so that the
books balance only if the counter is then one. `create` takes any start value; `u64::MAX` is one
that no write can reach, and from which the test for overflow wraps.

## Main results

* `counterRun_conserved` — what went in has come out or is still there
-/

namespace Astryx.Epoll

open Transition

/-- What a read returns. -/
def EventFd.tryRead (e : EventFd) : Except ℤ ℕ :=
  if e.inUse then if e.counter = 0 then .error (-11) else .ok e.counter else .error (-9)

/-- What a write returns. -/
def EventFd.write (e : EventFd) (val : ℕ) : Except ℤ Unit :=
  if e.inUse then if Word.sub (2 ^ 64 - 2) e.counter < val then .error (-27) else .ok ()
    else .error (-9)

/-- A counter with the sums of what writes were accepted and of what reads returned. -/
structure Books where
  entry : EventFd
  accepted : ℕ
  returned : ℕ

/-- A read or a write. -/
inductive CounterOp where
  | read
  | write (val : ℕ)

/-- One call, with what it took or gave. -/
def counterStep (s : Books) : CounterOp → Option Books
  | .read =>
    some { s with
      entry := s.entry.apply .tryRead, returned := s.returned + s.entry.tryRead.toOption.getD 0 }
  | .write val => some
    { s with
      entry := s.entry.apply (.write val),
      accepted := s.accepted + if (s.entry.write val).isOk then val else 0 }

/-- A read in semaphore mode finds at most one. -/
def CounterOk (s : Books) : CounterOp → Prop
  | .read => s.entry.semaphore = true → s.entry.counter ≤ 1
  | .write _ => True

instance CounterOk.decidable (s : Books) (op : CounterOp) : Decidable (CounterOk s op) := by
  cases op <;> dsimp only [CounterOk] <;> infer_instance

/-- What holds in every state. -/
structure Books.Inv (initval : ℕ) (s : Books) : Prop where
  inUse : s.entry.inUse = true
  conserved : initval + s.accepted = s.returned + s.entry.counter
  bounded : s.entry.counter ≤ 2 ^ 64 - 2

lemma counterStep_inv {initval : ℕ} {s t : Books} {op : CounterOp} (h : s.Inv initval)
    (hok : CounterOk s op) (hstep : counterStep s op = some t) : t.Inv initval := by
  obtain ⟨huse, hc, hb⟩ := h
  cases op with
  | read =>
    cases hstep
    have hleft : (if s.entry.semaphore then s.entry.counter - 1 else 0) = 0 := by
      split
      next hsem => exact Nat.sub_eq_zero_of_le (hok hsem)
      · rfl
    have hgot : s.entry.tryRead.toOption.getD 0 = s.entry.counter := by
      rw [EventFd.tryRead, if_pos huse]
      split
      next hzero => exact hzero.symm
      · rfl
    rw [EventFd.apply, if_pos huse, hgot, hleft]
    exact ⟨huse, hc, Nat.zero_le _⟩
  | write val =>
    cases hstep
    rw [EventFd.apply, EventFd.write, if_pos huse, if_pos huse, Word.sub_eq (by omega) (by omega)]
    split
    · exact ⟨huse, hc, hb⟩
    next hroom =>
      have hsum : Word.add s.entry.counter val = s.entry.counter + val := Word.add_eq (by omega)
      refine ⟨huse, ?_, ?_⟩
      · show initval + (s.accepted + val) = s.returned + Word.add s.entry.counter val
        omega
      · show Word.add s.entry.counter val ≤ 2 ^ 64 - 2
        omega

/-- **Counts are conserved**, and a rejected call changes nothing. -/
theorem counterRun_conserved {initval : ℕ} (hinit : initval ≤ 2 ^ 64 - 2) {semaphore : Bool}
    {ops : List CounterOp}
    (hok : Guarded counterStep CounterOk ⟨⟨initval, semaphore, true, 1, 0⟩, 0, 0⟩ ops) {t : Books}
    (hrun : run counterStep ⟨⟨initval, semaphore, true, 1, 0⟩, 0, 0⟩ ops = some t) :
    initval + t.accepted = t.returned + t.entry.counter ∧ t.entry.counter ≤ 2 ^ 64 - 2 ∧
      (∀ err, t.entry.tryRead = .error err → t.entry.apply .tryRead = t.entry) ∧
      ∀ val err, t.entry.write val = .error err → t.entry.apply (.write val) = t.entry := by
  obtain ⟨huse, hc, hb⟩ : t.Inv initval :=
    run_guarded (fun _ _ _ => counterStep_inv) ⟨rfl, add_comm .., hinit⟩ hok hrun
  refine ⟨hc, hb, fun err herr => ?_, fun val err herr => ?_⟩
  · rw [EventFd.tryRead, if_pos huse] at herr
    split_ifs at herr with hzero
    rw [EventFd.apply, if_pos huse]
    rw [hzero, Nat.zero_sub, ite_self, ← hzero]
  rw [EventFd.write, if_pos huse] at herr
  rw [EventFd.apply, if_pos huse]
  split_ifs at herr ⊢
  rfl

theorem counterRun_conserved_of_both_modes :
    (∃ t,
      run counterStep ⟨⟨3, false, true, 1, 0⟩, 0, 0⟩ [.write 4, .read, .read, .write 1] = some t ∧
      3 + t.accepted = t.returned + t.entry.counter) ∧
    ∃ t, run counterStep ⟨⟨1, true, true, 1, 0⟩, 0, 0⟩ [.read, .read, .write 1, .read] = some t ∧
      1 + t.accepted = t.returned + t.entry.counter := by
  have hplain : Guarded counterStep CounterOk ⟨⟨3, false, true, 1, 0⟩, 0, 0⟩
      [.write 4, .read, .read, .write 1] := by decide
  have hsemaphore : Guarded counterStep CounterOk ⟨⟨1, true, true, 1, 0⟩, 0, 0⟩
      [.read, .read, .write 1, .read] := by decide
  exact ⟨⟨_, rfl, (counterRun_conserved (by decide) hplain rfl).1⟩,
    ⟨_, rfl, (counterRun_conserved (by decide) hsemaphore rfl).1⟩⟩

/-- A semaphore of 3 gives out 3, 2 and 1. -/
theorem semaphore_gives_more :
    ∃ t, run counterStep ⟨⟨3, true, true, 1, 0⟩, 0, 0⟩ [.read, .read, .read] = some t ∧
      (t.accepted, t.returned, t.entry.counter) = (0, 6, 0) ∧
      3 + t.accepted ≠ t.returned + t.entry.counter :=
  ⟨_, rfl, rfl, by decide⟩

end Astryx.Epoll
