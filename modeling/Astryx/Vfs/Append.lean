import Astryx.Lib.Transition
import Astryx.Vfs.RamFs

/-!
# Appending

With `O_APPEND`, `fd_write` asks for the size of the file and then writes its buffer from there on,
chunk by chunk. Nothing holds these calls of the filesystem together: of two threads that ask before
either writes, one overwrites what the other wrote. The file is one of tmpfs, whose calls on a file
do not fail and write all of a chunk.

## Main results

* `appendRun_concat` — if no call asks for the size while another one is under way, the buffers
  follow each other in the file
* `append_overwrites` — two calls, and one of the two bytes is lost
-/

namespace Astryx.Vfs

open Transition List Function

/-- The bytes written at once. -/
def bounceChunk : ℕ := 256 * 1024

/-- The bytes of the file and, of the calls that have the size, `write_offset + done` and
`data[done..]`. -/
structure AppendState where
  file : List UInt8
  calls : ℕ → Option (ℕ × List UInt8)

/-- What a call of `fd_write` with the buffer `data i` asks of the filesystem next; none if it is
done. -/
def appendStep (data : ℕ → List UInt8) (s : AppendState) (i : ℕ) : Option AppendState :=
  match s.calls i with
  | none => some { s with calls := update s.calls i (some (s.file.length, data i)) }
  | some (offset, left) =>
    if left = [] then none
    else
      let chunk := left.take bounceChunk
      some ⟨RamFs.overwrite offset chunk s.file,
        update s.calls i (some (offset + chunk.length, left.drop bounceChunk))⟩

/-- The call has the size, and not all is written. -/
def Underway (s : AppendState) (i : ℕ) : Prop := ∃ p ∈ s.calls i, p.2 ≠ []

/-- No call begins while another is under way. -/
def Alone (s : AppendState) (i : ℕ) : Prop := s.calls i = none → ∀ j, ¬ Underway s j

variable {data : ℕ → List UInt8} {file rest : List UInt8} {order : List ℕ}
  {s s' : AppendState} {i : ℕ}

/-- The calls so far in their order, and what is left of the one that is under way at the end of the
file. -/
structure Appended (data : ℕ → List UInt8) (file : List UInt8) (order : List ℕ) (rest : List UInt8)
    (s : AppendState) : Prop where
  nodup : order.Nodup
  mem : ∀ i, i ∈ order ↔ (s.calls i).isSome
  file : s.file ++ rest = file ++ order.flatMap data
  idle : (∀ i, ¬ Underway s i) → rest = []
  last : ∀ i, ∀ p ∈ s.calls i, p.2 ≠ [] → p = (s.file.length, rest) ∧ ∀ j, Underway s j → j = i

lemma overwrite_end (dataIn bytes : List UInt8) :
    RamFs.overwrite bytes.length dataIn bytes = bytes ++ dataIn := by
  simp [RamFs.overwrite, RamFs.resize, take_of_length_le, drop_append]

/-- A call goes on at the end of the file, and no other one is under way. -/
lemma Appended.advance {bytes : List UInt8} (hnodup : order.Nodup)
    (hmem : ∀ j, j ∈ order ↔ j = i ∨ (s.calls j).isSome)
    (hfile : bytes ++ rest = file ++ order.flatMap data) (halone : ∀ j, Underway s j → j = i) :
    Appended data file order rest ⟨bytes, update s.calls i (some (bytes.length, rest))⟩ := by
  have halone' : ∀ j, Underway ⟨bytes, update s.calls i (some (bytes.length, rest))⟩ j → j = i := by
    rintro j ⟨q, hq, hne⟩
    by_contra hj
    exact hj (halone j ⟨q, (update_of_ne hj ..).symm.trans hq, hne⟩)
  have hself : (bytes.length, rest) ∈ update s.calls i (some (bytes.length, rest)) i :=
    update_self ..
  refine ⟨hnodup, fun j => ?_, hfile, fun hidle => ?_, fun j q hq hne => ?_⟩
  · rw [hmem]
    by_cases hj : j = i <;> simp [hj]
  · exact not_not.mp fun hne => hidle i ⟨_, hself, hne⟩
  · obtain rfl := halone' j ⟨q, hq, hne⟩
    exact ⟨Option.mem_unique hq hself, halone'⟩

lemma appendStep_appended (h : ∃ order rest, Appended data file order rest s) (halone : Alone s i)
    (hs : appendStep data s i = some s') : ∃ order rest, Appended data file order rest s' := by
  obtain ⟨order, rest, h⟩ := h
  rw [appendStep] at hs
  split at hs
  next hnone =>
    have hnot : i ∉ order := by rw [h.mem, hnone]; nofun
    obtain rfl := h.idle (halone hnone)
    cases hs
    refine ⟨order ++ [i], _, .advance (nodup_append_comm.mp (nodup_cons.mpr ⟨hnot, h.nodup⟩))
      (fun j => ?_) ?_ fun j hj => ?_⟩
    · rw [mem_append, mem_singleton, h.mem, or_comm]
    · have hfile := h.file
      rw [append_nil] at hfile
      simp [hfile]
    · exact absurd hj (halone hnone j)
  next offset left hsome =>
    obtain ⟨hne, rfl⟩ := of_guard_not hs
    obtain ⟨hend, hother⟩ := h.last i _ hsome hne
    cases hend
    rw [overwrite_end, ← length_append]
    refine ⟨order, _, .advance h.nodup (fun j => ?_) ?_ hother⟩
    · rw [h.mem, iff_or_self]
      rintro rfl
      rw [hsome]
      rfl
    · simp [← h.file]

/-- Calls that do not overlap lose nothing. -/
theorem appendRun_concat (data : ℕ → List UInt8) (s t : AppendState) (schedule : List ℕ)
    (hinit : ∀ i, s.calls i = none) (halone : Guarded (appendStep data) Alone s schedule)
    (hrun : run (appendStep data) s schedule = some t) (hdone : ∀ i, ¬ Underway t i) :
    ∃ order : List ℕ, order.Nodup ∧ (∀ i, i ∈ order ↔ (t.calls i).isSome) ∧
      t.file = s.file ++ order.flatMap data := by
  have hstart : Appended data s.file [] [] s :=
    ⟨nodup_nil, fun i => by simp [hinit i], rfl, fun _ => rfl,
      fun i p hp => by simp [hinit i] at hp⟩
  obtain ⟨order, rest, h⟩ := run_guarded (fun _ _ _ => appendStep_appended)
    ⟨[], [], hstart⟩ halone hrun
  have hfile := h.file
  rw [h.idle hdone, append_nil] at hfile
  exact ⟨order, h.nodup, h.mem, hfile⟩

theorem appendRun_concat_of_turns :
    ∃ t, run (appendStep fun i => [.ofNat i]) ⟨[], fun _ => none⟩ [1, 1, 2, 2] = some t ∧
    ∃ order : List ℕ, order.Nodup ∧ (∀ i, i ∈ order ↔ (t.calls i).isSome) ∧
      t.file = [] ++ order.flatMap fun i => [.ofNat i] := by
  refine ⟨_, rfl, appendRun_concat _ ⟨[], fun _ => none⟩ _ [1, 1, 2, 2]
    (fun _ => rfl) ?_ rfl fun i => ?_⟩
  · simp [Guarded, Alone, Underway, appendStep, update_apply, bounceChunk]
  · rintro ⟨p, hp, hne⟩
    simp only [update_apply] at hp
    split_ifs at hp <;> cases hp <;> exact hne rfl

/-- Both calls ask for the size first. -/
theorem append_overwrites :
    (run (appendStep fun i => [.ofNat i]) ⟨[], fun _ => none⟩ [1, 2, 1, 2]).map
    (fun t => (t.file, t.calls 1, t.calls 2)) = some ([2], some (1, []), some (1, [])) := by
  decide

end Astryx.Vfs
