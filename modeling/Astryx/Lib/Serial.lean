import Mathlib

/-!
# Serial numbers

32-bit sequence numbers that wrap. `a` is before `b` when the difference `a - b`, read as a signed
word, is negative; that is a total order on any stretch shorter than half the circle. Programs
compute with the numbers, proofs with the distances from a fixed one: the lemmas turn a comparison
of `add s m` and `add s n` into one of `m` and `n`.
-/

namespace Serial

/-- `a.wrapping_add(b)`. -/
def add (a b : ℕ) : ℕ := (a + b) % 2 ^ 32

/-- `a.wrapping_sub(b)`. -/
def sub (a b : ℕ) : ℕ := (a + (2 ^ 32 - b % 2 ^ 32)) % 2 ^ 32

/-- `a <= b`: the difference, read as a signed word, is not positive. -/
def le (a b : ℕ) : Bool := sub a b = 0 ∨ 2 ^ 31 ≤ sub a b

/-- `a < b`. -/
def lt (a b : ℕ) : Bool := 2 ^ 31 ≤ sub a b

/-- `a > b`. -/
def gt (a b : ℕ) : Bool := 2 ^ 31 ≤ sub b a

/-- `a >= b`. -/
def ge (a b : ℕ) : Bool := sub a b < 2 ^ 31

variable {s a b m n : ℕ}

lemma add_lt (a b : ℕ) : add a b < 2 ^ 32 := Nat.mod_lt _ (by decide)

lemma add_zero (h : s < 2 ^ 32) : add s 0 = s := Nat.mod_eq_of_lt h

lemma add_add (s m n : ℕ) : add (add s m) n = add s (m + n) := by
  rw [add, add, add, Nat.mod_add_mod, Nat.add_assoc]

lemma sub_add_add (s m n : ℕ) : sub (add s m) (add s n) = sub m n := by
  simp only [sub, add]
  omega

lemma sub_of_le (h : n ≤ m) (hm : m - n < 2 ^ 32) : sub m n = m - n := by
  rw [sub]
  omega

lemma sub_add_self (hn : n < 2 ^ 32) : sub (add s n) s = n := by
  rw [sub, add]
  omega

lemma add_inj (hm : m < 2 ^ 32) (hn : n < 2 ^ 32) : add s m = add s n ↔ m = n := by
  refine ⟨fun h => ?_, fun h => h ▸ rfl⟩
  have hsub := congrArg (sub · s) h
  rwa [sub_add_self hm, sub_add_self hn] at hsub

/-! ### Comparisons on a stretch -/

section

variable (hm : m < 2 ^ 31) (hn : n < 2 ^ 31)

include hm hn

lemma le_add : le (add s m) (add s n) ↔ m ≤ n := by
  rw [le, sub_add_add, sub, decide_eq_true_eq]
  omega

lemma lt_add : lt (add s m) (add s n) ↔ m < n := by
  rw [lt, sub_add_add, sub, decide_eq_true_eq]
  omega

lemma gt_add : gt (add s m) (add s n) ↔ n < m := by
  rw [gt, sub_add_add, sub, decide_eq_true_eq]
  omega

lemma ge_add : ge (add s m) (add s n) ↔ n ≤ m := by
  rw [ge, sub_add_add, sub, decide_eq_true_eq]
  omega

end

/-! ### Comparisons at the ends of the stretch -/

/-- A number after `b` by at most half the circle. -/
lemma gt_iff : gt a b ↔ 0 < sub a b ∧ sub a b ≤ 2 ^ 31 := by
  rw [gt, sub, sub, decide_eq_true_eq]
  omega

end Serial
