import Mathlib.Data.Nat.Bitwise

/-!
# 64-bit machine words as natural numbers

Unsigned 64-bit arithmetic in a build without overflow checks: sums, differences and products are
taken modulo `2 ^ 64`. Words are plain natural numbers, so that `omega` sees through every
operation; the operations are total and the lemmas say when they agree with the exact ones.

`clearLow k` is the mask `x & !(2 ^ k - 1)` that rounds an address down, written with the bitwise
`&&&` as programs write it; `clearLow_eq` turns it into a division once and for all.
-/

namespace Word

/-- `a + b`, wrapping. -/
def add (a b : ℕ) : ℕ := (a + b) % 2 ^ 64

/-- `a - b`, wrapping. -/
def sub (a b : ℕ) : ℕ := (a + (2 ^ 64 - b % 2 ^ 64)) % 2 ^ 64

/-- `a.saturating_add(b)`. -/
def satAdd (a b : ℕ) : ℕ := min (a + b) (2 ^ 64 - 1)

/-- `a & !(2 ^ k - 1)` on 64-bit words. -/
def clearLow (k a : ℕ) : ℕ := a &&& (2 ^ 64 - 2 ^ k)

/-- `(a + (2 ^ k - 1)) & !(2 ^ k - 1)`, wrapping in the sum. -/
def alignUp (k a : ℕ) : ℕ := clearLow k (add a (2 ^ k - 1))

variable {a b k : ℕ}

lemma add_lt (a b : ℕ) : add a b < 2 ^ 64 := Nat.mod_lt _ (by decide)

lemma add_eq (h : a + b < 2 ^ 64) : add a b = a + b := Nat.mod_eq_of_lt h

lemma sub_eq (ha : a < 2 ^ 64) (h : b ≤ a) : sub a b = a - b := by
  unfold sub
  omega

lemma sub_add_left {n : ℕ} (h : sub a b + n < 2 ^ 64) : sub (add a n) b = sub a b + n := by
  rw [sub] at h ⊢
  rw [sub, add]
  omega

lemma sub_add_right {n : ℕ} (h : n ≤ sub a b) : sub a (add b n) = sub a b - n := by
  rw [sub] at h ⊢
  rw [sub, add]
  omega

lemma satAdd_eq (h : a + b < 2 ^ 64) : satAdd a b = a + b := by
  unfold satAdd
  omega

lemma and_mask {n : ℕ} (hk : k ≤ n) (a : ℕ) :
    a &&& (2 ^ n - 2 ^ k) = a % 2 ^ n / 2 ^ k * 2 ^ k := by
  have hpow : 2 ^ k ≤ 2 ^ n := Nat.pow_le_pow_right (by decide) hk
  have hpos : 0 < 2 ^ k := Nat.two_pow_pos k
  have hmask : 2 ^ n - 2 ^ k = 2 ^ n - ((2 ^ k - 1) + 1) := by omega
  refine Nat.eq_of_testBit_eq fun i => ?_
  rw [Nat.testBit_and, hmask, Nat.testBit_two_pow_sub_succ (by omega),
    Nat.testBit_two_pow_sub_one, Nat.testBit_mul_two_pow, Nat.testBit_div_two_pow,
    Nat.testBit_mod_two_pow]
  by_cases hi : i < k
  · simp [hi, not_le.mpr hi]
  · have hik : k ≤ i := not_lt.mp hi
    simp [hi, hik, Bool.and_comm]

/-- Rounding down by a mask is rounding down by division. -/
theorem clearLow_eq (hk : k ≤ 64) (a : ℕ) : clearLow k a = a % 2 ^ 64 / 2 ^ k * 2 ^ k :=
  and_mask hk a

lemma or_eq_add (ha : a % 2 ^ k = 0) (hb : b < 2 ^ k) : a ||| b = a + b := by
  obtain ⟨c, rfl⟩ := Nat.dvd_of_mod_eq_zero ha
  exact (Nat.two_pow_add_eq_or_of_lt hb c).symm

lemma alignUp_eq (hk : k ≤ 64) (a : ℕ) :
    alignUp k a = (a + (2 ^ k - 1)) % 2 ^ 64 / 2 ^ k * 2 ^ k := by
  simp [alignUp, clearLow_eq hk, add]

end Word
