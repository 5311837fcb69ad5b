import Mathlib

/-!
# Sums over a row of entries

A row is a function on the numbers below `n`, and each entry has a weight that may depend on where
it stands. Rewriting one entry moves the sum by the difference of the two weights.
-/

namespace Rows

open Finset

variable {α : Type*} {n i : ℕ}

lemma sum_update (w : ℕ → α → ℕ) (f : ℕ → α) (hi : i < n) (b : α) :
    ∑ x ∈ Finset.range n, w x (Function.update f i b x) + w i (f i) =
      ∑ x ∈ Finset.range n, w x (f x) + w i b := by
  have hmem : i ∈ Finset.range n := mem_range.mpr hi
  rw [← add_sum_erase _ _ hmem, ← add_sum_erase (Finset.range n) (fun x => w x (f x)) hmem]
  have hrest : ∑ x ∈ (Finset.range n).erase i,
      w x (Function.update f i b x) = ∑ x ∈ (Finset.range n).erase i, w x (f x) := by
    refine sum_congr rfl fun x hx => ?_
    rw [Function.update_of_ne (ne_of_mem_erase hx)]
  rw [hrest, Function.update_self]
  omega

lemma sum_mul (f : ℕ → ℕ) (a b : ℕ) :
    ∑ x ∈ Finset.range (a * b), f x =
      ∑ x ∈ Finset.range a, ∑ y ∈ Finset.range b, f (x * b + y) := by
  induction a with
  | zero => rw [Nat.zero_mul, sum_range_zero, sum_range_zero]
  | succ a ih => rw [Nat.succ_mul, sum_range_add, ih, sum_range_succ]

lemma sum_le (w : ℕ → ℕ) {c : ℕ} (h : ∀ x, w x ≤ c) : ∑ x ∈ Finset.range n, w x ≤ n * c := by
  have hle := sum_le_card_nsmul (Finset.range n) w c fun x _ => h x
  rw [card_range] at hle
  exact hle

end Rows
