import Mathlib

/-!
# Totals over unboundedly many owners

Each of the owners `ι` holds a number of things, `c i`, and a single counter `n` is to cover them
all. There need not be finitely many owners, so the total is bounded over every finite set of them.
The rules are those of a counter that follows what the owners do: one owner takes a thing and the
counter goes up, one gives a thing back and it goes down.
-/

namespace Tally

open Finset

variable {ι : Type*} {c c' : ι → ℕ} {n : ℕ}

/-- The owners together hold at most `n`. -/
def Bounded (c : ι → ℕ) (n : ℕ) : Prop := ∀ S : Finset ι, ∑ i ∈ S, c i ≤ n

lemma bounded_of_zero (h : ∀ i, c i = 0) : Bounded c n := fun S => by
  rw [sum_eq_zero fun i _ => h i]
  exact Nat.zero_le n

lemma Bounded.mono (h : Bounded c n) (hle : ∀ i, c' i ≤ c i) : Bounded c' n := fun S =>
  (sum_le_sum fun i _ => hle i).trans (h S)

lemma Bounded.le (h : Bounded c n) (i : ι) : c i ≤ n := by
  have := h {i}
  rwa [sum_singleton] at this

variable [DecidableEq ι]

lemma Bounded.raise (h : Bounded c n) (i : ι) (hi : c' i ≤ c i + 1)
    (hother : ∀ j, j ≠ i → c' j ≤ c j) :
    Bounded c' (n + 1) := fun S => by
  have hle : ∀ j ∈ S, c' j ≤ c j + if j = i then 1 else 0 := fun j _ => by
    by_cases hj : j = i
    · rw [if_pos hj, hj]
      exact hi
    · rw [if_neg hj]
      exact hother j hj
  have hone : ∑ j ∈ S, (if j = i then 1 else 0) ≤ 1 := by
    rw [sum_ite_eq']
    split <;> decide
  calc ∑ j ∈ S, c' j ≤ ∑ j ∈ S, (c j + if j = i then 1 else 0) := sum_le_sum hle
    _ = ∑ j ∈ S, c j + ∑ j ∈ S, (if j = i then 1 else 0) := sum_add_distrib
    _ ≤ n + 1 := Nat.add_le_add (h S) hone

lemma Bounded.lower (h : Bounded c n) (i : ι) (hi : c' i + 1 ≤ c i)
    (hother : ∀ j, j ≠ i → c' j ≤ c j) :
    Bounded c' (n - 1) := fun S => by
  have hle : ∀ j ∈ insert i S, (c' j + if j = i then 1 else 0) ≤ c j := fun j _ => by
    by_cases hj : j = i
    · rw [if_pos hj, hj]
      exact hi
    · rw [if_neg hj]
      exact hother j hj
  have hone : ∑ j ∈ insert i S, (if j = i then 1 else 0) = 1 := by
    simp
  -- the owner that gives back is added to the set
  have hsum : ∑ j ∈ S, c' j + 1 ≤ n := calc
    ∑ j ∈ S, c' j + 1 ≤ ∑ j ∈ insert i S, c' j + 1 :=
      Nat.add_le_add_right (sum_le_sum_of_subset (subset_insert i S)) 1
    _ = ∑ j ∈ insert i S, (c' j + if j = i then 1 else 0) := by rw [sum_add_distrib, hone]
    _ ≤ ∑ j ∈ insert i S, c j := sum_le_sum hle
    _ ≤ n := h _
  exact Nat.le_sub_one_of_lt hsum

end Tally
