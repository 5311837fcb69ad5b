import Mathlib

/-!
# Totals over a row of slots

A row of slots, each with a weight; `total f l` is the weight of the row. The rules say how it moves
when one slot is rewritten or one is added, in a form that `omega` can use.
-/

namespace Slots

open List

variable {α : Type*} {f : α → ℕ} {l : List α} {a b : α} {i : ℕ}

/-- A sum over the items. -/
def total (f : α → ℕ) (l : List α) : ℕ := (l.map f).sum

@[simp] lemma total_nil : total f [] = 0 := rfl

@[simp] lemma total_cons : total f (a :: l) = f a + total f l := by
  rfl

lemma total_append (l l' : List α) : total f (l ++ l') = total f l + total f l' := by
  rw [total, map_append, sum_append]
  rfl

lemma total_concat : total f (l ++ [a]) = total f l + f a := by
  simp [total_append, add_zero]

lemma total_set (h : l[i]? = some a) : total f (l.set i b) + f a = total f l + f b := by
  induction l generalizing i with
  | nil => cases h
  | cons c l ih =>
    cases i with
    | zero =>
      cases h
      rw [set_cons_zero, total_cons, total_cons]
      omega
    | succ i =>
      have hrest := ih h
      rw [set_cons_succ, total_cons, total_cons]
      omega

lemma le_total (h : a ∈ l) : f a ≤ total f l := by
  obtain ⟨-, -, rfl⟩ := append_of_mem h
  rw [total_append, total_cons]
  omega

lemma total_eq_zero (h : ∀ a ∈ l, f a = 0) : total f l = 0 := by
  induction l with
  | nil => rfl
  | cons c l ih => rw [total_cons, h c mem_cons_self, ih fun a ha => h a (by simp [ha])]

lemma mem_set (h : b ∈ l.set i a) : b = a ∨ b ∈ l := (mem_or_eq_of_mem_set h).symm

end Slots
