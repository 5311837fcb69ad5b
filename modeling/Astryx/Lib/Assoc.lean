import Mathlib

/-!
# Tables searched by a key

A table is a list of entries with their keys, and a key stands for the first entry that has it. The
three updates are read back by one equation each.
-/

namespace Assoc

variable {β : Type*} {k k' : ℕ} {v : β} {l : List (ℕ × β)}

/-- The value of a key. -/
def get (k : ℕ) (l : List (ℕ × β)) : Option β := (l.find? fun x => x.1 = k).map fun x => x.2

/-- The value of a key changes. -/
def modify (k : ℕ) (f : β → β) : List (ℕ × β) → List (ℕ × β)
  | [] => []
  | x :: l => if x.1 = k then (x.1, f x.2) :: l else x :: modify k f l

/-- A key is removed. -/
def erase (k : ℕ) (l : List (ℕ × β)) : List (ℕ × β) := l.filter fun x => x.1 ≠ k

lemma get_cons (x : ℕ × β) (l : List (ℕ × β)) :
    get k (x :: l) = if x.1 = k then some x.2 else get k l := by
  by_cases h : x.1 = k <;> simp [h, get]

lemma get_append (l l' : List (ℕ × β)) : get k (l ++ l') = (get k l).or (get k l') := by
  rw [get, List.find?_append, get, get]
  cases l.find? fun x => x.1 = k <;> simp

lemma get_modify (f : β → β) (l : List (ℕ × β)) :
    get k' (modify k f l) = if k' = k then (get k' l).map f else get k' l := by
  induction l with
  | nil => simp [modify, get]
  | cons x l ih =>
    rw [modify]
    by_cases hx : x.1 = k
    · rw [if_pos hx, get_cons, get_cons]
      by_cases hk : k' = k
      · simp [hk, hx]
      · have hne : ¬ x.1 = k' := fun heq => hk (heq.symm.trans hx)
        simp [hne, hk]
    rw [if_neg hx, get_cons, get_cons, ih]
    by_cases hk : x.1 = k'
    · have hne : ¬ k' = k := fun heq => hx (hk.trans heq)
      simp [hk, hne]
    · simp [hk]

lemma get_erase (l : List (ℕ × β)) : get k' (erase k l) = if k' = k then none else get k' l := by
  have hboth : ∀ x : ℕ × β, x.1 ≠ k ∧ x.1 = k' ↔ k' ≠ k ∧ x.1 = k' := by grind
  rw [get, erase, List.find?_filter]
  simp only [decide_eq_true_eq, hboth]
  split_ifs with hk <;> simp [hk, get]

end Assoc
