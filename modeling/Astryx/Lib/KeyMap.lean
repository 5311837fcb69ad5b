import Mathlib

/-!
# Maps with ordered keys

A finite map from natural numbers as the list of its entries in the order of the keys. `insert` puts
an entry in its place, or over the entry that has its key.
-/

namespace KeyMap

open List

variable {β : Type*}

/-- The keys ascend. -/
def Sorted (l : List (ℕ × β)) : Prop := l.Pairwise fun x y => x.1 < y.1

/-- A value for a key. -/
def insert (k : ℕ) (v : β) : List (ℕ × β) → List (ℕ × β)
  | [] => [(k, v)]
  | x :: rest =>
    if k < x.1 then (k, v) :: x :: rest
      else if k = x.1 then (k, v) :: rest else x :: insert k v rest

variable {k : ℕ} {v : β} {l : List (ℕ × β)}

/-- A new key goes between the smaller and the greater ones. -/
lemma insert_split (hs : Sorted l) (hnew : ∀ x ∈ l, x.1 ≠ k) :
    ∃ lo hi, l = lo ++ hi ∧ insert k v l = lo ++ (k, v) :: hi ∧ (∀ x ∈ lo, x.1 < k) ∧
      ∀ x ∈ hi, k < x.1 := by
  induction l with
  | nil => exact ⟨[], [], rfl, rfl, by simp, by simp⟩
  | cons x l ih =>
    rw [Sorted, pairwise_cons] at hs
    by_cases hlt : k < x.1
    · exact ⟨[], x :: l, rfl,
        if_pos hlt, by simp, forall_mem_cons.mpr ⟨hlt, fun y hy => Nat.lt_trans hlt (hs.1 y hy)⟩⟩
    have hne := hnew x mem_cons_self
    obtain ⟨lo, hi, hl, hins, hlo, hhi⟩ := ih hs.2 fun y hy => hnew y (by simp [hy])
    refine ⟨x :: lo, hi, by simp [hl], ?_, forall_mem_cons.mpr ⟨by omega, hlo⟩, hhi⟩
    simp [insert, if_neg hlt, if_neg (Ne.symm hne), hins]

lemma insert_last (h : ∀ x ∈ l, x.1 < k) : insert k v l = l ++ [(k, v)] := by
  induction l with
  | nil => rfl
  | cons x l ih =>
    have hx := h x mem_cons_self
    simp [insert, if_neg (Nat.not_lt.mpr (Nat.le_of_lt hx)), if_neg (Nat.ne_of_gt hx),
      ih fun y hy => h y (by simp [hy])]

/-- Entries that arrive in the order of their keys are appended one by one. -/
lemma foldl_insert {α : Type*} (key : α → ℕ) (val : α → β) (xs : List α) (l : List (ℕ × β))
    (hxs : xs.Pairwise fun x y => key x < key y) (hl : ∀ y ∈ l, ∀ x ∈ xs, y.1 < key x) :
    xs.foldl (fun l x => insert (key x) (val x) l) l = l ++ xs.map fun x => (key x, val x) := by
  induction xs generalizing l with
  | nil => simp
  | cons x xs ih =>
    rw [pairwise_cons] at hxs
    rw [foldl_cons, insert_last fun y hy => hl y hy x mem_cons_self, ih _ hxs.2, map_cons,
      append_assoc, singleton_append]
    exact forall_mem_append.mpr ⟨fun y hy z hz => hl y hy z (by simp [hz]),
      forall_mem_singleton.mpr hxs.1⟩

end KeyMap
