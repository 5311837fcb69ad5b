import Mathlib.Data.List.Basic

/-!
# Editing the first match of a list

A table kept as a list of records is looked up with `find?`, changed with `updateFirst` and
shortened with `eraseP`. The three agree on which record they mean; the lemmas here say so by
splitting the list at it.
-/

namespace FirstMatch

open List

variable {α : Type*} {p : α → Bool} {f : α → α} {l : List α} {v : α}

/-- Replace the first element satisfying `p` by its image. -/
def updateFirst (p : α → Bool) (f : α → α) : List α → List α
  | [] => []
  | v :: vs => if p v then f v :: vs else v :: updateFirst p f vs

/-- The match splits the list, and both edits act at the split. -/
lemma split_of_find? (f : α → α) (h : l.find? p = some v) :
    ∃ pre post, l = pre ++ v :: post ∧ updateFirst p f l = pre ++ f v :: post ∧
      l.eraseP p = pre ++ post := by
  induction l with
  | nil => cases h
  | cons w ws ih =>
    simp only [List.find?_cons] at h
    split at h
    next hw =>
      cases h
      exact ⟨[], ws, rfl, by simp [updateFirst, hw], by simp [hw]⟩
    next hw =>
      obtain ⟨pre, post, rfl, hu, he⟩ := ih h
      exact ⟨w :: pre, post, rfl, by simp [updateFirst, hw, hu], by simp [hw, he]⟩

lemma updateFirst_of_find?_none (h : l.find? p = none) : updateFirst p f l = l := by
  induction l with
  | nil => rfl
  | cons w ws ih =>
    rw [List.find?_eq_none] at h
    simp [updateFirst, h w mem_cons_self,
      ih (List.find?_eq_none.mpr fun a ha => h a (by simp [ha]))]

lemma perm_cons_eraseP (h : l.find? p = some v) : l.Perm (v :: l.eraseP p) := by
  obtain ⟨pre, post, rfl, -, he⟩ := split_of_find? id h
  rw [he]
  exact perm_middle

lemma mem_updateFirst {b : α} (h : b ∈ updateFirst p f l) :
    b ∈ l ∨ ∃ v, l.find? p = some v ∧ b = f v := by
  cases hv : l.find? p with
  | none =>
    rw [updateFirst_of_find?_none hv] at h
    exact .inl h
  | some v =>
    obtain ⟨pre, post, rfl, hu, -⟩ := split_of_find? f hv
    rw [hu, mem_append, mem_cons] at h
    rcases h with h | rfl | h
    · simp [h]
    · exact .inr ⟨v, rfl, rfl⟩
    · simp [h]

lemma mem_updateFirst_of_mem (f : α → α) {b : α} (h : b ∈ l) :
    b ∈ updateFirst p f l ∨ l.find? p = some b ∧ f b ∈ updateFirst p f l := by
  cases hv : l.find? p with
  | none =>
    rw [updateFirst_of_find?_none hv]
    exact .inl h
  | some v =>
    obtain ⟨pre, post, rfl, hu, -⟩ := split_of_find? f hv
    rw [hu]
    rcases mem_append.mp h with h | h
    · simp [h]
    rcases mem_cons.mp h with rfl | h
    · simp
    · simp [h]

/-- A relation between all pairs survives when the new element stands in it as the old one did. -/
lemma pairwise_updateFirst {R : α → α → Prop} (hl : l.Pairwise R)
    (hleft : ∀ v, l.find? p = some v → ∀ b ∈ l, R v b → R (f v) b)
    (hright : ∀ v, l.find? p = some v → ∀ a ∈ l, R a v → R a (f v)) :
    (updateFirst p f l).Pairwise R := by
  cases hv : l.find? p with
  | none =>
    rw [updateFirst_of_find?_none hv]
    exact hl
  | some v =>
    obtain ⟨pre, post, rfl, hu, -⟩ := split_of_find? f hv
    rw [hu]
    rw [pairwise_append, pairwise_cons] at hl ⊢
    obtain ⟨hpre, ⟨hvpost, hpost⟩, hcross⟩ := hl
    refine ⟨hpre, ⟨fun b hb => hleft v hv b (by simp [hb]) (hvpost b hb), hpost⟩, fun a ha => ?_⟩
    obtain ⟨hv', hcross⟩ := forall_mem_cons.mp (hcross a ha)
    exact forall_mem_cons.mpr ⟨hright v hv a (by simp [ha]) hv', hcross⟩

/-- The other elements stand in the relation to the one that was updated. -/
lemma mem_updateFirst_of_pairwise {R : α → α → Prop} (hsymm : ∀ a b, R a b → R b a)
    (hl : l.Pairwise R) (hv : l.find? p = some v) {b : α} (hb : b ∈ updateFirst p f l) :
    b = f v ∨ b ∈ l ∧ R b v := by
  obtain ⟨pre, post, rfl, hu, -⟩ := split_of_find? f hv
  rw [pairwise_append, pairwise_cons] at hl
  obtain ⟨-, ⟨hvpost, -⟩, hcross⟩ := hl
  rw [hu, mem_append, mem_cons] at hb
  rcases hb with hb | rfl | hb
  · exact .inr ⟨by simp [hb], hcross b hb v mem_cons_self⟩
  · exact .inl rfl
  · exact .inr ⟨by simp [hb], hsymm _ _ (hvpost b hb)⟩

/-- Two updates of the same match, the first of which keeps it a match. -/
lemma updateFirst_updateFirst {g : α → α} (hp : ∀ a, p a → p (f a)) :
    updateFirst p g (updateFirst p f l) = updateFirst p (g ∘ f) l := by
  induction l with
  | nil => rfl
  | cons w ws ih =>
    by_cases hw : p w
    · simp [updateFirst, hw, hp w hw]
    · simp [updateFirst, hw, ih]

lemma updateFirst_eq_self (h : ∀ v, l.find? p = some v → f v = v) : updateFirst p f l = l := by
  cases hv : l.find? p with
  | none => exact updateFirst_of_find?_none hv
  | some v =>
    obtain ⟨pre, post, hl, hu, -⟩ := split_of_find? f hv
    rw [hu, h v hv, ← hl]

end FirstMatch
