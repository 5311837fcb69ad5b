import Mathlib

/-!
# Paths as text and as pieces

A path is a text over any alphabet, cut into pieces at a separator; pieces that `keep` refuses, such
as the empty one, are skipped. Spelling and pieces are connected by a few equations: cutting a text
at a separator cuts its pieces, and writing pieces out with separators gives them back.
-/

namespace Paths

open List

variable {α : Type*} {sep : α} {keep : List α → Bool} {cs : List (List α)}

/-- Something that can stand between separators. -/
def Piece (sep : α) (keep : List α → Bool) (c : List α) : Prop := keep c = true ∧ sep ∉ c

/-- An absolute path. -/
def render (sep : α) : List (List α) → List α
  | [] => [sep]
  | c :: cs => (c :: cs).flatMap fun c => sep :: c

/-- Pieces with separators between them. -/
def join (sep : α) : List (List α) → List α
  | [] => []
  | [c] => c
  | c :: cs => c ++ sep :: join sep cs

lemma head?_render (cs : List (List α)) : (render sep cs).head? = some sep := by
  cases cs <;> rfl

lemma render_of_ne_nil (h : cs ≠ []) : render sep cs = cs.flatMap fun c => sep :: c := by
  cases cs with
  | nil => exact absurd rfl h
  | cons c cs => rfl

lemma render_concat (cs : List (List α)) (c : List α) :
    render sep (cs ++ [c]) = (if cs = [] then [] else render sep cs) ++ sep :: c := by
  rw [render_of_ne_nil (append_ne_nil_of_right_ne_nil _ (cons_ne_nil c [])), flatMap_append]
  split
  next h =>
    rw [h]
    simp
  next h =>
    rw [render_of_ne_nil h]
    simp

/-- Only the path without pieces ends in a separator. -/
lemma getLast?_render (hnil : keep [] = false) (h : ∀ c ∈ cs, Piece sep keep c) :
    (render sep cs).getLast? = some sep ↔ cs = [] := by
  refine ⟨fun hlast => ?_, fun hcs => by rw [hcs]; rfl⟩
  by_contra hne
  obtain ⟨ds, d, rfl⟩ : ∃ ds d, cs = ds ++ [d] := ⟨_, _, (dropLast_concat_getLast hne).symm⟩
  have hd := h d (by simp)
  have hd' : d ≠ [] := by
    rintro rfl
    rw [hd.1] at hnil
    cases hnil
  rw [render_concat, List.getLast?_append, List.getLast?_cons] at hlast
  obtain ⟨x, hx⟩ := Option.ne_none_iff_exists'.mp (mt List.getLast?_eq_none_iff.mp hd')
  rw [hx] at hlast
  have heq : x = sep := by simpa using hlast
  exact hd.2 (heq ▸ mem_of_getLast? hx)

/-! ## Cutting -/

variable [DecidableEq α]

/-- The pieces that are kept. -/
def pieces (sep : α) (keep : List α → Bool) (path : List α) : List (List α) :=
  (path.splitOn sep).filter keep

/-- Separators at the end are dropped. -/
def trimEnd (sep : α) (path : List α) : List α := (path.reverse.dropWhile fun x => x = sep).reverse

lemma pieces_append (p q : List α) :
    pieces sep keep (p ++ sep :: q) = pieces sep keep p ++ pieces sep keep q := by
  have hsplit := @List.splitOnP_append_cons α (· == sep) p q sep (beq_self_eq_true sep)
  rw [pieces, List.splitOn, hsplit, filter_append]
  rfl

lemma not_mem_of_mem_splitOn {path c : List α} (h : c ∈ path.splitOn sep) : sep ∉ c := by
  induction path generalizing c with
  | nil =>
    rw [splitOn_nil, mem_singleton] at h
    rw [h]
    exact not_mem_nil
  | cons x path ih =>
    rw [splitOn_cons_eq_if_modifyHead] at h
    split at h
    · rcases mem_cons.mp h with rfl | h
      · exact not_mem_nil
      · exact ih h
    next hx =>
      -- only the first piece grows, by a character that is no separator
      obtain ⟨d, ds, hsplit⟩ := exists_cons_of_ne_nil (splitOn_ne_nil sep path)
      rw [hsplit] at ih
      rw [hsplit, modifyHead_cons] at h
      rcases mem_cons.mp h with rfl | h
      · rw [mem_cons, not_or]
        exact ⟨fun heq => hx (beq_iff_eq.mpr heq.symm), ih mem_cons_self⟩
      · exact ih (by simp [h])

lemma piece_of_mem {path c : List α} (h : c ∈ pieces sep keep path) : Piece sep keep c := by
  obtain ⟨hmem, hkeep⟩ := mem_filter.mp h
  exact ⟨hkeep, not_mem_of_mem_splitOn hmem⟩

lemma pieces_of_piece {c : List α} (h : Piece sep keep c) : pieces sep keep c = [c] := by
  have hsplit : c.splitOn sep = [c] := splitOnP_eq_singleton fun x hx => by
    rw [beq_eq_false_iff_ne]
    rintro rfl
    exact h.2 hx
  rw [pieces, hsplit, filter_cons, if_pos h.1]
  rfl

section Skip

/-! ### When the empty piece is skipped -/

variable (hnil : keep [] = false)

include hnil

lemma pieces_nil : pieces sep keep [] = [] := by
  rw [pieces, List.splitOn, splitOnP_nil, filter_cons, if_neg (by rw [hnil]; nofun)]
  rfl

lemma pieces_sep_cons (p : List α) : pieces sep keep (sep :: p) = pieces sep keep p := by
  rw [← nil_append (sep :: p), pieces_append, pieces_nil hnil, nil_append]

lemma pieces_flatMap (h : ∀ c ∈ cs, Piece sep keep c) :
    pieces sep keep (cs.flatMap fun c => sep :: c) = cs := by
  induction cs using List.reverseRecOn with
  | nil => exact pieces_nil hnil
  | append_singleton cs c ih =>
    have hc := pieces_of_piece (h c (by simp))
    have hcs := ih fun d hd => h d (by simp [hd])
    rw [flatMap_append, flatMap_singleton, pieces_append, hcs, hc]

lemma pieces_render (h : ∀ c ∈ cs, Piece sep keep c) : pieces sep keep (render sep cs) = cs := by
  cases cs with
  | nil => rw [render, pieces_sep_cons hnil, pieces_nil hnil]
  | cons c cs => exact pieces_flatMap hnil h

lemma pieces_join (h : ∀ c ∈ cs, Piece sep keep c) : pieces sep keep (join sep cs) = cs := by
  induction cs with
  | nil => exact pieces_nil hnil
  | cons c cs ih =>
    have hc := pieces_of_piece (h c mem_cons_self)
    have hcs := ih fun d hd => h d (by simp [hd])
    cases cs with
    | nil => exact hc
    | cons d ds =>
      rw [join, pieces_append, hc, hcs]
      · rfl
      · exact cons_ne_nil d ds

lemma pieces_trimEnd (p : List α) : pieces sep keep (trimEnd sep p) = pieces sep keep p := by
  induction p using List.reverseRecOn with
  | nil => rfl
  | append_singleton p x ih =>
    rw [trimEnd, reverse_append, reverse_singleton, singleton_append, dropWhile_cons]
    split
    next hx =>
      rw [decide_eq_true_eq] at hx
      rw [hx, pieces_append, pieces_nil hnil, append_nil]
      exact ih
    · simp

end Skip

/-! ### The first character -/

lemma head?_trimEnd_append {p : List α} (h : p.head? = some sep) (q : List α) :
    (trimEnd sep p ++ sep :: q).head? = some sep := by
  have htrim : trimEnd sep p <+: p := by
    rw [trimEnd, ← reverse_suffix, reverse_reverse]
    exact dropWhile_suffix _
  cases ht : trimEnd sep p with
  | nil => rfl
  | cons x xs =>
    rw [ht] at htrim
    obtain ⟨r, rfl⟩ := htrim
    exact h

end Paths
