import Mathlib

/-!
# Gaps between intervals

What a list of intervals leaves of `[cursor, stop)`. An interval is the pair of its ends, the upper
one excluded, and the intervals of a list come in ascending order without overlap.
-/

namespace Gaps

open List

/-- The ranges ascend and do not overlap. -/
def Ordered (l : List (ℕ × ℕ)) : Prop := l.Pairwise fun a b => a.2 ≤ b.1

/-- The walk over the intervals from `cursor`. -/
def gaps (stop : ℕ) : List (ℕ × ℕ) → ℕ → List (ℕ × ℕ)
  | [], cursor => if cursor < stop then [(cursor, stop)] else []
  | x :: rest, cursor =>
    if stop ≤ cursor then []
    else if x.2 ≤ cursor then gaps stop rest cursor
    else if stop ≤ x.1 then [(cursor, stop)]
    else (if cursor < x.1 then [(cursor, x.1)] else []) ++ gaps stop rest x.2

variable {stop cursor : ℕ} {l : List (ℕ × ℕ)}

lemma gaps_within {g : ℕ × ℕ} (hg : g ∈ gaps stop l cursor) :
    cursor ≤ g.1 ∧ g.1 < g.2 ∧ g.2 ≤ stop := by
  fun_induction gaps stop l cursor with
  | case1 cursor hlt =>
    rw [mem_singleton.mp hg]
    exact ⟨Nat.le_refl _, hlt, Nat.le_refl _⟩
  | case2 | case3 => cases hg
  | case4 x rest cursor _ _ ih => exact ih hg
  | case5 x rest cursor =>
    rw [mem_singleton.mp hg]
    omega
  | case6 x rest cursor _ _ _ ih =>
    obtain hg | hg := mem_append.mp hg
    · obtain ⟨hlt, hg⟩ := mem_ite_nil_right.mp hg
      rw [mem_singleton.mp hg]
      omega
    · have hwithin := ih hg
      omega

lemma gaps_ordered (stop cursor : ℕ) (l : List (ℕ × ℕ)) (hl : ∀ x ∈ l, x.1 ≤ x.2) :
    Ordered (gaps stop l cursor) := by
  fun_induction gaps stop l cursor with
  | case1 | case5 => exact pairwise_singleton ..
  | case2 | case3 => exact .nil
  | case4 x rest cursor _ _ ih => exact ih fun y hy => hl y (by simp [hy])
  | case6 x rest cursor _ _ _ ih =>
    refine pairwise_append.mpr ⟨?_, ih fun y hy => hl y (by simp [hy]), fun g hg g' hg' => ?_⟩
    · split
      · exact pairwise_singleton ..
      · exact .nil
    · rw [mem_singleton.mp (mem_ite_nil_right.mp hg).2]
      exact Nat.le_trans (hl x mem_cons_self) (gaps_within hg').1

/-- No gap meets an interval of the list. -/
lemma gaps_disjoint (hl : ∀ x ∈ l, x.1 ≤ x.2) (hordered : Ordered l) {g : ℕ × ℕ}
    (hg : g ∈ gaps stop l cursor) : ∀ x ∈ l, g.2 ≤ x.1 ∨ x.2 ≤ g.1 := by
  fun_induction gaps stop l cursor with
  | case1 | case2 => exact nofun
  | case3 => cases hg
  | case4 x rest cursor _ hbefore ih =>
    refine forall_mem_cons.mpr
      ⟨?_, ih (fun y hy => hl y (by simp [hy])) (pairwise_cons.mp hordered).2 hg⟩
    exact .inr (Nat.le_trans hbefore (gaps_within hg).1)
  | case5 x rest cursor _ _ hstop =>
    -- the last gap ends before this interval and all later ones
    have hx := hl x mem_cons_self
    rw [mem_singleton.mp hg]
    refine forall_mem_cons.mpr ⟨.inl hstop, fun y hy => .inl ?_⟩
    have hafter := (pairwise_cons.mp hordered).1 y hy
    omega
  | case6 x rest cursor _ _ _ ih =>
    obtain hg | hg := mem_append.mp hg
    · rw [mem_singleton.mp (mem_ite_nil_right.mp hg).2]
      refine forall_mem_cons.mpr ⟨.inl (Nat.le_refl _), fun y hy => .inl ?_⟩
      exact Nat.le_trans (hl x mem_cons_self) ((pairwise_cons.mp hordered).1 y hy)
    · refine forall_mem_cons.mpr ⟨.inr (gaps_within hg).1, ?_⟩
      exact ih (fun y hy => hl y (by simp [hy])) (pairwise_cons.mp hordered).2 hg

end Gaps
