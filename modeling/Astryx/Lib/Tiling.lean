import Mathlib

/-!
# Tilings of an interval

The elements of a list, each with a start and a size, tile `[lo, hi)` if they are nonempty and
follow each other without a gap from `lo` to `hi`. A part of a tiling is replaced by any other
tiling of the same stretch (`tiles_append`).
-/

namespace Tiling

variable {α : Type*} {start size : α → ℕ} {lo hi : ℕ} {l : List α}

/-- The list tiles `[lo, hi)`. -/
def Tiles (start size : α → ℕ) : ℕ → List α → ℕ → Prop
  | lo, [], hi => lo = hi
  | lo, b :: bs, hi => start b = lo ∧ 0 < size b ∧ Tiles start size (lo + size b) bs hi

theorem tiles_append {l₁ l₂ : List α} :
    Tiles start size lo (l₁ ++ l₂) hi ↔
    ∃ mid, Tiles start size lo l₁ mid ∧ Tiles start size mid l₂ hi := by
  induction l₁ generalizing lo with
  | nil => simp [Tiles]
  | cons b l₁ ih => simp only [List.cons_append, Tiles, ih, and_assoc, exists_and_left]

section

variable (h : Tiles start size lo l hi)

include h

lemma Tiles.le : lo ≤ hi := by
  induction l generalizing lo with
  | nil => exact Nat.le_of_eq h
  | cons b l ih => exact Nat.le_trans (Nat.le_add_right lo (size b)) (ih h.2.2)

lemma Tiles.mem {b : α} (hb : b ∈ l) : lo ≤ start b ∧ start b + size b ≤ hi := by
  induction l generalizing lo with
  | nil => cases hb
  | cons c l ih =>
    obtain ⟨hc, -, hl⟩ := h
    rcases List.mem_cons.mp hb with rfl | hb
    · exact ⟨Nat.le_of_eq hc.symm, hc ▸ hl.le⟩
    · exact ⟨Nat.le_trans (Nat.le_add_right lo (size c)) (ih hl hb).1, (ih hl hb).2⟩

theorem Tiles.asc : l.Pairwise fun a b => start a + size a ≤ start b := by
  induction l generalizing lo with
  | nil => exact List.Pairwise.nil
  | cons c l ih =>
    obtain ⟨hc, -, hl⟩ := h
    refine List.pairwise_cons.mpr ⟨fun b hb => ?_, ih hl⟩
    rw [hc]
    exact (hl.mem hb).1

/-- Each point of the interval is in one tile, and no other point is in any. -/
theorem Tiles.countP_eq (a : ℕ) :
    l.countP (fun b => decide (start b ≤ a ∧ a < start b + size b)) =
      if lo ≤ a ∧ a < hi then 1 else 0 := by
  induction l generalizing lo with
  | nil =>
    have hlo : lo = hi := h
    rw [List.countP_nil, if_neg (by omega)]
  | cons b l ih =>
    obtain ⟨hb, -, hl⟩ := h
    have hle := hl.le
    rw [List.countP_cons, ih hl, hb]
    by_cases ha : lo ≤ a ∧ a < lo + size b
    · rw [if_neg (by omega), if_pos (by simpa using ha), if_pos (by omega)]
    · have hiff : (lo + size b ≤ a ∧ a < hi) ↔ (lo ≤ a ∧ a < hi) := by omega
      simp [hiff, ha]

/-- Tiles of at least `c` are few. -/
lemma Tiles.length_mul_le {c : ℕ} (hc : ∀ b ∈ l, c ≤ size b) : lo + l.length * c ≤ hi := by
  induction l generalizing lo with
  | nil => simpa using Nat.le_of_eq h
  | cons b l ih =>
    have hb := hc b List.mem_cons_self
    have hl := ih h.2.2 fun a ha => hc a (by simp [ha])
    rw [List.length_cons, Nat.add_mul, Nat.one_mul]
    omega

end

end Tiling
