import Astryx.Lib.FirstMatch
import Mathlib.Data.List.Pairwise

/-!
# Lists of ascending, disjoint extents

An extent is an element `a` of any type with two numbers `lo a` and `hi a`, read as the half-open
interval `[lo a, hi a)`. `Laid lo hi l` says that the extents of `l` are nonempty and follow each
other without overlapping, which is the representation invariant of every address-sorted interval
list.

The editing operations such lists are subject to are each given one preservation lemma: inserting an
extent that meets none of the others (`Laid.place`), replacing every extent by pieces of itself
(`Laid.flatMap`), moving the upper end of one extent (`Laid.updateFirst`) and dropping extents
(`Laid.sublist`).
-/

namespace Extents

open FirstMatch List

variable {α : Type*} {lo hi : α → ℕ} {l : List α}

/-- The extents of `l` are nonempty, ascending and disjoint. -/
structure Laid (lo hi : α → ℕ) (l : List α) : Prop where
  /-- No extent is empty. -/
  pos : ∀ a ∈ l, lo a < hi a
  /-- Each extent ends before every later one begins. -/
  asc : l.Pairwise fun a b => hi a ≤ lo b

/-- Insert `x` before the first extent that begins above it. -/
def place (lo : α → ℕ) (x : α) : List α → List α
  | [] => [x]
  | v :: vs => if lo x < lo v then x :: v :: vs else v :: place lo x vs

/-! ### Structure of `Laid` -/

@[simp] lemma laid_nil : Laid lo hi [] := ⟨by simp, List.Pairwise.nil⟩

lemma laid_cons {a : α} : Laid lo hi (a :: l) ↔ lo a < hi a ∧ (∀ b ∈ l, hi a ≤ lo b) ∧
    Laid lo hi l := by
  constructor
  · intro h
    obtain ⟨hab, hl⟩ := pairwise_cons.mp h.asc
    exact ⟨h.pos a (by simp), hab, fun b hb => h.pos b (by simp [hb]), hl⟩
  · rintro ⟨ha, hab, hl⟩
    exact ⟨forall_mem_cons.mpr ⟨ha, hl.pos⟩, pairwise_cons.mpr ⟨hab, hl.asc⟩⟩

lemma laid_append {l₁ l₂ : List α} :
    Laid lo hi (l₁ ++ l₂) ↔ Laid lo hi l₁ ∧ Laid lo hi l₂ ∧ ∀ a ∈ l₁, ∀ b ∈ l₂, hi a ≤ lo b := by
  constructor
  · intro h
    obtain ⟨h1, h2, h12⟩ := pairwise_append.mp h.asc
    exact ⟨⟨fun a ha => h.pos a (by simp [ha]), h1⟩, ⟨fun a ha => h.pos a (by simp [ha]), h2⟩, h12⟩
  · rintro ⟨h1, h2, h12⟩
    exact ⟨forall_mem_append.mpr ⟨h1.pos, h2.pos⟩, pairwise_append.mpr ⟨h1.asc, h2.asc, h12⟩⟩

theorem Laid.sublist {l l' : List α} (h : Laid lo hi l) (hs : l'.Sublist l) : Laid lo hi l' :=
  ⟨fun a ha => h.pos a (hs.subset ha), h.asc.sublist hs⟩

lemma Laid.disjoint (h : Laid lo hi l) {a b : α} (ha : a ∈ l) (hb : b ∈ l)
    (hne : a ≠ b) : hi a ≤ lo b ∨ hi b ≤ lo a := by
  have hsymm : Std.Symm fun a b => hi a ≤ lo b ∨ hi b ≤ lo a := ⟨fun _ _ => Or.symm⟩
  exact (h.asc.imp .inl : l.Pairwise fun a b => hi a ≤ lo b ∨ hi b ≤ lo a).forall ha hb hne

/-! ### Editing -/

lemma place_perm (lo : α → ℕ) (x : α) (l : List α) : (place lo x l).Perm (x :: l) := by
  induction l with
  | nil => exact .refl _
  | cons v vs ih =>
    rw [place]
    split
    · exact .refl _
    · exact (ih.cons v).trans (.swap ..)

lemma mem_place {x y : α} : y ∈ place lo x l ↔ y = x ∨ y ∈ l := by
  simp [(place_perm lo x l).mem_iff]

lemma filter_place {p : α → Bool} {x : α} (hx : p x = false) (l : List α) :
    (place lo x l).filter p = l.filter p := by
  induction l with
  | nil => rw [place, filter_cons_of_neg (by rw [hx]; nofun)]
  | cons v vs ih =>
    rw [place]
    split
    · rw [filter_cons_of_neg (by rw [hx]; nofun)]
    · rw [filter_cons, filter_cons, ih]

/-- An extent that meets no extent of a laid list may be inserted at its sorted place. -/
theorem Laid.place {x : α} (h : Laid lo hi l) (hx : lo x < hi x)
    (hdisj : ∀ a ∈ l, hi a ≤ lo x ∨ hi x ≤ lo a) : Laid lo hi (place lo x l) := by
  induction l with
  | nil => exact laid_cons.mpr ⟨hx, by simp, laid_nil⟩
  | cons v vs ih =>
    obtain ⟨hv, hvs, hl⟩ := laid_cons.mp h
    have hvx := hdisj v (by simp)
    simp only [Extents.place]
    split
    next hlt =>
      -- `x` goes in front: it ends before `v`, hence before everything after `v`.
      have hxv : hi x ≤ lo v := by omega
      exact laid_cons.mpr ⟨hx, forall_mem_cons.mpr ⟨hxv, fun b hb => by have := hvs b hb; omega⟩, h⟩
    · have hvx' : hi v ≤ lo x := by omega
      refine laid_cons.mpr ⟨hv, fun b hb => ?_, ih hl fun a ha => hdisj a (by simp [ha])⟩
      rcases mem_place.mp hb with rfl | hb
      · exact hvx'
      · exact hvs b hb

/-- Replacing every extent by laid pieces of itself keeps the list laid. -/
theorem Laid.flatMap {f : α → List α} (h : Laid lo hi l)
    (hf : ∀ a ∈ l, Laid lo hi (f a) ∧ ∀ b ∈ f a, lo a ≤ lo b ∧ hi b ≤ hi a) :
    Laid lo hi (l.flatMap f) := by
  induction l with
  | nil => simp
  | cons a l ih =>
    obtain ⟨-, hal, hl⟩ := laid_cons.mp h
    obtain ⟨hfa, hin⟩ := hf a (by simp)
    rw [flatMap_cons, laid_append]
    refine ⟨hfa, ih hl fun b hb => hf b (by simp [hb]), fun b hb c hc => ?_⟩
    obtain ⟨d, hd, hcd⟩ := mem_flatMap.mp hc
    have hb' := hin b hb
    have hc' := (hf d (by simp [hd])).2 c hcd
    have hd' := hal d hd
    omega

/-- Moving the upper end of the first extent that satisfies `p`, as long as it meets no other. -/
theorem Laid.updateFirst {p : α → Bool} {f : α → α} {v : α} (h : Laid lo hi l)
    (hv : l.find? p = some v) (hlo : lo (f v) = lo v) (hpos : lo v < hi (f v))
    (hdisj : ∀ a ∈ l, lo v < lo a → hi (f v) ≤ lo a) :
    Laid lo hi (FirstMatch.updateFirst p f l) := by
  obtain ⟨pre, post, rfl, hu, -⟩ := split_of_find? f hv
  rw [hu, laid_append]
  obtain ⟨hpre, hvpost, hsep⟩ := laid_append.mp h
  obtain ⟨hvv, hvp, hpost⟩ := laid_cons.mp hvpost
  refine ⟨hpre, laid_cons.mpr ⟨by omega, fun b hb => ?_, hpost⟩, fun a ha =>
    forall_mem_cons.mpr ⟨?_, fun b hb => ?_⟩⟩
  · exact hdisj b (by simp [hb]) (by have := hvp b hb; omega)
  · rw [hlo]
    exact hsep a ha v (by simp)
  · exact hsep a ha b (by simp [hb])

end Extents
