import Astryx.Vma.Syscalls

/-!
# Which addresses the areas cover

`find_vma` answers with the first area that contains an address. The operations that split areas are
followed here by what they do to the covered addresses, without any assumption that the list is well
formed: every piece lies inside the area it was cut from and keeps its flags and the kind of its
backing, a retag loses no address, and a removal loses only addresses of the removed range.

These facts hold for every argument. A range that wraps leaves pieces that overlap, but they are
pieces of one area still.
-/

namespace Astryx

open List

variable {a b : VmArea}

/-- The address is in the area. -/
def VmArea.contains (a : VmArea) (addr : ℕ) : Bool := addr ≥ a.base ∧ addr < a.endAddr

/-- The first area with the address. -/
def findVma (areas : List VmArea) (addr : ℕ) : Option VmArea := areas.find? (·.contains addr)

variable {addr hi prot base length rangeEnd : ℕ}

lemma contains_iff : a.contains addr ↔ a.base ≤ addr ∧ addr < a.endAddr := by
  simp [VmArea.contains]

lemma mem_of_findVma {areas : List VmArea} (h : findVma areas addr = some a) :
    a ∈ areas ∧ a.contains addr :=
  ⟨mem_of_find?_eq_some h, List.find?_some (p := fun b : VmArea => b.contains addr) h⟩

/-- An area that begins at a page contains the whole of a page, as far as its beginning goes. -/
lemma contains_pageAlignDown (hbase : a.base % 4096 = 0) (h : a.contains addr) :
    a.contains (pageAlignDown addr) := by
  have hend : a.endAddr < 2 ^ 64 := Word.add_lt _ _
  rw [contains_iff] at h ⊢
  rw [pageAlignDown_eq]
  omega

/-- `b` is cut from `a`: it covers no address that `a` does not, and agrees with it on what decides
how a page of it is shared. -/
structure VmArea.CutFrom (a b : VmArea) : Prop where
  inside : ∀ addr, b.contains addr → a.contains addr
  flags : b.flags = a.flags
  device : b.backing.isDevice = a.backing.isDevice

lemma VmArea.CutFrom.refl (a : VmArea) : a.CutFrom a := ⟨fun _ => id, rfl, rfl⟩

@[simp] lemma isDevice_advance (delta : ℕ) (b : VmBacking) :
    (b.advance delta).isDevice = b.isDevice := by
  cases b <;> rfl

lemma endAddr_of_ends {lo : ℕ} (hb : a.base = lo) (hl : a.length = Word.sub hi lo)
    (hhi : hi < 2 ^ 64) : a.endAddr = hi := by
  rw [VmArea.endAddr, hb, hl, Word.add, Word.sub]
  omega

lemma endAddr_lt (a : VmArea) : a.endAddr < 2 ^ 64 := Word.add_lt _ _

/-- A piece given by its ends, both inside the area. -/
lemma VmArea.CutFrom.of_ends (hl : b.length = Word.sub hi b.base)
    (hhi : hi ≤ a.endAddr) (hbase : a.base ≤ b.base) (hf : b.flags = a.flags)
    (hd : b.backing.isDevice = a.backing.isDevice) : a.CutFrom b := by
  have hend : b.endAddr = hi := endAddr_of_ends rfl hl (by have := endAddr_lt a; omega)
  refine ⟨fun addr h => ?_, hf, hd⟩
  rw [contains_iff, hend] at h
  rw [contains_iff]
  omega

/-! ## Pieces -/

/-- The piece from `lo` to `hi`. -/
def VmArea.piece (a : VmArea) (lo hi prot : ℕ) : VmArea :=
  { a with
    base := lo, length := Word.sub hi lo, prot, backing := a.backing.advance (Word.sub lo a.base) }

/-- The piece that `remove_range` leaves below its range: it keeps the backing as it is. -/
def VmArea.below (a : VmArea) (hi : ℕ) : VmArea := { a with length := Word.sub hi a.base }

lemma cutFrom_piece {lo : ℕ} (hlo : a.base ≤ lo) (hhi : hi ≤ a.endAddr) :
    a.CutFrom (a.piece lo hi prot) :=
  .of_ends rfl hhi hlo rfl (isDevice_advance _ _)

/-- An area that meets a removed range leaves what it has below and above it. -/
lemma carve_eq (base length : ℕ) (a : VmArea) :
    carve base length a =
      if a.overlaps base length then (if a.base < base then [a.below base] else []) ++
        if Word.add base length < a.endAddr then [a.piece (Word.add base length) a.endAddr a.prot]
          else [] else [a] := by
  have hlen : Word.sub a.length (Word.sub (Word.add base length) a.base) =
      Word.sub a.endAddr (Word.add base length) := by
    rw [VmArea.endAddr, Word.sub, Word.sub, Word.sub, Word.add, Word.add]
    omega
  rw [carve]
  dsimp only
  rw [hlen]
  by_cases hov : a.overlaps base length
  · rw [if_neg (by simp [hov]), if_pos hov]
    split_ifs <;> first | rfl | omega
  · rw [if_pos (by simp [hov]), if_neg hov]

lemma mem_carve (hb : b ∈ carve base length a) :
    b = a ∨ b = a.below base ∧ a.base < base ∧ base < a.endAddr ∨
      b = a.piece (Word.add base length) a.endAddr a.prot ∧ a.base < Word.add base length ∧
        Word.add base length < a.endAddr := by
  rw [carve_eq] at hb
  split at hb
  next hov =>
    have hov : a.base < Word.add base length ∧ base < a.endAddr := of_decide_eq_true hov
    rcases mem_append.mp hb with hb | hb <;> obtain ⟨hlt, hb⟩ := mem_ite_nil_right.mp hb
    · exact .inr (.inl ⟨mem_singleton.mp hb, hlt, hov.2⟩)
    · exact .inr (.inr ⟨mem_singleton.mp hb, hov.1, hlt⟩)
  · exact .inl (mem_singleton.mp hb)

/-- The pieces of a retagged area: itself, with or without the new protection, or up to three
parts. -/
lemma mem_retag (hb : b ∈ retag base rangeEnd prot a) :
    b = a ∧ (a.endAddr ≤ base ∨ a.base ≥ rangeEnd) ∨
    b = { a with prot } ∧ base ≤ a.base ∧ a.endAddr ≤ rangeEnd ∨
    base < a.endAddr ∧ a.base < rangeEnd ∧
      (b = a.piece a.base base a.prot ∧ a.base < base ∨
        b = a.piece (max a.base base) (min a.endAddr rangeEnd) prot ∨
        b = a.piece rangeEnd a.endAddr a.prot ∧ rangeEnd < a.endAddr) := by
  rw [retag] at hb
  split at hb
  · exact .inl ⟨mem_singleton.mp hb, ‹_›⟩
  split at hb
  · exact .inr (.inl ⟨mem_singleton.mp hb, ‹_›⟩)
  refine .inr (.inr ⟨by omega, by omega, ?_⟩)
  rw [mem_append, mem_append, mem_ite_nil_right, mem_ite_nil_right, mem_singleton, mem_singleton,
    mem_singleton] at hb
  rcases hb with (⟨hlt, hb⟩ | hb) | ⟨hlt, hb⟩
  exacts [.inl ⟨hb, hlt⟩, .inr (.inl hb), .inr (.inr ⟨hb, hlt⟩)]

/-! ## Removing a range -/

lemma carve_cutFrom (hb : b ∈ carve base length a) : a.CutFrom b := by
  rcases mem_carve hb with rfl | ⟨rfl, -, hlt⟩ | ⟨rfl, hlt, -⟩
  · exact .refl b
  · exact .of_ends rfl hlt.le le_rfl rfl rfl
  · exact cutFrom_piece hlt.le le_rfl

lemma carve_base (hb : b ∈ carve base length a) :
    b.base = a.base ∨ b.base = Word.add base length := by
  rcases mem_carve hb with rfl | ⟨rfl, -⟩ | ⟨rfl, -⟩
  exacts [.inl rfl, .inl rfl, .inr rfl]

/-- An address outside a range that does not wrap stays covered. -/
lemma carve_covers (h : a.contains addr) (hr : base + length < 2 ^ 64)
    (hout : ¬ (base ≤ addr ∧ addr < base + length)) :
    ∃ b ∈ carve base length a, b.contains addr := by
  have hend := endAddr_lt a
  have hcov := contains_iff.mp h
  rw [carve_eq, Word.add_eq hr]
  split
  · by_cases hlt : addr < base
    · refine ⟨a.below base, mem_append_left _ ?_, contains_iff.mpr ⟨hcov.1, ?_⟩⟩
      · rw [if_pos (by omega)]
        simp
      · rw [endAddr_of_ends rfl rfl (by omega)]
        exact hlt
    refine ⟨a.piece (base + length) a.endAddr a.prot, mem_append_right _ ?_,
      contains_iff.mpr ⟨?_, ?_⟩⟩
    · rw [if_pos (by omega)]
      simp
    · show base + length ≤ addr
      omega
    · rw [endAddr_of_ends rfl rfl hend]
      exact hcov.2
  · simp [h]

/-! ## Retagging a range -/

lemma retag_cutFrom (hb : b ∈ retag base rangeEnd prot a) : a.CutFrom b := by
  rcases mem_retag hb with ⟨rfl, -⟩ | ⟨rfl, -⟩ | ⟨hover, hbelow, ⟨rfl, -⟩ | rfl | ⟨rfl, -⟩⟩
  · exact .refl b
  · exact ⟨fun _ => id, rfl, rfl⟩
  · exact cutFrom_piece le_rfl hover.le
  · exact cutFrom_piece (le_max_left ..) (min_le_left ..)
  · exact cutFrom_piece hbelow.le le_rfl

lemma retag_base (hb : b ∈ retag base rangeEnd prot a) :
    b.base = a.base ∨ b.base = base ∨ b.base = rangeEnd := by
  rcases mem_retag hb with ⟨rfl, -⟩ | ⟨rfl, -⟩ | ⟨-, -, ⟨rfl, -⟩ | rfl | ⟨rfl, -⟩⟩
  · exact .inl rfl
  · exact .inl rfl
  · exact .inl rfl
  · show max a.base base = a.base ∨ max a.base base = base ∨ _
    omega
  · exact .inr (.inr rfl)

/-- A retag keeps every address covered, also when its range wraps: the left piece then reaches past
the beginning of the right one. -/
lemma retag_covers (h : a.contains addr) : ∃ b ∈ retag base rangeEnd prot a, b.contains addr := by
  have hend := endAddr_lt a
  have hcov := contains_iff.mp h
  rw [retag]
  split
  · exact ⟨a, by simp, h⟩
  split
  · exact ⟨{ a with prot }, by simp, h⟩
  dsimp only
  by_cases hleft : addr < base
  · refine ⟨a.piece a.base base a.prot, ?_, contains_iff.mpr ⟨hcov.1, ?_⟩⟩
    · rw [if_pos (by omega)]
      exact mem_append_left _ (mem_append_left _ (mem_singleton_self _))
    · rw [endAddr_of_ends rfl rfl (by omega)]
      exact hleft
  by_cases hright : rangeEnd ≤ addr
  · refine ⟨a.piece rangeEnd a.endAddr a.prot, mem_append_right _ ?_, contains_iff.mpr ⟨hright, ?_⟩⟩
    · rw [if_pos (by omega)]
      exact mem_singleton_self _
    · rw [endAddr_of_ends rfl rfl hend]
      exact hcov.2
  refine ⟨a.piece (max a.base base) (min a.endAddr rangeEnd) prot,
    mem_append_left _ (mem_append_right _ (mem_singleton_self _)), contains_iff.mpr ⟨?_, ?_⟩⟩
  · show max a.base base ≤ addr
    omega
  · rw [endAddr_of_ends rfl rfl (by omega)]
    omega

end Astryx
