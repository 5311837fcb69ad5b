import Astryx.Lib.Bytes

/-!
# Groups and bitmaps

An ext2 volume is a sequence of groups. Each group has a bitmap block with a bit for every block of
the group and one with a bit for every inode. Block numbers start at `first_data_block`, inode
numbers at 1. The numbers are 32 bits wide in the source and those of a volume fit, so they are
natural numbers here.
-/

namespace Astryx.Ext2

/-- A block of the device. -/
abbrev Block := ℕ → UInt8

/-- What a bitmap is about. -/
inductive Kind where
  | block
  | inode
  deriving DecidableEq

/-- What the superblock and the descriptors say and no call changes. -/
structure Layout where
  blockSize : ℕ
  numGroups : ℕ
  firstDataBlock : ℕ
  blocksPerGroup : ℕ
  inodesPerGroup : ℕ
  revLevel : ℕ
  firstIno : ℕ
  /-- `block_bitmap` and `inode_bitmap` of a group. -/
  bitmapBlock : Kind → ℕ → ℕ
  blocks_pos : 0 < blocksPerGroup
  inodes_pos : 0 < inodesPerGroup
  bitmapBlock_inj : ∀ k g k' g', g < numGroups → g' < numGroups →
    bitmapBlock k g = bitmapBlock k' g' → k = k' ∧ g = g'

namespace Layout

/-- One group, with its bitmaps in the blocks `bitmaps` and `bitmaps + 1`. -/
def oneGroup (blockSize first blocks inodes firstIno bitmaps : ℕ) (hblocks : 0 < blocks)
    (hinodes : 0 < inodes) : Layout where
  blockSize := blockSize
  numGroups := 1
  firstDataBlock := first
  blocksPerGroup := blocks
  inodesPerGroup := inodes
  revLevel := 1
  firstIno := firstIno
  bitmapBlock k _ := if k = .block then bitmaps else bitmaps + 1
  blocks_pos := hblocks
  inodes_pos := hinodes
  bitmapBlock_inj k g k' g' hg hg' heq := by
    have hgroup : g = g' := (Nat.lt_one_iff.mp hg).trans (Nat.lt_one_iff.mp hg').symm
    cases k <;> cases k' <;> simp_all

variable (l : Layout)

/-- The bits of a group that count. -/
def perGroup : Kind → ℕ
  | .block => l.blocksPerGroup
  | .inode => l.inodesPerGroup

/-- The number of the first bit. -/
def base : Kind → ℕ
  | .block => l.firstDataBlock
  | .inode => 1

/-- The number of a bit. -/
def number (k : Kind) (group bitIdx : ℕ) : ℕ := l.base k + group * l.perGroup k + bitIdx

/-- The group and the bit of a number, if the number is one of the volume. -/
def locate (k : Kind) (x : ℕ) : Option (ℕ × ℕ) :=
  if x = 0 ∨ x < l.base k then none
  else if l.numGroups ≤ (x - l.base k) / l.perGroup k then none
  else some ((x - l.base k) / l.perGroup k, (x - l.base k) % l.perGroup k)

/-- The first inode that may be handed out. -/
def firstFree : ℕ := if 1 ≤ l.revLevel then l.firstIno else 11

/-- A bit that an allocation may take: reserved inodes are passed over. -/
def eligible : Kind → ℕ → ℕ → Bool
  | .block, _, _ => true
  | .inode, group, bitIdx => l.firstFree ≤ l.number .inode group bitIdx

/-- The first clear bit that may be handed out. -/
def pick (k : Kind) (group : ℕ) (bitmap : Block) : Option ℕ :=
  (List.range (l.perGroup k)).find? fun i => l.eligible k group i && !Bytes.bit bitmap i

variable {l} {k : Kind} {g i x : ℕ}

lemma perGroup_pos (k : Kind) : 0 < l.perGroup k := by
  cases k with
  | block => exact l.blocks_pos
  | inode => exact l.inodes_pos

lemma pick_spec {bitmap : Block} (h : l.pick k g bitmap = some i) :
    i < l.perGroup k ∧ Bytes.bit bitmap i = false := by
  have hmem := List.mem_of_find?_eq_some h
  have hclear := List.find?_some h
  rw [Bool.and_eq_true, Bool.not_eq_true'] at hclear
  exact ⟨List.mem_range.mp hmem, hclear.2⟩

lemma number_of_locate (h : l.locate k x = some (g, i)) :
    l.number k g i = x ∧ g < l.numGroups ∧ i < l.perGroup k := by
  rw [locate] at h
  split at h
  · cases h
  rename_i hx
  rw [not_or, not_lt] at hx
  split at h
  · cases h
  rename_i hg
  obtain ⟨rfl, rfl⟩ := h
  refine ⟨?_, not_le.mp hg, Nat.mod_lt _ (perGroup_pos k)⟩
  rw [number, add_assoc, mul_comm, Nat.div_add_mod, Nat.add_sub_cancel' hx.2]

lemma locate_number (hx : l.number k g i ≠ 0) (hg : g < l.numGroups) (hi : i < l.perGroup k) :
    l.locate k (l.number k g i) = some (g, i) := by
  have hoff : l.number k g i - l.base k = l.perGroup k * g + i := by
    rw [number, mul_comm]
    omega
  have hdiv : (l.number k g i - l.base k) / l.perGroup k = g := by
    rw [hoff, Nat.mul_add_div (perGroup_pos k), Nat.div_eq_of_lt hi, add_zero]
  have hmod : (l.number k g i - l.base k) % l.perGroup k = i := by
    simp [hoff, Nat.mod_eq_of_lt hi]
  have hge : ¬ (l.number k g i = 0 ∨ l.number k g i < l.base k) := by
    rw [not_or]
    refine ⟨hx, ?_⟩
    rw [number]
    omega
  simp [locate, hge, hdiv, hmod, hg]

end Layout

/-- A number and its place in the bitmaps. -/
structure Layout.At (l : Layout) (k : Kind) (x g i : ℕ) : Prop where
  number : l.number k g i = x
  group : g < l.numGroups
  bit : i < l.perGroup k

lemma Layout.At.locate {l : Layout} {k : Kind} {x g i : ℕ} (h : l.At k x g i) (hx : x ≠ 0) :
    l.locate k x = some (g, i) := by
  obtain ⟨rfl, hg, hi⟩ := h
  exact locate_number hx hg hi

lemma Layout.At.unique {l : Layout} {k : Kind} {x g i g' i' : ℕ} (h : l.At k x g i)
    (h' : l.At k x g' i') : g = g' ∧ i = i' := by
  have heq : l.perGroup k * g + i = l.perGroup k * g' + i' := by
    have hnumber := h.number.trans h'.number.symm
    rw [Layout.number, Layout.number, mul_comm g, mul_comm g'] at hnumber
    omega
  have hdiv := congrArg (· / l.perGroup k) heq
  have hmod := congrArg (· % l.perGroup k) heq
  rw [Nat.mul_add_div (Layout.perGroup_pos k), Nat.mul_add_div (Layout.perGroup_pos k),
    Nat.div_eq_of_lt h.bit,
    Nat.div_eq_of_lt h'.bit] at hdiv
  rw [Nat.mul_add_mod, Nat.mul_add_mod, Nat.mod_eq_of_lt h.bit, Nat.mod_eq_of_lt h'.bit] at hmod
  exact ⟨by omega, hmod⟩

lemma Layout.at_of_locate {l : Layout} {k : Kind} {x g i : ℕ} (h : l.locate k x = some (g, i)) :
    l.At k x g i := by
  obtain ⟨hnumber, hg, hi⟩ := Layout.number_of_locate h
  exact ⟨hnumber, hg, hi⟩

end Astryx.Ext2
