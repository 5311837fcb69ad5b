import Astryx.Ext2.Files
import Astryx.Lib.PointerForest
import Astryx.Lib.Rows

/-!
# Who owns which block

The slots of the inodes and the words of the blocks make a forest. Its cells are a slot of an inode
with a list of words, not longer than the slot has levels of indirect blocks; a list of full length
leads to data. `Owned` says that the blocks in the cells are blocks of files, each in one cell, and
that the bitmaps mark exactly these and the volume's own. `Counted` says that `i_blocks` and the
free counts are exact.

A file changes its blocks in two ways. A fresh block is put into an empty cell (`Attached`), and a
block with nothing below it is taken out of its cell (`Detached`). Both keep `Owned` and `Counted`,
and each comes in two forms, for a slot of the inode and for a word of an indirect block. Taking out
needs that the count of the group can hold one more.
-/

namespace Astryx.Ext2

open PointerForest Function Bytes

/-- The indirection below a slot. -/
def height (r : ℕ × ℕ) : ℕ := Geometry.slotHeight r.2

/-- A word of the inode or of one of its indirect blocks. -/
abbrev Geometry.IsCell (l : Geometry) (r : ℕ × ℕ) (is : List ℕ) :
    Prop := Cell l.ptrsPerBlock height r is

/-- All cells of an inode. -/
@[irreducible] def Geometry.cellsOf (l : Geometry) (n : ℕ) : Finset ((ℕ × ℕ) × List ℕ) :=
  cells l.ptrsPerBlock height ((Finset.range 15).image fun slot => (n, slot))

namespace Fs

/-- The slots of the inodes that have blocks, and the words of all blocks. -/
def forest (owners : Finset ℕ) (s : Fs) : Forest (ℕ × ℕ) where
  root r := if r.1 ∈ owners ∧ r.2 < 15 then (s.inodes r.1).block r.2 else 0
  next b i := word (s.dev b) i

/-- The block that a cell names. -/
def blockAt (owners : Finset ℕ) (s : Fs) (r : ℕ × ℕ) (is : List ℕ) : ℕ := (s.forest owners).get r is

/-- The bit of a block. -/
def marked (l : Geometry) (s : Fs) (g i : ℕ) : Bool := bit (s.dev (l.bitmapBlock .block g)) i

/-- A cell names the block. -/
def Held (l : Geometry) (owners : Finset ℕ) (s : Fs) (x : ℕ) : Prop :=
  ∃ r is, l.IsCell r is ∧ s.blockAt owners r is = x

/-- The block is an indirect one. -/
def IsIndex (l : Geometry) (owners : Finset ℕ) (s : Fs) (x : ℕ) : Prop :=
  ∃ r is, l.IsCell r is ∧ is.length < height r ∧ s.blockAt owners r is = x ∧ x ≠ 0

/-- The blocks of an inode. -/
def held (l : Geometry) (owners : Finset ℕ) (s : Fs) (n : ℕ) : ℕ :=
  ((l.cellsOf n).filter fun c => s.blockAt owners c.1 c.2 ≠ 0).card

/-- The free blocks of a group. -/
def clear (l : Geometry) (s : Fs) (g : ℕ) : ℕ :=
  ((Finset.range l.blocksPerGroup).filter fun i => s.marked l g i = false).card

end Fs

/-- Each block has one owner, and its bit says so. -/
structure Owned (l : Geometry) (owners : Finset ℕ) (s : Fs) : Prop where
  distinct : ∀ r is r' is', l.IsCell r is → l.IsCell r' is' → s.blockAt owners r is ≠ 0 →
    s.blockAt owners r is = s.blockAt owners r' is' → r = r' ∧ is = is'
  placed : ∀ r is, l.IsCell r is → s.blockAt owners r is ≠ 0 →
    l.own (s.blockAt owners r is) = false ∧ ∃ g i, l.At .block (s.blockAt owners r is) g i
  marks : ∀ x g i, l.At .block x g i → (s.marked l g i = true ↔ l.own x = true ∨ s.Held l owners x)

/-- The counts are right. -/
structure Counted (l : Geometry) (owners : Finset ℕ) (s : Fs) : Prop where
  blocks : ∀ n ∈ owners, (s.inodes n).blocks = l.sectorsPerBlock * s.held l owners n
  group : ∀ g < l.numGroups, s.groupFree g = s.clear l g
  total : s.totalFree = ∑ g ∈ Finset.range l.numGroups, s.groupFree g

variable {l : Geometry} {owners : Finset ℕ} {s v v' : Fs} {n slot b g i x : ℕ} {is js : List ℕ}
  {r : ℕ × ℕ} {ino : Inode}

/-! ## What the cells depend on -/

lemma blockAt_nil (hn : n ∈ owners) (hslot : slot < 15) :
    s.blockAt owners (n, slot) [] = (s.inodes n).block slot :=
  if_pos ⟨hn, hslot⟩

/-- Blocks that are not in a cell with cells below do not matter. -/
lemma blockAt_congr
    (hroot : ∀ n ∈ owners, ∀ slot < 15, (v'.inodes n).block slot = (v.inodes n).block slot)
    (hdev : ∀ x, v.IsIndex l owners x → v'.dev x = v.dev x) (hcell : l.IsCell r is) :
    v'.blockAt owners r is = v.blockAt owners r is := by
  refine Forest.get_congr (fun r => ?_) (fun r is i hcell hne => ?_) hcell
  · rw [Fs.forest, Fs.forest]
    dsimp only
    split
    next h => exact hroot r.1 h.1 r.2 h.2
    · rfl
  have hsame := hdev _ ⟨r, is, hcell.of_append, hcell.lt_of_concat, rfl, hne⟩
  exact congrArg (fun data => word data i) hsame

lemma Owned.not_own_of_isIndex (h : Owned l owners s) (hx : s.IsIndex l owners x) :
    l.own x = false := by
  obtain ⟨r, is, hcell, -, rfl, hne⟩ := hx
  exact (h.placed r is hcell hne).1

lemma ne_bitmapBlock (hfile : l.own x = false) (k : Kind) (hg : g < l.numGroups) :
    x ≠ l.bitmapBlock k g := fun heq => by
  rw [heq, l.own_bitmap k g hg] at hfile
  cases hfile

lemma Owned.ne_bitmap (h : Owned l owners s) (hx : s.IsIndex l owners x) (hg : g < l.numGroups) :
    x ≠ l.bitmapBlock .block g :=
  ne_bitmapBlock (h.not_own_of_isIndex hx) .block hg

/-- A block whose bit is clear is one for files, and in no cell. -/
lemma Owned.of_clear (h : Owned l owners s) (hat : l.At .block b g i)
    (hclear : s.marked l g i = false) : l.own b = false ∧ ¬ s.Held l owners b := by
  have hno : ¬ (l.own b ∨ s.Held l owners b) := fun hor => by
    have hset := (h.marks b g i hat).mpr hor
    rw [hclear] at hset
    cases hset
  rw [not_or] at hno
  exact ⟨Bool.eq_false_iff.mpr hno.1, hno.2⟩

/-- A state with the same blocks in the cells. -/
lemma Owned.distinct_of_blockAt (h : Owned l owners v)
    (hsame : ∀ r is, l.IsCell r is → v'.blockAt owners r is = v.blockAt owners r is) :
    (v'.forest owners).Distinct l.ptrsPerBlock height := by
  intro r is r' is' hc hc' hne heq
  have h1 := hsame r is hc
  have h2 := hsame r' is' hc'
  rw [Fs.blockAt] at h1 h2
  rw [h1] at hne heq
  rw [h2] at heq
  exact h.distinct r is r' is' hc hc' hne heq

lemma ne_zero_of_not_own (h : l.own b = false) : b ≠ 0 := fun hzero => by
  rw [hzero, l.own_zero] at h
  cases h

/-! ## A fresh block in an empty cell -/

/-- A fresh block is put into an empty cell. -/
structure Attached (l : Geometry) (owners : Finset ℕ) (v v' : Fs) (n slot : ℕ) (is : List ℕ)
    (b g i : ℕ) : Prop where
  owner : n ∈ owners
  slot_lt : slot < 15
  cell : l.IsCell (n, slot) is
  place : l.At .block b g i
  fresh : v.marked l g i = false
  vacant : v.blockAt owners (n, slot) is = 0
  blockAt : ∀ r js, l.IsCell r js →
    v'.blockAt owners r js = if r = (n, slot) ∧ js = is then b else v.blockAt owners r js
  marked : ∀ g' < l.numGroups,
    ∀ i', v'.marked l g' i' = (decide (g' = g ∧ i' = i) || v.marked l g' i')
  blocks : ∀ m, (v'.inodes m).blocks = (v.inodes m).blocks + if m = n then l.sectorsPerBlock else 0
  groupFree : v'.groupFree = update v.groupFree g (v.groupFree g - 1)
  totalFree : v'.totalFree = v.totalFree - 1

/-- The other way round, and the count of the group may wrap. -/
structure Detached (l : Geometry) (owners : Finset ℕ) (v v' : Fs) (n slot : ℕ) (is : List ℕ)
    (b g i : ℕ) : Prop where
  owner : n ∈ owners
  slot_lt : slot < 15
  cell : l.IsCell (n, slot) is
  place : l.At .block b g i
  holds : v.blockAt owners (n, slot) is = b
  not_own : l.own b = false
  blockAt : ∀ r js, l.IsCell r js →
    v'.blockAt owners r js = if r = (n, slot) ∧ js = is then 0 else v.blockAt owners r js
  marked : ∀ g' < l.numGroups,
    ∀ i', v'.marked l g' i' = (!decide (g' = g ∧ i' = i) && v.marked l g' i')
  blocks : ∀ m, (v'.inodes m).blocks = (v.inodes m).blocks - if m = n then l.sectorsPerBlock else 0
  groupFree : v'.groupFree = update v.groupFree g ((v.groupFree g + 1) % 2 ^ 16)
  totalFree : v'.totalFree = v.totalFree + 1

lemma Attached.owned (a : Attached l owners v v' n slot is b g i) (h : Owned l owners v) :
    Owned l owners v' := by
  obtain ⟨hfile, hnew⟩ := h.of_clear a.place a.fresh
  constructor
  · intro r js r' js' hc hc' hne heq
    rw [a.blockAt r js hc] at hne heq
    rw [a.blockAt r' js' hc'] at heq
    split at heq
    next h1 =>
      split at heq
      next h2 => exact ⟨h1.1.trans h2.1.symm, h1.2.trans h2.2.symm⟩
      · exact absurd ⟨r', js', hc', heq.symm⟩ hnew
    next h1 =>
      rw [if_neg h1] at hne
      split at heq
      · exact absurd ⟨r, js, hc, heq⟩ hnew
      · exact h.distinct r js r' js' hc hc' hne heq
  · intro r js hc hne
    rw [a.blockAt r js hc] at hne ⊢
    split
    · exact ⟨hfile, g, i, a.place⟩
    next hother =>
      rw [if_neg hother] at hne
      exact h.placed r js hc hne
  intro x g' i' hat
  rw [a.marked g' hat.group, Bool.or_eq_true, decide_eq_true_eq, h.marks x g' i' hat]
  constructor
  · rintro (⟨rfl, rfl⟩ | hown | ⟨r, js, hc, hx⟩)
    · refine .inr ⟨(n, slot), is, a.cell, ?_⟩
      rw [a.blockAt _ _ a.cell, if_pos ⟨rfl, rfl⟩]
      exact a.place.number.symm.trans hat.number
    · exact .inl hown
    by_cases htarget : r = (n, slot) ∧ js = is
    · -- block 0, which is the volume's own
      rw [htarget.1, htarget.2, a.vacant] at hx
      exact .inl (hx ▸ l.own_zero)
    refine .inr ⟨r, js, hc, ?_⟩
    rw [a.blockAt r js hc, if_neg htarget]
    exact hx
  rintro (hown | ⟨r, js, hc, hx⟩)
  · exact .inr (.inl hown)
  rw [a.blockAt r js hc] at hx
  split at hx
  · rw [← hx] at hat
    exact .inl (hat.unique a.place)
  · exact .inr (.inr ⟨r, js, hc, hx⟩)

lemma Detached.owned (d : Detached l owners v v' n slot is b g i) (h : Owned l owners v) :
    Owned l owners v' := by
  have hsub : ∀ r js, l.IsCell r js → v'.blockAt owners r js ≠ 0 →
      v'.blockAt owners r js = v.blockAt owners r js := by
    intro r js hc hne
    rw [d.blockAt r js hc] at hne ⊢
    split
    next htarget =>
      rw [if_pos htarget] at hne
      exact absurd rfl hne
    · rfl
  have hb : b ≠ 0 := ne_zero_of_not_own d.not_own
  constructor
  · intro r js r' js' hc hc' hne heq
    have h1 := hsub r js hc hne
    have h2 := hsub r' js' hc' (heq ▸ hne)
    exact h.distinct r js r' js' hc hc' (h1 ▸ hne) (h1.symm.trans (heq.trans h2))
  · intro r js hc hne
    rw [hsub r js hc hne]
    exact h.placed r js hc (hsub r js hc hne ▸ hne)
  intro x g' i' hat
  rw [d.marked g' hat.group, Bool.and_eq_true, Bool.not_eq_true', decide_eq_false_iff_not,
    h.marks x g' i' hat]
  constructor
  · rintro ⟨hother, hown | ⟨r, js, hc, hx⟩⟩
    · exact .inl hown
    refine .inr ⟨r, js, hc, ?_⟩
    rw [d.blockAt r js hc, if_neg]
    · exact hx
    rintro ⟨rfl, rfl⟩
    rw [d.holds] at hx
    rw [← hx] at hat
    exact hother (hat.unique d.place)
  intro hor
  constructor
  · rintro ⟨rfl, rfl⟩
    have hx : x = b := hat.number.symm.trans d.place.number
    rcases hor with hown | ⟨r, js, hc, heq⟩
    · rw [hx, d.not_own] at hown
      cases hown
    -- the cell would have held the block before, too
    have hne : v'.blockAt owners r js ≠ 0 := by
      rw [heq, hx]
      exact hb
    have hsame := hsub r js hc hne
    have hcell := h.distinct r js (n, slot) is hc d.cell (hsame ▸ hne)
      (hsame.symm.trans (heq.trans (hx.trans d.holds.symm)))
    rw [d.blockAt r js hc, if_pos hcell] at hne
    exact hne rfl
  rcases hor with hown | ⟨r, js, hc, hx⟩
  · exact .inl hown
  by_cases hzero : v'.blockAt owners r js = 0
  · exact .inl ((hzero.symm.trans hx) ▸ l.own_zero)
  · exact .inr ⟨r, js, hc, (hsub r js hc hzero).symm.trans hx⟩

/-! ### The counts -/

lemma mem_cellsOf : (r, is) ∈ l.cellsOf n ↔ (r.1 = n ∧ r.2 < 15) ∧ l.IsCell r is := by
  rw [Geometry.cellsOf, mem_cells, Finset.mem_image]
  refine and_congr_left fun _ => ?_
  constructor
  · rintro ⟨slot, hslot, rfl⟩
    exact ⟨rfl, Finset.mem_range.mp hslot⟩
  · rintro ⟨rfl, hslot⟩
    exact ⟨r.2, Finset.mem_range.mpr hslot, rfl⟩

lemma held_eq_succ {w w' : Fs} {m : ℕ} (hslot : slot < 15) (hcell : l.IsCell (n, slot) is)
    (hw : w.blockAt owners (n, slot) is = 0) (hw' : w'.blockAt owners (n, slot) is ≠ 0)
    (hother : ∀ r js, l.IsCell r js → ¬ (r = (n, slot) ∧ js = is) →
      w'.blockAt owners r js = w.blockAt owners r js) :
    w'.held l owners m = w.held l owners m + if m = n then 1 else 0 := by
  have hmem : ((n, slot), is) ∈ l.cellsOf m ↔ m = n := by
    rw [mem_cellsOf]
    exact ⟨fun h => h.1.1.symm, fun h => ⟨⟨h.symm, hslot⟩, hcell⟩⟩
  have hone : ∀ c ∈ l.cellsOf m, w'.blockAt owners c.1 c.2 ≠ 0 ↔ w.blockAt owners c.1 c.2 ≠ 0 ∨
      c = ((n, slot), is) := by
    rintro ⟨r, js⟩ hx
    have hc := (mem_cellsOf.mp hx).2
    rw [Prod.mk.injEq]
    by_cases htarget : r = (n, slot) ∧ js = is
    · rw [htarget.1, htarget.2]
      exact ⟨fun _ => .inr ⟨rfl, rfl⟩, fun _ => hw'⟩
    · rw [hother r js hc htarget]
      exact (or_iff_left htarget).symm
  simp [Fs.held, card_filter_insert hone (not_not.mpr hw), hmem]

lemma clear_eq_succ {w w' : Fs} {g' : ℕ} (hi : i < l.blocksPerGroup) (hw : w.marked l g i)
    (hw' : w'.marked l g i = false)
    (hother : ∀ i', ¬ (g' = g ∧ i' = i) → w'.marked l g' i' = w.marked l g' i') :
    w'.clear l g' = w.clear l g' + if g' = g then 1 else 0 := by
  by_cases hg : g' = g
  · subst hg
    have hone : ∀ j ∈ Finset.range l.blocksPerGroup, w'.marked l g' j = false ↔
        w.marked l g' j = false ∨ j = i := by
      intro j _
      by_cases hj : j = i
      · rw [hj]
        exact ⟨fun _ => .inr rfl, fun _ => hw'⟩
      · rw [hother j fun h => hj h.2]
        exact (or_iff_left hj).symm
    have hset : ¬ w.marked l g' i = false := by
      rw [hw]
      decide
    simp [Fs.clear, card_filter_insert hone hset, hi]
  rw [if_neg hg, add_zero, Fs.clear, Fs.clear]
  refine congrArg Finset.card (Finset.filter_congr fun j _ => ?_)
  rw [hother j fun h => hg h.1]

lemma Attached.counted (a : Attached l owners v v' n slot is b g i) (ho : Owned l owners v)
    (h : Counted l owners v) : Counted l owners v' := by
  have hb : b ≠ 0 := ne_zero_of_not_own (ho.of_clear a.place a.fresh).1
  have hclear : ∀ g' < l.numGroups, v.clear l g' = v'.clear l g' +
      if g' = g then 1 else 0 := fun g' hg' => by
    refine clear_eq_succ a.place.bit ?_ a.fresh fun i' hother => ?_
    · simp [a.marked g a.place.group]
    · simp [a.marked g' hg', hother]
  have hpos : 0 < v.groupFree g := by
    have hone := hclear g a.place.group
    rw [if_pos rfl] at hone
    rw [h.group g a.place.group]
    omega
  constructor
  · intro m hm
    have hheld : v'.held l owners m = v.held l owners m + if m = n then 1 else 0 := by
      refine held_eq_succ a.slot_lt a.cell a.vacant ?_ fun r js hc hother => ?_
      · rw [a.blockAt _ _ a.cell, if_pos ⟨rfl, rfl⟩]
        exact hb
      · rw [a.blockAt r js hc, if_neg hother]
    rw [a.blocks, h.blocks m hm, hheld, mul_add, mul_ite, mul_one, mul_zero]
  · intro g' hg'
    have hone := hclear g' hg'
    rw [a.groupFree]
    by_cases hg : g' = g
    · rw [hg] at hone ⊢
      rw [update_self, h.group g a.place.group]
      rw [if_pos rfl] at hone
      omega
    · simp [hg, h.group g' hg', hone, add_zero]
  have hsum := Rows.sum_update (fun _ c => c) v.groupFree a.place.group (v.groupFree g - 1)
  rw [a.totalFree, a.groupFree, h.total]
  omega

lemma Detached.counted (d : Detached l owners v v' n slot is b g i) (ho : Owned l owners v)
    (h : Counted l owners v) (hfits : v.clear l g + 1 < 2 ^ 16) : Counted l owners v' := by
  have hb : b ≠ 0 := ne_zero_of_not_own d.not_own
  have hset : v.marked l g i := (ho.marks b g i d.place).mpr (.inr ⟨_, _, d.cell, d.holds⟩)
  have hclear : ∀ g' < l.numGroups, v'.clear l g' = v.clear l g' +
      if g' = g then 1 else 0 := fun g' hg' => by
    refine clear_eq_succ d.place.bit hset ?_ fun i' hother => ?_
    · simp [d.marked g d.place.group]
    · simp [d.marked g' hg', hother]
  have hcount : (v.groupFree g + 1) % 2 ^ 16 = v.groupFree g + 1 := by
    rw [h.group g d.place.group]
    omega
  constructor
  · intro m hm
    have hheld : v.held l owners m = v'.held l owners m + if m = n then 1 else 0 := by
      refine held_eq_succ d.slot_lt d.cell ?_ ?_ fun r js hc hother => ?_
      · simp [d.blockAt _ _ d.cell]
      · rw [d.holds]
        exact hb
      · rw [d.blockAt r js hc, if_neg hother]
    rw [d.blocks, h.blocks m hm, hheld, mul_add, mul_ite, mul_one, mul_zero,
      Nat.add_sub_cancel_right]
  · intro g' hg'
    rw [d.groupFree, hclear g' hg']
    by_cases hg : g' = g
    · rw [hg, update_self, hcount, h.group g d.place.group, if_pos rfl]
    · simp [hg, h.group g' hg', add_zero]
  have hsum := Rows.sum_update (fun _ c => c) v.groupFree d.place.group (v.groupFree g + 1)
  rw [d.totalFree, d.groupFree, hcount, h.total]
  omega

/-! ## Taking a block and hanging it in -/

lemma takeBlock_dev (hb : l.number .block g i = b) :
    (s.takeBlock l g i).dev x = if x = b then fun _ => 0
      else if x = l.bitmapBlock .block g then setBit (s.dev (l.bitmapBlock .block g)) i
        else s.dev x := by
  rw [Fs.takeBlock, ← hb]
  dsimp only [Fs.writeBlock]
  rw [update_apply, update_apply]

lemma takeBlock_next (hb : l.number .block g i = b) (j : ℕ) :
    ((s.takeBlock l g i).forest owners).next b j = 0 := by
  rw [Fs.forest]
  dsimp only
  rw [takeBlock_dev hb, if_pos rfl]
  rfl

lemma writeInode_blocks (m : ℕ) :
    ((s.writeInode n ino).inodes m).blocks = if m = n then ino.blocks else (s.inodes m).blocks := by
  rw [Fs.writeInode]
  dsimp only
  rw [update_apply, apply_ite Inode.blocks]

/-- Sectors are taken or given, and none is neutral. -/
lemma writeInode_blocks_op (op : ℕ → ℕ → ℕ) (hop : ∀ a, op a 0 = a) (hinodes : s.inodes = v.inodes)
    (hblocks : ino.blocks = op (v.inodes n).blocks x) (m : ℕ) :
    ((s.writeInode n ino).inodes m).blocks = op (v.inodes m).blocks (if m = n then x else 0) := by
  rw [writeInode_blocks, hinodes]
  split
  next hm => rw [hblocks, hm]
  · rw [hop]

lemma writeInode_forest (hblock : ino.block = (s.inodes n).block) :
    (s.writeInode n ino).forest owners = s.forest owners := by
  rw [Fs.forest, Fs.forest, Forest.mk.injEq]
  refine ⟨funext fun r => ?_, rfl⟩
  rw [Fs.writeInode]
  dsimp only
  by_cases hr : r.1 = n
  · simp [hr, hblock]
  · simp [hr]

lemma writeInode_forest_setRoot (hn : n ∈ owners) (hslot : slot < 15)
    (hblock : ino.block = update (s.inodes n).block slot b) :
    (s.writeInode n ino).forest owners = (s.forest owners).setRoot (n, slot) b := by
  rw [Fs.forest, Fs.forest, Forest.setRoot, Forest.mk.injEq]
  refine ⟨funext fun r => ?_, rfl⟩
  rw [Fs.writeInode]
  dsimp only
  by_cases hr : r = (n, slot)
  · simp [hr, hn, hslot, hblock]
  rw [update_of_ne hr]
  by_cases hr1 : r.1 = n
  · have hr2 : r.2 ≠ slot := fun h => hr (Prod.ext hr1 h)
    simp [hr1, hblock, hr2]
  · simp [hr1]

lemma writeSlot_forest (owners : Finset ℕ) (i : ℕ) (hdev : s.dev b = v.dev b) (hx : x < 2 ^ 32)
    (hblock : ino.block = (s.inodes n).block) :
    ((s.writeBlock b (setWord (v.dev b) i x)).writeInode n ino).forest owners =
      (s.forest owners).setNext b i x := by
  rw [writeInode_forest (s := s.writeBlock b _) hblock, ← hdev, Fs.forest, Fs.forest,
    Forest.setNext, Forest.mk.injEq]
  refine ⟨rfl, funext fun b' => funext fun j => ?_⟩
  rw [Fs.writeBlock]
  dsimp only
  by_cases hb : b' = b
  · rw [hb, update_self, update_self, word_setWord _ hx]
    rw [update_apply]
  · simp [hb]

lemma writeSlot_marked {data : Block} (hne : l.bitmapBlock .block g ≠ b) :
    ((s.writeBlock b data).writeInode n ino).marked l g i = s.marked l g i := by
  rw [Fs.marked, Fs.writeInode, Fs.writeBlock]
  dsimp only
  rw [update_of_ne hne]
  rfl

section Take

variable (h : Owned l owners v) (hat : l.At .block b g i) (hclear : v.marked l g i = false)

include h hat hclear

lemma Owned.ne_of_fresh (hx : v.IsIndex l owners x) : x ≠ b := by
  rintro rfl
  obtain ⟨r, is, hcell, -, hx, -⟩ := hx
  exact (h.of_clear hat hclear).2 ⟨r, is, hcell, hx⟩

lemma Owned.takeBlock_dev_of_isIndex (hx : v.IsIndex l owners x) :
    (v.takeBlock l g i).dev x = v.dev x := by
  rw [takeBlock_dev hat.number, if_neg (h.ne_of_fresh hat hclear hx),
    if_neg (h.ne_bitmap hx hat.group)]

lemma Owned.takeBlock_blockAt (hcell : l.IsCell r is) :
    (v.takeBlock l g i).blockAt owners r is = v.blockAt owners r is :=
  blockAt_congr (fun _ _ _ _ => rfl) (fun _ => h.takeBlock_dev_of_isIndex hat hclear) hcell

lemma Owned.takeBlock_marked {g' : ℕ} (hg' : g' < l.numGroups) (i' : ℕ) :
    (v.takeBlock l g i).marked l g' i' = (decide (g' = g ∧ i' = i) || v.marked l g' i') := by
  have hne : l.bitmapBlock .block g' ≠ b :=
    (ne_bitmapBlock (h.of_clear hat hclear).1 .block hg').symm
  rw [Fs.marked, takeBlock_dev hat.number, if_neg hne]
  by_cases hg : g' = g
  · simp [hg, Fs.marked]
  have hbm : l.bitmapBlock .block g' ≠ l.bitmapBlock .block g := fun heq =>
    hg (l.bitmapBlock_inj .block g' .block g hg' hat.group heq).2
  rw [if_neg hbm, decide_eq_false fun hand => hg hand.1, Bool.false_or, Fs.marked]

lemma Owned.attachRoot (hn : n ∈ owners) (hslot : slot < 15) (hvacant : (v.inodes n).block slot = 0)
    (hblock : ino.block = update (v.inodes n).block slot b)
    (hblocks : ino.blocks = (v.inodes n).blocks + l.sectorsPerBlock) :
    Attached l owners v ((v.takeBlock l g i).writeInode n ino) n slot [] b g i where
  owner := hn
  slot_lt := hslot
  cell := cell_nil
  place := hat
  fresh := hclear
  vacant := (blockAt_nil hn hslot).trans hvacant
  blockAt r js hc := by
    have hempty : ((v.takeBlock l g i).forest owners).root (n, slot) = 0 :=
      (if_pos ⟨hn, hslot⟩).trans hvacant
    have hforest := writeInode_forest_setRoot (s := v.takeBlock l g i) hn hslot hblock
    have hget := Forest.get_attachRoot hempty (takeBlock_next hat.number) r js
    rw [Fs.blockAt, hforest, hget, ← Fs.blockAt, h.takeBlock_blockAt hat hclear hc]
  marked g' hg' i' := h.takeBlock_marked hat hclear hg' i'
  blocks := writeInode_blocks_op (· + ·) add_zero rfl hblocks
  groupFree := rfl
  totalFree := rfl

lemma Owned.attachSlot {j : ℕ} (hn : n ∈ owners) (hslot : slot < 15)
    (hcell : l.IsCell (n, slot) (is ++ [j])) (hparent : v.blockAt owners (n, slot) is = x)
    (hx : x ≠ 0) (hvacant : word (v.dev x) j = 0) (hblock : ino.block = (v.inodes n).block)
    (hblocks : ino.blocks = (v.inodes n).blocks + l.sectorsPerBlock) :
    Attached l owners v
      (((v.takeBlock l g i).writeBlock x (setWord (v.dev x) j b)).writeInode n ino) n slot
      (is ++ [j]) b g i := by
  have hindex : v.IsIndex l owners x :=
    ⟨(n, slot), is, hcell.of_append, hcell.lt_of_concat, hparent, hx⟩
  have hdev := h.takeBlock_dev_of_isIndex hat hclear hindex
  have hb : b < 2 ^ 32 := l.lt_of_not_own b (h.of_clear hat hclear).1
  refine ⟨hn, hslot, hcell, hat, hclear, ?_, fun r js hc => ?_, fun g' hg' i' => ?_,
    writeInode_blocks_op (· + ·) add_zero rfl hblocks, rfl, rfl⟩
  · rw [Fs.blockAt, Forest.get_concat, ← Fs.blockAt, hparent, if_neg hx]
    exact hvacant
  · have hforest := writeSlot_forest owners j hdev hb hblock
    have hparent' : ((v.takeBlock l g i).forest owners).get (n, slot) is = x :=
      (h.takeBlock_blockAt hat hclear hcell.of_append).trans hparent
    have hdistinct := h.distinct_of_blockAt fun _ _ => h.takeBlock_blockAt hat hclear
    have hempty : ((v.takeBlock l g i).forest owners).next x j = 0 := by
      rw [Fs.forest]
      dsimp only
      rw [hdev]
      exact hvacant
    have hne : b ≠ x := (h.ne_of_fresh hat hclear hindex).symm
    rw [← hparent'] at hempty hne hx
    have hget := Forest.get_attachNext hdistinct hcell.of_append hx hempty
      (takeBlock_next hat.number) hne hc
    rw [hparent', ← hforest] at hget
    rw [Fs.blockAt, hget, ← Fs.blockAt, h.takeBlock_blockAt hat hclear hc]
  · rw [writeSlot_marked (h.ne_bitmap hindex hg').symm, h.takeBlock_marked hat hclear hg']

end Take

/-! ## Taking a block out and releasing it -/

lemma releaseBlock_dev : (s.releaseBlock l b g i).dev x
    = if x = l.bitmapBlock .block g then clearBit (s.dev (l.bitmapBlock .block g)) i
      else s.dev x := by
  rw [Fs.releaseBlock]
  dsimp only [Fs.writeBlock, Fs.invalidateIndirectCache]
  rw [update_apply]

lemma releaseBlock_marked {g' : ℕ} (hg : g < l.numGroups) (hg' : g' < l.numGroups) (i' : ℕ) :
    (s.releaseBlock l b g i).marked l g' i' = (!decide (g' = g ∧ i' = i) && s.marked l g' i') := by
  rw [Fs.marked, releaseBlock_dev]
  by_cases heq : g' = g
  · simp [heq, Fs.marked]
  have hbm : l.bitmapBlock .block g' ≠ l.bitmapBlock .block g := fun hsame =>
    heq (l.bitmapBlock_inj .block g' .block g hg' hg hsame).2
  rw [if_neg hbm, decide_eq_false fun hand => heq hand.1, Bool.not_false, Bool.true_and, Fs.marked]

section Release

variable (h : Owned l owners v) (hat : l.At .block b g i)

include h hat

lemma Owned.releaseBlock_dev_of_isIndex (hx : v.IsIndex l owners x) :
    (v.releaseBlock l b g i).dev x = v.dev x := by
  rw [releaseBlock_dev, if_neg (h.ne_bitmap hx hat.group)]

lemma Owned.releaseBlock_blockAt (hcell : l.IsCell r is) :
    (v.releaseBlock l b g i).blockAt owners r is = v.blockAt owners r is :=
  blockAt_congr (fun _ _ _ _ => rfl) (fun _ => h.releaseBlock_dev_of_isIndex hat) hcell

lemma Owned.detachRoot (hn : n ∈ owners) (hslot : slot < 15)
    (hholds : v.blockAt owners (n, slot) [] = b) (hb : b ≠ 0)
    (hbelow : ∀ js, js ≠ [] → l.IsCell (n, slot) js → v.blockAt owners (n, slot) js = 0)
    (hblock : ino.block = update (v.inodes n).block slot 0)
    (hblocks : ino.blocks = (v.inodes n).blocks - l.sectorsPerBlock) :
    Detached l owners v ((v.releaseBlock l b g i).writeInode n ino) n slot [] b g i where
  owner := hn
  slot_lt := hslot
  cell := cell_nil
  place := hat
  holds := hholds
  not_own := by
    have hplaced := (h.placed (n, slot) [] cell_nil (hholds ▸ hb)).1
    rwa [hholds] at hplaced
  blockAt r js hc := by
    have hbelow' : ∀ js, js ≠ [] → l.IsCell (n, slot) js →
        ((v.releaseBlock l b g i).forest owners).get (n, slot) js = 0 :=
      fun js hjs hc => (h.releaseBlock_blockAt hat hc).trans (hbelow js hjs hc)
    have hforest := writeInode_forest_setRoot (s := v.releaseBlock l b g i) hn hslot hblock
    have hget := Forest.get_detachRoot hbelow' hc
    rw [Fs.blockAt, hforest, hget, ← Fs.blockAt, h.releaseBlock_blockAt hat hc]
  marked g' hg' i' := releaseBlock_marked (b := b) hat.group hg' i'
  blocks := writeInode_blocks_op (· - ·) Nat.sub_zero rfl hblocks
  groupFree := rfl
  totalFree := rfl

lemma Owned.detachSlot {j : ℕ} (hn : n ∈ owners) (hslot : slot < 15)
    (hcell : l.IsCell (n, slot) (is ++ [j])) (hparent : v.blockAt owners (n, slot) is = x)
    (hx : x ≠ 0) (hholds : v.blockAt owners (n, slot) (is ++ [j]) = b) (hb : b ≠ 0)
    (hbelow : ∀ js, js ≠ [] → l.IsCell (n, slot) (is ++ [j] ++ js) →
      v.blockAt owners (n, slot) (is ++ [j] ++ js) = 0)
    (hblock : ino.block = (v.inodes n).block)
    (hblocks : ino.blocks = (v.inodes n).blocks - l.sectorsPerBlock) :
    Detached l owners v
      (((v.releaseBlock l b g i).writeBlock x (setWord (v.dev x) j 0)).writeInode n ino) n slot
      (is ++ [j]) b g i := by
  have hindex : v.IsIndex l owners x :=
    ⟨(n, slot), is, hcell.of_append, hcell.lt_of_concat, hparent, hx⟩
  have hdev := h.releaseBlock_dev_of_isIndex hat hindex
  refine ⟨hn, hslot, hcell, hat, hholds, ?_, fun r js hc => ?_, fun g' hg' i' => ?_,
    writeInode_blocks_op (· - ·) Nat.sub_zero rfl hblocks, rfl, rfl⟩
  · have hplaced := (h.placed (n, slot) _ hcell (hholds ▸ hb)).1
    rwa [hholds] at hplaced
  · have hforest := writeSlot_forest owners j hdev (x := 0) (by decide) hblock
    have hparent' : ((v.releaseBlock l b g i).forest owners).get (n, slot) is = x :=
      (h.releaseBlock_blockAt hat hcell.of_append).trans hparent
    have hdistinct := h.distinct_of_blockAt fun _ _ => h.releaseBlock_blockAt hat
    have hbelow' : ∀ js, js ≠ [] → l.IsCell (n, slot) (is ++ [j] ++ js) →
        ((v.releaseBlock l b g i).forest owners).get (n, slot) (is ++ [j] ++ js) = 0 :=
      fun js hjs hc => (h.releaseBlock_blockAt hat hc).trans (hbelow js hjs hc)
    rw [← hparent'] at hx
    have hget := Forest.get_detachNext hdistinct hcell.of_append hx hbelow' hc
    rw [hparent', ← hforest] at hget
    rw [Fs.blockAt, hget, ← Fs.blockAt, h.releaseBlock_blockAt hat hc]
  · rw [writeSlot_marked (h.ne_bitmap hindex hg').symm, releaseBlock_marked hat.group hg']

end Release

end Astryx.Ext2
