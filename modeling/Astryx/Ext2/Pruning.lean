import Astryx.Ext2.Growth

/-!
# Cutting a file

`free_blocks_from` walks the indirect blocks of a file and frees all that stands for logical blocks
from a given one on. It works on a copy of each indirect block and writes the copy back when it is
done with it, so that on the way the device still has words that name freed blocks. What matters is
the volume with all copies in place: in it every step takes a block with nothing below it out of its
cell. `Pruning` relates that volume to the real one, which may differ in the blocks of a set, those
whose copies are pending.

`Cut` says what the walk leaves: the cells of a set are empty, the others as before, and blocks
other than the indirect ones and the bitmaps of blocks are untouched.
-/

namespace Astryx.Ext2

open PointerForest Function List Ext2.Geometry Bytes Work

/-- The blocks of a group that are for files, which are what its free count may have to count. -/
def Geometry.fileBlocks (l : Geometry) (g : ℕ) : ℕ :=
  ((Finset.range l.blocksPerGroup).filter fun i => l.own (l.number .block g i) = false).card

/-- The free counts of the groups, of 16 bits, can count them. -/
def Geometry.CountsFit (l : Geometry) : Prop := ∀ g < l.numGroups, l.fileBlocks g < 2 ^ 16

/-- `v` is the volume with the copy of the inode, and with the copies of the blocks in `A`, which
are pending. -/
structure Pruning (l : Geometry) (owners : Finset ℕ) (n : ℕ) (A : ℕ → Prop) (w : Work)
    (v : Fs) : Prop where
  owned : Owned l owners v
  coherent : Coherent l owners w.fs v
  inodes : v.inodes = update w.fs.inodes n w.ino
  groupFree : v.groupFree = w.fs.groupFree
  totalFree : v.totalFree = w.fs.totalFree
  dev : ∀ x, ¬ A x → v.dev x = w.fs.dev x

/-- The cells in `P` are emptied. -/
structure Cut (l : Geometry) (owners : Finset ℕ) (P : ℕ × ℕ → List ℕ → Prop)
    (v v' : Fs) : Prop where
  counted : l.CountsFit → Counted l owners v → Counted l owners v'
  empty : ∀ r js, l.IsCell r js → P r js → v'.blockAt owners r js = 0
  other : ∀ r js, l.IsCell r js → ¬ P r js → v'.blockAt owners r js = v.blockAt owners r js
  data : ∀ x, (∀ g < l.numGroups, x ≠ l.bitmapBlock .block g) → ¬ v.IsIndex l owners x →
    v'.dev x = v.dev x

/-- What the walk leaves of the work: pending blocks on both sides, the inodes on the device, and
most of the copy. -/
structure Framed (A : ℕ → Prop) (w w' : Work) (v v' : Fs) : Prop where
  pending : ∀ x, A x → w'.fs.dev x = w.fs.dev x ∧ v'.dev x = v.dev x
  inodes : w'.fs.inodes = w.fs.inodes
  ino : w'.ino = { w.ino with blocks := w'.ino.blocks }

variable {l : Geometry} {owners : Finset ℕ} {v v' v₁ v₂ : Fs} {n slot b g i x : ℕ} {is js : List ℕ}
  {r : ℕ × ℕ} {w w' : Work}
  {A : ℕ → Prop} {P Q : ℕ × ℕ → List ℕ → Prop}

/-! ## Cutting in steps -/

lemma Cut.blockAt_eq_or (h : Cut l owners P v v') (hc : l.IsCell r js) :
    v'.blockAt owners r js = 0 ∨ v'.blockAt owners r js = v.blockAt owners r js := by
  by_cases hP : P r js
  · exact .inl (h.empty r js hc hP)
  · exact .inr (h.other r js hc hP)

lemma Cut.isIndex (h : Cut l owners P v v') (hx : v'.IsIndex l owners x) :
    v.IsIndex l owners x := by
  obtain ⟨r, js, hc, hlt, rfl, hne⟩ := hx
  refine ⟨r, js, hc, hlt, ?_, hne⟩
  rcases h.blockAt_eq_or hc with hzero | hsame
  · exact absurd hzero hne
  · exact hsame.symm

lemma Cut.refl (hP : ∀ r js, l.IsCell r js → P r js → v.blockAt owners r js = 0) :
    Cut l owners P v v :=
  ⟨fun _ => id, hP, fun _ _ _ _ => rfl, fun _ _ _ => rfl⟩

lemma Cut.trans (h : Cut l owners P v v₁) (h' : Cut l owners Q v₁ v₂) :
    Cut l owners (fun r js => P r js ∨ Q r js) v v₂ where
  counted hfit hc := h'.counted hfit (h.counted hfit hc)
  empty r js hc hor := by
    by_cases hQ : Q r js
    · exact h'.empty r js hc hQ
    · rw [h'.other r js hc hQ]
      exact h.empty r js hc (hor.resolve_right hQ)
  other r js hc hnor := by
    rw [not_or] at hnor
    rw [h'.other r js hc hnor.2, h.other r js hc hnor.1]
  data x hx hindex := by
    rw [h'.data x hx fun hx' => hindex (h.isIndex hx'), h.data x hx hindex]

/-- Another description of the cells, up to cells that were empty before. -/
lemma Cut.congr (h : Cut l owners P v v') (hPQ : ∀ r js, l.IsCell r js → P r js → Q r js)
    (hQP : ∀ r js, l.IsCell r js → Q r js → P r js ∨ v.blockAt owners r js = 0) :
    Cut l owners Q v v' where
  counted := h.counted
  empty r js hc hQ := by
    by_cases hP : P r js
    · exact h.empty r js hc hP
    · rw [h.other r js hc hP]
      exact (hQP r js hc hQ).resolve_left hP
  other r js hc hQ := h.other r js hc fun hP => hQ (hPQ r js hc hP)
  data := h.data

lemma Framed.refl (w : Work) (v : Fs) : Framed A w w v v := ⟨fun _ _ => ⟨rfl, rfl⟩, rfl, rfl⟩

lemma Framed.trans {w₁ w₂ : Work} (h : Framed A w w₁ v v₁) (h' : Framed A w₁ w₂ v₁ v₂) :
    Framed A w w₂ v v₂ where
  pending x hx :=
    ⟨(h'.pending x hx).1.trans (h.pending x hx).1, (h'.pending x hx).2.trans (h.pending x hx).2⟩
  inodes := h'.inodes.trans h.inodes
  ino := by
    rw [h'.ino, h.ino]

/-! ## One block -/

/-- A block that is in use leaves room in the count of its group. -/
lemma Owned.clear_lt (h : Owned l owners v) (hfit : l.CountsFit) (hat : l.At .block b g i)
    (hset : v.marked l g i) (hfile : l.own b = false) : v.clear l g + 1 < 2 ^ 16 := by
  have hsub : insert i ((Finset.range l.blocksPerGroup).filter fun j => v.marked l g j = false)
      ⊆ (Finset.range l.blocksPerGroup).filter fun j => l.own (l.number .block g j) = false := by
    intro j hj
    rw [Finset.mem_insert, Finset.mem_filter] at hj
    rw [Finset.mem_filter]
    rcases hj with rfl | ⟨hj, hclear⟩
    · exact ⟨Finset.mem_range.mpr hat.bit, by rw [hat.number]; exact hfile⟩
    · have hat' : l.At .block (l.number .block g j) g j := ⟨rfl, hat.group, Finset.mem_range.mp hj⟩
      exact ⟨hj, (h.of_clear hat' hclear).1⟩
  have hnot : i ∉ (Finset.range l.blocksPerGroup).filter fun j =>
      v.marked l g j = false := fun hmem => by
    have hclear := (Finset.mem_filter.mp hmem).2
    rw [hset] at hclear
    cases hclear
  have hle := Finset.card_le_card hsub
  rw [Finset.card_insert_of_notMem hnot] at hle
  exact lt_of_le_of_lt hle (hfit g hat.group)

lemma Detached.cut (d : Detached l owners v v' n slot is b g i) (h : Owned l owners v)
    (hdev : ∀ x, (∀ g < l.numGroups, x ≠ l.bitmapBlock .block g) → ¬ v.IsIndex l owners x →
      v'.dev x = v.dev x) :
    Cut l owners (fun r js => r = (n, slot) ∧ js = is) v v' where
  counted hfit hc := by
    have hset : v.marked l g i := (h.marks b g i d.place).mpr (.inr ⟨_, _, d.cell, d.holds⟩)
    exact d.counted h hc (h.clear_lt hfit d.place hset d.not_own)
  empty r js hc hP := by
    rw [d.blockAt r js hc, if_pos hP]
  other r js hc hP := by
    rw [d.blockAt r js hc, if_neg hP]
  data := hdev

lemma Pruning.freeBlock_eq (h : Pruning l owners n A w v) (hA : ∀ x, A x → l.own x = false)
    (hcell : l.IsCell r is) (hb : v.blockAt owners r is = b) (hb0 : b ≠ 0) :
    ∃ g i, l.At .block b g i ∧ w.fs.freeBlock l b = w.fs.releaseBlock l b g i ∧
      v.dev (l.bitmapBlock .block g) = w.fs.dev (l.bitmapBlock .block g) := by
  obtain ⟨-, g, i, hat⟩ := h.owned.placed r is hcell (hb.symm ▸ hb0)
  rw [hb] at hat
  have hbm : v.dev (l.bitmapBlock .block g) = w.fs.dev (l.bitmapBlock .block g) := by
    exact h.dev _ fun hpending => ne_bitmapBlock (hA _ hpending) .block hat.group rfl
  have hset : v.marked l g i := (h.owned.marks b g i hat).mpr (.inr ⟨r, is, hcell, hb⟩)
  rw [Fs.marked, hbm] at hset
  refine ⟨g, i, hat, ?_, hbm⟩
  rw [Fs.freeBlock, hat.locate hb0]
  dsimp only
  rw [if_pos hset]

variable {s : Fs} {first k h : ℕ}

lemma Coherent.of_detached (hco : Coherent l owners s v) (h : Owned l owners v)
    (d : Detached l owners v v' n slot is b g i) :
    Coherent l owners (s.releaseBlock l b g i) v' := by
  intro level y data hentry
  obtain ⟨hbefore, hother⟩ := Option.filter_eq_some_iff.mp hentry
  obtain ⟨rfl, hindex⟩ := hco level y data hbefore
  have hbm := h.ne_bitmap hindex d.place.group
  refine ⟨by rw [releaseBlock_dev, if_neg hbm], ?_⟩
  obtain ⟨r, js, hc, hlt, hy, hy0⟩ := hindex
  refine ⟨r, js, hc, hlt, ?_, hy0⟩
  rw [d.blockAt r js hc, if_neg]
  · exact hy
  · rintro ⟨rfl, rfl⟩
    exact of_decide_eq_true hother (hy.symm.trans d.holds)

lemma releaseBlock_dev_of_ne (hg : g < l.numGroups)
    (hx : ∀ g < l.numGroups, x ≠ l.bitmapBlock .block g) :
    (s.releaseBlock l b g i).dev x = s.dev x := by
  simp [releaseBlock_dev, hx g hg]

/-- A block goes whose word is in a pending copy. -/
lemma Pruning.dropSlot (h : Pruning l owners n A w v) (hA : ∀ x, A x → l.own x = false)
    (hn : n ∈ owners) (hslot : slot < 15) (hcell : l.IsCell (n, slot) (is ++ [i]))
    (hx : v.blockAt owners (n, slot) is = x) (hx0 : x ≠ 0) (hpending : A x)
    (hb : v.blockAt owners (n, slot) (is ++ [i]) = b) (hb0 : b ≠ 0)
    (hbelow : ∀ js, js ≠ [] → l.IsCell (n, slot) (is ++ [i] ++ js) →
      v.blockAt owners (n, slot) (is ++ [i] ++ js) = 0) :
    ∃ v', Pruning l owners n A (w.dropBlock l b) v' ∧
      Cut l owners (fun r js => r = (n, slot) ∧ js = is ++ [i]) v v' ∧
      v'.dev x = setWord (v.dev x) i 0 ∧ (∀ y, A y → y ≠ x → v'.dev y = v.dev y) ∧
      (∀ y, A y → (w.dropBlock l b).fs.dev y = w.fs.dev y) ∧
      (w.dropBlock l b).fs.inodes = w.fs.inodes := by
  obtain ⟨g, j, hat, hfree, hbm⟩ := h.freeBlock_eq hA hcell hb hb0
  have hindex : v.IsIndex l owners x := ⟨_, is, hcell.of_append, lt_height_of_cell hcell, hx, hx0⟩
  have hino : v.inodes n = w.ino := by
    simp [h.inodes]
  have hfs : (w.dropBlock l b).fs = w.fs.releaseBlock l b g j := hfree
  have hblock : (w.dropBlock l b).ino.block = (v.inodes n).block := by
    rw [hino]
    rfl
  have hblocks : (w.dropBlock l b).ino.blocks = (v.inodes n).blocks - l.sectorsPerBlock := by
    rw [hino]
    rfl
  have d := h.owned.detachSlot hat hn hslot hcell hx hx0 hb hb0 hbelow hblock hblocks
  have hrelease : ∀ y, ¬ A y → (v.releaseBlock l b g j).dev y =
      (w.fs.releaseBlock l b g j).dev y := by
    intro y hy
    rw [releaseBlock_dev, releaseBlock_dev, hbm, h.dev y hy]
  generalize hv' : ((v.releaseBlock l b g j).writeBlock x (setWord (v.dev x) i 0)).writeInode n
    (w.dropBlock l b).ino = v' at d
  have hdevx : v'.dev x = setWord (v.dev x) i 0 := by
    rw [← hv']
    exact update_self ..
  have hdev : ∀ y, y ≠ x → v'.dev y = (v.releaseBlock l b g j).dev y := fun y hy => by
    rw [← hv']
    exact update_of_ne hy ..
  refine ⟨v', ⟨d.owned h.owned, ?_, ?_, ?_, ?_, fun y hy => ?_⟩, d.cut h.owned fun y hbms hy => ?_,
    hdevx, fun y hy hyx => ?_,
    fun y hy => ?_, ?_⟩
  · rw [hfs]
    exact h.coherent.of_detached h.owned d
  · rw [← hv', hfs]
    change update v.inodes n _ = update w.fs.inodes n _
    simp [h.inodes]
  · rw [d.groupFree, hfs, h.groupFree]
    rfl
  · rw [d.totalFree, hfs, h.totalFree]
    rfl
  · have hyx : y ≠ x := by
      rintro rfl
      exact hy hpending
    rw [hdev y hyx, hfs, hrelease y hy]
  · have hyx : y ≠ x := by
      rintro rfl
      exact hy hindex
    rw [hdev y hyx, releaseBlock_dev_of_ne hat.group hbms]
  · rw [hdev y hyx, releaseBlock_dev_of_ne hat.group fun _ => ne_bitmapBlock (hA y hy) .block]
  · rw [hfs, releaseBlock_dev_of_ne hat.group fun _ => ne_bitmapBlock (hA y hy) .block]
  · rw [hfs]
    rfl

/-- A block goes that is in a slot of the inode. -/
lemma Pruning.dropRoot {ino : Inode} (h : Pruning l owners n (fun _ => False) w v) (hn : n ∈ owners)
    (hslot : slot < 15) (hb : v.blockAt owners (n, slot) [] = b) (hb0 : b ≠ 0)
    (hbelow : ∀ js, js ≠ [] → l.IsCell (n, slot) js → v.blockAt owners (n, slot) js = 0)
    (hino' : ino = { w.ino with
      block := update w.ino.block slot 0, blocks := w.ino.blocks - l.sectorsPerBlock }) :
    ∃ v', Pruning l owners n (fun _ => False) ⟨ino, w.fs.freeBlock l b⟩ v' ∧
      Cut l owners (fun r js => r = (n, slot) ∧ js = []) v v' ∧
      (w.fs.freeBlock l b).inodes = w.fs.inodes := by
  obtain ⟨g, j, hat, hfree, hbm⟩ := h.freeBlock_eq (fun _ hx => hx.elim) cell_nil hb hb0
  have hino : v.inodes n = w.ino := by
    simp [h.inodes]
  have hblock : ino.block = update (v.inodes n).block slot 0 := by rw [hino, hino']
  have hblocks : ino.blocks = (v.inodes n).blocks - l.sectorsPerBlock := by rw [hino, hino']
  have d := h.owned.detachRoot hat hn hslot hb hb0 hbelow hblock hblocks
  refine ⟨_, ⟨d.owned h.owned, ?_, ?_, ?_, ?_, fun y _ => ?_⟩, d.cut h.owned fun y hbms _ => ?_, ?_⟩
  · rw [hfree]
    exact h.coherent.of_detached h.owned d
  · rw [hfree]
    change update v.inodes n _ = update w.fs.inodes n _
    simp [h.inodes]
  · rw [d.groupFree, hfree, h.groupFree]
    rfl
  · rw [d.totalFree, hfree, h.totalFree]
    rfl
  · rw [hfree]
    change (v.releaseBlock l b g j).dev y = _
    rw [releaseBlock_dev, releaseBlock_dev, hbm, h.dev y id]
  · exact releaseBlock_dev_of_ne (b := b) hat.group hbms
  · rw [hfree]
    rfl

/-! ## A branch -/

/-- The cells under the first `k` words of a block of a height, from a logical block on. -/
def Under (l : Geometry) (n slot : ℕ) (is : List ℕ) (first height k : ℕ) (r : ℕ × ℕ)
    (js : List ℕ) : Prop :=
  r = (n, slot) ∧
    ∃ i ks, i < k ∧ js = is ++ i :: ks ∧ first ≤ offsetIn l.ptrsPerBlock (i :: ks) height

/-- The block is on the way to the cell. -/
def Above (owners : Finset ℕ) (v : Fs) (n slot : ℕ) (is : List ℕ) (x : ℕ) : Prop :=
  ∃ js, js <+: is ∧ js ≠ is ∧ v.blockAt owners (n, slot) js = x ∧ x ≠ 0

lemma not_under_of_isPrefix {height : ℕ} (hjs : js <+: is) :
    ¬ Under l n slot is first height k r js := by
  rintro ⟨-, i, ks, -, rfl, -⟩
  have hle := hjs.length_le
  rw [length_append, length_cons] at hle
  omega

lemma isCell_of_isPrefix (hcell : l.IsCell r is) (hjs : js <+: is) : l.IsCell r js := by
  obtain ⟨ks, rfl⟩ := hjs
  exact hcell.of_append

lemma Cut.above {height : ℕ} (h : Cut l owners (Under l n slot is first height k) v v')
    (hcell : l.IsCell (n, slot) is) (hx : Above owners v n slot is x) :
    Above owners v' n slot is x := by
  obtain ⟨js, hjs, hne, hx, hx0⟩ := hx
  exact ⟨js, hjs, hne,
    (h.other _ js (isCell_of_isPrefix hcell hjs) (not_under_of_isPrefix hjs)).trans hx, hx0⟩

lemma Above.concat (h : Above owners v n slot is x) (i : ℕ) :
    Above owners v n slot (is ++ [i]) x := by
  obtain ⟨js, hjs, -, hx⟩ := h
  refine ⟨js, hjs.trans (prefix_append ..), ?_, hx⟩
  rintro rfl
  have hle := hjs.length_le
  rw [length_append, length_singleton] at hle
  omega

lemma above_concat_self (hx : v.blockAt owners (n, slot) is = x) (hx0 : x ≠ 0) (i : ℕ) :
    Above owners v n slot (is ++ [i]) x := by
  refine ⟨is, prefix_append .., ?_, hx, hx0⟩
  intro heq
  have hlen := congrArg List.length heq
  rw [length_append, length_singleton] at hlen
  omega

lemma Owned.not_own_of_above (h : Owned l owners v) (hcell : l.IsCell (n, slot) is)
    (hx : Above owners v n slot is x) : l.own x = false := by
  obtain ⟨js, hjs, -, rfl, hx0⟩ := hx
  exact (h.placed _ js (isCell_of_isPrefix hcell hjs) hx0).1

lemma Owned.ne_of_above (h : Owned l owners v) (hcell : l.IsCell (n, slot) is)
    (hx : Above owners v n slot is x) (hb : v.blockAt owners (n, slot) is = b) : x ≠ b := by
  obtain ⟨js, hjs, hne, rfl, hx0⟩ := hx
  intro heq
  exact hne (h.distinct _ js _ is (isCell_of_isPrefix hcell hjs) hcell hx0 (heq.trans hb.symm)).2

/-- What freeing below a block of a height does, whatever is pending above the block. -/
def BranchSpec (l : Geometry) (owners : Finset ℕ) (n slot h : ℕ) : Prop :=
  ∀ (A : ℕ → Prop) (w : Work) (v : Fs) (is : List ℕ) (b first : ℕ), Pruning l owners n A w v →
    l.IsCell (n, slot) is →
    is.length + h = height (n, slot) → v.blockAt owners (n, slot) is = b → b ≠ 0 →
    (∀ x, A x → Above owners v n slot is x) →
    ∃ v', Pruning l owners n A (freeBranch l h b first w) v' ∧
      Cut l owners (Under l n slot is first h l.ptrsPerBlock) v v' ∧
        Framed A w (freeBranch l h b first w) v v'

/-- The walk over the words of a block, after the first `k`. -/
structure Swept (l : Geometry) (owners : Finset ℕ) (n slot h : ℕ) (A : ℕ → Prop) (w : Work) (v : Fs)
    (is : List ℕ) (b first k : ℕ) (t : Sweep) (v' : Fs) : Prop where
  pruning : Pruning l owners n (fun y => A y ∨ y = b) t.work v'
  cut : Cut l owners (Under l n slot is first (h + 1) k) v v'
  framed : Framed A w t.work v v'
  buf : v'.dev b = t.buf
  disk : t.work.fs.dev b = w.fs.dev b
  clean : t.changed = false → t.buf = w.fs.dev b

lemma under_succ : Under l n slot is first (h + 1) (k + 1) r js ↔
    Under l n slot is first (h + 1) k r js ∨
    r = (n, slot) ∧
    ∃ ks, js = is ++ k :: ks ∧ first ≤ k * l.ptrsPerBlock ^ h + offsetIn l.ptrsPerBlock ks h := by
  constructor
  · rintro ⟨hr, i, ks, hi, hjs, hle⟩
    rcases Nat.lt_succ_iff_lt_or_eq.mp hi with hi | rfl
    · exact .inl ⟨hr, i, ks, hi, hjs, hle⟩
    · exact .inr ⟨hr, ks, hjs, hle⟩
  rintro (⟨hr, i, ks, hi, hjs, hle⟩ | ⟨hr, ks, hjs, hle⟩)
  · exact ⟨hr, i, ks, Nat.lt_succ_of_lt hi, hjs, hle⟩
  · exact ⟨hr, k, ks, Nat.lt_succ_self k, hjs, hle⟩

lemma not_under_of_eq {ks : List ℕ} (hjs : js = is ++ k :: ks) :
    ¬ Under l n slot is first h k r js := by
  rintro ⟨-, i, ks', hi, heq, -⟩
  rw [hjs] at heq
  obtain rfl := (cons_eq_cons.mp (append_cancel_left heq)).1
  omega

lemma under_concat (hc : l.IsCell r js) :
    Under l n slot (is ++ [k]) (first - k * l.ptrsPerBlock ^ h) h l.ptrsPerBlock r js
      ↔ r = (n, slot) ∧
      ∃ ks, ks ≠ [] ∧ js = is ++ k :: ks ∧
        first ≤ k * l.ptrsPerBlock ^ h + offsetIn l.ptrsPerBlock ks h := by
  constructor
  · rintro ⟨hr, i, ks, -, hjs, hle⟩
    exact ⟨hr, i :: ks, cons_ne_nil i ks, by simp [hjs], by omega⟩
  rintro ⟨hr, ks, hks, rfl, hle⟩
  obtain ⟨i, ks, rfl⟩ := exists_cons_of_ne_nil hks
  refine ⟨hr, i, ks, hc.slots i (by simp), by simp, by omega⟩

section Step

variable {h first k : ℕ} {t : Sweep} (hcell : l.IsCell (n, slot) is)
  (hb : v.blockAt owners (n, slot) is = b) (hb0 : b ≠ 0)
  (hs : Swept l owners n slot h A w v is b first k t v')

include hcell hb hs

lemma Swept.blockAt_eq : v'.blockAt owners (n, slot) is = b :=
  (hs.cut.other _ is hcell (not_under_of_isPrefix prefix_rfl)).trans hb

include hb0

lemma Swept.word_eq : v'.blockAt owners (n, slot) (is ++ [k]) = word t.buf k := by
  have hat := hs.blockAt_eq hcell hb
  rw [blockAt_concat (hat.symm ▸ hb0), hat, hs.buf]

/-- There is no block under this word. -/
lemma Swept.hole (hzero : word t.buf k = 0) :
    Swept l owners n slot h A w v is b first (k + 1) t v' := by
  refine ⟨hs.pruning, ?_, hs.framed, hs.buf, hs.disk, hs.clean⟩
  refine hs.cut.congr (fun r js _ hP => under_succ.mpr (.inl hP)) fun r js hc hQ => ?_
  rcases under_succ.mp hQ with hP | ⟨rfl, ks, hjs, -⟩
  · exact .inl hP
  refine .inr ?_
  rw [← hs.cut.other _ js hc (not_under_of_eq hjs), hjs, append_cons]
  exact blockAt_append_of_zero ((hs.word_eq hcell hb hb0).trans hzero) ks

variable (hlen : is.length + (h + 1) = height (n, slot))

include hlen

omit hcell hb hb0 in
/-- The blocks under this word all stay. -/
lemma Swept.skip (hskip : k * l.ptrsPerBlock ^ h + l.ptrsPerBlock ^ h ≤ first) :
    Swept l owners n slot h A w v is b first (k + 1) t v' := by
  refine ⟨hs.pruning, ?_, hs.framed, hs.buf, hs.disk, hs.clean⟩
  refine hs.cut.congr (fun r js _ hP => under_succ.mpr (.inl hP)) fun r js hc hQ => ?_
  rcases under_succ.mp hQ with hP | ⟨rfl, ks, rfl, hle⟩
  · exact .inl hP
  have hlt : offsetIn l.ptrsPerBlock ks h < l.ptrsPerBlock ^ h := by
    have hlength := hc.length
    rw [length_append, length_cons] at hlength
    exact offsetIn_lt ptrsPerBlock_pos (by omega) fun i hi =>
      hc.slots i (by simp [hi])
  omega

variable (hA : ∀ x, A x → Above owners v n slot is x) (hk : k < l.ptrsPerBlock)

include hA hk

/-- There is a block under this word: what is below it is cut. -/
lemma Swept.descend (inner : ℕ) (hspec : BranchSpec l owners n slot h) (hptr : word t.buf k ≠ 0) :
    ∃ v₁, Pruning l owners n (fun y => A y ∨ y = b) (freeBranch l h (word t.buf k) inner t.work) v₁
      ∧ Cut l owners (Under l n slot (is ++ [k]) inner h l.ptrsPerBlock) v' v₁ ∧
      Framed (fun y => A y ∨ y = b) t.work
        (freeBranch l h (word t.buf k) inner t.work) v' v₁ := by
  have hword := hs.word_eq hcell hb hb0
  refine hspec _ t.work v' (is ++ [k]) _ inner hs.pruning (hcell.concat (by omega) hk) ?_ hword hptr
    fun x hx => ?_
  · rw [length_append, length_singleton]
    omega
  rcases hx with hx | rfl
  · exact (hs.cut.above hcell (hA x hx)).concat k
  · exact above_concat_self (hs.blockAt_eq hcell hb) hb0 k

/-- The block goes, too, if all under its word goes. -/
lemma Swept.drop {v₁ : Fs} {w₁ : Work} (hn : n ∈ owners) (hslot : slot < 15)
    (hptr : word t.buf k ≠ 0) (hinner : first - k * l.ptrsPerBlock ^ h = 0)
    (hpruning : Pruning l owners n (fun y => A y ∨ y = b) w₁ v₁)
    (hcut : Cut l owners (Under l n slot (is ++ [k])
      (first - k * l.ptrsPerBlock ^ h) h l.ptrsPerBlock) v' v₁)
    (hframed : Framed (fun y => A y ∨ y = b) t.work w₁ v' v₁) :
    ∃ v₂, Swept l owners n slot h A w v is b first (k + 1)
      ⟨setWord t.buf k 0, true, w₁.dropBlock l (word t.buf k)⟩ v₂ := by
  have hcellk : l.IsCell (n, slot) (is ++ [k]) := hcell.concat (by omega) hk
  have hpend := hframed.pending b (.inr rfl)
  have hat1 : v₁.blockAt owners (n, slot) is = b :=
    (hcut.other _ is hcell (not_under_of_isPrefix (prefix_append ..))).trans
      (hs.blockAt_eq hcell hb)
  have hword1 : v₁.blockAt owners (n, slot) (is ++ [k]) = word t.buf k :=
    (hcut.other _ _ hcellk (not_under_of_isPrefix prefix_rfl)).trans (hs.word_eq hcell hb hb0)
  have hA1 : ∀ x, A x ∨ x = b → Above owners v₁ n slot (is ++ [k]) x := by
    rintro x (hx | rfl)
    · exact hcut.above hcellk ((hs.cut.above hcell (hA x hx)).concat k)
    · exact above_concat_self hat1 hb0 k
  have hbelow : ∀ ks, ks ≠ [] → l.IsCell (n, slot) (is ++ [k] ++ ks) →
      v₁.blockAt owners (n, slot) (is ++ [k] ++ ks) = 0 := by
    intro ks hks hc
    refine hcut.empty _ _ hc ((under_concat hc).mpr ⟨rfl, ks, hks, ?_, by omega⟩)
    simp
  obtain ⟨v₂, hpruning2, hcut2, hdevb, hdevA, hdisk, hinodes⟩ := hpruning.dropSlot
    (fun x hx => hpruning.owned.not_own_of_above hcellk (hA1 x hx)) hn hslot hcellk hat1 hb0
      (.inr rfl) hword1 hptr hbelow
  have hneb : ∀ x, A x → x ≠ b := fun x hx =>
    hs.pruning.owned.ne_of_above hcell (hs.cut.above hcell (hA x hx)) (hs.blockAt_eq hcell hb)
  have hframed1 : Framed A t.work w₁ v' v₁ :=
    ⟨fun x hx => hframed.pending x (.inl hx), hframed.inodes, hframed.ino⟩
  have hframed2 : Framed A w₁ (w₁.dropBlock l (word t.buf k)) v₁ v₂ :=
    ⟨fun x hx => ⟨hdisk x (.inl hx), hdevA x (.inl hx) (hneb x hx)⟩, hinodes, rfl⟩
  refine ⟨v₂, hpruning2, ?_, (hs.framed.trans hframed1).trans hframed2, ?_, ?_, nofun⟩
  · refine ((hs.cut.trans hcut).trans hcut2).congr (fun r js hc hP => ?_) fun r js hc hQ => ?_
    · rw [under_succ]
      rcases hP with (hP | hP) | ⟨rfl, rfl⟩
      · exact .inl hP
      · obtain ⟨hr, ks, -, hjs, hle⟩ := (under_concat hc).mp hP
        exact .inr ⟨hr, ks, hjs, hle⟩
      · exact .inr ⟨rfl, [], rfl, by omega⟩
    refine .inl ?_
    rcases under_succ.mp hQ with hP | ⟨hr, ks, hjs, hle⟩
    · exact .inl (.inl hP)
    by_cases hks : ks = []
    · exact .inr ⟨hr, by rw [hjs, hks]⟩
    · exact .inl (.inr ((under_concat hc).mpr ⟨hr, ks, hks, hjs, hle⟩))
  · rw [hdevb, hpend.2, hs.buf]
  · rw [hdisk b (.inr rfl), hpend.1, hs.disk]

lemma Swept.step (hspec : BranchSpec l owners n slot h) (hn : n ∈ owners) (hslot : slot < 15) :
    ∃ v₂, Swept l owners n slot h A w v is b first (k + 1)
      (sweepSlot l (l.ptrsPerBlock ^ h) first (freeBranch l h) t k) v₂ := by
  rw [sweepSlot]
  split
  next hskip => exact ⟨v', hs.skip hlen hskip⟩
  dsimp only
  split
  next hzero => exact ⟨v', hs.hole hcell hb hb0 hzero⟩
  rename_i hptr
  obtain ⟨v₁, hpruning, hcut, hframed⟩ :=
    hs.descend hcell hb hb0 hlen hA hk (first - k * l.ptrsPerBlock ^ h) hspec hptr
  split
  next hinner => exact hs.drop hcell hb hb0 hlen hA hk hn hslot hptr hinner hpruning hcut hframed
  next hinner =>
    have hpend := hframed.pending b (.inr rfl)
    have hframed1 : Framed A t.work _ v' v₁ :=
      ⟨fun x hx => hframed.pending x (.inl hx), hframed.inodes, hframed.ino⟩
    refine ⟨v₁, hpruning, ?_,
      hs.framed.trans hframed1, by rw [hpend.2, hs.buf], by rw [hpend.1, hs.disk], hs.clean⟩
    refine (hs.cut.trans hcut).congr (fun r js hc hP => ?_) fun r js hc hQ => ?_
    · rw [under_succ]
      rcases hP with hP | hP
      · exact .inl hP
      · obtain ⟨hr, ks, -, hjs, hle⟩ := (under_concat hc).mp hP
        exact .inr ⟨hr, ks, hjs, hle⟩
    refine .inl ?_
    rcases under_succ.mp hQ with hP | ⟨hr, ks, hjs, hle⟩
    · exact .inl hP
    refine .inr ((under_concat hc).mpr ⟨hr, ks, ?_, hjs, hle⟩)
    rintro rfl
    -- the first logical block of the word stays, so the word does
    rw [offsetIn] at hle
    omega

end Step

/-- The copy is written back if it has changed. -/
lemma Swept.finish {t : Sweep} (hs : Swept l owners n slot h A w v is b first k t v')
    (hneb : ∀ x, A x → x ≠ b) :
    Pruning l owners n A
      (if t.changed then { t.work with
        fs := (t.work.fs.writeBlock b t.buf).invalidateIndirectCache b }
      else t.work) v' ∧
    Framed A w
      (if t.changed then { t.work with
        fs := (t.work.fs.writeBlock b t.buf).invalidateIndirectCache b }
      else t.work) v v' := by
  have hp := hs.pruning
  split
  · have hdev : ∀ y, y ≠ b → ((t.work.fs.writeBlock b t.buf).invalidateIndirectCache b).dev y =
        t.work.fs.dev y :=
      fun y hy => update_of_ne hy ..
    constructor
    · refine ⟨hp.owned, ?_, hp.inodes, hp.groupFree, hp.totalFree, fun x hx => ?_⟩
      · intro level y data hentry
        obtain ⟨hbefore, hother⟩ := Option.filter_eq_some_iff.mp hentry
        obtain ⟨rfl, hindex⟩ := hp.coherent level y data hbefore
        exact ⟨(hdev y (of_decide_eq_true hother)).symm, hindex⟩
      by_cases hxb : x = b
      · rw [hxb, hs.buf]
        exact (update_self b t.buf t.work.fs.dev).symm
      · rw [hdev x hxb]
        exact hp.dev x fun hor => hor.elim hx hxb
    refine ⟨fun x hx => ⟨?_, (hs.framed.pending x hx).2⟩, hs.framed.inodes, hs.framed.ino⟩
    rw [hdev x (hneb x hx)]
    exact (hs.framed.pending x hx).1
  next hclean =>
    refine ⟨⟨hp.owned, hp.coherent, hp.inodes, hp.groupFree, hp.totalFree, fun x hx =>
      ?_⟩, hs.framed⟩
    by_cases hxb : x = b
    · rw [hxb, hs.buf, hs.clean (Bool.eq_false_iff.mpr hclean), hs.disk]
    · exact hp.dev x fun hor => hor.elim hx hxb

/-- The walk over the words of an indirect block. -/
lemma freeBranch_spec (hn : n ∈ owners) (hslot : slot < 15) (h : ℕ) :
    BranchSpec l owners n slot h := by
  induction h with
  | zero =>
    intro A w v is b first hp hcell hlen _ _ _
    refine ⟨v, hp, .refl fun r js hc hP => ?_, .refl w v⟩
    -- a block of data has nothing below it
    obtain ⟨rfl, i, ks, -, rfl, -⟩ := hP
    have hle := hc.length
    rw [length_append, length_cons] at hle
    omega
  | succ h ih =>
    intro A w v is b first hp hcell hlen hb hb0 hA
    have hnot : ¬ A b := fun hpending => hp.owned.ne_of_above hcell (hA b hpending) hb rfl
    have hbuf := hp.dev b hnot
    have hloop : ∀ k ≤ l.ptrsPerBlock, ∃ v', Swept l owners n slot h A w v is b first k
        ((List.range k).foldl (sweepSlot l (l.ptrsPerBlock ^ h) first (freeBranch l h))
          ⟨w.fs.dev b, false, w⟩) v' := by
      intro k
      induction k with
      | zero =>
        intro _
        refine ⟨v, ⟨hp.owned, hp.coherent, hp.inodes, hp.groupFree, hp.totalFree, fun x hx => ?_⟩,
          .refl fun r js _ hP => ?_,
          .refl w v, hbuf, rfl, fun _ => rfl⟩
        · exact hp.dev x fun hpending => hx (.inl hpending)
        · obtain ⟨-, i, -, hi, -⟩ := hP
          omega
      | succ k ihk =>
        intro hk
        obtain ⟨v', hs⟩ := ihk (by omega)
        rw [range_succ, foldl_append]
        exact hs.step hcell hb hb0 hlen hA hk ih hn hslot
    obtain ⟨v', hs⟩ := hloop _ le_rfl
    rw [freeBranch_succ, freeBelow]
    generalize (List.range l.ptrsPerBlock).foldl _ _ = t at hs
    obtain ⟨hpruning, hframed⟩ := hs.finish fun x hx => hp.owned.ne_of_above hcell (hA x hx) hb
    exact ⟨v', hpruning, hs.cut, hframed⟩

/-! ## The whole file -/

/-- What is left of the work when nothing is pending. -/
structure Kept (w w' : Work) : Prop where
  inodes : w'.fs.inodes = w.fs.inodes
  ino : w'.ino = { w.ino with block := w'.ino.block, blocks := w'.ino.blocks }

lemma Kept.trans {w₁ w₂ : Work} (h : Kept w w₁) (h' : Kept w₁ w₂) : Kept w w₂ :=
  ⟨h'.inodes.trans h.inodes, by rw [h'.ino, h.ino]⟩

lemma under_nil (hc : l.IsCell (n, slot) js) :
    first ≤ l.firstBlock slot js ↔ Under l n slot [] (first - l.slotStart slot)
    (slotHeight slot) l.ptrsPerBlock (n, slot) js ∨
      js = [] ∧ first - l.slotStart slot = 0 := by
  rw [firstBlock]
  constructor
  · intro hle
    cases js with
    | nil =>
      rw [offsetIn] at hle
      exact .inr ⟨rfl, by omega⟩
    | cons i ks => exact .inl ⟨rfl, i, ks, hc.slots i mem_cons_self, rfl, by omega⟩
  rintro (⟨-, i, ks, -, hjs, hle⟩ | ⟨rfl, hzero⟩)
  · rw [nil_append] at hjs
    rw [hjs]
    omega
  · omega

lemma Pruning.freeRoot_spec (h : Pruning l owners n (fun _ => False) w v) (hn : n ∈ owners)
    (hslot : slot < 15) :
    ∃ v', Pruning l owners n (fun _ => False)
        (w.freeRoot l first slot (l.slotStart slot) (l.slotSpan slot) (slotHeight slot)) v' ∧
      Cut l owners (fun r js => r = (n, slot) ∧ first ≤ l.firstBlock slot js) v v' ∧
      Kept w (w.freeRoot l first slot (l.slotStart slot) (l.slotSpan slot)
        (slotHeight slot)) := by
  have hroot : v.blockAt owners (n, slot) [] = w.ino.block slot := by
    simp [blockAt_nil hn hslot, h.inodes]
  rw [freeRoot]
  split
  next hskip =>
    refine ⟨v, h, .refl ?_, rfl, rfl⟩
    rintro r js hc ⟨rfl, hle⟩
    rcases hskip with hspan | hzero
    · have hlt := offsetIn_lt ptrsPerBlock_pos hc.length hc.slots
      rw [firstBlock] at hle
      rw [slotSpan] at hspan
      rw [height] at hlt
      dsimp only at hlt
      omega
    · exact blockAt_append_of_zero (hroot.trans hzero) js
  rename_i hreach
  rw [not_or] at hreach
  obtain ⟨v₁, hpruning, hcut, hframed⟩ :=
    freeBranch_spec hn hslot (slotHeight slot) (fun _ => False) w v [] _
    (first - l.slotStart slot) h cell_nil (zero_add _) hroot hreach.2 fun _ hx => hx.elim
  generalize freeBranch l (slotHeight slot) (w.ino.block slot) (first - l.slotStart slot) w = w₁
    at hpruning hframed
  have hkept : Kept w w₁ := ⟨hframed.inodes, by rw [hframed.ino]⟩
  split
  next hzero =>
    have hroot1 : v₁.blockAt owners (n, slot) [] = w.ino.block slot :=
      (hcut.other _ [] cell_nil (not_under_of_isPrefix prefix_rfl)).trans hroot
    have hbelow : ∀ js, js ≠ [] → l.IsCell (n, slot) js → v₁.blockAt owners (n, slot) js = 0 := by
      intro js hjs hc
      refine hcut.empty _ js hc ?_
      obtain ⟨i, ks, rfl⟩ := exists_cons_of_ne_nil hjs
      exact ⟨rfl, i, ks, hc.slots i mem_cons_self, rfl, by omega⟩
    obtain ⟨v₂, hpruning2, hcut2, hinodes⟩ := hpruning.dropRoot hn hslot hroot1 hreach.2 hbelow rfl
    refine ⟨v₂, hpruning2, ?_, hkept.trans ⟨hinodes, rfl⟩⟩
    refine (hcut.trans hcut2).congr (fun r js hc hP => ?_) fun r js hc hQ => .inl ?_
    · rcases hP with hP | ⟨rfl, rfl⟩
      · obtain rfl := hP.1
        exact ⟨rfl, (under_nil hc).mpr (.inl hP)⟩
      · exact ⟨rfl, (under_nil hc).mpr (.inr ⟨rfl, hzero⟩)⟩
    · obtain ⟨rfl, hle⟩ := hQ
      exact ((under_nil hc).mp hle).imp_right fun hnil => ⟨rfl, hnil.1⟩
  next hstay =>
    refine ⟨v₁, hpruning, ?_, hkept⟩
    refine hcut.congr (fun r js hc hP => ?_) fun r js hc hQ => .inl ?_
    · obtain rfl := hP.1
      exact ⟨rfl, (under_nil hc).mpr (.inl hP)⟩
    · obtain ⟨rfl, hle⟩ := hQ
      exact ((under_nil hc).mp hle).resolve_right fun hnil => hstay hnil.2

lemma Pruning.freeBlocksFrom_spec (h : Pruning l owners n (fun _ => False) w v) (first : ℕ)
    (hn : n ∈ owners) :
    ∃ v', Pruning l owners n (fun _ => False) (w.freeBlocksFrom l first) v' ∧
      Cut l owners (fun r js => r.1 = n ∧ r.2 < 15 ∧ first ≤ l.firstBlock r.2 js) v v' ∧
      Kept w (w.freeBlocksFrom l first) := by
  have hloop :
    ∀ k ≤ 15, ∃ v', Pruning l owners n (fun _ => False) ((List.range k).foldl (fun w slot =>
        w.freeRoot l first slot (l.slotStart slot) (l.slotSpan slot) (slotHeight slot)) w) v' ∧
      Cut l owners (fun r js => r.1 = n ∧ r.2 < k ∧ first ≤ l.firstBlock r.2 js) v v' ∧
      Kept w ((List.range k).foldl (fun w slot =>
        w.freeRoot l first slot (l.slotStart slot) (l.slotSpan slot) (slotHeight slot)) w) := by
    intro k
    induction k with
    | zero =>
      intro _
      refine ⟨v, h, .refl ?_, rfl, rfl⟩
      rintro r js - ⟨-, hlt, -⟩
      omega
    | succ k ih =>
      intro hk
      obtain ⟨v₁, hpruning, hcut, hkept⟩ := ih (by omega)
      rw [range_succ, foldl_append]
      obtain ⟨v₂, hpruning2, hcut2, hkept2⟩ := hpruning.freeRoot_spec hn (Nat.lt_of_succ_le hk)
      refine ⟨v₂, hpruning2, ?_, hkept.trans hkept2⟩
      refine (hcut.trans hcut2).congr (fun r js _ hP => ?_) fun r js _ hQ => .inl ?_
      · rcases hP with ⟨hr, hlt, hle⟩ | ⟨rfl, hle⟩
        · exact ⟨hr, by omega, hle⟩
        · exact ⟨rfl, Nat.lt_succ_self k, hle⟩
      obtain ⟨hr, hlt, hle⟩ := hQ
      by_cases hlast : r.2 = k
      · exact .inr ⟨Prod.ext hr hlast, hlast ▸ hle⟩
      · exact .inl ⟨hr, by omega, hle⟩
  exact hloop 15 (Nat.le_refl 15)

lemma Cut.byte {m pos : ℕ}
    (h : Cut l owners (fun r js => r.1 = n ∧ r.2 < 15 ∧ first ≤ l.firstBlock r.2 js) v v')
    (ho : Owned l owners v) (hpos : pos < 2 ^ 32) :
    v'.byte l owners m pos =
      if m = n ∧ first ≤ pos / l.blockSize then 0 else v.byte l owners m pos := by
  obtain ⟨hslot, hc, hfull, hfirst⟩ := blockPath_spec (div_blockSize_lt hpos) m
  by_cases hcut : m = n ∧ first ≤ pos / l.blockSize
  · rw [if_pos hcut, Fs.byte, h.empty _ _ hc ⟨hcut.1, hslot, hfirst.symm ▸ hcut.2⟩, if_pos rfl]
  have hother := h.other _ _ hc fun hP => hcut ⟨hP.1, hfirst ▸ hP.2.2⟩
  rw [if_neg hcut, Fs.byte, Fs.byte, hother]
  split
  · rfl
  next hne =>
    have hfile := (ho.placed _ _ hc hne).1
    rw [h.data _ (fun _ hg => ne_bitmapBlock hfile .block hg) (ho.not_isIndex hc hfull hne)]

end Astryx.Ext2
