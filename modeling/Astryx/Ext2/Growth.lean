import Astryx.Ext2.Paths

/-!
# Growing a file

A write finds the block of each logical block and allocates what is missing on the way to it. A call
works on a copy of the inode, and what matters is the volume with that copy in place, `Work.view`:
in it every allocation puts a fresh block into an empty cell, so `Owned` and `Counted` hold all
along. No byte of a file changes, since a fresh block is full of zeros and an empty cell reads as
zeros.

An allocation succeeds while there is a free block. `Fs.needed` counts the empty ones among the
cells that a write passes; every allocation fills one of them, so it is enough that there are as
many free blocks at the start.

The cache of indirect blocks has what the device has, and only of blocks that are indirect blocks of
files (`Coherent`). So reading through it is reading the device.
-/

namespace Astryx.Ext2

open PointerForest Function List Fs Bytes Ext2.Geometry

/-- A byte of a file: a logical block without a block reads as zeros. -/
def Fs.byte (l : Geometry) (owners : Finset ℕ) (s : Fs) (n pos : ℕ) : UInt8 :=
  let b := s.blockAt owners (n, (l.blockPath (pos / l.blockSize)).1)
    (l.blockPath (pos / l.blockSize)).2
  if b = 0 then 0 else s.dev b (pos % l.blockSize)

/-- Another cache. -/
def Fs.withCache (s : Fs) (cache : ℕ → Option (ℕ × Block)) : Fs := { s with indirectCache := cache }

/-- The cache of `s` has indirect blocks of `v`, as they are on the device. -/
def Coherent (l : Geometry) (owners : Finset ℕ) (s v : Fs) : Prop :=
  ∀ level x data, s.indirectCache level = some (x, data) → data = s.dev x ∧ v.IsIndex l owners x

variable {l : Geometry} {owners : Finset ℕ} {s t v v' : Fs} {n slot b g i x level : ℕ}
  {is js : List ℕ} {r : ℕ × ℕ}

lemma Coherent.congr (hco : Coherent l owners s v)
    (hat : ∀ r is, v'.blockAt owners r is = v.blockAt owners r is) : Coherent l owners s v' := by
  intro level x data hentry
  obtain ⟨hdata, r, is, hcell, hlt, hx, hx0⟩ := hco level x data hentry
  exact ⟨hdata, r, is, hcell, hlt, (hat r is).trans hx, hx0⟩

/-! ## Reading through the cache -/

lemma readIndirect_spec (level : ℕ) (hco : Coherent l owners s v) (hx : v.IsIndex l owners x)
    (hi : i < l.ptrsPerBlock) :
    ∃ cache, s.readIndirect l x i level = (word (s.dev x) i, s.withCache cache) ∧
      Coherent l owners (s.withCache cache) v := by
  have hx0 : x ≠ 0 := by
    obtain ⟨-, -, -, -, -, hne⟩ := hx
    exact hne
  have hin : i * 4 + 4 ≤ l.blockSize := by
    rw [blockSize_eq_ptrs]
    omega
  rw [readIndirect, if_neg hx0, decide_eq_true hin, pointer, if_pos hin]
  cases hhit : s.cached x level with
  | some data =>
    obtain ⟨⟨x', data'⟩, hentry, hmatch⟩ := Option.bind_eq_some_iff.mp hhit
    split at hmatch
    next hsame =>
      rw [Option.some.injEq] at hmatch
      subst hmatch hsame
      obtain ⟨rfl, -⟩ := hco level x' data' hentry
      exact ⟨s.indirectCache, rfl, hco⟩
    · cases hmatch
  | none =>
    refine ⟨update s.indirectCache level (some (x, s.dev x)), rfl, fun level' x' data hentry => ?_⟩
    obtain ⟨rfl, heq⟩ | ⟨-, hentry⟩ := Transition.eq_some_of_update hentry
    · cases heq
      exact ⟨rfl, hx⟩
    · exact hco level' x' data hentry

lemma blockAt_concat (hne : s.blockAt owners r is ≠ 0) :
    s.blockAt owners r (is ++ [i]) = word (s.dev (s.blockAt owners r is)) i := by
  rw [blockAt, Forest.get_concat, ← blockAt, if_neg hne]
  rfl

lemma blockAt_append_of_zero (hzero : s.blockAt owners r is = 0) (js : List ℕ) :
    s.blockAt owners r (is ++ js) = 0 := by
  rw [blockAt, Forest.get_append, ← blockAt, hzero, follow_zero]

lemma lt_height_of_cell (h : l.IsCell r (is ++ i :: js)) : is.length < height r := by
  have hle := h.length
  rw [length_append, length_cons] at hle
  omega

lemma walk_spec (is : List ℕ) (hco : Coherent l owners s v) (hdev : v.dev = s.dev)
    (hcell : l.IsCell r (is ++ js)) (hb : v.blockAt owners r is = b) :
    ∃ cache, s.walk l b level js = (v.blockAt owners r (is ++ js), s.withCache cache) ∧
      Coherent l owners (s.withCache cache) v := by
  induction js generalizing s is b level with
  | nil =>
    rw [append_nil, hb]
    exact ⟨s.indirectCache, rfl, hco⟩
  | cons i js ih =>
    rw [walk]
    by_cases hzero : b = 0
    · rw [hzero, readIndirect, if_pos rfl, blockAt_append_of_zero (hb.trans hzero)]
      exact ⟨s.indirectCache, rfl, hco⟩
    have hindex : v.IsIndex l owners b :=
      ⟨r, is, hcell.of_append, lt_height_of_cell hcell, hb, hzero⟩
    have hi : i < l.ptrsPerBlock := hcell.slots i (by simp)
    obtain ⟨cache, hread, hco'⟩ := readIndirect_spec level hco hindex hi
    have hnext : v.blockAt owners r (is ++ [i]) = word (s.dev b) i := by
      rw [blockAt_concat (hb.symm ▸ hzero), hb, hdev]
    rw [append_cons] at hcell ⊢
    rw [hread]
    dsimp only
    split
    next hnone =>
      rw [blockAt_append_of_zero (hnext.trans hnone)]
      exact ⟨cache, rfl, hco'⟩
    · exact ih _ hco' hdev hcell hnext

lemma resolveBlock_spec {ino : Inode} {idx : ℕ} (hco : Coherent l owners s v) (hdev : v.dev = s.dev)
    (hn : n ∈ owners) (hino : (v.inodes n).block = ino.block)
    (hidx : idx < l.slotStart 14 + l.slotSpan 14) :
    ∃ cache, s.resolveBlock l ino idx =
      (v.blockAt owners (n, (l.blockPath idx).1) (l.blockPath idx).2, s.withCache cache) ∧
      Coherent l owners (s.withCache cache) v := by
  obtain ⟨hslot, hcell, -, -⟩ := blockPath_spec hidx n
  have hroot : v.blockAt owners (n, (l.blockPath idx).1) [] = ino.block (l.blockPath idx).1 := by
    rw [blockAt_nil hn hslot, hino]
  exact walk_spec [] hco hdev hcell hroot

/-! ## Allocating -/

lemma allocBlock_cases (h : s.allocBlock l = some (b, t)) :
    ∃ g i, l.At .block b g i ∧ s.marked l g i = false ∧ t = s.takeBlock l g i := by
  rw [allocBlock] at h
  split at h
  · cases h
  obtain ⟨g, hg, hsome⟩ := exists_of_findSome?_eq_some h
  split at hsome
  · cases hsome
  obtain ⟨i, hpick, heq⟩ := Option.map_eq_some_iff.mp hsome
  obtain ⟨rfl, rfl⟩ := heq
  obtain ⟨hi, hclear⟩ := Layout.pick_spec hpick
  exact ⟨g, i, ⟨rfl, mem_range.mp hg, hi⟩, hclear, rfl⟩

lemma allocBlock_isSome (hgroup : ∀ g < l.numGroups, s.groupFree g = s.clear l g)
    (htotal : s.totalFree = ∑ g ∈ Finset.range l.numGroups, s.groupFree g)
    (hpos : 0 < s.totalFree) :
    (s.allocBlock l).isSome := by
  rw [allocBlock, if_neg (hpos.ne'), List.findSome?_isSome_iff]
  obtain ⟨g, hg, hfree⟩ : ∃ g ∈ Finset.range l.numGroups, s.groupFree g ≠ 0 := by
    rw [htotal] at hpos
    exact Finset.exists_ne_zero_of_sum_ne_zero (hpos.ne')
  rw [Finset.mem_range] at hg
  refine ⟨g, mem_range.mpr hg, ?_⟩
  rw [if_neg hfree, Option.isSome_map, Layout.pick, List.find?_isSome]
  rw [hgroup g hg, clear, Finset.card_ne_zero] at hfree
  obtain ⟨i, hi⟩ := hfree
  rw [Finset.mem_filter, Finset.mem_range] at hi
  refine ⟨i, mem_range.mpr hi.1, ?_⟩
  have hbit := hi.2
  rw [marked] at hbit
  rw [hbit]
  rfl

/-! ## The volume with the copy of the inode -/

/-- The volume with the inode written back. -/
def Work.view (n : ℕ) (w : Work) : Fs := w.fs.writeInode n w.ino

/-- What holds while an inode is changed. -/
structure Working (l : Geometry) (owners : Finset ℕ) (n : ℕ) (w : Work) : Prop where
  owned : Owned l owners (w.view n)
  counted : Counted l owners (w.view n)
  coherent : Coherent l owners w.fs (w.view n)

/-- The cells that have no block yet. -/
def Fs.needed (owners : Finset ℕ) (s : Fs) (T : Finset ((ℕ × ℕ) × List ℕ)) : ℕ :=
  (T.filter fun c => s.blockAt owners c.1 c.2 = 0).card

/-- What stays while a file grows. -/
structure Grows (l : Geometry) (owners : Finset ℕ) (n : ℕ) (w w' : Work) : Prop where
  keeps : ∀ r is, l.IsCell r is → (w.view n).blockAt owners r is ≠ 0 →
    (w'.view n).blockAt owners r is = (w.view n).blockAt owners r is
  byte : ∀ m pos, pos < 2 ^ 32 → (w'.view n).byte l owners m pos = (w.view n).byte l owners m pos
  inodes : w'.fs.inodes = w.fs.inodes
  size : w'.ino.size = w.ino.size
  fileType : w'.ino.fileType = w.ino.fileType

lemma Grows.refl (w : Work) : Grows l owners n w w :=
  ⟨fun _ _ _ _ => rfl, fun _ _ _ => rfl, rfl, rfl, rfl⟩

lemma Grows.trans {w₁ w₂ w₃ : Work} (h : Grows l owners n w₁ w₂) (h' : Grows l owners n w₂ w₃) :
    Grows l owners n w₁ w₃ where
  keeps r is hc hne := by
    have h1 := h.keeps r is hc hne
    rw [h'.keeps r is hc (h1 ▸ hne), h1]
  byte m pos hpos := (h'.byte m pos hpos).trans (h.byte m pos hpos)
  inodes := h'.inodes.trans h.inodes
  size := h'.size.trans h.size
  fileType := h'.fileType.trans h.fileType

lemma Owned.not_isIndex (h : Owned l owners s) (hcell : l.IsCell r is)
    (hfull : is.length = height r) (hne : s.blockAt owners r is ≠ 0) :
    ¬ s.IsIndex l owners (s.blockAt owners r is) := by
  rintro ⟨r', is', hcell', hlt, heq, -⟩
  obtain ⟨rfl, rfl⟩ := h.distinct r is r' is' hcell hcell' hne heq.symm
  omega

section

variable (a : Attached l owners v v' n slot is b g i)

include a

lemma Attached.isIndex (hx : v.IsIndex l owners x) : v'.IsIndex l owners x := by
  obtain ⟨r, js, hc, hlt, rfl, hne⟩ := hx
  have hother : ¬ (r = (n, slot) ∧ js = is) := by
    rintro ⟨rfl, rfl⟩
    exact hne a.vacant
  refine ⟨r, js, hc, hlt, ?_, hne⟩
  rw [a.blockAt r js hc, if_neg hother]

/-- A fresh block of zeros in an empty cell changes no byte. -/
lemma Attached.byte_eq (h : Owned l owners v) (hzero : v'.dev b = fun _ => 0)
    (hdev : ∀ x, x ≠ b → l.own x = false → ¬ v.IsIndex l owners x → v'.dev x = v.dev x) {m pos : ℕ}
    (hpos : pos < 2 ^ 32) : v'.byte l owners m pos = v.byte l owners m pos := by
  obtain ⟨-, hc, hfull, -⟩ := blockPath_spec (div_blockSize_lt hpos) m
  obtain ⟨hfile, hnew⟩ := h.of_clear a.place a.fresh
  rw [Fs.byte, Fs.byte, a.blockAt _ _ hc]
  generalize l.blockPath (pos / l.blockSize) = path at hc hfull
  by_cases htarget : (m, path.1) = (n, slot) ∧ path.2 = is
  · simp [htarget, hzero, a.vacant]
  rw [if_neg htarget]
  split
  · rfl
  next hne =>
    have hother : v.blockAt owners (m, path.1) path.2 ≠ b := fun heq => hnew ⟨_, _, hc, heq⟩
    rw [hdev _ hother (h.placed _ _ hc hne).1 (h.not_isIndex hc hfull hne)]

lemma Attached.needed_eq (h : Owned l owners v) {T : Finset ((ℕ × ℕ) × List ℕ)}
    (hmem : ((n, slot), is) ∈ T) (hcells : ∀ c ∈ T, l.IsCell c.1 c.2) :
    v.needed owners T = v'.needed owners T + 1 := by
  have hb : b ≠ 0 := ne_zero_of_not_own (h.of_clear a.place a.fresh).1
  have hone : ∀ c ∈ T, v.blockAt owners c.1 c.2 = 0 ↔ v'.blockAt owners c.1 c.2 = 0 ∨
      c = ((n, slot), is) := by
    rintro ⟨r, js⟩ hc
    rw [Prod.mk.injEq, a.blockAt r js (hcells _ hc)]
    by_cases htarget : r = (n, slot) ∧ js = is
    · rw [if_pos htarget, htarget.1, htarget.2]
      exact ⟨fun _ => .inr ⟨rfl, rfl⟩, fun _ => a.vacant⟩
    · rw [if_neg htarget]
      exact (or_iff_left htarget).symm
  have hnot : ¬ v'.blockAt owners (n, slot) is = 0 := by
    rw [a.blockAt _ _ a.cell, if_pos ⟨rfl, rfl⟩]
    exact hb
  simp [needed, card_filter_insert hone hnot, hmem]

end

lemma Coherent.of_attached (hco : Coherent l owners s v)
    (a : Attached l owners v v' n slot is b g i)
    (hcache : ∀ level x data, t.indirectCache level = some (x, data) →
      s.indirectCache level = some (x, data) ∧ (v.IsIndex l owners x → t.dev x = s.dev x)) :
        Coherent l owners t v' := by
  intro level x data hentry
  obtain ⟨hbefore, hsame⟩ := hcache level x data hentry
  obtain ⟨rfl, hindex⟩ := hco level x data hbefore
  exact ⟨(hsame hindex).symm, a.isIndex hindex⟩

lemma Owned.congr (h : Owned l owners v)
    (hblock : ∀ r is, l.IsCell r is → v'.blockAt owners r is = v.blockAt owners r is)
    (hmarked : ∀ g < l.numGroups, ∀ i, v'.marked l g i = v.marked l g i) : Owned l owners v' where
  distinct := h.distinct_of_blockAt hblock
  placed r is hc hne := by
    rw [hblock r is hc] at hne ⊢
    exact h.placed r is hc hne
  marks x g i hat := by
    rw [hmarked g hat.group, h.marks x g i hat]
    refine or_congr_right ⟨?_, ?_⟩
    · rintro ⟨r, is, hc, hx⟩
      exact ⟨r, is, hc, (hblock r is hc).trans hx⟩
    · rintro ⟨r, is, hc, hx⟩
      exact ⟨r, is, hc, (hblock r is hc).symm.trans hx⟩

lemma Counted.congr (h : Counted l owners v)
    (hblock : ∀ r is, l.IsCell r is → v'.blockAt owners r is = v.blockAt owners r is)
    (hmarked : ∀ g < l.numGroups, ∀ i, v'.marked l g i = v.marked l g i)
    (hblocks : ∀ m, (v'.inodes m).blocks = (v.inodes m).blocks)
    (hgroup : v'.groupFree = v.groupFree) (htotal : v'.totalFree = v.totalFree) :
    Counted l owners v' where
  blocks m hm := by
    have hheld : v'.held l owners m = v.held l owners m := by
      refine congrArg Finset.card (Finset.filter_congr ?_)
      rintro ⟨r, is⟩ hc
      rw [hblock r is (mem_cellsOf.mp hc).2]
    rw [hblocks, h.blocks m hm, hheld]
  group g hg := by
    have hclear : v'.clear l g = v.clear l g := by
      refine congrArg Finset.card (Finset.filter_congr fun i _ => ?_)
      rw [hmarked g hg]
    rw [hgroup, h.group g hg, hclear]
  total := by
    rw [htotal, hgroup, h.total]

lemma Owned.withCache (h : Owned l owners s) (cache : ℕ → Option (ℕ × Block)) :
    Owned l owners (s.withCache cache) :=
  h.congr (fun _ _ _ => rfl) fun _ _ _ => rfl

lemma Counted.withCache (h : Counted l owners s) (cache : ℕ → Option (ℕ × Block)) :
    Counted l owners (s.withCache cache) :=
  h.congr (fun _ _ _ => rfl) (fun _ _ _ => rfl) (fun _ => rfl) rfl rfl

lemma Attached.withCache (a : Attached l owners v v' n slot is b g i)
    (cache : ℕ → Option (ℕ × Block)) : Attached l owners v (v'.withCache cache) n slot is b g i :=
  ⟨a.owner, a.slot_lt, a.cell, a.place, a.fresh, a.vacant, a.blockAt, a.marked, a.blocks,
    a.groupFree, a.totalFree⟩

lemma writeInode_writeInode (n : ℕ) (ino ino' : Inode) (s : Fs) :
    (s.writeInode n ino).writeInode n ino' = s.writeInode n ino' := by
  rw [writeInode, writeInode, writeInode]
  simp

lemma takeBlock_dev_of_file (hat : l.At .block b g i) (hx : x ≠ b) (hfile : l.own x = false) :
    (s.takeBlock l g i).dev x = s.dev x := by
  rw [takeBlock_dev hat.number, if_neg hx, if_neg (ne_bitmapBlock hfile .block hat.group)]

/-! ## The way to a logical block -/

/-- A way is gone for a step: the file has grown, and there are still enough blocks for the cells
that are to be filled. -/
structure Advanced (l : Geometry) (owners : Finset ℕ) (n : ℕ) (T : Finset ((ℕ × ℕ) × List ℕ))
    (w w' : Work) : Prop where
  working : Working l owners n w'
  grows : Grows l owners n w w'
  enough : (w'.view n).needed owners T ≤ w'.fs.totalFree

lemma Advanced.trans {T : Finset ((ℕ × ℕ) × List ℕ)} {w₁ w₂ w₃ : Work}
    (h : Advanced l owners n T w₁ w₂) (h' : Advanced l owners n T w₂ w₃) :
    Advanced l owners n T w₁ w₃ :=
  ⟨h'.working, h.grows.trans h'.grows, h'.enough⟩

section Ensure

variable {T : Finset ((ℕ × ℕ) × List ℕ)} {w w' : Work} (h : Working l owners n w)
  (henough : (w.view n).needed owners T ≤ w.fs.totalFree) (hcells : ∀ c ∈ T, l.IsCell c.1 c.2)

include h henough hcells

lemma Working.advanced_of_attached (a : Attached l owners (w.view n) (w'.view n) n slot is b g i)
    (hmem : ((n, slot), is) ∈ T) (hzero : w'.fs.dev b = fun _ => 0)
    (hdev : ∀ x, x ≠ b → l.own x = false → ¬ (w.view n).IsIndex l owners x →
      w'.fs.dev x = w.fs.dev x)
    (hcache : ∀ level x data, w'.fs.indirectCache level = some (x, data) →
      w.fs.indirectCache level = some (x, data) ∧
      ((w.view n).IsIndex l owners x → w'.fs.dev x = w.fs.dev x))
    (hinodes : w'.fs.inodes = w.fs.inodes) (hsize : w'.ino.size = w.ino.size)
    (htype : w'.ino.fileType = w.ino.fileType) :
    Advanced l owners n T w w' := by
  refine ⟨⟨a.owned h.owned, a.counted h.owned h.counted, h.coherent.of_attached a hcache⟩,
    ⟨?_, ?_, hinodes, hsize, htype⟩, ?_⟩
  · intro r js hc hne
    have hother : ¬ (r = (n, slot) ∧ js = is) := by
      rintro ⟨rfl, rfl⟩
      exact hne a.vacant
    rw [a.blockAt r js hc, if_neg hother]
  · exact fun m pos hpos => a.byte_eq h.owned hzero hdev hpos
  have hone := a.needed_eq h.owned hmem hcells
  have htotal : w'.fs.totalFree = w.fs.totalFree - 1 := a.totalFree
  omega

omit hcells in
/-- A cell that is to be filled is empty, so there is a free block. -/
lemma Working.alloc (hmem : ((n, slot), is) ∈ T)
    (hempty : (w.view n).blockAt owners (n, slot) is = 0) :
    ∃ b g i, w.fs.allocBlock l = some (b, w.fs.takeBlock l g i) ∧ l.At .block b g i ∧
      w.fs.marked l g i = false := by
  have hone : 0 < (w.view n).needed owners T :=
    Finset.card_pos.mpr ⟨_, Finset.mem_filter.mpr ⟨hmem, hempty⟩⟩
  have hsome := allocBlock_isSome (s := w.fs) h.counted.group h.counted.total (by omega)
  obtain ⟨⟨b, t⟩, halloc⟩ := Option.isSome_iff_exists.mp hsome
  obtain ⟨g, i, hat, hclear, rfl⟩ := allocBlock_cases halloc
  exact ⟨b, g, i, halloc, hat, hclear⟩

lemma Working.ensureRoot_spec (hn : n ∈ owners) (hslot : slot < 15) (hmem : ((n, slot), []) ∈ T) :
    ∃ b w', w.ensureRoot l slot = (some b, w') ∧ Advanced l owners n T w w' ∧
      (w'.view n).blockAt owners (n, slot) [] = b ∧
      b ≠ 0 := by
  have hino : (w.view n).inodes n = w.ino := update_self ..
  have hroot : (w.view n).blockAt owners (n, slot) [] = w.ino.block slot := by
    rw [blockAt_nil hn hslot, hino]
  rw [Work.ensureRoot]
  split
  next hvacant =>
    obtain ⟨b, g, i, halloc, hat, hclear⟩ := h.alloc henough hmem (hroot.trans hvacant)
    rw [halloc]
    refine ⟨b, _, rfl, ?_⟩
    generalize hino' : ({ w.ino with block := update w.ino.block slot b,
                                     blocks := w.ino.blocks + l.sectorsPerBlock } : Inode) = ino'
    have hview : ((w.view n).takeBlock l g i).writeInode n ino' =
        ({ ino := ino', fs := w.fs.takeBlock l g i } : Work).view n :=
      writeInode_writeInode n w.ino ino' (w.fs.takeBlock l g i)
    have a : Attached l owners (w.view n)
        (({ ino := ino', fs := w.fs.takeBlock l g i } : Work).view n) n slot [] b g i := by
      rw [← hview]
      refine h.owned.attachRoot hat hclear hn hslot ?_ ?_ ?_
      · rw [hino, hvacant]
      · rw [hino, ← hino']
      · rw [hino, ← hino']
    have hadvanced :=
      h.advanced_of_attached henough hcells a hmem (by simp [takeBlock_dev hat.number])
      (fun x hx hfile _ => takeBlock_dev_of_file hat hx hfile)
      (fun _ _ _ hentry => ⟨hentry, h.owned.takeBlock_dev_of_isIndex hat hclear⟩)
      rfl (by rw [← hino']) (by rw [← hino'])
    refine ⟨hadvanced, ?_, ne_zero_of_not_own (h.owned.of_clear hat hclear).1⟩
    simp [a.blockAt _ _ cell_nil]
  next hfull => exact ⟨_, w, rfl, ⟨h, .refl w, henough⟩, hroot, hfull⟩

lemma Working.fillSlot {j : ℕ} {w' : Work} (hn : n ∈ owners) (hslot : slot < 15)
    (hcell : l.IsCell (n, slot) (is ++ [i])) (hmem : ((n, slot), is ++ [i]) ∈ T)
    (hx : (w.view n).blockAt owners (n, slot) is = x) (hx0 : x ≠ 0)
    (hvacant : word (w.fs.dev x) i = 0) (hat : l.At .block b g j)
    (hclear : w.fs.marked l g j = false)
    (hw' : w' = ⟨{ w.ino with blocks := w.ino.blocks + l.sectorsPerBlock },
      ((w.fs.takeBlock l g j).writeBlock x
      (setWord ((w.fs.takeBlock l g j).dev x) i b)).invalidateIndirectCache x⟩) :
    Advanced l owners n T w w' ∧ (w'.view n).blockAt owners (n, slot) (is ++ [i]) = b ∧ b ≠ 0 := by
  have hindex : (w.view n).IsIndex l owners x :=
    ⟨_, is, hcell.of_append, lt_height_of_cell hcell, hx, hx0⟩
  have hino : (w.view n).inodes n = w.ino := update_self ..
  have hdevx : (w.fs.takeBlock l g j).dev x = w.fs.dev x :=
    h.owned.takeBlock_dev_of_isIndex hat hclear hindex
  have hbx : b ≠ x := (h.owned.ne_of_fresh hat hclear hindex).symm
  have hino' : w'.ino = { w.ino with blocks := w.ino.blocks + l.sectorsPerBlock } := by rw [hw']
  have hfs' : w'.fs = ((w.fs.takeBlock l g j).writeBlock x
      (setWord ((w.fs.takeBlock l g j).dev x) i b)).invalidateIndirectCache x := by rw [hw']
  have hblock : w'.ino.block = ((w.view n).inodes n).block := by rw [hino, hino']
  have hblocks : w'.ino.blocks = ((w.view n).inodes n).blocks + l.sectorsPerBlock := by
    rw [hino, hino']
  have hattach := h.owned.attachSlot hat hclear hn hslot hcell hx hx0 hvacant hblock hblocks
  have hview : w'.view n = ((((w.view n).takeBlock l g j).writeBlock x
      (setWord (w.fs.dev x) i b)).writeInode n w'.ino).withCache w'.fs.indirectCache := by
    have hput := writeInode_writeInode n w.ino w'.ino
      ((w.fs.takeBlock l g j).writeBlock x (setWord (w.fs.dev x) i b))
    have hcached := congrArg (fun t => t.withCache w'.fs.indirectCache) hput.symm
    refine Eq.trans ?_ hcached
    rw [Work.view, hfs', hdevx]
    rfl
  have a : Attached l owners (w.view n) (w'.view n) n slot (is ++ [i]) b g j := by
    rw [hview]
    exact hattach.withCache _
  have hdev : ∀ y, y ≠ x → w'.fs.dev y = (w.fs.takeBlock l g j).dev y := fun y hy => by
    rw [hfs']
    exact update_of_ne hy ..
  refine ⟨h.advanced_of_attached henough hcells a hmem ?_ ?_ ?_ ?_ ?_ ?_, ?_,
    ne_zero_of_not_own (h.owned.of_clear hat hclear).1⟩
  · simp [hdev b hbx, takeBlock_dev hat.number]
  · intro y hy hfile hdata
    have hyx : y ≠ x := by
      rintro rfl
      exact hdata hindex
    rw [hdev y hyx, takeBlock_dev_of_file hat hy hfile]
  · intro level y data hentry
    rw [hfs'] at hentry
    obtain ⟨hbefore, hother⟩ := Option.filter_eq_some_iff.mp hentry
    refine ⟨hbefore, fun hy => ?_⟩
    rw [hdev y (of_decide_eq_true hother)]
    exact h.owned.takeBlock_dev_of_isIndex hat hclear hy
  · rw [hfs']
    rfl
  · rw [hino']
  · rw [hino']
  · simp [a.blockAt _ _ hcell]

lemma Working.ensureSlot_spec (level : ℕ) (hn : n ∈ owners) (hslot : slot < 15)
    (hcell : l.IsCell (n, slot) (is ++ [i])) (hmem : ((n, slot), is ++ [i]) ∈ T)
    (hx : (w.view n).blockAt owners (n, slot) is = x) (hx0 : x ≠ 0) :
    ∃ b w', w.ensureSlot l x i level = (some b, w') ∧ Advanced l owners n T w w' ∧
      (w'.view n).blockAt owners (n, slot) (is ++ [i]) = b ∧ b ≠ 0 := by
  have hi : i < l.ptrsPerBlock := hcell.slots i (by simp)
  have hindex : (w.view n).IsIndex l owners x :=
    ⟨_, is, hcell.of_append, lt_height_of_cell hcell, hx, hx0⟩
  obtain ⟨cache, hread, hco⟩ := readIndirect_spec level h.coherent hindex hi
  have hnext : (w.view n).blockAt owners (n, slot) (is ++ [i]) = word (w.fs.dev x) i := by
    rw [blockAt_concat (hx.symm ▸ hx0), hx]
    rfl
  -- reading has changed the cache only
  generalize hw1 : ({ w with fs := w.fs.withCache cache } : Work) = w₁
  have hfs : w.fs.withCache cache = w₁.fs := by rw [← hw1]
  have h1 : Working l owners n w₁ := by
    rw [← hw1]
    exact ⟨h.owned.withCache cache, h.counted.withCache cache, hco⟩
  have hgrows : Grows l owners n w w₁ := by
    rw [← hw1]
    exact ⟨fun _ _ _ _ => rfl, fun _ _ _ => rfl, rfl, rfl, rfl⟩
  have henough1 : (w₁.view n).needed owners T ≤ w₁.fs.totalFree := by
    rw [← hw1]
    exact henough
  have hx1 : (w₁.view n).blockAt owners (n, slot) is = x := by
    rw [← hw1]
    exact hx
  have hnext1 : (w₁.view n).blockAt owners (n, slot) (is ++ [i]) = word (w.fs.dev x) i := by
    rw [← hw1]
    exact hnext
  rw [Work.ensureSlot, hread]
  dsimp only
  rw [hw1, hfs]
  split
  next hvacant =>
    obtain ⟨b, g, j, halloc, hat, hclear⟩ := h1.alloc henough1 hmem (hnext1.trans hvacant)
    have hin : ¬ l.blockSize < i * 4 + 4 := by
      rw [blockSize_eq_ptrs]
      omega
    rw [halloc]
    dsimp only
    rw [writeIndirectSlot, if_neg hin]
    have hvacant1 : word (w₁.fs.dev x) i = 0 := by
      rw [← hw1]
      exact hvacant
    have hino1 : w₁.ino = w.ino := by rw [← hw1]
    refine ⟨b, _, rfl, ?_⟩
    have hfilled := h1.fillSlot henough1 hcells hn hslot hcell hmem hx1 hx0 hvacant1 hat hclear rfl
    rw [hino1] at hfilled
    obtain ⟨hadvanced, hrest⟩ := hfilled
    exact ⟨⟨hadvanced.working, hgrows.trans hadvanced.grows, hadvanced.enough⟩, hrest⟩
  next hfull => exact ⟨_, w₁, rfl, ⟨h1, hgrows, henough1⟩, hnext1, hfull⟩

lemma Working.ensurePath_spec (level : ℕ) (is : List ℕ) (hn : n ∈ owners) (hslot : slot < 15)
    (hcell : l.IsCell (n, slot) (is ++ js)) (hmem : ∀ pre, pre <+: is ++ js → ((n, slot), pre) ∈ T)
    (hx : (w.view n).blockAt owners (n, slot) is = x) (hx0 : x ≠ 0) :
    ∃ b w', w.ensurePath l x level js = (some b, w') ∧ Advanced l owners n T w w' ∧
      (w'.view n).blockAt owners (n, slot) (is ++ js) = b ∧ b ≠ 0 := by
  induction js generalizing w is x level with
  | nil =>
    rw [append_nil]
    exact ⟨x, w, rfl, ⟨h, .refl w, henough⟩, hx, hx0⟩
  | cons i js ih =>
    rw [append_cons] at hcell hmem ⊢
    obtain ⟨b, w₁, hslot1, hadvanced, hb, hb0⟩ :=
      h.ensureSlot_spec henough hcells level hn hslot hcell.of_append
      (hmem _ (prefix_append ..)) hx hx0
    obtain ⟨c, w₂, hpath, hadvanced', hc⟩ :=
      ih hadvanced.working hadvanced.enough (level + 1) _ hcell hmem hb hb0
    rw [Work.ensurePath, hslot1]
    exact ⟨c, w₂, hpath, hadvanced.trans hadvanced', hc⟩

/-- The block of a logical block is there, with all that leads to it. -/
lemma Working.ensureBlock_spec {idx : ℕ} (hn : n ∈ owners)
    (hidx : idx < l.slotStart 14 + l.slotSpan 14)
    (hmem : ∀ pre, pre <+: (l.blockPath idx).2 → ((n, (l.blockPath idx).1), pre) ∈ T) :
    ∃ b w', w.ensureBlock l idx = (some b, w') ∧ Advanced l owners n T w w' ∧
      (w'.view n).blockAt owners (n, (l.blockPath idx).1) (l.blockPath idx).2 = b ∧ b ≠ 0 := by
  obtain ⟨hslot, hcell, -, -⟩ := blockPath_spec hidx n
  obtain ⟨b, w₁, hroot, hadvanced, hb, hb0⟩ :=
    h.ensureRoot_spec henough hcells hn hslot (hmem [] nil_prefix)
  obtain ⟨c, w₂, hpath, hadvanced', hc⟩ :=
    hadvanced.working.ensurePath_spec hadvanced.enough hcells 0 [] hn
    hslot hcell hmem hb hb0
  rw [Work.ensureBlock, hroot]
  exact ⟨c, w₂, hpath, hadvanced.trans hadvanced', hc⟩

end Ensure

end Astryx.Ext2
