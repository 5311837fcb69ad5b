import Astryx.Ext2.Growth

/-!
# Freeing words that are not block numbers

The slots of a short symbolic link hold the text of its target. `free_blocks_from` takes them for
block numbers all the same: it frees the blocks that the first twelve name, and below the other
three it goes through whatever the named blocks contain. An indirect block that is done with has
only zeros left, so that it leads nowhere when the walk comes to it again.

`Fs.strays` are the numbers that the walk comes across, from the device as it is before. The walk
leaves the bitmaps as they are if and only if none of them is a block in use: as long as that is so,
the walk changes nothing that the rest of it would read differently, and a bit that was once cleared
stays clear.
-/

namespace Astryx.Ext2

open List Bytes Ext2.Geometry Work

/-- The bit of the number is set. -/
def Fs.used (l : Geometry) (s : Fs) (k : Kind) (x : ℕ) : Prop :=
  ∃ g i, l.At k x g i ∧ bit (s.dev (l.bitmapBlock k g)) i = true

/-- The numbers that a walk has come across, and the blocks that it has emptied. -/
structure Trail where
  met : List ℕ
  emptied : List ℕ

/-- The blocks that an indirect block names. -/
def Geometry.numbers (l : Geometry) (data : Block) : List ℕ :=
  ((List.range l.ptrsPerBlock).map (word data)).filter (· ≠ 0)

/-- A number is taken for a block with levels of indirect blocks below it. -/
def Trail.meet (l : Geometry) (s : Fs) : ℕ → Trail → ℕ → Trail
  | 0, t, b => { t with met := b :: t.met }
  | height + 1, t, b =>
    let t := (if b ∈ t.emptied then [] else l.numbers (s.dev b)).foldl (meet l s height) t
    { met := b :: t.met, emptied := b :: t.emptied }

/-- The slots of an inode are taken for block numbers, the first ones of them. -/
def Fs.trail (l : Geometry) (s : Fs) (ino : Inode) (slots : ℕ) : Trail :=
  (List.range slots).foldl
    (fun t slot =>
      if ino.block slot = 0 then t else t.meet l s (Geometry.slotHeight slot)
        (ino.block slot)) ⟨[], []⟩

/-- The blocks that freeing the inode meets. -/
def Fs.strays (l : Geometry) (s : Fs) (ino : Inode) : List ℕ := (s.trail l ino 15).met

/-- A block is freed with what is below it. -/
def Work.visit (l : Geometry) (height : ℕ) (w : Work) (b : ℕ) : Work :=
  (freeBranch l height b 0 w).dropBlock l b

variable {l : Geometry} {s : Fs} {w : Work} {t : Trail} {b g i h : ℕ} {data : Block}

/-! ## The walk -/

lemma Geometry.numbers_eq_nil (h : l.numbers data = []) :
    ∀ j < l.ptrsPerBlock, word data j = 0 := by
  intro j hj
  have hnot := filter_eq_nil_iff.mp h _ (mem_map.mpr ⟨j, mem_range.mpr hj, rfl⟩)
  by_contra hne
  exact hnot (decide_eq_true hne)

/-- The loop over the words of a block: it works on the words of the copy it started with, and
leaves zeros. -/
lemma sweep_eq (h : ℕ) (data : Block) (w : Work) (k : ℕ) :
    let u := (List.range k).foldl (sweepSlot l (l.ptrsPerBlock ^ h) 0 (freeBranch l h))
      ⟨data, false, w⟩
    (∀ j, word u.buf j = if j < k then 0 else word data j) ∧ (u.changed = false → u.buf = data) ∧
      u.work = (((List.range k).map (word data)).filter (· ≠ 0)).foldl (Work.visit l h) w := by
  induction k with
  | zero => exact ⟨fun j => rfl, fun _ => rfl, rfl⟩
  | succ k ih =>
    rw [range_succ, foldl_append, map_append, filter_append, foldl_append]
    generalize (List.range k).foldl (sweepSlot l (l.ptrsPerBlock ^ h) 0 (freeBranch l h))
      ⟨data, false, w⟩ = u at ih
    obtain ⟨hbuf, hsame, hwork⟩ := ih
    have hspan : ¬ k * l.ptrsPerBlock ^ h + l.ptrsPerBlock ^ h ≤ 0 := by
      have hpos := Nat.pow_pos (ptrsPerBlock_pos (l := l)) (n := h)
      omega
    have hword : word u.buf k = word data k := by simp [hbuf]
    have hone : ((List.map (word data) [k]).filter (· ≠ 0)) =
        if word data k = 0 then [] else [word data k] := by
      simp only [map_cons, map_nil, filter_cons, filter_nil, decide_not, Bool.not_eq_true',
        decide_eq_false_iff_not, ite_not]
    rw [← hwork, hone]
    dsimp only [foldl_cons, foldl_nil]
    rw [sweepSlot, if_neg hspan]
    rw [hword, Nat.zero_sub]
    by_cases hzero : word data k = 0
    · rw [if_pos hzero, if_pos hzero]
      refine ⟨fun j => ?_, hsame, rfl⟩
      rw [hbuf]
      by_cases hj : j = k
      · simp [hj, hzero]
      · refine if_congr ?_ rfl rfl
        omega
    rw [if_neg hzero, if_neg hzero, if_pos rfl]
    refine ⟨fun j => ?_, fun hchanged => (by cases hchanged), rfl⟩
    rw [word_setWord _ (by decide), hbuf]
    by_cases hj : j = k
    · rw [if_pos hj, if_pos (by omega)]
    rw [if_neg hj]
    refine if_congr ?_ rfl rfl
    omega

/-- What a branch comes to: the block is emptied when all of its numbers are visited. -/
lemma freeBranch_cases (h b : ℕ) (w : Work) :
    (l.numbers (w.fs.dev b) = [] ∧ freeBranch l (h + 1) b 0 w = w) ∨
    ∃ buf w', (∀ j < l.ptrsPerBlock, word buf j = 0) ∧
      w' = (l.numbers (w.fs.dev b)).foldl (Work.visit l h) w ∧
      freeBranch l (h + 1) b 0 w =
        ⟨w'.ino, (w'.fs.writeBlock b buf).invalidateIndirectCache b⟩ := by
  obtain ⟨hbuf, hsame, hwork⟩ := sweep_eq h (w.fs.dev b) w l.ptrsPerBlock
  rw [freeBranch_succ, freeBelow, numbers]
  generalize (List.range l.ptrsPerBlock).foldl
    (sweepSlot l (l.ptrsPerBlock ^ h) 0 (freeBranch l h)) _ = u at *
  by_cases hchanged : u.changed
  · rw [if_pos hchanged]
    exact .inr ⟨u.buf, u.work, fun j hj => by rw [hbuf, if_pos hj], hwork, rfl⟩
  have hnone : ((List.range l.ptrsPerBlock).map (word (w.fs.dev b))).filter (· ≠ 0) = [] := by
    rw [filter_eq_nil_iff]
    intro x hx
    obtain ⟨j, hj, rfl⟩ := mem_map.mp hx
    rw [← hsame (Bool.eq_false_iff.mpr hchanged), hbuf, if_pos (mem_range.mp hj)]
    decide
  rw [hnone] at hwork ⊢
  rw [if_neg hchanged]
  exact .inl ⟨rfl, hwork⟩

variable {fs : Fs}

lemma emptied_dev (b : ℕ) (buf : Block) (x : ℕ) :
    ((fs.writeBlock b buf).invalidateIndirectCache b).dev x = if x = b then buf else fs.dev x :=
  Function.update_apply ..

/-! ## Bits are only cleared -/

lemma Bytes.bit_of_words {n : ℕ} (hzero : ∀ j < n, word data j = 0) (hi : i < 8 * (4 * n)) :
    bit data i = false := by
  have hword := hzero (i / 8 / 4) (by omega)
  have hbyte : data (i / 8) = 0 := by
    rw [word] at hword
    have hplace : i / 8 = 4 * (i / 8 / 4) ∨ i / 8 = 4 * (i / 8 / 4) + 1 ∨
      i / 8 = 4 * (i / 8 / 4) + 2 ∨
      i / 8 = 4 * (i / 8 / 4) + 3 := by omega
    generalize 4 * (i / 8 / 4) = p at hplace hword
    apply UInt8.toNat.inj
    rcases hplace with heq | heq | heq | heq <;> rw [heq] <;> change _ = 0 <;> omega
  rw [bit, hbyte]
  exact BitVec.getLsbD_zero

lemma freeBlock_marked_le (hg : g < l.numGroups) (hset : (fs.freeBlock l b).marked l g i) :
    fs.marked l g i := by
  rw [Fs.freeBlock] at hset
  split at hset
  · exact hset
  next g' i' hlocate =>
    split at hset
    · rw [releaseBlock_marked (Layout.at_of_locate hlocate).group hg, Bool.and_eq_true] at hset
      exact hset.2
    · exact hset

/-- The block that is emptied may be the bitmap itself. -/
lemma emptied_marked_le {buf : Block} (hbuf : ∀ j < l.ptrsPerBlock, word buf j = 0)
    (hi : i < l.blocksPerGroup)
    (hset : ((fs.writeBlock b buf).invalidateIndirectCache b).marked l g i) : fs.marked l g i := by
  rw [Fs.marked, emptied_dev] at hset
  split at hset
  · have hbits : i < 8 * (4 * l.ptrsPerBlock) := by
      rw [← blockSize_eq_ptrs]
      exact lt_of_lt_of_le hi l.bitmap_fits
    rw [Bytes.bit_of_words hbuf hbits] at hset
    cases hset
  · exact hset

lemma visit_marked_le (h : ℕ) (hg : g < l.numGroups) (hi : i < l.blocksPerGroup) :
    ∀ w b, (Work.visit l h w b).fs.marked l g i → w.fs.marked l g i := by
  induction h with
  | zero => exact fun w b => freeBlock_marked_le hg
  | succ h ih =>
    intro w b hset
    have hset := freeBlock_marked_le hg hset
    have hfold : ∀ (ps : List ℕ) (w : Work), (ps.foldl (Work.visit l h) w).fs.marked l g i →
        w.fs.marked l g i := by
      intro ps
      induction ps with
      | nil => exact fun _ => id
      | cons p ps ihp => exact fun w hset => ih w p (ihp _ hset)
    rcases freeBranch_cases h b w with ⟨-, heq⟩ | ⟨buf, -, hbuf, rfl, heq⟩
    · rwa [heq] at hset
    · rw [heq] at hset
      exact hfold _ w (emptied_marked_le hbuf hi hset)

/-! ## What the walk comes across

`s` is the volume before; the walk may start with a volume that differs from it in blocks that are
in use. -/

/-- So far the walk has come across no block in use. -/
structure Mirror (l : Geometry) (s : Fs) (t : Trail) (w : Work) : Prop where
  unused : ∀ b ∈ t.met, ¬ s.used l .block b
  bitmaps : ∀ k, ∀ g < l.numGroups, w.fs.dev (l.bitmapBlock k g) = s.dev (l.bitmapBlock k g)
  words : ∀ x, ¬ s.used l .block x → ∀ j < l.ptrsPerBlock,
    word (w.fs.dev x) j = if x ∈ t.emptied then 0 else word (s.dev x) j

/-- A block in use has lost its bit. -/
def Lost (l : Geometry) (s : Fs) (w : Work) : Prop :=
  ∃ x g i, l.At .block x g i ∧ s.marked l g i = true ∧ w.fs.marked l g i = false

/-- The walk does what the trail says, up to the first block in use, and from then on that one has
lost its bit. -/
def Follows (l : Geometry) (s : Fs) (t : Trail) (w : Work) : Prop :=
  Mirror l s t w ∨ (∃ b ∈ t.met, s.used l .block b) ∧ Lost l s w

lemma Follows.withIno (h : Follows l s t w) (ino : Inode) : Follows l s t ⟨ino, w.fs⟩ := by
  rcases h with hm | ⟨hmet, hlost⟩
  · exact .inl ⟨hm.unused, hm.bitmaps, hm.words⟩
  · exact .inr ⟨hmet, hlost⟩

lemma Lost.of_le {w' : Work} (h : Lost l s w)
    (hle : ∀ g < l.numGroups, ∀ i < l.blocksPerGroup, w'.fs.marked l g i → w.fs.marked l g i) :
    Lost l s w' := by
  obtain ⟨x, g, i, hat, hset, hclear⟩ := h
  refine ⟨x, g, i, hat, hset, ?_⟩
  by_contra hne
  rw [Bool.not_eq_false] at hne
  rw [hle g hat.group i hat.bit hne] at hclear
  cases hclear

lemma Lost.visit (h : Lost l s w) (height b : ℕ) : Lost l s (Work.visit l height w b) :=
  h.of_le fun _ hg _ hi => visit_marked_le height hg hi w b

lemma Trail.mem_meet {x : ℕ} (h : ℕ) :
    ∀ (t : Trail) (b : ℕ), x = b ∨ x ∈ t.met → x ∈ (t.meet l s h b).met := by
  induction h with
  | zero => exact fun t b => mem_cons.mpr
  | succ h ih =>
    intro t b hx
    refine mem_cons.mpr (hx.imp_right fun hmem => ?_)
    generalize (if b ∈ t.emptied then [] else l.numbers (s.dev b)) = ps
    induction ps generalizing t with
    | nil => exact hmem
    | cons p ps ihp => exact ihp (t.meet l s h p) (.inr (ih t p (.inr hmem))) (ih t p (.inr hmem))

lemma freeBlock_of_unused
    (hbm : ∀ g < l.numGroups, fs.dev (l.bitmapBlock .block g) = s.dev (l.bitmapBlock .block g))
    (hb : ¬ s.used l .block b) : fs.freeBlock l b = fs := by
  rw [Fs.freeBlock]
  split
  · rfl
  next g i hlocate =>
    have hat := Layout.at_of_locate hlocate
    refine if_neg fun hset => hb ⟨g, i, hat, ?_⟩
    rwa [hbm g hat.group] at hset

lemma freeBlock_clear (hb : b ≠ 0) (hat : l.At .block b g i) :
    (fs.freeBlock l b).marked l g i = false := by
  rw [Fs.freeBlock, hat.locate hb]
  dsimp only
  split
  · rw [releaseBlock_marked hat.group hat.group, decide_eq_true ⟨rfl, rfl⟩]
    rfl
  next hclear => exact Bool.eq_false_iff.mpr hclear

section Visit

variable (hbitmaps : ∀ k, ∀ g < l.numGroups, s.used l .block (l.bitmapBlock k g))

lemma Mirror.drop (h : Mirror l s t w) (hb : ¬ s.used l .block b) :
    Mirror l s { t with met := b :: t.met } (w.dropBlock l b) := by
  have hfs : (w.dropBlock l b).fs = w.fs := freeBlock_of_unused (h.bitmaps .block) hb
  refine ⟨forall_mem_cons.mpr ⟨hb, h.unused⟩, fun k g hg => ?_, fun x hx j hj => ?_⟩
  · rw [hfs, h.bitmaps k g hg]
  · rw [hfs, h.words x hx j hj]

/-- A block that has only zeros may be taken for an emptied one. -/
lemma Mirror.emptied (h : Mirror l s t w) (hzero : ∀ j < l.ptrsPerBlock, word (w.fs.dev b) j = 0) :
    Mirror l s { t with emptied := b :: t.emptied } w := by
  refine ⟨h.unused, h.bitmaps, fun x hx j hj => ?_⟩
  by_cases hxb : x = b
  · simp [hxb, hzero j hj]
  rw [h.words x hx j hj]
  refine if_congr ?_ rfl rfl
  simp [hxb]

include hbitmaps

lemma Mirror.empty {buf : Block} (h : Mirror l s t w) (hb : ¬ s.used l .block b)
    (hbuf : ∀ j < l.ptrsPerBlock, word buf j = 0) :
    Mirror l s { t with emptied := b :: t.emptied }
      ⟨w.ino, (w.fs.writeBlock b buf).invalidateIndirectCache b⟩ := by
  refine ⟨h.unused, fun k g hg => ?_, fun x hx j hj => ?_⟩
  · have hne : l.bitmapBlock k g ≠ b := fun heq => hb (heq ▸ hbitmaps k g hg)
    rw [emptied_dev, if_neg hne, h.bitmaps k g hg]
  rw [emptied_dev]
  by_cases hxb : x = b
  · simp [hxb, hbuf j hj]
  rw [if_neg hxb, h.words x hx j hj]
  refine if_congr ?_ rfl rfl
  simp [hxb]

lemma Follows.visit (h : ℕ) : ∀ (t : Trail) (w : Work) (b : ℕ), b ≠ 0 → Follows l s t w →
    Follows l s (t.meet l s h b) (Work.visit l h w b) := by
  induction h with
  | zero =>
    intro t w b hb0 hf
    rcases hf with hm | ⟨⟨x, hx, hused⟩, hlost⟩
    · by_cases hb : s.used l .block b
      · obtain ⟨g, i, hat, hset⟩ := hb
        exact .inr ⟨⟨b, mem_cons_self, g, i, hat, hset⟩, b, g, i, hat, hset,
          freeBlock_clear hb0 hat⟩
      · exact .inl (hm.drop hb)
    · exact .inr ⟨⟨x, mem_cons_of_mem _ hx, hused⟩, hlost.visit 0 b⟩
  | succ h ih =>
    intro t w b hb0 hf
    rcases hf with hm | ⟨⟨x, hx, hused⟩, hlost⟩
    swap
    · exact .inr ⟨⟨x, Trail.mem_meet (h + 1) t b (.inr hx), hused⟩, hlost.visit (h + 1) b⟩
    by_cases hb : s.used l .block b
    · -- whatever is below, the block itself goes
      obtain ⟨g, i, hat, hset⟩ := hb
      exact .inr ⟨⟨b, mem_cons_self, g, i, hat, hset⟩, b, g, i, hat, hset, freeBlock_clear hb0 hat⟩
    have hfold : ∀ (ps : List ℕ), (∀ p ∈ ps, p ≠ 0) → ∀ t w, Follows l s t w →
        Follows l s (ps.foldl (Trail.meet l s h) t) (ps.foldl (Work.visit l h) w) := by
      intro ps
      induction ps with
      | nil => exact fun _ t w hf => hf
      | cons p ps ihp =>
        intro hps t w hf
        exact ihp (fun q hq => hps q (by simp [hq])) _ _ (ih t w p (hps p mem_cons_self) hf)
    have hnumbers : l.numbers (w.fs.dev b) = if b ∈ t.emptied then [] else l.numbers (s.dev b) := by
      have hmap : (List.range l.ptrsPerBlock).map (word (w.fs.dev b))
          = (List.range l.ptrsPerBlock).map fun j =>
            if b ∈ t.emptied then 0 else word (s.dev b) j :=
        map_congr_left fun j hj => hm.words b hb j (mem_range.mp hj)
      rw [numbers, hmap]
      split
      · rw [filter_eq_nil_iff]
        intro x hx
        obtain ⟨-, -, rfl⟩ := mem_map.mp hx
        decide
      · rfl
    have hbelow := hfold (l.numbers (w.fs.dev b))
      (fun p hp => of_decide_eq_true (mem_filter.mp hp).2) t w (.inl hm)
    rw [Trail.meet, ← hnumbers, Work.visit]
    rcases freeBranch_cases h b w with ⟨hnone, heq⟩ | ⟨buf, w', hbuf, hw', heq⟩
    · rw [heq, hnone]
      exact .inl ((hm.emptied (numbers_eq_nil hnone)).drop hb)
    rw [heq]
    rw [← hw'] at hbelow
    rcases hbelow with hm' | ⟨⟨x, hx, hused⟩, hlost⟩
    · exact .inl ((hm'.empty hbitmaps hb hbuf).drop hb)
    · refine .inr ⟨⟨x, mem_cons_of_mem _ hx, hused⟩, hlost.of_le fun g hg i hi hset => ?_⟩
      exact emptied_marked_le hbuf hi (freeBlock_marked_le hg hset)

/-! ## The slots of an inode -/

omit hbitmaps in
lemma visit_block (h : ℕ) : ∀ (w : Work) (b : ℕ), (Work.visit l h w b).ino.block = w.ino.block := by
  induction h with
  | zero => exact fun w b => rfl
  | succ h ih =>
    intro w b
    have hfold : ∀ (ps : List ℕ) (w : Work), (ps.foldl (Work.visit l h) w).ino.block =
        w.ino.block := by
      intro ps
      induction ps with
      | nil => exact fun w => rfl
      | cons p ps ihp => exact fun w => (ihp _).trans (ih w p)
    change (freeBranch l (h + 1) b 0 w).ino.block = _
    rcases freeBranch_cases h b w with ⟨-, heq⟩ | ⟨buf, -, -, rfl, heq⟩
    · rw [heq]
    · rw [heq]
      exact hfold _ w

lemma Follows.freeBlocksFrom (h : Mirror l s ⟨[], []⟩ w) :
    Follows l s (s.trail l w.ino 15) (w.freeBlocksFrom l 0) := by
  have hloop : ∀ k, Follows l s (s.trail l w.ino k) ((List.range k).foldl (fun w slot =>
        w.freeRoot l 0 slot (l.slotStart slot) (l.slotSpan slot) (Geometry.slotHeight slot)) w) ∧
      ∀ slot, k ≤ slot → ((List.range k).foldl (fun w slot =>
        w.freeRoot l 0 slot (l.slotStart slot) (l.slotSpan slot) (Geometry.slotHeight slot))
          w).ino.block slot = w.ino.block slot := by
    intro k
    induction k with
    | zero => exact ⟨.inl h, fun _ _ => rfl⟩
    | succ k ih =>
      rw [Fs.trail, range_succ, foldl_append, foldl_append, ← Fs.trail]
      generalize (List.range k).foldl _ w = w' at ih
      obtain ⟨hf, hblock⟩ := ih
      have hspan : ¬ (l.slotStart k + l.slotSpan k ≤ 0) := by
        have hpos := Nat.pow_pos (ptrsPerBlock_pos (l := l)) (n := Geometry.slotHeight k)
        rw [slotSpan]
        omega
      dsimp only [foldl_cons, foldl_nil]
      rw [freeRoot]
      rw [hblock k (Nat.le_refl k), Nat.zero_sub, if_pos rfl]
      by_cases hzero : w.ino.block k = 0
      · rw [if_pos hzero, if_pos (.inr hzero)]
        exact ⟨hf, fun slot hle => hblock slot (by omega)⟩
      rw [if_neg hzero, if_neg (not_or.mpr ⟨hspan, hzero⟩)]
      refine ⟨(Follows.visit hbitmaps _ _ _ _ hzero hf).withIno _, fun slot hle => ?_⟩
      change Function.update (Work.visit l (Geometry.slotHeight k) w' (w.ino.block k)).ino.block
        k 0 slot = _
      rw [Function.update_of_ne (by omega), visit_block, hblock slot (by omega)]
  exact (hloop 15).1

end Visit

end Astryx.Ext2
