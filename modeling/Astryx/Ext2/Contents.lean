import Astryx.Ext2.Growth

/-!
# Reading and writing

Writing to a block of data changes the bytes of one logical block of one file, and nothing about who
owns what. So the loop of `write_inode_data` leaves the data in place and all other bytes as they
were, and the loop of `read_inode_data` returns the bytes of the file, whether a logical block is a
hole, is read alone, or is part of a run of blocks read at once.
-/

namespace Astryx.Ext2

open PointerForest Function List Ext2.Geometry Bytes

variable {l : Geometry} {owners : Finset ℕ} {s t v v' : Fs} {n slot b g i x : ℕ} {is js : List ℕ}
  {r : ℕ × ℕ} {data : Block}

/-! ## Writing to a block of data -/

section WriteData

variable (h : Owned l owners v) (hcell : l.IsCell r is) (hfull : is.length = height r)
  (hb : v.blockAt owners r is = b)
  (hb0 : b ≠ 0)

include h hcell hb hb0

lemma Owned.writeData_marked (hg : g < l.numGroups) (i : ℕ) :
    (v.writeBlock b data).marked l g i = v.marked l g i := by
  have hfile := (h.placed r is hcell (hb.symm ▸ hb0)).1
  rw [hb] at hfile
  have hbm : l.bitmapBlock .block g ≠ b := (ne_bitmapBlock hfile .block hg).symm
  rw [Fs.marked, Fs.writeBlock]
  dsimp only
  simp [hbm, Fs.marked]

include hfull

lemma Owned.ne_of_isIndex (hx : v.IsIndex l owners x) : x ≠ b := by
  rintro rfl
  subst hb
  exact h.not_isIndex hcell hfull hb0 hx

lemma Owned.writeData_blockAt {r' : ℕ × ℕ} (hc : l.IsCell r' js) :
    (v.writeBlock b data).blockAt owners r' js = v.blockAt owners r' js :=
  blockAt_congr (fun _ _ _ _ => rfl)
    (fun _ hx => update_of_ne (h.ne_of_isIndex hcell hfull hb hb0 hx) ..) hc

lemma Owned.writeData : Owned l owners (v.writeBlock b data) :=
  h.congr (fun _ _ => h.writeData_blockAt hcell hfull hb hb0) fun _ =>
    h.writeData_marked hcell hb hb0

lemma Counted.writeData (hcounted : Counted l owners v) : Counted l owners (v.writeBlock b data) :=
  hcounted.congr (fun _ _ => h.writeData_blockAt hcell hfull hb hb0)
    (fun _ => h.writeData_marked hcell hb hb0)
    (fun _ => rfl) rfl rfl

lemma Coherent.writeData (hco : Coherent l owners s v) :
    Coherent l owners (s.writeBlock b data) (v.writeBlock b data) := by
  intro level x entry hentry
  obtain ⟨rfl, hindex⟩ := hco level x entry hentry
  have hne := h.ne_of_isIndex hcell hfull hb hb0 hindex
  refine ⟨(update_of_ne hne ..).symm, ?_⟩
  obtain ⟨r', js, hc, hlt, hx, hx0⟩ := hindex
  exact ⟨r', js, hc, hlt, (h.writeData_blockAt hcell hfull hb hb0 hc).trans hx, hx0⟩

/-- The bytes of the logical block that the cell is for. -/
lemma Owned.writeData_byte {m pos : ℕ} (hpos : pos < 2 ^ 32) :
    (v.writeBlock b data).byte l owners m pos
      = if (m, (l.blockPath (pos / l.blockSize)).1) = r ∧ (l.blockPath (pos / l.blockSize)).2 = is
        then data (pos % l.blockSize) else v.byte l owners m pos := by
  obtain ⟨-, hc, -, -⟩ := blockPath_spec (div_blockSize_lt hpos) m
  rw [Fs.byte, Fs.byte, h.writeData_blockAt hcell hfull hb hb0 hc]
  generalize l.blockPath (pos / l.blockSize) = path at hc
  by_cases htarget : (m, path.1) = r ∧ path.2 = is
  · have hdev : (v.writeBlock b data).dev b = data := update_self ..
    simp [htarget, hb, hb0, hdev]
  split
  · rfl
  next hne =>
    have hother : v.blockAt owners (m, path.1) path.2 ≠ b := fun heq =>
      htarget (h.distinct _ _ r is hc hcell hne (heq.trans hb.symm))
    rw [Fs.writeBlock]
    dsimp only
    simp [hother]

end WriteData

variable {pos offset written : ℕ} {w : Work} {c : ℕ} {chunk : List UInt8}
  {T : Finset ((ℕ × ℕ) × List ℕ)}

lemma mem_chunk_iff {size p : ℕ} (hc : c ≤ size - pos % size) :
    (pos ≤ p ∧ p < pos + c) ↔ p / size = pos / size ∧ pos % size ≤ p % size ∧
    p % size < pos % size + c := by
  have hpos := Nat.div_add_mod pos size
  have hp := Nat.div_add_mod p size
  constructor
  · rintro ⟨hle, hend⟩
    have hdiv : p / size = pos / size := by
      refine Nat.div_eq_of_lt_le ?_ ?_
      · rw [mul_comm]
        omega
      · rw [add_mul, one_mul, mul_comm]
        omega
    rw [hdiv] at hp
    exact ⟨hdiv, by omega, by omega⟩
  rintro ⟨hdiv, hle, hend⟩
  rw [hdiv] at hp
  exact ⟨by omega, by omega⟩

lemma Working.writeChunk_spec (h : Working l owners n w) (hpos : pos < 2 ^ 32)
    (hb : (w.view n).blockAt owners (n, (l.blockPath (pos / l.blockSize)).1)
      (l.blockPath (pos / l.blockSize)).2 = b)
    (hb0 : b ≠ 0) (hchunk : chunk.length ≤ l.blockSize - pos % l.blockSize) :
    ∃ data, w.writeChunk l b (pos % l.blockSize) chunk = { w with fs := w.fs.writeBlock b data } ∧
      ∀ m p, p < 2 ^ 32 → ((w.view n).writeBlock b data).byte l owners m p
        = if m = n ∧ pos ≤ p ∧ p < pos + chunk.length then chunk.getD (p - pos) 0
          else (w.view n).byte l owners m p := by
  obtain ⟨-, hcell, hfull, -⟩ := blockPath_spec (div_blockSize_lt hpos) n
  -- both ways of writing leave the same in the block
  obtain ⟨data, hwrite, hdata⟩ :
    ∃ data, w.writeChunk l b (pos % l.blockSize) chunk = { w with fs := w.fs.writeBlock b data } ∧
      ∀ k < l.blockSize, data k = overwrite (w.fs.dev b) (pos % l.blockSize) chunk k := by
    rw [Work.writeChunk]
    split
    next hwhole =>
      refine ⟨_, rfl, fun k hk => ?_⟩
      have hin : 0 ≤ k ∧ k < 0 + chunk.length := ⟨Nat.zero_le k, by omega⟩
      rw [hwhole.1, overwrite, overwrite, if_pos hin, if_pos hin]
    · exact ⟨_, rfl, fun _ _ => rfl⟩
  refine ⟨data, hwrite, fun m p hp => ?_⟩
  rw [h.owned.writeData_byte hcell hfull hb hb0 hp]
  have hlt : p % l.blockSize < l.blockSize := Nat.mod_lt p blockSize_pos
  have hiff := mem_chunk_iff (p := p) hchunk
  by_cases hblock : m = n ∧ p / l.blockSize = pos / l.blockSize
  · obtain ⟨rfl, hdiv⟩ := hblock
    have hmod := Nat.div_add_mod p l.blockSize
    have hmod' := Nat.div_add_mod pos l.blockSize
    rw [hdiv] at hmod
    rw [hdiv, if_pos ⟨rfl, rfl⟩, hdata _ hlt, overwrite]
    by_cases hin : pos ≤ p ∧ p < pos + chunk.length
    · have hoff := hiff.mp hin
      rw [if_pos hoff.2, if_pos ⟨rfl, hin⟩]
      congr 1
      omega
    have hout : ¬ (pos % l.blockSize ≤ p % l.blockSize ∧
        p % l.blockSize < pos % l.blockSize + chunk.length) :=
      fun hoff => hin (hiff.mpr ⟨hdiv, hoff⟩)
    rw [if_neg hout, if_neg fun hand => hin hand.2, Fs.byte, hdiv, hb, if_neg hb0]
    rfl
  have hpath : ¬ ((m, (l.blockPath (p / l.blockSize)).1) = (n, (l.blockPath (pos / l.blockSize)).1)
      ∧ (l.blockPath (p / l.blockSize)).2 = (l.blockPath (pos / l.blockSize)).2) := by
    rintro ⟨hroot, hlist⟩
    rw [Prod.mk.injEq] at hroot
    have hsame := blockPath_inj (div_blockSize_lt hp) (div_blockSize_lt hpos)
      (Prod.ext hroot.2 hlist)
    exact hblock ⟨hroot.1, hsame⟩
  rw [if_neg hpath, if_neg fun hand => hblock ⟨hand.1, (hiff.mp hand.2).1⟩]

/-! ## The loop of a write -/

/-- The data from `written` on is in the file, and all else is as before. -/
structure Filled (l : Geometry) (owners : Finset ℕ) (n offset written : ℕ) (data : List UInt8)
    (w w' : Work) : Prop where
  working : Working l owners n w'
  byte : ∀ m p, p < 2 ^ 32 → (w'.view n).byte l owners m p
    = if m = n ∧ offset + written ≤ p ∧ p < offset + data.length then data.getD (p - offset) 0
      else (w.view n).byte l owners m p
  inodes : w'.fs.inodes = w.fs.inodes
  size : w'.ino.size = w.ino.size
  fileType : w'.ino.fileType = w.ino.fileType

/-- One round of the loop: the block is found or made, and a chunk is written to it. -/
lemma Working.writeRound_spec
    (h : Working l owners n w) (henough : (w.view n).needed owners T ≤ w.fs.totalFree)
    (hcells : ∀ c ∈ T, l.IsCell c.1 c.2) (hn : n ∈ owners) (hpos : pos < 2 ^ 32)
    (hmem : ∀ pre, pre <+: (l.blockPath (pos / l.blockSize)).2 →
      ((n, (l.blockPath (pos / l.blockSize)).1), pre) ∈ T)
    (hchunk : chunk.length ≤ l.blockSize - pos % l.blockSize) :
    ∃ b w₁, w.ensureBlock l (pos / l.blockSize) = (some b, w₁) ∧
      Filled l owners n pos 0 chunk w (w₁.writeChunk l b (pos % l.blockSize) chunk) ∧
      ((w₁.writeChunk l b (pos % l.blockSize) chunk).view n).needed owners T
        ≤ (w₁.writeChunk l b (pos % l.blockSize) chunk).fs.totalFree := by
  have hidx := div_blockSize_lt (l := l) hpos
  obtain ⟨-, hcell, hfull, -⟩ := blockPath_spec hidx n
  obtain ⟨b, w₁, hensure, ha, hb, hb0⟩ := h.ensureBlock_spec henough hcells hn hidx hmem
  obtain ⟨data, hwrite, hbyte⟩ := ha.working.writeChunk_spec hpos hb hb0 hchunk
  refine ⟨b, w₁, hensure, ?_, ?_⟩
  · rw [hwrite]
    refine ⟨⟨?_, ?_, ?_⟩, fun m p hp => ?_, ha.grows.inodes, ha.grows.size, ha.grows.fileType⟩
    · exact ha.working.owned.writeData hcell hfull hb hb0
    · exact Counted.writeData ha.working.owned hcell hfull hb hb0 ha.working.counted
    · exact Coherent.writeData ha.working.owned hcell hfull hb hb0 ha.working.coherent
    · rw [← ha.grows.byte m p hp]
      exact hbyte m p hp
  rw [hwrite]
  have hneeded : ((w₁.view n).writeBlock b data).needed owners T = (w₁.view n).needed owners T := by
    refine congrArg Finset.card (Finset.filter_congr fun c hc => ?_)
    rw [ha.working.owned.writeData_blockAt hcell hfull hb hb0 (hcells c hc)]
  exact hneeded.trans_le ha.enough

lemma Filled.refl {data : List UInt8} (h : Working l owners n w)
    (hwritten : data.length ≤ written) :
    Filled l owners n offset written data w w where
  working := h
  byte m p _ := by
    rw [if_neg]
    rintro ⟨-, hle, hlt⟩
    omega
  inodes := rfl
  size := rfl
  fileType := rfl

lemma Filled.trans {data : List UInt8} {w₁ w₂ : Work} (hc : written + c ≤ data.length)
    (h : Filled l owners n (offset + written) 0 ((data.drop written).take c) w w₁)
    (h' : Filled l owners n offset (written + c) data w₁ w₂) :
    Filled l owners n offset written data w w₂ where
  working := h'.working
  byte m p hp := by
    have hlength : ((data.drop written).take c).length = c := by
      rw [length_take, length_drop]
      omega
    have hfirst := h.byte m p hp
    rw [hlength, add_zero] at hfirst
    rw [h'.byte m p hp, hfirst]
    split_ifs
    · rfl
    · omega
    · -- the byte is in the chunk
      rw [getD_eq_getElem?_getD, getD_eq_getElem?_getD, List.getElem?_take_of_lt (by omega),
        List.getElem?_drop]
      congr 2
      omega
    · omega
    · omega
    · rfl
  inodes := h'.inodes.trans h.inodes
  size := h'.size.trans h.size
  fileType := h'.fileType.trans h.fileType

lemma Working.writeLoop_spec {fuel : ℕ} {data : List UInt8}
    (h : Working l owners n w) (henough : (w.view n).needed owners T ≤ w.fs.totalFree)
    (hcells : ∀ c ∈ T, l.IsCell c.1 c.2) (hn : n ∈ owners) (hlen : offset + data.length < 2 ^ 32)
    (hmem : ∀ pos, offset ≤ pos → pos < offset + data.length →
      ∀ pre, pre <+: (l.blockPath (pos / l.blockSize)).2 →
      ((n, (l.blockPath (pos / l.blockSize)).1), pre) ∈ T)
    (hfuel : data.length ≤ written + fuel) (hwritten : written ≤ data.length) :
    ∃ w', Work.writeLoop l offset data fuel written w = (data.length, w') ∧
      Filled l owners n offset written data w w' := by
  induction fuel generalizing written w with
  | zero =>
    have hend : written = data.length := by omega
    exact ⟨w, by rw [Work.writeLoop, hend], .refl h (le_of_eq hend.symm)⟩
  | succ fuel ih =>
    rw [Work.writeLoop]
    split
    next hend => exact ⟨w, by rw [le_antisymm hwritten hend], .refl h hend⟩
    next hmore =>
      have hlt : (offset + written) % l.blockSize < l.blockSize := Nat.mod_lt _ blockSize_pos
      dsimp only
      generalize hc : min (l.blockSize - (offset + written) % l.blockSize)
        (data.length - written) = c
      have hchunk : ((data.drop written).take c).length ≤
          l.blockSize - (offset + written) % l.blockSize := by
        rw [length_take, length_drop]
        omega
      have hpos : offset + written < 2 ^ 32 := by omega
      obtain ⟨b, w₁, hensure, hfilled, henough'⟩ := h.writeRound_spec henough hcells hn hpos
        (hmem _ (by omega) (by omega)) hchunk
      rw [hensure]
      -- at least a byte was written
      have hfuel' : data.length ≤ written + c + fuel := by omega
      obtain ⟨w₂, hloop, hrest⟩ := ih hfilled.working henough' hfuel' (by omega)
      exact ⟨w₂, hloop, hfilled.trans (by omega) hrest⟩

/-! ## The loop of a read -/

section Read

variable {ino : Inode} (hco : Coherent l owners s v) (hdev : v.dev = s.dev) (hn : n ∈ owners)
  (hino : (v.inodes n).block = ino.block)

include hco hdev hn hino

variable {run : ℕ}

lemma extendRun_spec {idx more : ℕ} (hcap : idx + run + more ≤ l.slotStart 14 + l.slotSpan 14)
    (hrun : ∀ k < run, v.blockAt owners (n, (l.blockPath (idx + k)).1)
      (l.blockPath (idx + k)).2 = b + k) :
    ∃ run' cache, Fs.extendRun l ino b idx more run s = (run', s.withCache cache) ∧
      Coherent l owners (s.withCache cache) v ∧ run ≤ run' ∧ run' ≤ run + more ∧
      ∀ k < run', v.blockAt owners (n, (l.blockPath (idx + k)).1)
        (l.blockPath (idx + k)).2 = b + k := by
  induction more generalizing run s with
  | zero => exact ⟨run, s.indirectCache, rfl, hco, Nat.le_refl run, Nat.le_refl run, hrun⟩
  | succ more ih =>
    have hidx : idx + run < l.slotStart 14 + l.slotSpan 14 := by omega
    obtain ⟨cache, hresolve, hco'⟩ := resolveBlock_spec hco hdev hn hino hidx
    rw [Fs.extendRun, hresolve]
    dsimp only
    split
    · exact ⟨run, cache, rfl, hco', Nat.le_refl run, Nat.le_add_right run _, hrun⟩
    next hnext =>
      rw [not_or, not_not] at hnext
      have hrun' : ∀ k < run + 1, v.blockAt owners (n, (l.blockPath (idx + k)).1)
          (l.blockPath (idx + k)).2 = b + k := by
        intro k hk
        rcases Nat.lt_succ_iff_lt_or_eq.mp hk with hk | rfl
        · exact hrun k hk
        · exact hnext.2
      obtain ⟨run', cache', hrest, hco'', hle, hle', hall⟩ := ih hco' hdev (by omega) hrun'
      exact ⟨run', cache', hrest, hco'', by omega, by omega, hall⟩

omit hco hn hino in
lemma slice_block {pos c : ℕ} (hc : c ≤ l.blockSize - pos % l.blockSize)
    (hb : v.blockAt owners (n, (l.blockPath (pos / l.blockSize)).1)
      (l.blockPath (pos / l.blockSize)).2 = b) :
    slice (v.byte l owners n) pos c =
      if b = 0 then List.replicate c 0 else slice (s.dev b) (pos % l.blockSize) c := by
  have hplace : ∀ k < c, (pos + k) / l.blockSize = pos / l.blockSize ∧
      (pos + k) % l.blockSize = pos % l.blockSize + k := by
    intro k hk
    have hin := (mem_chunk_iff (p := pos + k) hc).mp ⟨by omega, by omega⟩
    have hpos := Nat.div_add_mod pos l.blockSize
    have hp := Nat.div_add_mod (pos + k) l.blockSize
    rw [hin.1] at hp
    exact ⟨hin.1, by omega⟩
  split
  next hzero =>
    rw [slice, eq_replicate_iff]
    refine ⟨by simp, fun x hx => ?_⟩
    obtain ⟨k, hk, rfl⟩ := mem_map.mp hx
    rw [Fs.byte, (hplace k (mem_range.mp hk)).1, hb, if_pos hzero]
  next hne =>
    refine slice_congr fun k hk => ?_
    rw [Fs.byte, (hplace k hk).1, (hplace k hk).2, hb, if_neg hne, hdev]

omit hco hn hino in
lemma slice_run {pos : ℕ} (hpos : pos % l.blockSize = 0) (hb0 : b ≠ 0)
    (hrun : ∀ k < run, v.blockAt owners (n, (l.blockPath (pos / l.blockSize + k)).1)
      (l.blockPath (pos / l.blockSize + k)).2 = b + k) :
    slice (v.byte l owners n) pos (run * l.blockSize)
      = slice (fun k => s.dev (b + k / l.blockSize) (k % l.blockSize)) 0 (run * l.blockSize) := by
  refine slice_congr fun k hk => ?_
  have hstart : pos = l.blockSize * (pos / l.blockSize) := by
    have hsum := Nat.div_add_mod pos l.blockSize
    omega
  have hdiv : (pos + k) / l.blockSize = pos / l.blockSize + k / l.blockSize := by
    conv_lhs => rw [hstart]
    exact Nat.mul_add_div blockSize_pos _ _
  have hmod : (pos + k) % l.blockSize = k % l.blockSize := by
    rw [hstart]
    exact Nat.mul_add_mod ..
  have hlt : k / l.blockSize < run := Nat.div_lt_of_lt_mul (mul_comm run _ ▸ hk)
  have hne : b + k / l.blockSize ≠ 0 := fun hzero => hb0 (Nat.eq_zero_of_add_eq_zero_right hzero)
  rw [zero_add, Fs.byte, hdiv, hmod, hrun _ hlt, if_neg hne, hdev]

lemma readLoop_spec {offset toRead fuel : ℕ} {buf : List UInt8} (hend : offset + toRead < 2 ^ 32)
    (hfuel : toRead ≤ buf.length + fuel) (hle : buf.length ≤ toRead)
    (hbuf : buf = slice (v.byte l owners n) offset buf.length) :
    ∃ cache, Fs.readLoop l ino offset toRead fuel buf s =
      (slice (v.byte l owners n) offset toRead, s.withCache cache) ∧
      Coherent l owners (s.withCache cache) v := by
  induction fuel generalizing buf s with
  | zero =>
    have hdone : buf.length = toRead := by omega
    rw [hdone] at hbuf
    exact ⟨s.indirectCache, by rw [Fs.readLoop, hbuf]; rfl, hco⟩
  | succ fuel ih =>
    rw [Fs.readLoop]
    split
    next hdone =>
      rw [le_antisymm hle hdone] at hbuf
      exact ⟨s.indirectCache, by rw [hbuf]; rfl, hco⟩
    have hpos : offset + buf.length < 2 ^ 32 := by omega
    obtain ⟨cache, hresolve, hco'⟩ := resolveBlock_spec hco hdev hn hino (div_blockSize_lt hpos)
    have hlt : (offset + buf.length) % l.blockSize < l.blockSize := Nat.mod_lt _ blockSize_pos
    -- what a round adds is the next part of the file
    have hround : ∀ (t : Fs) (bytes : List UInt8) (c : ℕ), Coherent l owners t v →
      v.dev = t.dev → 0 < c →
        buf.length + c ≤ toRead → bytes = slice (v.byte l owners n) (offset + buf.length) c →
        ∃ cache, Fs.readLoop l ino offset toRead fuel (buf ++ bytes) t
          = (slice (v.byte l owners n) offset toRead, t.withCache cache) ∧
            Coherent l owners (t.withCache cache) v := by
      intro t bytes c hcot hdevt hc hcle hbytes
      have hlength : (buf ++ bytes).length = buf.length + c := by
        simp [hbytes]
      refine ih hcot hdevt (by omega) (by omega) ?_
      rw [hlength, slice_add, ← hbuf, hbytes]
    dsimp only
    rw [hresolve]
    generalize hc : min (l.blockSize - (offset + buf.length) % l.blockSize)
      (toRead - buf.length) = c
    generalize hb : v.blockAt owners (n, (l.blockPath ((offset + buf.length) / l.blockSize)).1)
      (l.blockPath ((offset + buf.length) / l.blockSize)).2 = b at hresolve
    have hslice := slice_block (c := c) hdev (by omega) hb
    split
    next hzero =>
      rw [if_pos hzero] at hslice
      exact hround (s.withCache cache) _ c hco' hdev (by omega) (by omega) hslice.symm
    rename_i hb0
    rw [if_neg hb0] at hslice
    split
    next hwhole =>
      generalize hmax : min ((toRead - buf.length) / l.blockSize)
        (max (4096 / max (l.blockSize / 512) 1) 1) = most
      have hmost : 1 ≤ most ∧ most ≤ (toRead - buf.length) / l.blockSize := by
        have hone : 1 ≤ (toRead - buf.length) / l.blockSize :=
          (Nat.one_le_div_iff blockSize_pos).mpr hwhole.2
        omega
      have hfit := (Nat.le_div_iff_mul_le blockSize_pos).mp hmost.2
      have hcap : (offset + buf.length) / l.blockSize + 1 + (most - 1) ≤ l.slotStart 14 +
          l.slotSpan 14 := by
        have hlast : offset + buf.length + (most - 1) * l.blockSize < 2 ^ 32 := by
          have hmul := Nat.mul_le_mul_right l.blockSize (Nat.sub_le most 1)
          omega
        have hidx := div_blockSize_lt (l := l) hlast
        rw [Nat.add_mul_div_right _ _ blockSize_pos] at hidx
        omega
      have hone : ∀ k < 1,
        v.blockAt owners (n, (l.blockPath ((offset + buf.length) / l.blockSize + k)).1)
          (l.blockPath ((offset + buf.length) / l.blockSize + k)).2 = b + k := by
        intro k hk
        obtain rfl := Nat.lt_one_iff.mp hk
        exact hb
      obtain ⟨run, cache', hextend, hco'', hle1, hle2, hrun⟩ :=
        extendRun_spec hco' hdev hn hino hcap hone
      rw [hextend]
      have hmul : run * l.blockSize ≤ most * l.blockSize := Nat.mul_le_mul_right _ (by omega)
      have hpos' : 0 < run * l.blockSize := Nat.mul_pos (by omega) blockSize_pos
      have hbytes := slice_run hdev hwhole.1 hb0 hrun
      exact hround ((s.withCache cache).withCache cache') _ _ hco'' hdev hpos'
        (by omega) hbytes.symm
    · exact hround (s.withCache cache) _ c hco' hdev (by omega) (by omega) hslice.symm

end Read

end Astryx.Ext2
