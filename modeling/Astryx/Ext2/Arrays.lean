import Astryx.Ext2.Contents
import Astryx.Ext2.Pruning
import Astryx.Lib.SparseArray

/-!
# Files are sparse arrays

A volume is consistent if its blocks are owned and counted as they should be, and if the cache is
coherent. A regular file of it represents a sparse array: its size is the length, its bytes are the
bytes, and past the end there are zeros. `read`, `write` and `truncate` do to the files what they do
to the arrays, and keep the volume consistent, as long as a write finds enough free blocks and stays
below 4 GiB.

The free count of a group has 16 bits. `mount` takes any number of blocks in a group that a bitmap
has bits for, which with blocks of 16 KiB and more is more than such a count can count. Then a
`truncate` can wrap the count.

## Main results

* `fileRun_refines` — after every call of a run the files represent the arrays
* `truncate_wraps` — a `truncate` that wraps the count of a group
-/

namespace Astryx.Ext2

open PointerForest Transition Vfs Function Finset Ext2.Geometry Bytes Fs

/-- Ownership, counts and cache are right. -/
structure Consistent (l : Geometry) (owners : Finset ℕ) (s : Fs) : Prop where
  owned : Owned l owners s
  counted : Counted l owners s
  coherent : Coherent l owners s s
  inodes : ∀ n ∈ owners, (l.locate .inode n).isSome

/-- The file is the array. -/
structure Represents (l : Geometry) (owners : Finset ℕ) (s : Fs) (n : ℕ)
    (a : SparseArray) : Prop where
  size : (s.inodes n).size = a.length
  length_lt : a.length < 2 ^ 32
  byte : ∀ pos < 2 ^ 32, s.byte l owners n pos = a.byte pos

/-- A call on a file. -/
inductive FileOp where
  | read (n offset len : ℕ)
  | write (n offset : ℕ) (data : List UInt8)
  | truncate (n size : ℕ)

/-- One call on the volume. -/
def fileStep (l : Geometry) (s : Fs) : FileOp → Option Fs
  | .read n offset len => (s.read l n offset len).toOption.map Prod.snd
  | .write n offset data => (s.write l n offset data).toOption.map Prod.snd
  | .truncate n size => (s.truncate l n size).toOption

/-- One call on the arrays. -/
def arrayStep (m : ℕ → SparseArray) : FileOp → ℕ → SparseArray
  | .read _ _ _ => m
  | .write n offset data => update m n ((m n).write offset data)
  | .truncate n size => update m n ((m n).truncate size)

/-- The cells on the way to the logical blocks of a range of bytes. -/
def Geometry.touched (l : Geometry) (n offset len : ℕ) : Finset ((ℕ × ℕ) × List ℕ) :=
  (Finset.range len).biUnion fun k =>
    let path := l.blockPath ((offset + k) / l.blockSize)
    path.2.inits.toFinset.image fun pre => ((n, path.1), pre)

/-- A call on a regular file. A write has enough free blocks, and it ends below 4 GiB, as does a new
size. -/
def FileOk (l : Geometry) (owners : Finset ℕ) (s : Fs) : FileOp → Prop
  | .read n _ _ => n ∈ owners ∧ (s.inodes n).fileType = .regularFile
  | .write n offset data =>
    (n ∈ owners ∧ (s.inodes n).fileType = .regularFile) ∧ offset + data.length ≤ 2 ^ 32 - 1 ∧
      s.needed owners (l.touched n offset data.length) ≤ s.totalFree
  | .truncate n size => (n ∈ owners ∧ (s.inodes n).fileType = .regularFile) ∧ size ≤ 2 ^ 32 - 1

variable {l : Geometry} {owners : Finset ℕ} {s t : Fs} {n : ℕ}

/-- A call has changed one file, to a size and to bytes. -/
structure Changed (l : Geometry) (owners : Finset ℕ) (n : ℕ) (s t : Fs) (size : ℕ)
    (f : ℕ → UInt8) : Prop where
  consistent : Consistent l owners t
  fileType : ∀ m, (t.inodes m).fileType = (s.inodes m).fileType
  size : (t.inodes n).size = size
  byte : ∀ p < 2 ^ 32, t.byte l owners n p = f p
  other_size : ∀ m, m ≠ n → (t.inodes m).size = (s.inodes m).size
  other_byte : ∀ m, m ≠ n → ∀ p < 2 ^ 32, t.byte l owners m p = s.byte l owners m p

variable {a : SparseArray} {m : ℕ → SparseArray} {size offset : ℕ}

lemma Changed.represents {f : ℕ → UInt8} (h : Changed l owners n s t size f)
    (hm : ∀ x ∈ owners, (s.inodes x).fileType = .regularFile → Represents l owners s x (m x))
    (hsize : size = a.length) (hlt : a.length < 2 ^ 32) (hbyte : ∀ p < 2 ^ 32, f p = a.byte p)
    (x : ℕ) (hx : x ∈ owners) (htype : (t.inodes x).fileType = .regularFile) :
    Represents l owners t x (update m n a x) := by
  by_cases hxn : x = n
  · subst hxn
    rw [update_self]
    exact ⟨h.size.trans hsize, hlt, fun p hp => (h.byte p hp).trans (hbyte p hp)⟩
  rw [update_of_ne hxn]
  have hbefore := hm x hx ((h.fileType x).symm.trans htype)
  exact ⟨(h.other_size x hxn).trans hbefore.size, hbefore.length_lt,
    fun p hp => (h.other_byte x hxn p hp).trans (hbefore.byte p hp)⟩

/-! ## The copy of the inode -/

lemma view_self (s : Fs) (n : ℕ) : (⟨s.inodes n, s⟩ : Work).view n = s := by
  rw [Work.view, writeInode]
  simp

lemma Fs.writeInode_blockAt {ino ino' : Inode} (hblock : ino'.block = ino.block) (r : ℕ × ℕ)
    (is : List ℕ) :
    (s.writeInode n ino').blockAt owners r is = (s.writeInode n ino).blockAt owners r is := by
  have hforest : (s.writeInode n ino').forest owners = (s.writeInode n ino).forest owners := by
    rw [← writeInode_writeInode n ino ino' s]
    refine writeInode_forest ?_
    rw [writeInode]
    dsimp only
    simp [hblock]
  rw [blockAt, blockAt, hforest]

/-- The copy is written back, with a size. -/
lemma Working.changed {w : Work} {ino : Inode} {f : ℕ → UInt8} (h : Working l owners n w)
    (hlocate : ∀ n ∈ owners, (l.locate .inode n).isSome) (hinodes : w.fs.inodes = s.inodes)
    (hblock : ino.block = w.ino.block) (hblocks : ino.blocks = w.ino.blocks)
    (hsize : ino.size = size) (htype : ino.fileType = (s.inodes n).fileType)
    (hbyte : ∀ p < 2 ^ 32, (w.view n).byte l owners n p = f p)
    (hother : ∀ m, m ≠ n → ∀ p < 2 ^ 32, (w.view n).byte l owners m p = s.byte l owners m p) :
    Changed l owners n s (w.fs.writeInode n ino) size f := by
  have hat : ∀ r is, (w.fs.writeInode n ino).blockAt owners r is = (w.view n).blockAt owners r is :=
    writeInode_blockAt hblock
  have hbytes : ∀ m p, (w.fs.writeInode n ino).byte l owners m p =
      (w.view n).byte l owners m p := fun m p => by
    rw [Fs.byte, Fs.byte, hat]
    rfl
  have hself : (w.fs.writeInode n ino).inodes n = ino := update_self ..
  have hrest : ∀ m, m ≠ n → (w.fs.writeInode n ino).inodes m = s.inodes m := fun m hm => by
    rw [← hinodes]
    exact update_of_ne hm ..
  refine ⟨⟨?_, ?_, ?_, hlocate⟩, fun m => ?_, ?_, fun p hp => ?_, fun m hm => ?_,
    fun m hm p hp => ?_⟩
  · exact h.owned.congr (fun r is _ => hat r is) fun _ _ _ => rfl
  · refine h.counted.congr (fun r is _ => hat r is) (fun _ _ _ => rfl) (fun m => ?_) rfl rfl
    rw [Work.view, writeInode_blocks, writeInode_blocks, hblocks]
  · exact h.coherent.congr hat
  · by_cases hm : m = n
    · rw [hm, hself, htype]
    · rw [hrest m hm]
  · rw [hself, hsize]
  · rw [hbytes, hbyte p hp]
  · rw [hrest m hm]
  · rw [hbytes, hother m hm p hp]

lemma Consistent.working (h : Consistent l owners s) (n : ℕ) :
    Working l owners n ⟨s.inodes n, s⟩ := by
  constructor
  · rw [view_self]
    exact h.owned
  · rw [view_self]
    exact h.counted
  · rw [view_self]
    exact h.coherent

lemma readInode_eq_some (h : (l.locate .inode n).isSome) : s.readInode l n = some (s.inodes n) := by
  obtain ⟨place, hplace⟩ := Option.isSome_iff_exists.mp h
  rw [readInode, hplace]
  rfl

/-! ## Reading -/

lemma Consistent.withCache (h : Consistent l owners s) {cache : ℕ → Option (ℕ × Block)}
    (hco : Coherent l owners (s.withCache cache) s) : Consistent l owners (s.withCache cache) :=
  ⟨h.owned.withCache cache, h.counted.withCache cache, hco, h.inodes⟩

lemma Consistent.read_spec (h : Consistent l owners s) (hn : n ∈ owners)
    (ha : Represents l owners s n a) (offset len : ℕ) :
    ∃ cache, s.read l n offset len = .ok (a.read offset len, s.withCache cache) ∧
      Consistent l owners (s.withCache cache) := by
  have hread : a.read offset len = slice (s.byte l owners n) offset
      (min len (a.length - offset)) := by
    refine slice_congr fun k hk => ?_
    have hlt := ha.length_lt
    rw [ha.byte _ (by omega)]
  rw [Fs.read, readInode_eq_some (h.inodes n hn), hread]
  dsimp only
  rw [readInodeData, ha.size]
  split
  next hend =>
    refine ⟨s.indirectCache, ?_, h⟩
    rw [Nat.sub_eq_zero_of_le hend, Nat.min_zero]
    rfl
  next hin =>
    have hlt := ha.length_lt
    have hstop : offset + min len (a.length - offset) < 2 ^ 32 := by omega
    have hstart : min len (a.length - offset) ≤ ([] : List UInt8).length +
        min len (a.length - offset) :=
      le_of_eq (zero_add _).symm
    obtain ⟨cache, hloop, hco⟩ :=
      readLoop_spec h.coherent rfl hn rfl hstop hstart (Nat.zero_le _) rfl
    exact ⟨cache, congrArg _ hloop, h.withCache hco⟩

/-! ## Writing -/

lemma isCell_of_mem_touched {len : ℕ} (hend : offset + len < 2 ^ 32) {c : (ℕ × ℕ) × List ℕ}
    (hc : c ∈ l.touched n offset len) : l.IsCell c.1 c.2 := by
  obtain ⟨k, hk, hmem⟩ := mem_biUnion.mp hc
  obtain ⟨pre, hpre, rfl⟩ := mem_image.mp hmem
  rw [List.mem_toFinset, List.mem_inits] at hpre
  have hpos : offset + k < 2 ^ 32 := by
    have hlt := mem_range.mp hk
    omega
  obtain ⟨-, hcell, -, -⟩ := blockPath_spec (div_blockSize_lt hpos) n
  exact isCell_of_isPrefix hcell hpre

lemma mem_touched {len pos : ℕ} (hle : offset ≤ pos) (hlt : pos < offset + len) {pre : List ℕ}
    (hpre : pre <+: (l.blockPath (pos / l.blockSize)).2) :
    ((n, (l.blockPath (pos / l.blockSize)).1), pre) ∈ l.touched n offset len := by
  refine mem_biUnion.mpr ⟨pos - offset, mem_range.mpr (by omega), ?_⟩
  rw [Nat.add_sub_cancel' hle]
  exact mem_image.mpr ⟨pre, List.mem_toFinset.mpr (List.mem_inits _ _ |>.mpr hpre), rfl⟩

lemma Consistent.write_spec {data : List UInt8} (h : Consistent l owners s) (hn : n ∈ owners)
    (htype : (s.inodes n).fileType = .regularFile) (hend : offset + data.length ≤ 2 ^ 32 - 1)
    (henough : s.needed owners (l.touched n offset data.length) ≤ s.totalFree) :
    ∃ t, s.write l n offset data = .ok (data.length, t) ∧
      Changed l owners n s t
        (if data = [] then (s.inodes n).size else max (s.inodes n).size (offset + data.length))
        (overwrite (s.byte l owners n) offset data) := by
  rw [Fs.write, readInode_eq_some (h.inodes n hn)]
  dsimp only
  rw [if_neg (by rw [htype]; decide), writeInodeData]
  split
  next hnil =>
    subst hnil
    refine ⟨s, rfl, h, fun _ => rfl, rfl, fun p _ => ?_, fun _ _ => rfl, fun _ _ _ _ => rfl⟩
    rw [overwrite, if_neg]
    rintro ⟨hle, hlt⟩
    rw [List.length_nil] at hlt
    omega
  · have hbelow : offset + data.length < 2 ^ 32 := by omega
    have hneeded : ((⟨s.inodes n, s⟩ : Work).view n).needed owners
        (l.touched n offset data.length) ≤ s.totalFree := by
      rw [view_self]
      exact henough
    obtain ⟨w, hloop, hfilled⟩ :=
      (h.working n).writeLoop_spec hneeded (fun _ => isCell_of_mem_touched hbelow) hn hbelow
      (fun _ hle hlt _ => mem_touched hle hlt) (le_of_eq (zero_add _).symm) (Nat.zero_le _)
    rw [hloop]
    refine ⟨_, rfl, ?_⟩
    have hbyte := hfilled.byte
    rw [view_self, add_zero] at hbyte
    have hsize : w.ino.size = (s.inodes n).size := hfilled.size
    refine hfilled.working.changed h.inodes hfilled.inodes ?_ ?_ ?_ ?_ (fun p hp => ?_) fun m
      hm p hp => ?_
    · split <;> rfl
    · split <;> rfl
    · split
      · dsimp only
        omega
      · omega
    · split <;> exact hfilled.fileType
    · rw [hbyte n p hp, overwrite]
      refine if_congr ?_ rfl rfl
      exact and_iff_right rfl
    · rw [hbyte m p hp, if_neg fun hand => hm hand.1]

/-! ## Cutting and extending -/

lemma Consistent.zeroTail_spec (h : Consistent l owners s) (hn : n ∈ owners)
    (hsize : size < 2 ^ 32) :
    Consistent l owners (s.zeroTail l (s.inodes n) size) ∧
    (s.zeroTail l (s.inodes n) size).inodes = s.inodes ∧
      ∀ m p, p < 2 ^ 32 → (s.zeroTail l (s.inodes n) size).byte l owners m p
        = if m = n ∧ (0 < size ∧ size % l.blockSize ≠ 0) ∧
          p / l.blockSize = (size - 1) / l.blockSize ∧
            size % l.blockSize ≤ p % l.blockSize then 0 else s.byte l owners m p := by
  rw [zeroTail]
  split
  next hmid =>
    have hpos : size - 1 < 2 ^ 32 := by omega
    have hidx := div_blockSize_lt (l := l) hpos
    obtain ⟨-, hcell, hfull, -⟩ := blockPath_spec hidx n
    obtain ⟨cache, hresolve, hco⟩ := resolveBlock_spec h.coherent rfl hn rfl hidx
    have h1 := h.withCache hco
    rw [hresolve]
    dsimp only
    generalize hb : s.blockAt owners (n, (l.blockPath ((size - 1) / l.blockSize)).1)
      (l.blockPath ((size - 1) / l.blockSize)).2 = b
    have hpath : ∀ m p, p < 2 ^ 32 →
      ((m, (l.blockPath (p / l.blockSize)).1) = (n, (l.blockPath ((size - 1) / l.blockSize)).1) ∧
        (l.blockPath (p / l.blockSize)).2 = (l.blockPath ((size - 1) / l.blockSize)).2
        ↔ m = n ∧ p / l.blockSize = (size - 1) / l.blockSize) := by
      intro m p hp
      rw [Prod.mk.injEq]
      constructor
      · rintro ⟨⟨hm, hroot⟩, hlist⟩
        exact ⟨hm, blockPath_inj (div_blockSize_lt hp) hidx (Prod.ext hroot hlist)⟩
      rintro ⟨hm, hdiv⟩
      rw [hdiv]
      exact ⟨⟨hm, rfl⟩, rfl⟩
    split
    next hb0 =>
      refine ⟨⟨h1.owned.writeData hcell hfull hb hb0,
        Counted.writeData h1.owned hcell hfull hb hb0 h1.counted,
        Coherent.writeData h1.owned hcell hfull hb hb0 h1.coherent, h.inodes⟩, rfl,
          fun m p hp => ?_⟩
      rw [h1.owned.writeData_byte hcell hfull hb hb0 hp, if_congr (hpath m p hp) rfl rfl]
      by_cases hblock : m = n ∧ p / l.blockSize = (size - 1) / l.blockSize
      · have hbyte : s.byte l owners m p = s.dev b (p % l.blockSize) := by
          rw [Fs.byte, hblock.1, hblock.2, hb, if_neg hb0]
        rw [if_pos hblock, hbyte]
        refine if_congr ?_ rfl rfl
        exact ⟨fun hle => ⟨hblock.1, hmid, hblock.2, hle⟩, fun hand => hand.2.2.2⟩
      · rw [if_neg hblock, if_neg fun hand => hblock ⟨hand.1, hand.2.2.1⟩]
        rfl
    next hb0 =>
      refine ⟨h1, rfl, fun m p hp => ?_⟩
      -- a hole reads as zeros in any case
      split
      next htail =>
        change s.byte l owners m p = 0
        simp [Fs.byte, htail.1, htail.2.2.1, hb, hb0]
      · rfl
  next hwhole => exact ⟨h, rfl, fun m p _ => by rw [if_neg fun hand => hwhole hand.2.1]⟩

/-- With nothing pending, the volume is the one with the copy of the inode. -/
lemma Pruning.working {w : Work} {v : Fs} (h : Pruning l owners n (fun _ => False) w v)
    (hc : Counted l owners v) :
    Working l owners n w ∧ ∀ m p, (w.view n).byte l owners m p = v.byte l owners m p := by
  have hdev : v.dev = w.fs.dev := funext fun x => h.dev x id
  have hinodes : (w.view n).inodes = v.inodes := h.inodes.symm
  have hat : ∀ r is, (w.view n).blockAt owners r is = v.blockAt owners r is := fun r is => by
    rw [blockAt, blockAt, forest, forest, hinodes, hdev]
    rfl
  have hmarked : ∀ g i, (w.view n).marked l g i = v.marked l g i := fun g i => by
    rw [marked, marked, hdev]
    rfl
  refine ⟨⟨?_, ?_, ?_⟩, fun m p => ?_⟩
  · exact h.owned.congr (fun r is _ => hat r is) fun g _ => hmarked g
  · exact hc.congr (fun r is _ => hat r is) (fun g _ => hmarked g)
      (fun m => by rw [hinodes]) h.groupFree.symm h.totalFree.symm
  · exact h.coherent.congr hat
  · rw [Fs.byte, Fs.byte, hat, hdev]
    rfl

lemma Consistent.pruning (h : Consistent l owners s) (n : ℕ) :
    Pruning l owners n (fun _ => False) ⟨s.inodes n, s⟩ s :=
  ⟨h.owned, h.coherent, (update_eq_self n s.inodes).symm, rfl, rfl, fun _ _ => rfl⟩

/-- The logical blocks that go, and the rest of the last one that stays, are what is past the
end. -/
lemma past_end_iff {bs : ℕ} (size p : ℕ) (hbs : 0 < bs) :
    size ≤ p ↔ (size + bs - 1) / bs ≤ p / bs ∨ (0 < size ∧ size % bs ≠ 0) ∧
    p / bs = (size - 1) / bs ∧ size % bs ≤ p % bs := by
  have hp := Nat.div_add_mod p bs
  have hlt := Nat.mod_lt p hbs
  rw [Nat.div_le_iff_le_mul_add_pred hbs]
  by_cases hwhole : size ≤ bs * (p / bs)
  · exact iff_of_true (by omega) (.inl (by omega))
  rw [or_iff_right (by omega)]
  -- the last byte is in the block of `p` or in a later one
  obtain ⟨k, rfl⟩ := Nat.exists_eq_add_of_lt (not_le.mp hwhole)
  rw [Nat.add_sub_cancel, Nat.mul_add_div hbs, add_assoc, Nat.mul_add_mod]
  by_cases hk : k + 1 < bs
  · rw [Nat.div_eq_of_lt (Nat.lt_of_succ_lt hk), Nat.mod_eq_of_lt hk]
    omega
  refine iff_of_false (by omega) ?_
  rintro ⟨⟨-, hmod⟩, hdiv, -⟩
  have hless := Nat.lt_of_div_eq_zero hbs (show k / bs = 0 by omega)
  exact hmod (by simp [show k + 1 = bs by omega])

lemma Consistent.truncate_spec (hfit : l.CountsFit) (h : Consistent l owners s) (hn : n ∈ owners)
    (ha : Represents l owners s n a) (htype : (s.inodes n).fileType = .regularFile)
    (hsize : size ≤ 2 ^ 32 - 1) :
    ∃ t, s.truncate l n size = .ok t ∧
      Changed l owners n s t size (fun p => if p < size then s.byte l owners n p else 0) := by
  have hlt : size < 2 ^ 32 := by omega
  -- a file that does not shrink has zeros there already
  have hzero : a.length ≤ size →
      ∀ p < 2 ^ 32, s.byte l owners n p = if p < size then s.byte l owners n p else 0 := by
    intro hle p hp
    split
    · rfl
    · rw [ha.byte p hp]
      exact a.zero_past p (by omega)
  rw [Fs.truncate, readInode_eq_some (h.inodes n hn)]
  dsimp only
  rw [if_neg (by rw [htype]; decide), if_neg (not_lt.mpr hsize), truncateInodeTo, ha.size]
  refine ⟨_, rfl, ?_⟩
  split
  next hsame =>
    exact ⟨h, fun _ => rfl, ha.size.trans hsame.symm, hzero (le_of_eq hsame.symm), fun _ _ => rfl,
      fun _ _ _ _ => rfl⟩
  split
  next hgrow =>
    refine (h.working n).changed h.inodes rfl rfl rfl (min_eq_left hsize) rfl (fun p hp => ?_)
      fun m _ p _ => ?_
    · rw [view_self]
      exact hzero hgrow.le p hp
    · rw [view_self]
  · obtain ⟨h1, hinodes1, hbyte1⟩ := h.zeroTail_spec hn hlt
    generalize s.zeroTail l (s.inodes n) size = s₁ at h1 hinodes1 hbyte1
    have hpruning := h1.pruning n
    rw [hinodes1] at hpruning
    obtain ⟨v, hpruning', hcut, hkept⟩ :=
      hpruning.freeBlocksFrom_spec ((size + l.blockSize - 1) / l.blockSize) hn
    obtain ⟨hworking, hview⟩ := hpruning'.working (hcut.counted hfit h1.counted)
    have hbyte : ∀ m p, p < 2 ^ 32 →
        v.byte l owners m p = if m = n ∧ size ≤ p then 0 else s.byte l owners m p := by
      intro m p hp
      have hpast := past_end_iff size p (blockSize_pos (l := l))
      rw [hcut.byte h1.owned hp, hbyte1 m p hp]
      split_ifs <;> grind
    have htype' := congrArg Inode.fileType hkept.ino
    refine hworking.changed h.inodes (hkept.inodes.trans hinodes1) rfl rfl rfl htype'
      (fun p hp => ?_) fun m hm p hp => ?_
    · rw [hview, hbyte n p hp]
      split_ifs <;> first | rfl | omega
    · rw [hview, hbyte m p hp, if_neg fun hand => hm hand.1]

/-! ## Runs -/

/-- The volume is consistent, and its regular files represent the arrays. -/
structure Refines (l : Geometry) (owners : Finset ℕ) (s : Fs) (m : ℕ → SparseArray) : Prop where
  consistent : Consistent l owners s
  represents : ∀ n ∈ owners, (s.inodes n).fileType = .regularFile → Represents l owners s n (m n)

lemma Refines.step {op : FileOp} (hfit : l.CountsFit) (h : Refines l owners s m)
    (hok : FileOk l owners s op) :
    ∃ t, fileStep l s op = some t ∧ Refines l owners t (arrayStep m op) := by
  cases op with
  | read n offset len =>
    obtain ⟨hn, htype⟩ := hok
    obtain ⟨cache, hread, hconsistent⟩ :=
      h.consistent.read_spec hn (h.represents n hn htype) offset len
    refine ⟨s.withCache cache, by rw [fileStep, hread]; rfl, hconsistent, fun x hx hxtype => ?_⟩
    exact ⟨(h.represents x hx hxtype).size, (h.represents x hx hxtype).length_lt,
      (h.represents x hx hxtype).byte⟩
  | write n offset data =>
    obtain ⟨⟨hn, htype⟩, hend, henough⟩ := hok
    have ha := h.represents n hn htype
    obtain ⟨t, hwrite, hchanged⟩ := h.consistent.write_spec hn htype hend henough
    refine ⟨t, by rw [fileStep, hwrite]; rfl, hchanged.consistent,
      hchanged.represents h.represents ?_ ?_ fun p hp => ?_⟩
    · rw [ha.size]
      rfl
    · have hlt := ha.length_lt
      rw [SparseArray.write]
      dsimp only
      split <;> omega
    rw [SparseArray.write]
    dsimp only
    rw [overwrite, overwrite, ha.byte p hp]
  | truncate n size =>
    obtain ⟨⟨hn, htype⟩, hsize⟩ := hok
    have ha := h.represents n hn htype
    obtain ⟨t, htruncate, hchanged⟩ := h.consistent.truncate_spec hfit hn ha htype hsize
    refine ⟨t, by rw [fileStep, htruncate]; rfl, hchanged.consistent,
      hchanged.represents h.represents rfl ?_ fun p hp => ?_⟩
    · rw [SparseArray.truncate]
      dsimp only
      omega
    · rw [SparseArray.truncate]
      rw [ha.byte p hp]

lemma Refines.run {ops : List FileOp} (hfit : l.CountsFit) (h : Refines l owners s m)
    (hok : Guarded (fileStep l) (FileOk l owners) s ops) :
    ∃ t, run (fileStep l) s ops = some t ∧ Refines l owners t (ops.foldl arrayStep m) := by
  induction ops generalizing s m with
  | nil => exact ⟨s, rfl, h⟩
  | cons op ops ih =>
    obtain ⟨s₁, hstep, h1⟩ := h.step hfit hok.1
    obtain ⟨t, hrun, hrefines⟩ := ih h1 (hok.2 s₁ hstep)
    refine ⟨t, ?_, hrefines⟩
    rw [run_cons, hstep]
    exact hrun

/-- **Files behave as sparse arrays.** After every call of a run, the volume is consistent, every
regular file has the length and the bytes of its array, and reading it returns what reading the
array does. -/
theorem fileRun_refines (hfit : l.CountsFit) {m : ℕ → SparseArray} (h : Consistent l owners s)
    (hm : ∀ n ∈ owners, (s.inodes n).fileType = .regularFile → Represents l owners s n (m n))
    {ops : List FileOp} (hok : Guarded (fileStep l) (FileOk l owners) s ops) (k : ℕ) :
    ∃ t, run (fileStep l) s (ops.take k) = some t ∧ Consistent l owners t ∧
      ∀ n ∈ owners, (t.inodes n).fileType = .regularFile →
        Represents l owners t n ((ops.take k).foldl arrayStep m n) ∧
        ∀ offset len,
          ∃ u, t.read l n offset len =
            .ok (((ops.take k).foldl arrayStep m n).read offset len, u) := by
  obtain ⟨t, hrun, hrefines⟩ := Refines.run hfit ⟨h, hm⟩ (guarded_take hok k)
  refine ⟨t, hrun, hrefines.consistent, fun n hn htype => ?_⟩
  have ha := hrefines.represents n hn htype
  refine ⟨ha, fun offset len => ?_⟩
  obtain ⟨cache, hread, -⟩ := hrefines.consistent.read_spec hn ha offset len
  exact ⟨_, hread⟩

/-! ## Flat volumes -/

section Flat

lemma eq_nil_of_cell {r : ℕ × ℕ} {is : List ℕ} (hc : l.IsCell r is) (hslot : r.2 = 0) :
    is = [] := by
  have hle := hc.length
  rw [height, hslot] at hle
  exact List.length_eq_zero_iff.mp (Nat.le_zero.mp hle)

variable {c : ℕ → ℕ}
  (hflat : ∀ n ∈ owners, ∀ slot < 15, (s.inodes n).block slot = if slot = 0 then c n else 0)

include hflat

lemma flat_blockAt {r : ℕ × ℕ} {is : List ℕ} (hc : l.IsCell r is) :
    s.blockAt owners r is = if r.1 ∈ owners ∧ r.2 = 0 then c r.1 else 0 := by
  have hroot : (s.forest owners).root r = if r.1 ∈ owners ∧ r.2 = 0 then c r.1 else 0 := by
    rw [forest]
    dsimp only
    split
    next hin =>
      rw [hflat r.1 hin.1 r.2 hin.2]
      exact if_congr (and_iff_right hin.1).symm rfl rfl
    next hout => exact (if_neg fun h => hout ⟨h.1, by omega⟩).symm
  rw [blockAt, Forest.get, hroot]
  split
  next hr =>
    rw [eq_nil_of_cell hc hr.2]
    rfl
  · exact follow_zero _ _

lemma flat_consistent (hgroups : l.numGroups = 1)
    (hinodes : ∀ n ∈ owners, (l.locate .inode n).isSome)
    (hinj : ∀ n ∈ owners, ∀ m ∈ owners, c n ≠ 0 → c n = c m → n = m)
    (hplaced : ∀ n ∈ owners, c n ≠ 0 → l.own (c n) = false ∧ ∃ i, l.At .block (c n) 0 i)
    (hbits : ∀ i < l.blocksPerGroup,
      s.marked l 0 i ↔ l.own (l.number .block 0 i) ∨ ∃ n ∈ owners, c n = l.number .block 0 i)
    (hfree : s.groupFree 0 = s.clear l 0) (htotal : s.totalFree = s.groupFree 0)
    (hblocks : ∀ n ∈ owners, (s.inodes n).blocks = if c n = 0 then 0 else l.sectorsPerBlock)
    (hcache : ∀ level, s.indirectCache level = none) : Consistent l owners s := by
  have hfirst : ∀ n, l.IsCell (n, 0) [] := fun n => cell_nil
  have hgroup : ∀ g, g < l.numGroups → g = 0 := fun g hg => by omega
  refine ⟨⟨?_, ?_, ?_⟩, ⟨?_, ?_, ?_⟩, ?_, hinodes⟩
  · intro r is r' is' hcell hcell' hne heq
    rw [flat_blockAt hflat hcell] at hne heq
    rw [flat_blockAt hflat hcell'] at heq
    have hr' := (ite_ne_right_iff.mp (heq ▸ hne)).1
    obtain ⟨hr, hne⟩ := ite_ne_right_iff.mp hne
    rw [if_pos hr, if_pos hr'] at heq
    have hsame : r = r' := Prod.ext (hinj _ hr.1 _ hr'.1 hne heq) (hr.2.trans hr'.2.symm)
    exact ⟨hsame, (eq_nil_of_cell hcell hr.2).trans (eq_nil_of_cell hcell' hr'.2).symm⟩
  · intro r is hcell hne
    rw [flat_blockAt hflat hcell] at hne ⊢
    obtain ⟨hr, hne⟩ := ite_ne_right_iff.mp hne
    rw [if_pos hr]
    obtain ⟨hfile, i, hat⟩ := hplaced r.1 hr.1 hne
    exact ⟨hfile, 0, i, hat⟩
  · intro x g i hat
    obtain rfl := hgroup g hat.group
    have hnumber := hat.number
    rw [hbits i hat.bit, hnumber]
    constructor
    · rintro (hown | ⟨n, hn, rfl⟩)
      · exact .inl hown
      · exact .inr ⟨(n, 0), [], hfirst n, by simp [flat_blockAt hflat (hfirst n), hn]⟩
    rintro (hown | ⟨r, is, hcell, heq⟩)
    · exact .inl hown
    rw [flat_blockAt hflat hcell] at heq
    split at heq
    next hr => exact .inr ⟨r.1, hr.1, heq⟩
    · exact .inl (heq ▸ l.own_zero)
  · intro n hn
    have hheld : s.held l owners n = if c n = 0 then 0 else 1 := by
      split
      next hzero =>
        rw [held, card_eq_zero, filter_eq_empty_iff]
        rintro ⟨r, is⟩ hmem
        obtain ⟨⟨hr, -⟩, hcell⟩ := mem_cellsOf.mp hmem
        rw [flat_blockAt hflat hcell, hr, hzero, ite_self]
        exact not_not.mpr rfl
      next hne =>
        rw [held, card_eq_one]
        refine ⟨((n, 0), []), ?_⟩
        ext ⟨r, is⟩
        rw [mem_filter, mem_singleton, Prod.mk.injEq]
        constructor
        · rintro ⟨hmem, hne'⟩
          obtain ⟨⟨hr, -⟩, hcell⟩ := mem_cellsOf.mp hmem
          rw [flat_blockAt hflat hcell] at hne'
          have hslot := (ite_ne_right_iff.mp hne').1.2
          exact ⟨Prod.ext hr hslot, eq_nil_of_cell hcell hslot⟩
        rintro ⟨rfl, rfl⟩
        refine ⟨mem_cellsOf.mpr ⟨⟨rfl, Nat.zero_lt_succ 14⟩, hfirst n⟩, ?_⟩
        rw [flat_blockAt hflat (hfirst n), if_pos ⟨hn, rfl⟩]
        exact hne
    rw [hheld, hblocks n hn]
    split
    · simp
    · simp
  · intro g hg
    obtain rfl := hgroup g hg
    exact hfree
  · simp [hgroups, htotal]
  intro level x data hentry
  rw [hcache] at hentry
  cases hentry

end Flat

/-- A volume of one group with one regular file, which has at most a first block. -/
def oneFile (bitmap : ℕ) (bits : Block) (free c size blocks : ℕ) : Fs where
  dev := update (fun _ _ => 0) bitmap bits
  inodes _ := ⟨.regularFile, size, 1, blocks, update (fun _ => 0) 0 c⟩
  groupFree _ := free
  totalFree := free
  indirectCache _ := none

section OneFile

variable {c size blocks : ℕ} {bits : Block} {free : ℕ}

lemma oneFile_flat {bitmap : ℕ} : ∀ n ∈ ({12} : Finset ℕ), ∀ slot < 15,
    ((oneFile bitmap bits free c size blocks).inodes n).block slot = if slot = 0 then c else 0 :=
  fun _ _ slot _ => update_apply (fun _ => 0) 0 c slot

lemma oneFile_byte {pos : ℕ} (hpos : pos < 2 ^ 32) (hbitmap : c ≠ l.bitmapBlock .block 0) :
    (oneFile (l.bitmapBlock .block 0) bits free c size blocks).byte l {12} n pos = 0 := by
  obtain ⟨-, hc, -, -⟩ := blockPath_spec (div_blockSize_lt hpos) n
  rw [Fs.byte, flat_blockAt oneFile_flat hc]
  split
  · have hdev : (oneFile (l.bitmapBlock .block 0) bits free c size blocks).dev c = fun _ => 0 := by
      rw [oneFile]
      dsimp only
      simp [hbitmap]
    simp [hdev]
  · simp

lemma oneFile_consistent (hgroups : l.numGroups = 1) (hinodes : 12 ≤ l.inodesPerGroup)
    (hc : c = 0 ∨ l.own c = false ∧ ∃ i, l.At .block c 0 i)
    (hbits : ∀ i < l.blocksPerGroup, bit bits i =
      (l.own (l.number .block 0 i) || decide (l.number .block 0 i = c)))
    (hfree : free = ((Finset.range l.blocksPerGroup).filter fun i => bit bits i = false).card)
    (hblocks : blocks = if c = 0 then 0 else l.sectorsPerBlock) :
    Consistent l {12} (oneFile (l.bitmapBlock .block 0) bits free c size blocks) := by
  have hmarked : ∀ i, (oneFile (l.bitmapBlock .block 0) bits free c size blocks).marked l 0 i =
      bit bits i := fun i => by
    rw [marked, oneFile]
    dsimp only
    simp
  refine flat_consistent oneFile_flat hgroups ?_ ?_ (fun _ _ => hc.resolve_left)
    (fun i hi => ?_) ?_ rfl
    (fun _ _ => hblocks) fun _ => rfl
  · intro m hm
    have hplace : l.locate .inode (l.number .inode 0 11) = some (0, 11) :=
      Layout.locate_number (by rw [Layout.number]; omega) (by omega) hinodes
    have hnumber : l.number .inode 0 11 = 12 := by
      rw [Layout.number, zero_mul]
      rfl
    rw [hnumber] at hplace
    rw [mem_singleton.mp hm, hplace]
    rfl
  · intro n hn m hm _ _
    rw [mem_singleton.mp hn, mem_singleton.mp hm]
  · rw [hmarked, hbits i hi, Bool.or_eq_true, decide_eq_true_eq]
    refine or_congr_right ?_
    exact ⟨fun heq => ⟨12, mem_singleton_self 12, heq.symm⟩, by rintro ⟨_, _, heq⟩; exact heq.symm⟩
  · refine hfree.trans (congrArg Finset.card (filter_congr fun i _ => ?_))
    rw [hmarked]

end OneFile

instance decidableFileOk : ∀ (s : Fs) (op : FileOp), Decidable (FileOk l owners s op)
  | _, .read _ _ _ => inferInstanceAs (Decidable (_ ∧ _))
  | _, .write _ _ _ => inferInstanceAs (Decidable (_ ∧ _))
  | _, .truncate _ _ => inferInstanceAs (Decidable (_ ∧ _))

/-- Blocks of 1 KiB, 64 of them in a group, the first 8 for the volume itself. -/
def smallGeometry : Geometry where
  toLayout := .oneGroup 1024 1 64 16 11 3 (by decide) (by decide)
  logBlockSize := 0
  log_le := by decide
  blockSize_eq := rfl
  bitmap_fits := by decide
  own x := decide (x < 9) || decide (65 ≤ x)
  own_zero := rfl
  own_bitmap k _ _ := by cases k <;> rfl
  lt_of_not_own x hx := by
    simp only [Bool.or_eq_false_iff, decide_eq_false_iff_not] at hx
    omega

/-- A volume with one empty file. -/
def emptyVolume : Fs := oneFile 3 (fun k => if k = 0 then 255 else 0) 56 0 0 0

/-- Two bytes behind a hole of the 12 direct blocks and more, and the second of them is cut off
again. -/
def shortRun : List FileOp := [.write 12 12290 [1, 2], .read 12 12289 4, .truncate 12 12291]

theorem fileRun_refines_of_shortRun :
    smallGeometry.CountsFit ∧ Guarded (fileStep smallGeometry)
    (FileOk smallGeometry {12}) emptyVolume shortRun ∧
      ∃ t, run (fileStep smallGeometry) emptyVolume shortRun = some t ∧
        Consistent smallGeometry {12} t ∧
        ∃ u, t.read smallGeometry 12 12289 4 = .ok ([0, 1], u) := by
  have hfit : smallGeometry.CountsFit := by
    intro g hg
    obtain rfl := Nat.lt_one_iff.mp hg
    decide +kernel
  have hconsistent : Consistent smallGeometry {12} emptyVolume :=
    oneFile_consistent rfl (by decide) (.inl rfl) (by decide +kernel) (by decide +kernel) rfl
  have hok : Guarded (fileStep smallGeometry) (FileOk smallGeometry {12}) emptyVolume shortRun := by
    decide +kernel
  obtain ⟨t, hrun, ht, hfiles⟩ :=
    fileRun_refines hfit (m := fun _ => ⟨0, fun _ => 0, fun _ _ => rfl⟩) hconsistent
    (fun n _ _ => ⟨rfl, by decide, fun pos hpos => oneFile_byte hpos (by decide)⟩) hok 3
  have htype : (t.inodes 12).fileType = .regularFile := by
    have hkept : (run (fileStep smallGeometry) emptyVolume (shortRun.take 3)).map
      (fun t => (t.inodes 12).fileType)
        = some .regularFile := by decide +kernel
    rw [hrun] at hkept
    exact Option.some.inj hkept
  obtain ⟨u, hread⟩ := (hfiles 12 (by simp) htype).2 12289 4
  exact ⟨hfit, hok, t, hrun, ht, u, hread⟩

/-- Blocks of 16 KiB, up to 131072 of them in a group. The volume ends in its first group, after
65544 blocks. -/
def wideGeometry : Geometry where
  toLayout := .oneGroup 16384 0 131072 16 11 2 (by decide) (by decide)
  logBlockSize := 4
  log_le := by decide
  blockSize_eq := rfl
  bitmap_fits := by decide
  own x := decide (x < 8) || decide (65544 ≤ x)
  own_zero := rfl
  own_bitmap k _ _ := by cases k <;> rfl
  lt_of_not_own x hx := by
    simp only [Bool.or_eq_false_iff, decide_eq_false_iff_not] at hx
    omega

/-- The volume's own blocks, one block of a file, 65535 free ones, and what is past the end of the
volume. -/
def wideBits : Block :=
  fun k => if k = 0 then 255 else if k = 1 then 1 else if k < 8193 then 0 else 255

/-- A volume whose group has more blocks than its count can say. -/
def wideVolume : Fs := oneFile 2 wideBits 65535 8 1 32

lemma bit_wideBits (i : ℕ) : bit wideBits i = decide (i < 9 ∨ 65544 ≤ i) := by
  have hlt := Nat.mod_lt i (show 0 < 8 by decide)
  have hall : ∀ m < 8, (255 : UInt8).toBitVec.getLsbD m := by decide
  have hnone : ∀ m < 8, (0 : UInt8).toBitVec.getLsbD m = false := by decide
  have hone : ∀ m < 8, (1 : UInt8).toBitVec.getLsbD m = decide (m = 0) := by decide
  rw [bit, wideBits]
  split
  · rw [hall _ hlt, eq_comm, decide_eq_true_eq]
    omega
  split
  · rw [hone _ hlt, decide_eq_decide]
    omega
  split
  · rw [hnone _ hlt, eq_comm, decide_eq_false_iff_not]
    omega
  · rw [hall _ hlt, eq_comm, decide_eq_true_eq]
    omega

/-- The count of the group wraps, and no longer counts its free blocks. -/
theorem truncate_wraps :
    Consistent wideGeometry {12} wideVolume ∧
    Represents wideGeometry {12} wideVolume 12 ⟨1, fun _ => 0, fun _ _ => rfl⟩ ∧
      FileOk wideGeometry {12} wideVolume (.truncate 12 0) ∧
      ∃ t, fileStep wideGeometry wideVolume (.truncate 12 0) = some t ∧ t.groupFree 0 = 0 ∧
        t.marked wideGeometry 0 8 = false ∧ ¬ Counted wideGeometry {12} t := by
  have hnumber : ∀ i, wideGeometry.number .block 0 i = i := fun i => by
    exact zero_add i
  have hconsistent : Consistent wideGeometry {12} wideVolume := by
    refine oneFile_consistent rfl (by decide) (.inr ⟨rfl, 8, hnumber 8, by decide, by decide⟩)
      (fun i _ => ?_) ?_ rfl
    · rw [bit_wideBits, hnumber]
      change _ = (decide (i < 8) || decide (65544 ≤ i) || decide (i = 8))
      rw [← Bool.decide_or, ← Bool.decide_or, decide_eq_decide]
      omega
    have hclear : (Finset.range wideGeometry.blocksPerGroup).filter
        (fun i => bit wideBits i = false) = Finset.Ico 9 65544 := by
      ext i
      rw [mem_filter, mem_range, mem_Ico, bit_wideBits, decide_eq_false_iff_not]
      change i < 131072 ∧ _ ↔ _
      omega
    simp [hclear]
  obtain ⟨t, ht, hpair⟩ : ∃ t, fileStep wideGeometry wideVolume (.truncate 12 0) = some t ∧
    t.groupFree 0 = 0 ∧
      t.marked wideGeometry 0 8 = false := exists_of_decide (by decide +kernel)
  refine ⟨hconsistent, ⟨rfl, by decide, fun pos hpos => oneFile_byte hpos (by decide)⟩,
    by decide, t, ht, hpair.1, hpair.2, fun hcounted => ?_⟩
  have hcount := hcounted.group 0 (by decide)
  have hpos : 0 < t.clear wideGeometry 0 :=
    card_pos.mpr ⟨8, mem_filter.mpr ⟨mem_range.mpr (by decide), hpair.2⟩⟩
  rw [← hcount, hpair.1] at hpos
  omega

end Astryx.Ext2
