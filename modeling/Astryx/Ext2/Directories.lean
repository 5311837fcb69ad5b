import Astryx.Ext2.Contents

/-!
# Directories

A directory is a file of records, each with the number of an inode, a length and a name. The lengths
lead from one record to the next, and no record goes past the end of its block. Two loops walk them:
`read_dir_entries` over all bytes of the file at once, and `remove_dir_entry` over each block on its
own. The first one stops at the first record that it finds out of order, the second one has weaker
checks and fails.

In a directory whose blocks are tiled by records, an entry that the second loop removes is one that
the first loop lists.
-/

namespace Astryx.Ext2

open PointerForest Vfs List

/-- What reading a directory needs besides its bytes: `inodes_count` of the superblock, and what
`core::str::from_utf8` takes. -/
structure Naming where
  inodesCount : ℕ
  utf8 : List UInt8 → Bool

/-- An entry of a directory. -/
structure DirEntry where
  inode : ℕ
  name : List UInt8
  fileType : UInt8
  deriving DecidableEq

/-- A record as it is on the device, `inode = 0` if it is unused. -/
structure Record where
  inode : ℕ
  recLen : ℕ
  name : List UInt8
  fileType : UInt8

/-- `EXT2_DIR_HDR`. -/
def dirHdr : ℕ := 8

/-- Two bytes, the low one first. -/
def le16 (data : Block) (k : ℕ) : ℕ := (data k).toNat + 256 * (data (k + 1)).toNat

/-- Two bytes are overwritten with `to_le_bytes` of the low 16 bits. -/
def setLe16 (data : Block) (k v : ℕ) : Block :=
  Function.update (Function.update data k (UInt8.ofNat v)) (k + 1) (UInt8.ofNat (v / 256))

/-- The record at an offset. -/
def record (data : Block) (off : ℕ) : Record where
  inode := le16 data off + 65536 * le16 data (off + 2)
  recLen := le16 data (off + 4)
  name := Bytes.slice data (off + dirHdr) (data (off + 6)).toNat
  fileType := data (off + 7)

namespace Naming

variable (c : Naming)

/-- The checks of `read_dir_entries`, with `EXT2_DIR_MIN_REC_LEN` for a record without a name. -/
structure Fits (size off : ℕ) (r : Record) : Prop where
  min : 12 ≤ r.recLen
  aligned : r.recLen % 4 = 0
  name : dirHdr + r.name.length ≤ r.recLen
  inside : off + r.recLen ≤ size
  inode : r.inode ≤ c.inodesCount

instance decidableFits (size off : ℕ) (r : Record) : Decidable (c.Fits size off r) :=
  decidable_of_iff (12 ≤ r.recLen ∧ r.recLen % 4 = 0 ∧ dirHdr + r.name.length ≤ r.recLen ∧
    off + r.recLen ≤ size ∧
    r.inode ≤ c.inodesCount) ⟨fun h => ⟨h.1, h.2.1, h.2.2.1, h.2.2.2.1, h.2.2.2.2⟩,
      fun h => ⟨h.min, h.aligned, h.name, h.inside, h.inode⟩⟩

/-- The loop of `read_dir_entries`. -/
def parse (data : Block) (size : ℕ) : ℕ → ℕ → List DirEntry
  | 0, _ => []
  | iter + 1, off =>
    let r := record data off
    if off + dirHdr ≤ size ∧ c.Fits size off r then
      let rest := parse data size iter (off + r.recLen)
      if r.inode ≠ 0 ∧ r.name ≠ [] ∧ c.utf8 r.name
        then ⟨r.inode, r.name, r.fileType⟩ :: rest else rest
    else []

end Naming

/-- The name `.` -/
def dot : List UInt8 := [46]

/-- The name `..` -/
def dotDot : List UInt8 := [46, 46]

/-- The record before it takes over the length, or the record becomes unused. -/
def dropRecord (data : Block) (off : ℕ) : Option ℕ → Block
  | some prev => setLe16 data (prev + 4) ((record data prev).recLen + (record data off).recLen)
  | none => fun k => if off ≤ k ∧ k < off + 4 ∨ k = off + 6 ∨ k = off + 7 then 0 else data k

/-- The loop of `remove_dir_entry` over the records of a block; each of them has at least a header.
A name that goes past the block, where the source would panic, does not match. -/
def scanBlock (bs : ℕ) (name : List UInt8) (data : Block) :
    ℕ → ℕ → Option ℕ → Except VfsError (Option (ℕ × Block))
  | 0, _, _ => .ok none
  | iter + 1, off, prev =>
    if bs < off + dirHdr then .ok none
    else
      let r := record data off
      if r.recLen < dirHdr ∨ r.recLen % 4 ≠ 0 ∨ bs < off + r.recLen then .error .io
      else if r.inode ≠ 0 ∧ r.name = name ∧ off + dirHdr + r.name.length ≤ bs
        then .ok (some (r.inode, dropRecord data off prev))
      else scanBlock bs name data iter (off + r.recLen) (some off)

namespace Fs

variable (l : Geometry) (c : Naming)

/-- The entries of a directory, read from its blocks. -/
def readDirEntries (s : Fs) (ino : Inode) : List DirEntry × Fs :=
  if ino.size < dirHdr then ([], s)
  else
    let (data, s) := s.readInodeData l ino 0 ino.size
    let size := min data.length ino.size
    if size < dirHdr then ([], s)
      else (c.parse (fun k => data.getD k 0) size (size / dirHdr + 1) 0, s)

/-- There is nothing but `.` and `..` -/
def dirIsEmpty (s : Fs) (ino : Inode) : Bool × Fs :=
  let (entries, s) := s.readDirEntries l c ino
  (entries.all fun e => e.name = dot ∨ e.name = dotDot, s)

/-- The loop of `remove_dir_entry` over the blocks. -/
def removeFrom (ino : Inode) (name : List UInt8) : List ℕ → Fs → Except VfsError (ℕ × Fs)
  | [], _ => .error .notFound
  | idx :: rest, s =>
    let (phys, s) := s.resolveBlock l ino idx
    if phys = 0 then removeFrom ino name rest s
    else
      match scanBlock l.blockSize name (s.dev phys) (l.blockSize / dirHdr + 1) 0 none with
      | .error e => .error e
      | .ok none => removeFrom ino name rest s
      | .ok (some (dead, data)) => .ok (dead, s.writeBlock phys data)

/-- Merges the record of a name into the one before it. -/
def removeDirEntry (s : Fs) (ino : Inode) (name : List UInt8) : Except VfsError (ℕ × Fs) :=
  if name = [] ∨ name = dot ∨ name = dotDot then .error .invalidArg
  else removeFrom l ino name (List.range (ino.size / l.blockSize)) s

/-! ## Directories in order -/

/-- The bytes of a directory as `read_dir_entries` has them. -/
def dirData (owners : Finset ℕ) (s : Fs) (d : ℕ) : Block := fun k =>
  (Bytes.slice (s.byte l owners d) 0 (s.inodes d).size).getD k 0

/-- The entries of a directory of the volume. -/
def entries (owners : Finset ℕ) (s : Fs) (d : ℕ) : List DirEntry :=
  c.parse (s.dirData l owners d) (s.inodes d).size ((s.inodes d).size / dirHdr + 1) 0

end Fs

/-- Records lead from a place to the end. -/
inductive Chain (c : Naming) (data : Block) (stop : ℕ) : ℕ → Prop
  | done : Chain c data stop stop
  | next {off : ℕ} (fits : c.Fits stop off (record data off))
    (rest : Chain c data stop (off + (record data off).recLen)) :
    Chain c data stop off

/-- A test for it. -/
def Naming.chained (c : Naming) (data : Block) (stop : ℕ) : ℕ → ℕ → Bool
  | 0, _ => false
  | iter + 1, off =>
    decide (off = stop) || decide (c.Fits stop off (record data off)) && c.chained data stop iter
      (off + (record data off).recLen)

/-- The blocks of a directory are tiled by records. -/
structure Tiled (l : Geometry) (c : Naming) (owners : Finset ℕ) (s : Fs) (d : ℕ) : Prop where
  size_lt : (s.inodes d).size < 2 ^ 32
  whole : (s.inodes d).size % l.blockSize = 0
  chain : ∀ idx < (s.inodes d).size / l.blockSize,
    Chain c (fun k => s.byte l owners d (idx * l.blockSize + k)) l.blockSize 0

variable {l : Geometry} {c : Naming} {owners : Finset ℕ} {s : Fs} {data data' : Block}
  {d off base size stop : ℕ}
  {name : List UInt8} {e : DirEntry} {iter dead : ℕ}

lemma chain_of_chained (h : c.chained data stop iter off) : Chain c data stop off := by
  induction iter generalizing off with
  | zero => cases h
  | succ iter ih =>
    rw [Naming.chained, Bool.or_eq_true, Bool.and_eq_true, decide_eq_true_eq,
      decide_eq_true_eq] at h
    rcases h with rfl | ⟨hfits, hrest⟩
    · exact .done
    · exact .next hfits (ih hrest)

/-! ## The two loops -/

lemma record_congr (hagree : ∀ k < stop, data k = data' (base + k))
    (hname : off + dirHdr + (data (off + 6)).toNat ≤ stop) :
    record data off = record data' (base + off) := by
  have hat : ∀ k, k < stop - off → data (off + k) = data' (base + off + k) := fun k hk => by
    rw [hagree (off + k) (by omega), add_assoc]
  have hhdr : 8 ≤ stop - off := by
    rw [dirHdr] at hname
    omega
  have hname' : Bytes.slice data (off + dirHdr) (data (off + 6)).toNat
      = Bytes.slice data' (base + off + dirHdr) (data (off + 6)).toNat := by
    refine Bytes.slice_congr fun k hk => ?_
    simp [hat (dirHdr + k) (by omega), add_assoc _ dirHdr k]
  have hword : ∀ k, k + 1 < 8 → le16 data (off + k) = le16 data' (base + off + k) := fun k hk => by
    rw [le16, le16, hat k (by omega), add_assoc off k 1, hat (k + 1) (by omega)]
    rfl
  have h0 := hword 0 (by decide)
  rw [add_zero, add_zero] at h0
  rw [record, record, hname', h0, hword 2 (by decide), hword 4 (by decide), hat 6 (by omega),
    hat 7 (by omega)]

lemma Naming.Fits.name_inside (h : c.Fits stop off (record data off)) :
    off + dirHdr + (data (off + 6)).toNat ≤ stop := by
  have hlength : (record data off).name.length = (data (off + 6)).toNat := Bytes.length_slice ..
  have hname := h.name
  have hinside := h.inside
  omega

lemma Naming.parse_of_fits (hfits : c.Fits size off (record data off)) :
    c.parse data size (iter + 1) off
      = (if (record data off).inode ≠ 0 ∧ (record data off).name ≠ [] ∧
        c.utf8 (record data off).name
          then [⟨(record data off).inode, (record data off).name,
            (record data off).fileType⟩] else [])
        ++ c.parse data size iter (off + (record data off).recLen) := by
  have hhdr : off + dirHdr ≤ size := by
    have hmin := hfits.min
    have hin := hfits.inside
    rw [dirHdr]
    omega
  rw [Naming.parse]
  rw [if_pos ⟨hhdr, hfits⟩]
  split
  · rfl
  · rfl

/-- The entries of a block are entries of the directory, and those after the block, too. -/
lemma Chain.mem_parse (h : Chain c data stop off) (hagree : ∀ k < stop, data k = data' (base + k))
    (hin : base + stop ≤ size) (hiter : size < base + off + 8 * iter) :
    (∀ f, ∀ e ∈ c.parse data stop f off, e ∈ c.parse data' size iter (base + off)) ∧
    ∃ iter', size < base + stop + 8 * iter' ∧
        ∀ e ∈ c.parse data' size iter' (base + stop),
          e ∈ c.parse data' size iter (base + off) := by
  induction h generalizing iter with
  | done =>
    refine ⟨fun f e he => ?_, iter, hiter, fun _ => id⟩
    -- no record starts at the end
    cases f with
    | zero => cases he
    | succ f =>
      rw [Naming.parse, if_neg] at he
      · cases he
      rintro ⟨hhdr, -⟩
      rw [dirHdr] at hhdr
      omega
  | @next off fits rest ih =>
    have hmin := fits.min
    have hinside := fits.inside
    have hsame := record_congr hagree fits.name_inside
    obtain ⟨iter, rfl⟩ : ∃ m, iter = m + 1 := ⟨iter - 1, by omega⟩
    have hfits : c.Fits size (base + off) (record data' (base + off)) := by
      rw [← hsame]
      exact ⟨fits.min, fits.aligned, fits.name, by omega, fits.inode⟩
    have hplace : base + off + (record data off).recLen = base + (off + (record data off).recLen) :=
      add_assoc ..
    obtain ⟨hblock, iter', hiter', hafter⟩ :=
      ih (show size < base + (off + (record data off).recLen) + 8 * iter by omega)
    rw [Naming.parse_of_fits hfits, ← hsame, hplace]
    refine ⟨fun f e he => ?_, iter', hiter', fun e he => mem_append_right _ (hafter e he)⟩
    cases f with
    | zero => cases he
    | succ f =>
      rw [Naming.parse_of_fits fits, mem_append] at he
      exact mem_append.mpr (he.imp_right (hblock f e))

variable {f idx : ℕ} {cache : ℕ → Option (ℕ × Block)} {t : Fs}

lemma Chain.mem_of_scanBlock {prev : Option ℕ} (h : Chain c data stop off) (hname : c.utf8 name)
    (hne : name ≠ []) (hf : stop < off + 8 * f)
    (hscan : scanBlock stop name data iter off prev = .ok (some (dead, data'))) :
    ∃ fileType, ⟨dead, name, fileType⟩ ∈ c.parse data stop f off := by
  induction h generalizing iter f prev with
  | done =>
    cases iter with
    | zero => cases hscan
    | succ iter =>
      rw [scanBlock, if_pos (by rw [dirHdr]; omega)] at hscan
      cases hscan
  | @next off fits rest ih =>
    have hmin := fits.min
    have hinside := fits.inside
    obtain ⟨f, rfl⟩ : ∃ m, f = m + 1 := ⟨f - 1, by omega⟩
    rw [Naming.parse_of_fits fits]
    cases iter with
    | zero => cases hscan
    | succ iter =>
      have hhdr : ¬ stop < off + dirHdr := by
        rw [dirHdr]
        omega
      have hok : ¬ ((record data off).recLen < dirHdr ∨ (record data off).recLen % 4 ≠ 0 ∨
          stop < off + (record data off).recLen) := by
        have haligned := fits.aligned
        rw [dirHdr]
        omega
      rw [scanBlock, if_neg hhdr] at hscan
      rw [if_neg hok] at hscan
      split at hscan
      next hmatch =>
        obtain ⟨rfl, -⟩ := hscan
        refine ⟨(record data off).fileType, mem_append_left _ ?_⟩
        obtain ⟨hino, rfl, -⟩ := hmatch
        rw [if_pos ⟨hino, hne, hname⟩]
        simp
      · obtain ⟨fileType, hmem⟩ := ih (f := f) (by omega) hscan
        exact ⟨fileType, mem_append_right _ hmem⟩

lemma Tiled.mem_entries (h : Tiled l c owners s d) (hidx : idx < (s.inodes d).size / l.blockSize)
    (hdata : ∀ k < l.blockSize, data k = s.byte l owners d (idx * l.blockSize + k))
    (hchain : Chain c data l.blockSize 0) (he : e ∈ c.parse data l.blockSize f 0) :
    e ∈ s.entries l c owners d := by
  have hsize : (s.inodes d).size / l.blockSize * l.blockSize = (s.inodes d).size :=
    Nat.div_mul_cancel (Nat.dvd_of_mod_eq_zero h.whole)
  have hend : ∀ k < (s.inodes d).size / l.blockSize,
      k * l.blockSize + l.blockSize ≤ (s.inodes d).size := fun k hk => by
    rw [← Nat.succ_mul, ← hsize]
    exact Nat.mul_le_mul_right _ hk
  have hagree : ∀ k < (s.inodes d).size / l.blockSize, ∀ j < l.blockSize,
      s.byte l owners d (k * l.blockSize + j) = s.dirData l owners d (k * l.blockSize + j) := by
    intro k hk j hj
    have hlt := hend k hk
    rw [Fs.dirData, getD_eq_getElem?_getD, Bytes.slice, List.getElem?_map,
      List.getElem?_range (by omega), Option.map_some,
      Option.getD_some, zero_add]
  -- the reader comes to the start of every block
  have hreach : ∀ k ≤ (s.inodes d).size / l.blockSize,
    ∃ iter, (s.inodes d).size < k * l.blockSize + 8 * iter ∧
      ∀ e ∈ c.parse (s.dirData l owners d) (s.inodes d).size iter (k * l.blockSize),
        e ∈ s.entries l c owners d := by
    intro k
    induction k with
    | zero =>
      intro _
      refine ⟨(s.inodes d).size / dirHdr + 1, ?_, fun e he => ?_⟩
      · rw [dirHdr]
        omega
      · rw [zero_mul] at he
        exact he
    | succ k ih =>
      intro hk
      obtain ⟨iter, hiter, hmem⟩ := ih (by omega)
      obtain ⟨-, iter', hiter', hafter⟩ := (h.chain k hk).mem_parse (hagree k hk) (hend k hk) hiter
      rw [← Nat.succ_mul] at hiter' hafter
      exact ⟨iter', hiter', fun e he => hmem e (hafter e he)⟩
  obtain ⟨iter, hiter, hmem⟩ := hreach idx hidx.le
  obtain ⟨hblock, -⟩ := hchain.mem_parse (fun k hk => (hdata k hk).trans (hagree idx hidx k hk))
    (hend idx hidx) hiter
  exact hmem e (hblock f e he)

/-! ## Reading and removing on the volume -/

lemma readDirEntries_spec (hco : Coherent l owners s s) (hd : d ∈ owners)
    (hsize : (s.inodes d).size < 2 ^ 32) :
    ∃ cache, s.readDirEntries l c (s.inodes d) = (s.entries l c owners d, s.withCache cache) ∧
      Coherent l owners (s.withCache cache) s := by
  have hnone : (s.inodes d).size < dirHdr → s.entries l c owners d = [] := fun hshort => by
    rw [Fs.entries, Naming.parse, if_neg]
    rintro ⟨hhdr, -⟩
    omega
  rw [Fs.readDirEntries]
  split
  next hshort => exact ⟨s.indirectCache, by rw [hnone hshort]; rfl, hco⟩
  next hlong =>
    have hpos : ¬ (s.inodes d).size ≤ 0 := by
      rw [dirHdr] at hlong
      omega
    have hstop : 0 + (s.inodes d).size < 2 ^ 32 := by rwa [zero_add]
    have hiter : (s.inodes d).size ≤ ([] : List UInt8).length + (s.inodes d).size :=
      le_of_eq (zero_add _).symm
    obtain ⟨cache, hloop, hco'⟩ := readLoop_spec hco rfl hd rfl hstop hiter (Nat.zero_le _) rfl
    refine ⟨cache, ?_, hco'⟩
    rw [Fs.readInodeData, if_neg hpos, Nat.sub_zero, Nat.min_self]
    rw [hloop]
    dsimp only
    rw [Bytes.length_slice, Nat.min_self, if_neg hlong]
    rfl

lemma dev_eq_byte {b : ℕ} (hb : s.blockAt owners (d, (l.blockPath idx).1) (l.blockPath idx).2 = b)
    (hb0 : b ≠ 0) {k : ℕ} (hk : k < l.blockSize) :
    s.dev b k = s.byte l owners d (idx * l.blockSize + k) := by
  have hdiv : (idx * l.blockSize + k) / l.blockSize = idx := by
    rw [mul_comm, Nat.mul_add_div Geometry.blockSize_pos, Nat.div_eq_of_lt hk, add_zero]
  have hmod : (idx * l.blockSize + k) % l.blockSize = k := by
    simp [Nat.mod_eq_of_lt hk]
  rw [Fs.byte, hdiv, hmod, hb, if_neg hb0]

lemma Chain.congr (h : Chain c data stop off) (hagree : ∀ k < stop, data k = data' k) :
    Chain c data' stop off := by
  induction h with
  | done => exact .done
  | @next off fits rest ih =>
    have hsame : record data off = record data' off := by
      have hagree' : ∀ k < stop, data k = data' (0 + k) := fun k hk => by simp [hagree k hk]
      have heq := record_congr hagree' fits.name_inside
      rwa [zero_add] at heq
    rw [hsame] at fits ih
    exact .next fits ih

/-- All that changes is the cache and one block of data. -/
def DataWritten (l : Geometry) (owners : Finset ℕ) (s t : Fs) : Prop :=
  ∃ r is b data cache, (l.IsCell r is ∧ is.length = height r) ∧ (s.blockAt owners r is = b ∧ b ≠ 0)
    ∧ Coherent l owners (s.withCache cache) s ∧ t = (s.withCache cache).writeBlock b data

lemma Tiled.removeFrom_spec (h : Tiled l c owners s d) (hd : d ∈ owners) (hname : c.utf8 name)
    (hne : name ≠ []) {idxs : List ℕ} (hidxs : ∀ idx ∈ idxs, idx < (s.inodes d).size / l.blockSize)
    (hco : Coherent l owners (s.withCache cache) s)
    (hrun : Fs.removeFrom l (s.inodes d) name idxs (s.withCache cache) = .ok (dead, t)) :
    (∃ fileType, ⟨dead, name, fileType⟩ ∈ s.entries l c owners d) ∧ DataWritten l owners s t := by
  induction idxs generalizing cache with
  | nil => cases hrun
  | cons idx rest ih =>
    have hidx := hidxs idx mem_cons_self
    have hcap : idx < l.slotStart 14 + l.slotSpan 14 := by
      have hlt := Geometry.div_blockSize_lt (l := l) h.size_lt
      omega
    obtain ⟨-, hcell, hfull, -⟩ := Geometry.blockPath_spec hcap d
    obtain ⟨cache', hresolve, hco'⟩ := resolveBlock_spec hco rfl hd rfl hcap
    have hrest := ih (fun idx hmem => hidxs idx (by simp [hmem])) hco'
    rw [Fs.removeFrom, hresolve] at hrun
    dsimp only at hrun
    split at hrun
    · exact hrest hrun
    rename_i hb0
    split at hrun
    · cases hrun
    · exact hrest hrun
    next dead' data hscan =>
      obtain ⟨rfl, rfl⟩ := hrun
      refine ⟨?_, _, _, _, data, cache', ⟨hcell, hfull⟩, ⟨rfl, hb0⟩, hco', rfl⟩
      have hdev : ∀ k < l.blockSize,
        s.dev (s.blockAt owners (d, (l.blockPath idx).1) (l.blockPath idx).2) k
          = s.byte l owners d (idx * l.blockSize + k) := fun k => dev_eq_byte rfl hb0
      have hchain := (h.chain idx hidx).congr fun k hk => (hdev k hk).symm
      obtain ⟨fileType, hmem⟩ := hchain.mem_of_scanBlock hname hne (f := l.blockSize + 1)
        (by omega) hscan
      exact ⟨fileType, h.mem_entries hidx hdev hchain hmem⟩

lemma Tiled.removeDirEntry_spec (h : Tiled l c owners s d) (hd : d ∈ owners) (hname : c.utf8 name)
    (hco : Coherent l owners (s.withCache cache) s)
    (hrun : (s.withCache cache).removeDirEntry l (s.inodes d) name = .ok (dead, t)) :
    ¬ (name = dot ∨ name = dotDot) ∧ (∃ fileType, ⟨dead, name, fileType⟩ ∈ s.entries l c owners d) ∧
    DataWritten l owners s t := by
  rw [Fs.removeDirEntry] at hrun
  split at hrun
  · cases hrun
  next hok =>
    rw [not_or] at hok
    exact ⟨hok.2, h.removeFrom_spec hd hname hok.1 (fun idx => mem_range.mp) hco hrun⟩

end Astryx.Ext2
