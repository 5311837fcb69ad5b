import Astryx.Ext2.Layout
import Astryx.Lib.Transition
import Astryx.Vfs.RamFs

/-!
# Files of an ext2 volume

`Ext2Fs::read`, `write` and `truncate` with all they call, on a device that does not fail. The inode
has 15 slots of block numbers: 12 for data blocks, and one each for a single, double and triple
indirect block. A block of block numbers that was read is kept in a cache with one entry for each of
three levels.

Inodes, descriptors and the superblock are written through to the device at every change, so the
state has them as fields and `dev` is for the other blocks. Times are left out. Numbers of 32 bits
are natural numbers, since those of a volume and of a file below 4 GiB fit; the free count of a
group has 16 bits and wraps.

`num_groups` of the source may count one group too many, with an empty descriptor; nothing is
allocated from such a group and no block lies in it, so `numGroups` here is the number of groups.
-/

namespace Astryx.Ext2

open Vfs Function Bytes

/-- What mounting a volume checks, and which blocks it does not use for files. -/
structure Geometry extends Layout where
  logBlockSize : ℕ
  log_le : logBlockSize ≤ 6
  blockSize_eq : blockSize = 1024 * 2 ^ logBlockSize
  bitmap_fits : blocksPerGroup ≤ 8 * blockSize
  /-- The blocks of the volume's own metadata, and what is not a block of the volume, such as the
  rest of the last group. -/
  own : ℕ → Bool
  own_zero : own 0 = true
  own_bitmap : ∀ k g, g < numGroups → own (bitmapBlock k g) = true
  lt_of_not_own : ∀ x, own x = false → x < 2 ^ 32

/-- The fields of `Ext2Inode` that files need. The type is in `mode`. -/
structure Inode where
  fileType : FileType
  size : ℕ
  linksCount : ℕ
  /-- In sectors of 512 bytes. -/
  blocks : ℕ
  block : ℕ → ℕ

/-- The mounted volume. -/
structure Fs where
  dev : ℕ → Block
  inodes : ℕ → Inode
  /-- `free_blocks_count` of the groups and of the superblock. -/
  groupFree : ℕ → ℕ
  totalFree : ℕ
  indirectCache : ℕ → Option (ℕ × Block)

namespace Geometry

variable (l : Geometry)

/-- The words of a block. -/
def ptrsPerBlock : ℕ := l.blockSize / 4

/-- `i_blocks` counts in these. -/
def sectorsPerBlock : ℕ := l.blockSize / 512

/-- Where a logical block is: the slot of the inode, and the slots of the indirect blocks from
there. -/
def blockPath (idx : ℕ) : ℕ × List ℕ :=
  if idx < 12 then (idx, [])
  else
    let idx := idx - 12
    if idx < l.ptrsPerBlock then (12, [idx])
    else
      let idx := idx - l.ptrsPerBlock
      if idx < l.ptrsPerBlock * l.ptrsPerBlock
        then (13, [idx / l.ptrsPerBlock, idx % l.ptrsPerBlock])
      else
        let idx := idx - l.ptrsPerBlock * l.ptrsPerBlock
        let rem := idx % (l.ptrsPerBlock * l.ptrsPerBlock)
        (14, [idx / (l.ptrsPerBlock * l.ptrsPerBlock), rem / l.ptrsPerBlock, rem % l.ptrsPerBlock])

/-- The block number at a slot of a block, if the slot is inside the block. -/
def pointer (data : Block) (index : ℕ) : ℕ :=
  if index * 4 + 4 ≤ l.blockSize then word data index else 0

end Geometry

namespace Fs

variable (l : Geometry)

/-- A block is written. -/
def writeBlock (s : Fs) (b : ℕ) (data : Block) : Fs := { s with dev := update s.dev b data }

/-- An inode is written. -/
def writeInode (s : Fs) (n : ℕ) (ino : Inode) : Fs := { s with inodes := update s.inodes n ino }

/-- What is cached of a block is dropped. -/
def invalidateIndirectCache (s : Fs) (b : ℕ) : Fs :=
  { s with indirectCache := fun level => (s.indirectCache level).filter fun entry => entry.1 ≠ b }

/-! ## Blocks -/

/-- The bit is set, the block is filled with zeros, and the counts go down. -/
def takeBlock (s : Fs) (group bitIdx : ℕ) : Fs :=
  let bitmap := l.bitmapBlock .block group
  let s := s.writeBlock bitmap (setBit (s.dev bitmap) bitIdx)
  let s := s.writeBlock (l.number .block group bitIdx) fun _ => 0
  { s with
    groupFree := update s.groupFree group (s.groupFree group - 1), totalFree := s.totalFree - 1 }

/-- The first clear bit of the first group that claims to have one. -/
def allocBlock (s : Fs) : Option (ℕ × Fs) :=
  if s.totalFree = 0 then none
  else (List.range l.numGroups).findSome? fun group =>
    if s.groupFree group = 0 then none
    else (l.pick .block group (s.dev (l.bitmapBlock .block group))).map fun bitIdx =>
      (l.number .block group bitIdx, s.takeBlock l group bitIdx)

/-- The bit is cleared, the block leaves the cache, and the counts go up. -/
def releaseBlock (s : Fs) (b group bitIdx : ℕ) : Fs :=
  let bitmap := l.bitmapBlock .block group
  let s := s.writeBlock bitmap (clearBit (s.dev bitmap) bitIdx)
  let s := s.invalidateIndirectCache b
  { s with
    groupFree := update s.groupFree group ((s.groupFree group + 1) % 2 ^ 16),
    totalFree := s.totalFree + 1 }

/-- The bit of a block is cleared, if it is set. -/
def freeBlock (s : Fs) (b : ℕ) : Fs :=
  match l.locate .block b with
  | none => s
  | some (group, bitIdx) =>
    if bit (s.dev (l.bitmapBlock .block group)) bitIdx then s.releaseBlock l b group bitIdx else s

/-! ## Indirect blocks -/

/-- What is cached of a block at a level. -/
def cached (s : Fs) (b level : ℕ) : Option Block :=
  (s.indirectCache level).bind fun entry => if entry.1 = b then some entry.2 else none

/-- A word of an indirect block, through the cache. -/
def readIndirect (s : Fs) (b index level : ℕ) : ℕ × Fs :=
  if b = 0 then (0, s)
  else
    match s.cached b level, decide (index * 4 + 4 ≤ l.blockSize) with
    | some data, true => (word data index, s)
    | _, _ => (l.pointer (s.dev b) index,
        { s with indirectCache := update s.indirectCache level (some (b, s.dev b)) })

/-- A word of an indirect block is written. -/
def writeIndirectSlot (s : Fs) (b index v : ℕ) : Option Fs :=
  if l.blockSize < index * 4 + 4 then none
  else some ((s.writeBlock b (setWord (s.dev b) index v)).invalidateIndirectCache b)

/-- Down from a block through slots of indirect blocks, the first of which is at `level`. -/
def walk (s : Fs) (b level : ℕ) : List ℕ → ℕ × Fs
  | [] => (b, s)
  | index :: rest =>
    let (next, s) := s.readIndirect l b index level
    if next = 0 then (0, s) else s.walk next (level + 1) rest

/-- The four branches of the source differ in the path. -/
def resolveBlock (s : Fs) (ino : Inode) (idx : ℕ) : ℕ × Fs :=
  s.walk l (ino.block (l.blockPath idx).1) 0 (l.blockPath idx).2

end Fs

/-! ## Growing a file

A call works on its own copy of the inode, which it writes back at the end. -/

/-- A call in progress: its copy of the inode, and the volume. -/
structure Work where
  ino : Inode
  fs : Fs

namespace Work

variable (l : Geometry)

/-- The block in a slot of the inode, allocated if there is none. -/
def ensureRoot (w : Work) (slot : ℕ) : Option ℕ × Work :=
  if w.ino.block slot = 0 then
    match w.fs.allocBlock l with
    | none => (none, w)
    | some (new, fs) => (some new,
        ⟨{ w.ino with
          block := update w.ino.block slot new
          blocks := w.ino.blocks + l.sectorsPerBlock }, fs⟩)
  else (some (w.ino.block slot), w)

/-- The block in a word of an indirect block, allocated if there is none. -/
def ensureSlot (w : Work) (b index level : ℕ) : Option ℕ × Work :=
  let (next, fs) := w.fs.readIndirect l b index level
  if next = 0 then
    match fs.allocBlock l with
    | none => (none, { w with fs := fs })
    | some (new, fs) =>
      match fs.writeIndirectSlot l b index new with
      | none => (none, { w with fs := fs })
      | some fs =>
        (some new, { ino := { w.ino with blocks := w.ino.blocks + l.sectorsPerBlock }, fs := fs })
  else (some next, { w with fs := fs })

/-- The block at the end of a path, with all on the way. -/
def ensurePath (w : Work) (b level : ℕ) : List ℕ → Option ℕ × Work
  | [] => (some b, w)
  | index :: rest =>
    match w.ensureSlot l b index level with
    | (none, w) => (none, w)
    | (some next, w) => w.ensurePath next (level + 1) rest

/-- The four branches of the source differ in the path. -/
def ensureBlock (w : Work) (idx : ℕ) : Option ℕ × Work :=
  match w.ensureRoot l (l.blockPath idx).1 with
  | (none, w) => (none, w)
  | (some b, w) => w.ensurePath l b 0 (l.blockPath idx).2

/-- A chunk that fills a block is written over it, another one is put into what the block has. -/
def writeChunk (w : Work) (phys off : ℕ) (chunk : List UInt8) : Work :=
  if off = 0 ∧ chunk.length = l.blockSize
    then { w with fs := w.fs.writeBlock phys (overwrite (fun _ => 0) 0 chunk) }
  else { w with fs := w.fs.writeBlock phys (overwrite (w.fs.dev phys) off chunk) }

/-- The loop of `write_inode_data`; every round but a last one without space writes at least a
byte. -/
def writeLoop (offset : ℕ) (data : List UInt8) : ℕ → ℕ → Work → ℕ × Work
  | 0, written, w => (written, w)
  | fuel + 1, written, w =>
    if data.length ≤ written then (written, w)
    else
      let pos := offset + written
      match w.ensureBlock l (pos / l.blockSize) with
      | (none, w) => (written, w)
      | (some phys, w) =>
        let n := min (l.blockSize - pos % l.blockSize) (data.length - written)
        writeLoop offset data fuel (written + n)
          (w.writeChunk l phys (pos % l.blockSize) ((data.drop written).take n))

end Work

/-! ## Cutting a file -/

/-- A walk over an indirect block: the copy of the block that it works on, and whether that has
changed. -/
structure Sweep where
  buf : Block
  changed : Bool
  work : Work

namespace Work

variable (l : Geometry)

/-- A block is freed and counted off. -/
def dropBlock (w : Work) (b : ℕ) : Work :=
  { ino := { w.ino with blocks := w.ino.blocks - l.sectorsPerBlock }, fs := w.fs.freeBlock l b }

/-- One slot of an indirect block, whose blocks each stand for `span` logical blocks: what `branch`
frees below it, and the block there if all of its logical blocks go. -/
def sweepSlot (span first : ℕ) (branch : ℕ → ℕ → Work → Work) (t : Sweep) (i : ℕ) : Sweep :=
  if i * span + span ≤ first then t
  else
    let ptr := word t.buf i
    if ptr = 0 then t
    else
      let inner := first - i * span
      let w := branch ptr inner t.work
      if inner = 0 then { buf := setWord t.buf i 0, changed := true, work := w.dropBlock l ptr }
      else { t with work := w }

/-- The blocks below an indirect block, from a logical block on, where `branch` frees what is below
each of them. -/
def freeBelow (span : ℕ) (branch : ℕ → ℕ → Work → Work) (b first : ℕ) (w : Work) : Work :=
  let t := (List.range l.ptrsPerBlock).foldl (sweepSlot l span first branch)
    { buf := w.fs.dev b, changed := false, work := w }
  if t.changed then { t.work with
    fs := (t.work.fs.writeBlock b t.buf).invalidateIndirectCache b } else t.work

/-- Below an indirect block there are blocks of data. -/
def freeIndirectBranch : ℕ → ℕ → Work → Work := freeBelow l 1 fun _ _ w => w

/-- Below a double indirect block there are indirect blocks. -/
def freeDoubleIndirectBranch : ℕ → ℕ → Work → Work :=
  freeBelow l l.ptrsPerBlock (freeIndirectBranch l)

/-- What is freed below a block of a height; a block of data has nothing below it. -/
def freeBranch : ℕ → ℕ → ℕ → Work → Work
  | 0 => fun _ _ w => w
  | 1 => freeIndirectBranch l
  | 2 => freeDoubleIndirectBranch l
  | height + 1 => freeBelow l (l.ptrsPerBlock ^ height) (freeBranch height)

lemma freeBranch_succ (height : ℕ) :
    freeBranch l (height + 1) = freeBelow l (l.ptrsPerBlock ^ height) (freeBranch l height) := by
  match height with
  | 0 => rw [pow_zero]; rfl
  | 1 => rw [pow_one]; rfl
  | _ + 2 => rfl

/-- A slot of the inode whose blocks stand for `span` logical blocks from `start` on. -/
def freeRoot (first slot start span height : ℕ) (w : Work) : Work :=
  let b := w.ino.block slot
  if start + span ≤ first ∨ b = 0 then w
  else
    let w := freeBranch l height b (first - start) w
    if first - start = 0 then
      let w := w.dropBlock l b
      { w with ino := { w.ino with block := update w.ino.block slot 0 } }
    else w

end Work

namespace Geometry

variable (l : Geometry)

/-- How many levels of indirect blocks a slot of the inode has. -/
def slotHeight (slot : ℕ) : ℕ := slot - 11

/-- The file blocks under a slot. -/
def slotSpan (slot : ℕ) : ℕ := l.ptrsPerBlock ^ slotHeight slot

/-- The first file block under a slot. -/
def slotStart (slot : ℕ) : ℕ :=
  if slot ≤ 12 then slot
  else if slot = 13 then 12 + l.ptrsPerBlock
  else 12 + l.ptrsPerBlock + l.ptrsPerBlock * l.ptrsPerBlock

end Geometry

namespace Work

variable (l : Geometry)

/-- The triple indirect slot is looked at in any case in the source; nothing is there to free if all
of its blocks stay. -/
def freeBlocksFrom (w : Work) (first : ℕ) : Work :=
  (List.range 15).foldl
    (fun w slot =>
      w.freeRoot l first slot (l.slotStart slot) (l.slotSpan slot) (Geometry.slotHeight slot)) w

end Work

/-! ## The calls -/

namespace Fs

variable (l : Geometry)

/-- Only the number is checked: the rest is there. -/
def readInode (s : Fs) (n : ℕ) : Option Inode := (l.locate .inode n).map fun _ => s.inodes n

/-- A run of blocks that follow each other on the device: it goes on up to a hole or a gap. -/
def extendRun (ino : Inode) (b idx : ℕ) : ℕ → ℕ → Fs → ℕ × Fs
  | 0, run, s => (run, s)
  | more + 1, run, s =>
    let (next, s) := s.resolveBlock l ino (idx + run)
    if next = 0 ∨ next ≠ b + run then (run, s) else extendRun ino b idx more (run + 1) s

/-- The loop of `read_inode_data`: what is read so far grows by at least a byte in every round. -/
def readLoop (ino : Inode) (offset toRead : ℕ) : ℕ → List UInt8 → Fs → List UInt8 × Fs
  | 0, buf, s => (buf, s)
  | fuel + 1, buf, s =>
    if toRead ≤ buf.length then (buf, s)
    else
      let pos := offset + buf.length
      let idx := pos / l.blockSize
      let off := pos % l.blockSize
      let left := toRead - buf.length
      let (b, s) := s.resolveBlock l ino idx
      let n := min (l.blockSize - off) left
      if b = 0 then readLoop ino offset toRead fuel (buf ++ List.replicate n 0) s
      else if off = 0 ∧ l.blockSize ≤ left then
        let maxWhole := min (left / l.blockSize) (max (4096 / max (l.blockSize / 512) 1) 1)
        let (run, s) := extendRun l ino b idx (maxWhole - 1) 1 s
        -- one transfer for the whole run
        let bytes := slice (fun k => s.dev (b + k / l.blockSize) (k % l.blockSize)) 0
          (run * l.blockSize)
        readLoop ino offset toRead fuel (buf ++ bytes) s
      else readLoop ino offset toRead fuel (buf ++ slice (s.dev b) off n) s

/-- Bytes of a file, up to its end. -/
def readInodeData (s : Fs) (ino : Inode) (offset len : ℕ) : List UInt8 × Fs :=
  if ino.size ≤ offset then ([], s)
  else
    let toRead := min len (ino.size - offset)
    s.readLoop l ino offset toRead toRead []

/-- Writes bytes as far as blocks can be had, and the size. -/
def writeInodeData (s : Fs) (n : ℕ) (ino : Inode) (offset : ℕ) (data : List UInt8) : ℕ × Fs :=
  if data = [] then (0, s)
  else
    let (written, w) := Work.writeLoop l offset data data.length 0 { ino := ino, fs := s }
    let stop := offset + written
    let ino := if w.ino.size < stop then { w.ino with size := min stop (2 ^ 32 - 1) } else w.ino
    (written, w.fs.writeInode n ino)

/-- The part of the last block that is past the new end is filled with zeros. -/
def zeroTail (s : Fs) (ino : Inode) (size : ℕ) : Fs :=
  if 0 < size ∧ size % l.blockSize ≠ 0 then
    let (phys, s) := s.resolveBlock l ino ((size - 1) / l.blockSize)
    if phys ≠ 0 then s.writeBlock phys fun k =>
      if size % l.blockSize ≤ k then 0 else s.dev phys k else s
  else s

/-- Grows or cuts a file. -/
def truncateInodeTo (s : Fs) (n : ℕ) (ino : Inode) (size : ℕ) : Fs :=
  if size = ino.size then s
  else if ino.size < size then s.writeInode n { ino with size := min size (2 ^ 32 - 1) }
  else
    let s := s.zeroTail l ino size
    let w := Work.freeBlocksFrom l { ino := ino, fs := s } ((size + l.blockSize - 1) / l.blockSize)
    w.fs.writeInode n { w.ino with size := size }

/-- `read` of the filesystem. -/
def read (s : Fs) (n offset len : ℕ) : Except VfsError (List UInt8 × Fs) :=
  match s.readInode l n with
  | none => .error .notFound
  | some ino => .ok (s.readInodeData l ino offset len)

/-- `write` of the filesystem. -/
def write (s : Fs) (n offset : ℕ) (data : List UInt8) : Except VfsError (ℕ × Fs) :=
  match s.readInode l n with
  | none => .error .notFound
  | some ino =>
    if ino.fileType = .directory then .error .isADirectory
      else .ok (s.writeInodeData l n ino offset data)

/-- `truncate` of the filesystem. -/
def truncate (s : Fs) (n size : ℕ) : Except VfsError Fs :=
  match s.readInode l n with
  | none => .error .notFound
  | some ino =>
    if ino.fileType = .directory then .error .isADirectory
    else if 2 ^ 32 - 1 < size then .error .invalidArg
    else .ok (s.truncateInodeTo l n ino size)

end Fs

end Astryx.Ext2
