import Astryx.Lib.Transition
import Mathlib

/-!
# The page cache of an in-memory file system

A page of a tmpfs file that has been touched through a `MAP_SHARED` mapping lives in a frame. The
page cache finds the frame by file and page, and the page table entries of all mappings are to name
it. A fault looks the page up; on a miss it reads the page, and some of those after it, from the
inode into new frames, puts each into the cache and installs it. Writes to the file go to the inode
and then to the frames in the cache, truncation cuts the inode and then drops pages from the cache,
and eviction drops a page and writes it back.

A step is one section under the lock of the cache, one access to the inode, or one installation
under the lock of the page tables. Frames are numbered as they are allocated, so a frame that is
recycled has a new number. Which page of which file is mapped where is fixed; an entry may be
cleared at any time. Sizes fit their machine words. The `dirty` flag of an entry, which only
statistics read, is left out.
-/

namespace Astryx.PageCache

open Function

/-- `PAGE_SIZE` -/
def pageSize : ℕ := 4096

/-- A file and a page of it. -/
abbrev Key := ℕ × ℕ

/-- The mappings: `place` stands for a page of some address space. -/
structure Layout where
  backing : ℕ → Key
  places : ℕ
  threads : ℕ

/-- What a thread is doing. -/
inductive Phase
  | idle
  /-- In the fault handler, before `lookup_and_acquire`. -/
  | faulting (place : ℕ)
  /-- The lookup has found the frame and holds a reference to it. -/
  | hit (place frame : ℕ)
  /-- Reading pages into new frames; only `first` is read without a check. -/
  | reading (first : Bool) (todo : List ℕ) (got : List (ℕ × ℕ))
  | inserting (got : List (ℕ × ℕ))
  | installing (place frame : ℕ) (rest : List (ℕ × ℕ))
  /-- The entry was present; the frame is to leave the cache again. -/
  | discarding (place frame : ℕ) (rest : List (ℕ × ℕ))
  /-- After `fs.write`, before `update_range`. -/
  | updating (file offset : ℕ) (bytes : List UInt8)
  /-- After `fs.truncate`, before `truncate_range`. -/
  | truncating (file oldSize newSize : ℕ)
  /-- A frame has left the cache and is to be written back. -/
  | writingBack (key : Key) (frame : ℕ) (next : Phase)
  deriving DecidableEq

/-- The cache, the frames, the inodes and the page tables. -/
structure State where
  /-- `PAGE_CACHE`, and the keys it has. -/
  cache : Key → Option ℕ
  keys : Finset Key
  refs : ℕ → ℕ
  /-- The bytes of each frame. -/
  mem : ℕ → ℕ → UInt8
  nextFrame : ℕ
  /-- The length and the bytes of each inode. -/
  size : ℕ → ℕ
  data : ℕ → ℕ → UInt8
  pte : ℕ → Option ℕ
  threads : ℕ → Phase

/-- Nothing is cached or mapped. -/
def boot : State where
  cache := fun _ => none
  keys := ∅
  refs := fun _ => 0
  mem := fun _ _ => 0
  nextFrame := 0
  size := fun _ => 0
  data := fun _ _ => 0
  pte := fun _ => none
  threads := fun _ => .idle

section

variable (s : State)

/-- A page enters the cache. -/
def State.cacheSet (key : Key) (frame : ℕ) : State :=
  { s with cache := update s.cache key (some frame), keys := Insert.insert key s.keys }

/-- A page leaves the cache. -/
def State.cacheRemove (key : Key) : State :=
  { s with cache := update s.cache key none, keys := s.keys.erase key }

/-- A page table entry changes. -/
def State.setPte (place : ℕ) (frame : Option ℕ) : State :=
  { s with pte := update s.pte place frame }

/-- A thread goes on. -/
def State.setThread (t : ℕ) (p : Phase) : State := { s with threads := update s.threads t p }

/-- A frame has one more user. -/
def State.refInc (frame : ℕ) : State := { s with refs := update s.refs frame (s.refs frame + 1) }

/-- A frame has one user fewer. -/
def State.refDec (frame : ℕ) : State := { s with refs := update s.refs frame (s.refs frame - 1) }

/-! ### The inode -/

/-- `FileSystemOps::read` of a page into a zeroed frame. -/
def readPage (key : Key) (i : ℕ) : UInt8 :=
  if key.2 * pageSize + i < s.size key.1 then s.data key.1 (key.2 * pageSize + i) else 0

/-- `FileSystemOps::write`; a gap before the offset is zero. -/
def fsWrite (file offset : ℕ) (bytes : List UInt8) : State :=
  { s with
    size := update s.size file (max (s.size file) (offset + bytes.length))
    data := update s.data file fun i =>
      if offset ≤ i ∧ i < offset + bytes.length then bytes.getD (i - offset) 0
      else if i < s.size file then s.data file i else 0 }

/-- The size changes; bytes past the old end read as 0. -/
def fsTruncate (file newSize : ℕ) : State :=
  { s with
    size := update s.size file newSize
    data := update s.data file fun i => if i < s.size file then s.data file i else 0 }

/-- `writeback_frame_to_inode` -/
def writebackFrame (key : Key) (frame : ℕ) : State :=
  if s.size key.1 ≤ key.2 * pageSize then s
  else fsWrite s key.1 (key.2 * pageSize)
    ((List.range (min pageSize (s.size key.1 - key.2 * pageSize))).map (s.mem frame))

/-! ### Sections under the lock of the cache -/

/-- The frame of the page, with a reference to it, if the page is there. -/
def lookupAndAcquire (key : Key) : State × Option ℕ :=
  match s.cache key with
  | some frame => (s.refInc frame, some frame)
  | none => (s, none)

/-- Puts the frame into the cache. A frame that was there and has no reference left is returned, to
be written back. -/
def insert (key : Key) (frame : ℕ) : State × Option ℕ :=
  let s' := (s.cacheSet key frame).refInc frame
  match s.cache key with
  | none => (s', none)
  | some old => (s'.refDec old, if s'.refs old - 1 = 0 then some old else none)

/-- A page leaves the cache if it still has the frame. -/
def evictIfPhys (key : Key) (frame : ℕ) : State :=
  if s.cache key = some frame then (s.cacheRemove key).refDec frame else s

/-- Copies the bytes into the frames of all pages in the cache that they reach. -/
def updateRange (file offset : ℕ) (bytes : List UInt8) : State :=
  { s with mem := fun frame i =>
      -- The page the frame is cached for, if the byte lies in the range.
      match (List.range bytes.length).find? fun j =>
        s.cache (file, (offset + j) / pageSize) = some frame ∧ (offset + j) % pageSize = i with
      | some j => bytes.getD j 0
      | none => s.mem frame i }

/-- The first page that `truncate_range` drops. -/
def firstFullEvict (oldSize newSize : ℕ) : ℕ := (min oldSize newSize + (pageSize - 1)) / pageSize

/-- The pages `truncate_range` drops. -/
def Dropped (file oldSize newSize : ℕ) (key : Key) : Prop :=
  key.1 = file ∧ firstFullEvict oldSize newSize ≤ key.2

instance decidableDropped (file oldSize newSize : ℕ) (key : Key) :
    Decidable (Dropped file oldSize newSize key) :=
  inferInstanceAs (Decidable (_ ∧ _))

/-- Zeroes the frame of the page with the boundary from the boundary on, and drops all pages after
it. -/
def truncateRange (file oldSize newSize : ℕ) : State :=
  let boundary := min oldSize newSize
  { s with
    mem := fun frame i =>
      if boundary % pageSize ≠ 0 ∧ s.cache (file, boundary / pageSize) = some frame ∧
        boundary % pageSize ≤ i then 0
      else s.mem frame i
    cache := fun key => if Dropped file oldSize newSize key then none else s.cache key
    keys := s.keys.filter fun key => ¬ Dropped file oldSize newSize key
    refs := fun frame =>
      s.refs frame - (s.keys.filter fun key =>
        Dropped file oldSize newSize key ∧ s.cache key = some frame).card }

end

/-! ### Steps -/

/-- A step of a thread, or of the CPU. -/
inductive Event
  | fault (t place : ℕ)
  /-- `lookup_and_acquire`; `window` are the places after the first that a miss reads too. -/
  | lookup (t : ℕ) (window : List ℕ)
  /-- The reads end, be it at the end of the file or for want of a frame. -/
  | stop (t : ℕ)
  | advance (t : ℕ)
  /-- A store through a mapping. -/
  | store (place i : ℕ) (byte : UInt8)
  /-- The entry goes with its mapping. -/
  | clear (place : ℕ)
  | write (t file offset : ℕ) (bytes : List UInt8)
  | truncate (t file newSize : ℕ)
  | evict (t : ℕ) (key : Key)

variable (l : Layout)

/-- One more page is read into a new frame. -/
def readNext (s : State) (t place : ℕ) (todo : List ℕ) (got : List (ℕ × ℕ)) : State :=
  { s with
    mem := update s.mem s.nextFrame (readPage s (l.backing place))
    nextFrame := s.nextFrame + 1 }.setThread t (.reading false todo (got ++ [(place, s.nextFrame)]))

/-- What was read is to be inserted. -/
def nextInsert : List (ℕ × ℕ) → Phase
  | [] => .idle
  | got => .inserting got

/-- The next section of a thread. -/
def advance (s : State) (t : ℕ) : Option State :=
  match s.threads t with
  | .hit place frame =>
    -- `map_page_in_if_absent`; the reference becomes that of the entry.
    match s.pte place with
    | none => some ((s.setPte place frame).setThread t .idle)
    | some _ => some ((s.refDec frame).setThread t .idle)
  | .reading first (place :: todo) got =>
    if first = false ∧ ((s.cache (l.backing place)).isSome ∨ (s.pte place).isSome) then
      some (s.setThread t (.reading false todo got))
    else some (readNext l s t place todo got)
  | .reading _ [] got => some (s.setThread t (nextInsert got))
  | .inserting ((place, frame) :: rest) =>
    let r := insert (s.refInc frame) (l.backing place) frame
    let next := Phase.installing place frame rest
    some (r.1.setThread t (r.2.elim next fun old => .writingBack (l.backing place) old next))
  | .installing place frame rest =>
    match s.pte place with
    | none =>
      some ((((s.setPte place frame).refInc frame).refDec frame).setThread t (nextInsert rest))
    | some _ => some (s.setThread t (.discarding place frame rest))
  | .discarding place frame rest =>
    some (((evictIfPhys s (l.backing place) frame).refDec frame).setThread t (nextInsert rest))
  | .updating file offset bytes => some ((updateRange s file offset bytes).setThread t .idle)
  | .truncating file oldSize newSize =>
    some ((truncateRange s file oldSize newSize).setThread t .idle)
  | .writingBack key frame next => some ((writebackFrame s key frame).setThread t next)
  | _ => none

/-- One event. -/
def step (s : State) : Event → Option State
  | .fault t place =>
    if t < l.threads ∧ place < l.places ∧ s.threads t = .idle
      then some (s.setThread t (.faulting place)) else none
  | .lookup t window =>
    match s.threads t with
    | .faulting place =>
      if ∀ p ∈ window, p < l.places then
        match lookupAndAcquire s (l.backing place) with
        | (s', some frame) => some (s'.setThread t (.hit place frame))
        | (s', none) => some (s'.setThread t (.reading true (place :: window) []))
      else none
    | _ => none
  | .stop t =>
    match s.threads t with
    | .reading _ _ got => some (s.setThread t (nextInsert got))
    | _ => none
  | .advance t => advance l s t
  | .store place i byte =>
    match s.pte place with
    | some frame =>
      if i < pageSize then
        some { s with mem := update s.mem frame (update (s.mem frame) i byte) }
      else none
    | none => none
  | .clear place =>
    match s.pte place with
    | some frame => some ((s.setPte place none).refDec frame)
    | none => none
  | .write t file offset bytes =>
    if t < l.threads ∧ s.threads t = .idle then
      some ((fsWrite s file offset bytes).setThread t (.updating file offset bytes))
    else none
  | .truncate t file newSize =>
    if t < l.threads ∧ s.threads t = .idle then
      some ((fsTruncate s file newSize).setThread t (.truncating file (s.size file) newSize))
    else none
  | .evict t key =>
    if t < l.threads ∧ s.threads t = .idle then
      match s.cache key with
      | some frame =>
        some (((s.cacheRemove key).refDec frame).setThread t (.writingBack key frame .idle))
      | none => some s
    else none

end Astryx.PageCache
