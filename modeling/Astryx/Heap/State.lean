import Astryx.Lib.Transition
import Astryx.Lib.Word

/-!
# The kernel heap allocator

`LinkedListAllocator` keeps its bookkeeping in the memory it manages: a free block begins with a
`FreeBlock` (its size and the next free block), and an `AllocHeader` (the start and the size of the
block) stands in front of every pointer handed out. Memory is a map from the addresses of 8-byte
words to their contents; both records are two words, and all their addresses are multiples of 8. The
build is the one without `heap-canary`.

Where the source calls `heap_corrupt` the machine stops, so the functions return `Except`.
-/

namespace Astryx.Heap

/-- `HEAP_SIZE`, 256 MiB. -/
def heapSize : ℕ := 2 ^ 28

/-- `MIN_BLOCK_SIZE`, the size of a `FreeBlock`. -/
def minBlockSize : ℕ := 16

/-- `ALLOC_HEADER_SIZE` -/
def allocHeaderSize : ℕ := 16

/-- `MAX_WALK_ITERS` -/
def maxWalkIters : ℕ := heapSize / minBlockSize + 16

/-- Where physical memory is mapped. -/
def physOff : ℕ := 0xFFFF800000000000

/-- Why `heap_corrupt` was called. -/
inductive HeapCorrupt where
  | misaligned
  | beforeInit
  | outsideHeap
  | tooManyIterations
  deriving DecidableEq, Repr

/-- A `core::alloc::Layout`: the alignment is a power of two, and the size rounded up to it fits an
`isize`. -/
structure Layout where
  size : ℕ
  alignLog : ℕ
  valid : size + 2 ^ alignLog ≤ 2 ^ 63
  deriving DecidableEq

/-- The statics that `note_occupancy` keeps. -/
structure Occupancy where
  highWater : ℕ
  bandReported : ℕ
  bandPending : ℕ
  pressureWarned : Bool
  pressurePending : Bool
  deriving DecidableEq, Repr

/-- The bytes in use from which the heap counts as under pressure. -/
def pressureThresholdBytes : ℕ := heapSize / 5 * 3

/-- `note_occupancy`. -/
def Occupancy.note (o : Occupancy) (used : ℕ) : Occupancy :=
  if o.highWater < used then
    let band := used / (16 * 1024 * 1024)
    { o with
      highWater := used
      bandPending := if o.bandReported < band then band else o.bandPending
      pressurePending :=
        o.pressurePending || (decide (pressureThresholdBytes ≤ used) && !o.pressureWarned) }
  else o

/-- The allocator, the memory it manages and `HEAP_START_VA`. The null pointer is 0. -/
structure HeapState where
  mem : ℕ → ℕ
  heapStart : ℕ
  head : ℕ
  initialized : Bool
  totalBytes : ℕ
  allocatedBytes : ℕ
  occupancy : Occupancy

namespace HeapState

variable (h : HeapState)

/-- A word is stored. -/
def store (addr v : ℕ) : HeapState := { h with mem := Function.update h.mem addr v }

/-- Write a `FreeBlock`, or an `AllocHeader`. -/
def storePair (addr v w : ℕ) : HeapState := (h.store addr v).store (addr + 8) w

/-- Make `prev`, or the head if it is null, point to `next`. -/
def setNext (prev next : ℕ) : HeapState :=
  if prev = 0 then { h with head := next } else h.store (prev + 8) next

/-- The pointer can be that of a block. -/
def validateBlockPtr (p : ℕ) : Except HeapCorrupt Unit :=
  if p = 0 then .ok ()
  else if p % 8 ≠ 0 then .error .misaligned
  else if h.heapStart = 0 then .error .beforeInit
  else if p < h.heapStart ∨ h.heapStart + heapSize - minBlockSize < p then .error .outsideHeap
  else .ok ()

/-- `LinkedListAllocator::init` with `heap_size` bytes. -/
def init (start size : ℕ) : HeapState :=
  { h.storePair start size 0 with
    head := start
    totalBytes := size
    allocatedBytes := 0
    initialized := true }

end HeapState

/-! ## Allocation -/

/-- The exponent of `layout.align().max(align_of::<AllocHeader>())`. -/
def Layout.alignBits (layout : Layout) : ℕ := max layout.alignLog 3

/-- `data_start` for a block. -/
def dataStart (blockAddr : ℕ) (layout : Layout) : ℕ :=
  Word.alignUp layout.alignBits (Word.add blockAddr allocHeaderSize)

/-- `total_needed` for a block. -/
def totalNeeded (blockAddr : ℕ) (layout : Layout) : ℕ :=
  Word.alignUp 3 (Word.sub (Word.add (dataStart blockAddr layout) layout.size) blockAddr)

namespace HeapState

variable (h : HeapState)

/-- The walk of `alloc`: the first block that fits, with the one before it. `iters` is what is left
of the bound. -/
def findFit (layout : Layout) : (iters prev current : ℕ) → Except HeapCorrupt (Option (ℕ × ℕ))
  | 0, _, current => if current = 0 then .ok none else .error .tooManyIterations
  | iters + 1, prev, current =>
    if current = 0 then .ok none
    else if totalNeeded current layout ≤ h.mem current then .ok (some (prev, current))
    else do
      let next := h.mem (current + 8)
      h.validateBlockPtr next
      findFit layout iters current next

/-- The block is taken off the list, split if the rest is worth a free block; what is left, and the
size that is used. -/
def carve (layout : Layout) (prev blockAddr : ℕ) : HeapState × ℕ :=
  let blockSize := h.mem blockAddr
  let needed := totalNeeded blockAddr layout
  let remainder := blockSize - needed
  let nextBlock := h.mem (blockAddr + 8)
  if minBlockSize + 16 ≤ remainder then
    let newFree := Word.add blockAddr needed
    ((h.storePair newFree remainder nextBlock).setNext prev newFree, needed)
  else (h.setNext prev nextBlock, blockSize)

/-- The counters and the header of a block that is handed out as `data`. -/
def handOut (blockAddr headerBlockSize data : ℕ) : HeapState :=
  let used := Word.add h.allocatedBytes headerBlockSize
  { h.storePair (Word.sub data allocHeaderSize) blockAddr headerBlockSize with
    allocatedBytes := used
    occupancy := h.occupancy.note used }

/-- `alloc` once a block is found. -/
def takeBlock (layout : Layout) (prev blockAddr : ℕ) : Except HeapCorrupt (HeapState × ℕ) := do
  h.validateBlockPtr (h.mem (blockAddr + 8))
  let data := dataStart blockAddr layout
  let (h', headerBlockSize) := h.carve layout prev blockAddr
  .ok (h'.handOut blockAddr headerBlockSize data, data)

/-- `LinkedListAllocator::alloc`; the pointer is 0 if nothing fits. -/
def alloc (layout : Layout) : Except HeapCorrupt (HeapState × ℕ) :=
  if h.initialized then do
    h.validateBlockPtr h.head
    match ← h.findFit layout maxWalkIters 0 h.head with
    | none => .ok (h, 0)
    | some (prev, current) => h.takeBlock layout prev current
  else .ok (h, 0)

/-! ## Deallocation -/

/-- The walk of `insert_free_block`: the neighbours of the place of `addr` in the list. -/
def findSlot (addr : ℕ) : (iters prev current : ℕ) → Except HeapCorrupt (ℕ × ℕ)
  | 0, prev, current =>
    if current = 0 ∨ addr ≤ current then .ok (prev, current) else .error .tooManyIterations
  | iters + 1, prev, current =>
    if current = 0 ∨ addr ≤ current then .ok (prev, current)
    else do
      let next := h.mem (current + 8)
      h.validateBlockPtr next
      findSlot addr iters current next

/-- The block at `x` takes over the one at `y` that follows it. -/
def absorb (x y : ℕ) : HeapState :=
  h.storePair x (Word.add (h.mem x) (h.mem y)) (h.mem (y + 8))

/-- Puts a block into the list by its address and joins it with its neighbours. -/
def insertFreeBlock (addr size : ℕ) : Except HeapCorrupt HeapState := do
  h.validateBlockPtr h.head
  let (prev, current) ← h.findSlot addr maxWalkIters 0 h.head
  let h := (h.storePair addr size current).setNext prev addr
  let h := if current ≠ 0 ∧ Word.add addr size = current then h.absorb addr current else h
  let h := if prev ≠ 0 ∧ Word.add prev (h.mem prev) = addr then h.absorb prev addr else h
  .ok h

/-- Bytes are no longer allocated. -/
def uncount (size : ℕ) : HeapState := { h with allocatedBytes := h.allocatedBytes - size }

/-- Gives memory back by the header in front of it. -/
def dealloc (ptr : ℕ) : Except HeapCorrupt HeapState :=
  if ptr = 0 ∨ h.initialized = false then .ok h
  else do
    let header := ptr - allocHeaderSize
    let blockStart := h.mem header
    let blockSize := h.mem (header + 8)
    h.validateBlockPtr blockStart
    (h.uncount blockSize).insertFreeBlock blockStart blockSize

/-- The free list as it stands in memory, from the head on: addresses and sizes. -/
def freeList : List (ℕ × ℕ) := go maxWalkIters h.head
where
  go : (iters current : ℕ) → List (ℕ × ℕ)
  | 0, _ => []
  | iters + 1, current =>
    if current = 0 then [] else (current, h.mem current) :: go iters (h.mem (current + 8))

end HeapState

/-! ## Boot and runs -/

/-- The physical start of the heap from `compute_heap_layout`, for the end of the kernel image. -/
def heapPhysStart (kernelEndVa : ℕ) : ℕ :=
  max (Word.clearLow 21 (kernelEndVa - physOff + 0x1000 + (2 * 1024 * 1024 - 1))) 0x800000

/-- `heap::init` on an allocator that nobody used before; `none` if its assertion fails. -/
def boot (mem : ℕ → ℕ) (kernelEndVa : ℕ) : Option HeapState :=
  let phys := heapPhysStart kernelEndVa
  if phys + heapSize ≤ 0x40000000 then
    let start := phys + physOff
    let h : HeapState := ⟨mem, start, 0, false, 0, 0, ⟨0, 0, 0, false, false⟩⟩
    some (h.init start heapSize)
  else none

/-- A pointer in use, with the size it was asked for. -/
structure Live where
  ptr : ℕ
  size : ℕ
  deriving DecidableEq, Repr

/-- The heap and what its users hold. -/
structure HeapSystem where
  heap : HeapState
  live : List Live

/-- A call on the heap, or a store by a holder. -/
inductive HeapOp where
  | alloc (layout : Layout)
  | dealloc (ptr : ℕ)
  /-- The holder of `ptr` stores to a word of its memory. -/
  | write (ptr addr v : ℕ)
  deriving DecidableEq

/-- One call. -/
def heapStep (s : HeapSystem) : HeapOp → Option HeapSystem
  | .alloc layout =>
    match s.heap.alloc layout with
    | .ok (heap, ptr) => some ⟨heap, if ptr = 0 then s.live else ⟨ptr, layout.size⟩ :: s.live⟩
    | .error _ => none
  | .dealloc ptr =>
    if s.live.any (·.ptr == ptr) then
      match s.heap.dealloc ptr with
      | .ok heap => some ⟨heap, s.live.eraseP (·.ptr == ptr)⟩
      | .error _ => none
    else none
  | .write ptr addr v =>
    if s.live.any fun l =>
      l.ptr == ptr && decide (l.ptr ≤ addr ∧ addr < l.ptr + l.size ∧ addr % 8 = 0) then
      some { s with heap := s.heap.store addr v }
    else none

end Astryx.Heap
