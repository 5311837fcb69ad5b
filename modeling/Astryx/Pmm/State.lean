import Astryx.Lib.Toggle
import Astryx.Lib.Word

/-!
# The physical memory manager and the DMA pins

`BITMAP` has one bit a frame, set for a frame that may not be handed out; three counters and a
next-fit cursor go with it. A bit is a value of `ℕ → Bool` here, and a byte is eight of them. Next
to the bitmap the state holds what `free_page` consults before it clears a bit: the span of the
kernel image, the reference counts of the page tables, the pin word of each frame and the ring of
frees that an interrupt handler could not carry out.

The log is not part of the source. It records, in order, every bit that really changes and why, so
that the counters can be compared with what happened.
-/

namespace Astryx.Pmm

open Function

/-- `PAGE_SIZE` -/
def pageSize : ℕ := 4096

/-- `MAX_PAGES`, 4 GiB of frames. -/
def maxPages : ℕ := 1024 * 1024

/-- `BITMAP_SIZE`, in bytes. -/
def bitmapSize : ℕ := maxPages / 8

/-- `KERNEL_VIRT_BASE` -/
def kernelVirtBase : ℕ := 0xFFFF800000000000

/-- `BOOT_INFO_PHYS_BASE` -/
def bootInfoPhysBase : ℕ := 0x1000000

/-- `size_of::<BootInfo>()`: the magic, the framebuffer record, 256 entries of 24 bytes with their
count, and three addresses. -/
def bootInfoBytes : ℕ := 8 + 32 + (256 * 24 + 8) + 3 * 8

/-- `MemoryType` -/
inductive MemoryType where
  | reserved
  | available
  | acpiReclaimable
  | acpiNvs
  | kernel
  | bootloader
  | framebuffer
  deriving DecidableEq, Repr

/-- A region of the memory map. -/
structure MemoryMapEntry where
  memoryType : MemoryType
  physicalStart : ℕ
  pageCount : ℕ
  deriving DecidableEq, Repr

/-- What `init` reads: the fields of `BootInfo`, the linker symbol `__kernel_end` and the stack
pointer. -/
structure BootInfo where
  memoryMap : List MemoryMapEntry
  kernelPhysBase : ℕ
  kernelSize : ℕ
  kernelEndVa : ℕ
  rsp : ℕ
  deriving DecidableEq, Repr

/-- What can happen to a frame's bit. -/
inductive PmmEvent where
  /-- `init` found the frame in an `Available` entry. -/
  | offer (page : ℕ)
  /-- `init` or `reserve_range` took the frame out of circulation. -/
  | withdraw (page : ℕ)
  /-- An allocation returned the frame. -/
  | hand (page : ℕ)
  /-- `free_page` cleared the bit. -/
  | free (page : ℕ)
  deriving DecidableEq, Repr

namespace PmmEvent

/-- The page an event is about. -/
def page : PmmEvent → ℕ
  | offer p | withdraw p | hand p | free p => p

/-- The page is in use after the event. -/
def used : PmmEvent → Bool
  | offer _ | free _ => false
  | withdraw _ | hand _ => true

/-- It is an offer. -/
def isOffer : PmmEvent → Bool
  | offer _ => true
  | _ => false

/-- It is a withdrawal. -/
def isWithdraw : PmmEvent → Bool
  | withdraw _ => true
  | _ => false

/-- It is a release. -/
def isFree : PmmEvent → Bool
  | free _ => true
  | _ => false

end PmmEvent

/-- The pages of the loop `for page in a..b { if page < MAX_PAGES { .. } }` that reach its body. -/
def pagesIn (a b : ℕ) : List ℕ := List.range' a (min b maxPages - a)

/-! ## Boot -/

/-- The bitmap and the local counter of a loop over frames. -/
structure Sweep where
  bitmap : ℕ → Bool
  count : ℕ
  log : List PmmEvent

/-- The body of a loop that gives frames the bit of `mk page`: a frame that has it already is passed
over. -/
def sweepPage (mk : ℕ → PmmEvent) (w : Sweep) (page : ℕ) : Sweep :=
  if w.bitmap page = (mk page).used then w
  else
    { bitmap := update w.bitmap page (mk page).used
      count := w.count + 1
      log := w.log ++ [mk page] }

/-- The body of the loop over the `Available` entries. -/
def offerPage : Sweep → ℕ → Sweep := sweepPage .offer

/-- The body of every loop that reserves frames. -/
def withdrawPage : Sweep → ℕ → Sweep := sweepPage .withdraw

/-- `boot_info_phys_page_span`, its first two components. -/
def bootInfoPhysPageSpan : ℕ × ℕ :=
  (bootInfoPhysBase / pageSize, (bootInfoPhysBase + (bootInfoBytes - 1)) / pageSize)

/-- `kernel_end_phys` in `init`. -/
def BootInfo.kernelEndPhys (info : BootInfo) : ℕ :=
  max (Word.satAdd info.kernelPhysBase info.kernelSize) (info.kernelEndVa - kernelVirtBase)

/-- The pages that a region offers. -/
def MemoryMapEntry.pages (entry : MemoryMapEntry) : List ℕ :=
  if entry.memoryType = .available then
    pagesIn (entry.physicalStart / pageSize)
      (Word.add (entry.physicalStart / pageSize) entry.pageCount)
  else []

/-- The kernel image and 256 frames of slack. -/
def BootInfo.kernelPages (info : BootInfo) : List ℕ :=
  let kernelStart := info.kernelPhysBase / pageSize
  let imageBytes := info.kernelEndPhys - info.kernelPhysBase
  let kernelPages := Word.add imageBytes (pageSize - 1) / pageSize
  pagesIn kernelStart (kernelStart + kernelPages + 256)

/-- The window around the bootstrap stack, empty when the stack is in the higher half. -/
def BootInfo.stackPages (info : BootInfo) : List ℕ :=
  if info.rsp ≠ 0 ∧ info.rsp < kernelVirtBase then
    let curPage := info.rsp / pageSize
    (pagesIn (curPage - 128) (curPage + 4 + 1)).filter (· ≠ 0)
  else []

/-- All frames that `init` reserves, in the order of its four loops. -/
def BootInfo.reservations (info : BootInfo) : List ℕ :=
  info.kernelPages ++ pagesIn bootInfoPhysPageSpan.1 (bootInfoPhysPageSpan.2 + 1) ++ pagesIn 0 256
    ++ info.stackPages

/-- The statics of `pmm.rs` and `dma_pin.rs`, with the reference counts. -/
structure PmmState where
  bitmap : ℕ → Bool
  totalPages : ℕ
  usedPages : ℕ
  reservedPages : ℕ
  nextFitByte : ℕ
  kernelImagePhysBase : ℕ
  kernelImagePhysEnd : ℕ
  refcounts : ℕ → ℕ
  /-- `PINS`, absent until `dma_pin::init`. -/
  pins : Option (ℕ → ℕ)
  deferred : List ℕ
  deferredCursor : ℕ
  lastIdleDrainTick : ℕ
  log : List PmmEvent

/-- `MAX_PAGES` bits, all set. -/
def Sweep.start : Sweep := { bitmap := fun _ => true, count := 0, log := [] }

/-- The first loop of `init`. -/
def BootInfo.offers (info : BootInfo) : Sweep :=
  (info.memoryMap.flatMap (·.pages)).foldl offerPage Sweep.start

/-- The reserving loops of `init`, with `boot_reserved` counted from zero. -/
def BootInfo.bootSweep (info : BootInfo) : Sweep :=
  info.reservations.foldl withdrawPage { info.offers with count := 0 }

/-- `DEFERRED_CAP` -/
def deferredCap : ℕ := 256

/-- The allocator after `init`. -/
def init (info : BootInfo) : PmmState where
  bitmap := info.bootSweep.bitmap
  totalPages := info.offers.count
  usedPages := info.bootSweep.count
  reservedPages := info.bootSweep.count
  nextFitByte := 0
  kernelImagePhysBase := info.kernelPhysBase
  kernelImagePhysEnd := info.kernelEndPhys
  refcounts := fun _ => 0
  pins := none
  deferred := List.replicate deferredCap 0
  deferredCursor := 0
  lastIdleDrainTick := 0
  log := info.bootSweep.log

/-- One usable frame; the kernel image, the low megabyte and the stack lie elsewhere. -/
def loneFrame : BootInfo where
  memoryMap := [⟨.available, 0x1388000, 1⟩]
  kernelPhysBase := 0x100000
  kernelSize := 0x1000
  kernelEndVa := 0xFFFF800000101000
  rsp := 0xFFFF800000200000

/-! ## The pin word of a frame -/

/-- `word & COUNT_MASK`. -/
def pinCountOf (word : ℕ) : ℕ := word % 2 ^ 31

/-- `word & FREE_PENDING != 0`. -/
def freePending (word : ℕ) : Bool := word / 2 ^ 31 % 2 = 1

/-- `fetch_add(1)` on an `AtomicU32`. -/
def pinWord (word : ℕ) : ℕ := (word + 1) % 2 ^ 32

/-- `word | FREE_PENDING`, for a word without the bit. -/
def markWord (word : ℕ) : ℕ := word + 2 ^ 31

/-- What `mark_free_pending_if_pinned` does with the value it has loaded. -/
inductive MarkChoice where
  | notPinned
  | alreadyPending
  | mark (new : ℕ)
  deriving DecidableEq, Repr

/-- What freeing a page does to its word in the ledger. -/
def markChoice (cur : ℕ) : MarkChoice :=
  if pinCountOf cur = 0 then .notPinned
  else if freePending cur then .alreadyPending
  else .mark (markWord cur)

/-- What the last pin to go finds. -/
inductive UnpinResult where
  | noFree
  | freeDue
  | underflow
  deriving DecidableEq, Repr

/-- The value and the result of `unpin_ledger` once its exchange succeeds on `cur`. -/
def unpinWord (cur : ℕ) : ℕ × UnpinResult :=
  let count := pinCountOf cur
  if count = 0 then (cur, .underflow)
  else
    let newCount := count - 1
    let newVal := if newCount = 0 then 0 else (if freePending cur then 2 ^ 31 else 0) + newCount
    (newVal, if newCount = 0 ∧ freePending cur then .freeDue else .noFree)

namespace PmmState

variable (s : PmmState) (phys : ℕ)

/-! ## Freeing a frame -/

/-- The address is in the kernel's image. -/
def isKernelStaticPhys : Bool :=
  s.kernelImagePhysBase ≠ 0 ∧ s.kernelImagePhysEnd ≠ 0 ∧ s.kernelImagePhysBase ≤ phys ∧
    phys < s.kernelImagePhysEnd

/-- The mappings that share a frame. -/
def pteShareCount : ℕ :=
  if phys / pageSize < maxPages then s.refcounts (phys / pageSize) else 0

/-- `mark_free_pending_if_pinned`: whether the free is deferred. -/
def markFreePendingIfPinned : Bool × PmmState :=
  match s.pins with
  | none => (false, s)
  | some pins =>
    if phys / pageSize < maxPages then
      match markChoice (pins (phys / pageSize)) with
      | .notPinned => (false, s)
      | .alreadyPending => (true, s)
      | .mark new => (true, { s with pins := some (update pins (phys / pageSize) new) })
    else (false, s)

/-- The end of `free_page`, under `PMM_LOCK`: a frame whose bit is clear is refused. -/
def clearBit (page : ℕ) : PmmState :=
  if s.bitmap page then
    { s with
      bitmap := update s.bitmap page false
      usedPages := Word.sub s.usedPages 1
      log := s.log ++ [.free page] }
  else s

/-- Frees a page, unless it is the kernel's, shared or pinned. -/
def freePage : PmmState :=
  if maxPages ≤ phys / pageSize then s
  else if s.isKernelStaticPhys phys then s
  else if 0 < s.pteShareCount phys then s
  else
    match s.markFreePendingIfPinned phys with
    | (true, s') => s'
    | (false, s') => s'.clearBit (phys / pageSize)

/-! ## Pins -/

/-- A pin is taken. -/
def pin : PmmState :=
  match s.pins with
  | none => s
  | some pins =>
    if phys / pageSize < maxPages then
      { s with pins := some (update pins (phys / pageSize) (pinWord (pins (phys / pageSize)))) }
    else s

/-- A pin is given back to the ledger. -/
def unpinLedger : UnpinResult × PmmState :=
  match s.pins with
  | none => (.noFree, s)
  | some pins =>
    if phys / pageSize < maxPages then
      let (new, result) := unpinWord (pins (phys / pageSize))
      (result, { s with pins := some (update pins (phys / pageSize) new) })
    else (.noFree, s)

/-- The slots of the ring in the order in which a push that starts at `start` tries them. -/
def pushOrder (start : ℕ) : List ℕ := (List.range deferredCap).map fun i =>
    Word.add start i % deferredCap

/-- `push_deferred`. A full ring drops the frame. -/
def pushDeferred : PmmState :=
  if phys = 0 then s
  else
    let start := s.deferredCursor
    let s := { s with deferredCursor := Word.add start 1 }
    match (pushOrder start).find? fun i => s.deferred.getD i 0 = 0 with
    | some i => { s with deferred := s.deferred.set i phys }
    | none => s

/-- One slot of the loop of `drain_deferred`. -/
def drainSlot (i : ℕ) : PmmState :=
  if s.deferred.getD i 0 = 0 then s
  else { s with deferred := s.deferred.set i 0 }.freePage (s.deferred.getD i 0)

/-- Frees what the ring of deferred pages holds. -/
def drainDeferred : PmmState := (List.range deferredCap).foldl drainSlot s

/-- A pin is given back; a free that was due is done, or deferred. -/
def unpin (canFreeNow : Bool) : PmmState :=
  match s.unpinLedger phys with
  | (.freeDue, s') => if canFreeNow then s'.freePage phys else s'.pushDeferred phys
  | (.noFree, s') => s'
  | (.underflow, s') => s'

/-- `drain_deferred_if_due` at tick `now`. -/
def drainDeferredIfDue (now : ℕ) : PmmState :=
  if Word.sub now s.lastIdleDrainTick < 100 then s
  else { s with lastIdleDrainTick := now }.drainDeferred

/-! ## Allocating frames -/

/-- `BITMAP[byteIdx] == 0xFF`. -/
def byteFull (byteIdx : ℕ) : Bool := (List.range 8).all fun bit => s.bitmap (byteIdx * 8 + bit)

/-- One pass of the search: the first byte with a clear bit, and its first clear bit. -/
def searchBytes (first last : ℕ) : Option (ℕ × ℕ) :=
  (List.range' first (last - first)).findSome? fun byteIdx =>
    if s.byteFull byteIdx then none
    else ((List.range 8).find? fun bit => !s.bitmap (byteIdx * 8 + bit)).map fun bit =>
      (byteIdx, bit)

/-- `mark_page_used` for a frame that an allocation returns. -/
def take (page : ℕ) : PmmState :=
  { s with bitmap := update s.bitmap page true, log := s.log ++ [.hand page] }

/-- The next page from the cursor on. -/
def allocPageLocked : Option ℕ × PmmState :=
  let startByte := s.nextFitByte
  match (s.searchBytes startByte bitmapSize).or (s.searchBytes 0 startByte) with
  | some (byteIdx, bit) =>
    let page := byteIdx * 8 + bit
    (some (page * pageSize),
      { s.take page with
        usedPages := Word.add s.usedPages 1
        nextFitByte := (byteIdx + 1) % bitmapSize })
  | none => (none, s)

/-- `try_alloc_page` at tick `now`. -/
def tryAllocPage (now : ℕ) : Option ℕ × PmmState := (s.drainDeferredIfDue now).allocPageLocked

/-- `alloc_page`. When the bitmap is full the OOM killer may find a victim; `reaped` holds the
addresses that its exit path gives to `free_page` before the second attempt. -/
def allocPage (now : ℕ) (reaped : Option (List ℕ)) : Option ℕ × PmmState :=
  match s.tryAllocPage now with
  | (some addr, s') => (some addr, s')
  | (none, s') =>
    match reaped with
    | some frames => (frames.foldl freePage s').allocPageLocked
    | none => (none, s')

/-- The loop of `alloc_pages`: the start of the current run of clear bits and its length. -/
def findRun (count : ℕ) : List ℕ → ℕ → ℕ → Option ℕ
  | [], _, _ => none
  | page :: pages, start, found =>
    if s.bitmap page then findRun count pages start 0
    else
      let start := if found = 0 then page else start
      if found + 1 = count then some start
      else findRun count pages start (found + 1)

/-- The first run of pages that is long enough. -/
def allocPages (count : ℕ) : Option ℕ × PmmState :=
  if count = 0 then (none, s)
  else
    match s.findRun count (List.range maxPages) 0 0 with
    | some start =>
      (some (start * pageSize), { (List.range' start count).foldl take s with
        usedPages := Word.add s.usedPages count })
    | none => (none, s)

/-- The end of `reserve_range`, after its loop: the frames newly reserved are counted. -/
def publish (w : Sweep) : PmmState :=
  if 0 < w.count then
    { s with
      bitmap := w.bitmap
      usedPages := Word.add s.usedPages w.count
      reservedPages := Word.add s.reservedPages w.count
      log := w.log }
  else { s with bitmap := w.bitmap, log := w.log }

/-- Withdraws the pages of a range. -/
def reserveRange (start end_ : ℕ) : PmmState :=
  let startPage := start / pageSize
  let endPage := Word.add end_ (pageSize - 1) / pageSize
  s.publish ((pagesIn startPage endPage).foldl withdrawPage {
    bitmap := s.bitmap, count := 0, log := s.log })

/-- `bitmap_free` of `accounting_snapshot_locked`: the clear bits. -/
def bitmapFree : ℕ := ((Finset.range maxPages).filter fun page => s.bitmap page = false).card

end PmmState

/-! ## Runs -/

/-- A call. Those after `reserveRange` are not calls on the allocator: they bring the pins and the
reference counts into whatever state the rest of the kernel can bring them into. -/
inductive PmmOp where
  | allocPage (now : ℕ) (reaped : Option (List ℕ))
  | allocPages (count : ℕ)
  | freePage (phys : ℕ)
  | reserveRange (start end_ : ℕ)
  | drainDeferred
  | pin (phys : ℕ)
  | unpin (phys : ℕ) (canFreeNow : Bool)
  | initPins
  | setRefcount (page count : ℕ)
  deriving DecidableEq, Repr

/-- One call. -/
def pmmStep (s : PmmState) : PmmOp → PmmState
  | .allocPage now reaped => (s.allocPage now reaped).2
  | .allocPages count => (s.allocPages count).2
  | .freePage phys => s.freePage phys
  | .reserveRange start end_ => s.reserveRange start end_
  | .drainDeferred => s.drainDeferred
  | .pin phys => s.pin phys
  | .unpin phys canFreeNow => s.unpin phys canFreeNow
  | .initPins => { s with pins := s.pins.or (some fun _ => 0) }
  | .setRefcount page count => { s with refcounts := update s.refcounts page count }

/-- `init` and then the calls in order. -/
def pmmRun (info : BootInfo) (ops : List PmmOp) : PmmState := ops.foldl pmmStep (init info)

end Astryx.Pmm
