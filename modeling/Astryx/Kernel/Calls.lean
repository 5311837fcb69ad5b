import Astryx.Kernel.PageTable

/-!
# The page loops behind the memory calls

`mmap`, `munmap`, `mprotect`, `madvise`, `mremap` and `shmat` decide from their arguments and the
areas which page loops to run, and each loop then edits the page table one page at a time.
`UserCall.jobs` is the first part, `Job.step` one page of the second. A loop whose end saturates at
`2 ^ 64 - 1` never reaches it, so a call is followed step by step and not to a result.

None of the six calls compares its addresses with `USER_VA_LIMIT`. What they do to the upper half of
the table is therefore decided by the ranges of their loops alone.

`mremap` copies from ring 0. A page of the destination that is not present is faulted in on the way,
which is the work of the fault handler and not followed here; the stores of the copy are.
-/

namespace Astryx

open Machine

/-! ## Pages -/

/-- Drop the reference to a frame that was found at `pg`, and free it with the last one. -/
def releaseFrame (m : Machine) (pg phys : ℕ) : Machine :=
  let (rc, m) := m.pageRefDec phys
  if rc = 0 then m.log (.free pg phys) else m

/-- One page of `unmap_and_free_range_in`. -/
def sweepPage (m : Machine) (pg : ℕ) : Machine :=
  match m.virtToPhysIn pg with
  | none => m
  | some phys => releaseFrame (m.unmapPageIn pg) pg phys

/-- One page of the loop of `sys_mprotect`. -/
def retagPage (prot : ℕ) (m : Machine) (pg : ℕ) : Machine :=
  let pte := m.readPte pg
  if isPresent pte then
    let flags := pagePresent ||| pageUser |||
      (if prot &&& protWrite ≠ 0 then pageWritable else 0) |||
      (if prot &&& protExec = 0 then pageNoExecute else 0)
    m.writePte pg ((pte &&& addrMask) ||| flags)
  else m

/-- One page of the loop of `sys_madvise`. -/
def discardPage (m : Machine) (pg : ℕ) : Machine :=
  let pte := m.readPte pg
  if isPresent pte then
    releaseFrame (m.writePte pg 0) pg (pte &&& addrMask)
  else m

/-- What a loop does to each of its pages. -/
inductive PageWork where
  | sweep
  | retag (prot : ℕ)
  | discard
  deriving DecidableEq, Repr

/-- The work on one page. -/
def PageWork.run : PageWork → Machine → ℕ → Machine
  | .sweep => sweepPage
  | .retag prot => retagPage prot
  | .discard => discardPage

/-- A page loop in progress. -/
inductive Job where
  /-- Pages from `pg` while below `stop`; the counter wraps. -/
  | loop (work : PageWork) (pg stop : ℕ)
  /-- The frames of a segment from `phys` on are mapped at `pages` pages from `va` on. -/
  | attach (va phys pages : ℕ)
  /-- `preflight_mremap_dest` over the pages from `va` below `stop`. If a page cannot be resolved,
  or the range ran over the end of the address space (`whole` is false), the destination is unmapped
  instead of what follows. -/
  | resolve (areas : List VmArea) (va stop : ℕ) (whole : Bool) (undo : ℕ × ℕ)
  /-- Bytes are copied to `pages` pages from `va` on. -/
  | copy (va pages : ℕ)

/-- The next page of the first job. -/
def Job.step : Machine × List Job → Machine × List Job
  | (m, []) => (m, [])
  | (m, .loop work pg stop :: rest) =>
    if pg < stop then (work.run m pg, .loop work (Word.add pg 0x1000) stop :: rest) else (m, rest)
  | (m, .attach va phys pages :: rest) =>
    match pages with
    | 0 => (m, rest)
    | pages + 1 =>
      ((m.mapPageIn va phys (pagePresent ||| pageUser ||| pageWritable)).1,
        .attach (Word.add va 0x1000) (phys + 0x1000) pages :: rest)
  | (m, .resolve areas va stop whole undo :: rest) =>
    if m.tableHeld then (m, rest)
    else if va < stop then
      match resolveUserWritePage areas va 4 m with
      | (m, true) => (m, .resolve areas (Word.satAdd va 0x1000) stop whole undo :: rest)
      | (m, false) => (m, [.loop .sweep undo.1 undo.2])
    else if whole then (m, rest)
    else (m, [.loop .sweep undo.1 undo.2])
  | (m, .copy va pages :: rest) =>
    match pages with
    | 0 => (m, rest)
    | pages + 1 => (m.log (.bytes va), .copy (Word.add va 0x1000) pages :: rest)

/-! ## Calls -/

/-- The sweep over `[base, base + length)`, whose end saturates. -/
def sweepJob (base length : ℕ) : Job := .loop .sweep base (Word.satAdd base length)

/-- The sweeps of phase 3: one for each eviction. -/
def MmapCall.evictionJobs (c : MmapCall) (backing : VmBacking) (name : AreaName) :
    ℕ → ℕ → Mm → List Job
  | evictsLeft, base, m =>
    match c.mmapPhase3 backing name evictsLeft 8 base m with
    | (m', curBase, .evict slot) =>
      match evictsLeft with
      | 0 => []
      | n + 1 =>
        sweepJob curBase c.roundedLength :: evictionJobs c backing name n curBase
          (m'.endTeardown slot)
    | _ => []

/-- The loops of `sys_mmap`: a fixed mapping sweeps its range before it commits. -/
def mmapJobs (c : MmapCall) (m : Mm) : List Job :=
  if c.length = 0 then []
  else match c.mmapPhase1 m with
    | .error _ => []
    | .ok (base, backing, name) =>
      if c.isFixed && !c.isNoreplace then
        let (m', slot) := m.beginTeardown base c.roundedLength
        sweepJob base c.roundedLength :: c.evictionJobs backing name 2 base (m'.endTeardown slot)
      else c.evictionJobs backing name 2 base m

/-- The loop of `sys_munmap`. -/
def munmapJobs (addr length : ℕ) : List Job :=
  if length = 0 ∨ addr % 4096 ≠ 0 then [] else [sweepJob addr (pageAlignUp length)]

/-- The loop of `sys_mprotect`. -/
def mprotectJobs (addr len prot : ℕ) : List Job :=
  if len = 0 ∨ addr % 4096 ≠ 0 then []
  else [.loop (.retag prot) (pageAlignDown addr) (pageAlignUp (Word.add addr len))]

/-- The loop of `sys_madvise`; only `MADV_DONTNEED` and `MADV_FREE` have one. -/
def madviseJobs (addr len advice : ℕ) : List Job :=
  if advice ≠ 4 ∧ advice ≠ 8 ∨ len = 0 then []
  else [.loop .discard (pageAlignDown addr) (pageAlignUp (Word.add addr len))]

/-- The loop of `shmat`. -/
def shmatJobs (seg : ShmExtent) (shmaddr : ℕ) (m : Mm) : List Job :=
  let mapVaddr := shmTarget m.space.areas seg.size shmaddr
  if mapVaddr = 0 then [] else [.attach mapVaddr seg.physBase (seg.size / 4096)]

/-- The arguments of `mremap`, with the random words that a placement draws. -/
structure MremapCall where
  oldAddr : ℕ
  oldSize : ℕ
  newSize : ℕ
  flags : ℕ
  newAddr : ℕ
  draws : ℕ → ℕ → ℕ

/-- The anonymous read-write mapping `sys_mremap` asks `sys_mmap` for. -/
def MremapCall.mmapCall (c : MremapCall) (addrHint length flags : ℕ) : MmapCall :=
  { addrHint, length, prot := 3, flags := mapAnonymous ||| flags, fd := 2 ^ 64 - 1, offset := 0
    files := fun _ => none, framebuffer := none, draws := c.draws }

/-- The move of `bytes` bytes to a fresh mapping at `dest`, and the release of the old range. -/
def MremapCall.moveJobs (c : MremapCall) (areas : List VmArea) (dest bytes : ℕ) : List Job :=
  [.resolve areas dest (Word.satAdd dest bytes) (dest + bytes < 2 ^ 64)
      (dest, Word.satAdd dest (pageAlignUp c.newSize)),
    .copy dest ((bytes + 4095) / 4096)] ++ munmapJobs c.oldAddr c.oldSize

/-- The loops of `sys_mremap`. -/
def MremapCall.jobs (c : MremapCall) (m : Mm) : List Job :=
  if c.newSize = 0 then []
  else if c.newSize ≤ c.oldSize then
    if c.newSize < c.oldSize then
      munmapJobs (Word.add c.oldAddr c.newSize) (c.oldSize - c.newSize) else []
  else
    let extSize := c.newSize - c.oldSize
    let extAddr := Word.add c.oldAddr c.oldSize
    if c.flags &&& 2 = 0 then
      -- grow in place, on a range that must be free
      let grow := c.mmapCall extAddr extSize mapFixedNoreplace
      let (m', r) := sysMmap grow m
      mmapJobs grow m ++
        if r = asI64 extAddr then []
        else if c.flags &&& 1 ≠ 0 then
          let move := c.mmapCall 0 c.newSize 0
          let (m'', dest) := sysMmap move m'
          mmapJobs move m' ++
            if dest < 0 then [] else c.moveJobs m''.space.areas dest.toNat c.oldSize
        else []
    else
      let move := c.mmapCall c.newAddr c.newSize mapFixed
      let (m', dest) := sysMmap move m
      mmapJobs move m ++
        if dest < 0 then [] else c.moveJobs m'.space.areas dest.toNat (min c.oldSize c.newSize)

/-- A call, with what it reads of the caller's open files and of the segment it attaches. -/
inductive UserCall where
  | mmap (c : MmapCall)
  | munmap (addr length : ℕ)
  | mprotect (addr len prot : ℕ)
  | madvise (addr len advice : ℕ)
  | mremap (c : MremapCall)
  | shmat (seg : ShmExtent) (shmaddr : ℕ)

/-- The loops a call runs in the address space `m`, in order. -/
def UserCall.jobs (m : Mm) : UserCall → List Job
  | .mmap c => mmapJobs c m
  | .munmap addr length => munmapJobs addr length
  | .mprotect addr len prot => mprotectJobs addr len prot
  | .madvise addr len advice => madviseJobs addr len advice
  | .mremap c => c.jobs m
  | .shmat seg shmaddr => shmatJobs seg shmaddr m

end Astryx
