import Astryx.Lib.RefPool
import Astryx.Vma.Coverage

/-!
# Frames, page tables and the page cache

The state that `fork`, the page-fault handler, `mprotect`, `munmap` and the page cache share: the
areas of each process, the present 4 KiB user leaves of all page tables, the file pages held by the
cache, the 16-bit reference count and in-use bit of each frame, and the contents of the frames.

A leaf is `(pid, va, frame, writable)`; the user and no-execute bits of an entry decide nothing
here. All tables are kept in one list, so that the references to a frame can be counted. An address
space is named by the process it was made for.

The state is that of the pages below `TRAMPOLINE_VADDR`. The page there is the signal trampoline,
one frame that every process maps, that no area records and no count covers, and above it are the
kernel's own tables: neither is part of the state. `munmap` and `mprotect` check no such bound, so
the results ask it of their callers (`PageOp.Counted`).

The walk of a virtual address uses its bits 12 to 47 only (`(va >> 39) & 0x1FF` and so on), so an
address above `2 ^ 48` reaches the entry of the address below it. `walks` says which leaves a loop
over a range of pages reaches.

`clone_for_fork` returns early when a page-table frame cannot be allocated. What it has written by
then stays.
-/

namespace Astryx

open RefPool Function

/-- `USER_VA_LIMIT`: user addresses are below it. -/
def userVaLimit : ℕ := 0x800000000000

/-- `TRAMPOLINE_VADDR`: the page every process shares for returning from signal handlers. -/
def trampolineVaddr : ℕ := 0x7FFFFFFFF000

/-- Reference counts are `u16`. -/
def refWidth : ℕ := 2 ^ 16

/-- A present user leaf. -/
structure Leaf where
  pid : ℕ
  va : ℕ
  frame : ℕ
  writable : Bool
  deriving DecidableEq, Repr

/-- A file page, as the page cache names it. -/
structure CacheKey where
  mountIdx : ℕ
  inode : ℕ
  offset : ℕ
  deriving DecidableEq, Repr

/-- The shared paging state. -/
structure PageState where
  areas : ℕ → List VmArea
  leaves : List Leaf
  cache : List (CacheKey × ℕ)
  frames : Pool
  mem : ℕ → ℕ → ℕ

/-- Nothing is mapped or cached. The frames in use then belong to others, and carry no count. -/
def PageState.init (used : ℕ → Bool) (mem : ℕ → ℕ → ℕ) : PageState :=
  { areas := fun _ => [], leaves := [], cache := []
    frames := { count := fun _ => 0, used := used }, mem := mem }

/-! ## Looking things up -/

/-- The leaf of `pid` on the walk of `addr`. -/
def Leaf.maps (pid addr : ℕ) (l : Leaf) : Bool := l.pid = pid ∧ l.va = pageAlignDown addr

/-- The present leaf of `pid` for the page of `addr`. -/
def PageState.leafAt (s : PageState) (pid addr : ℕ) : Option Leaf :=
  s.leaves.find? (Leaf.maps pid addr)

lemma leafAt_spec {s : PageState} {pid addr : ℕ} {l : Leaf} (h : s.leafAt pid addr = some l) :
    l ∈ s.leaves ∧ l.pid = pid ∧ l.va = pageAlignDown addr :=
  ⟨List.mem_of_find?_eq_some h, of_decide_eq_true (List.find?_some (p := Leaf.maps pid addr) h)⟩

/-- The frame of a page in the cache. -/
def PageState.cached (s : PageState) (key : CacheKey) : Option ℕ :=
  (s.cache.find? fun e => e.1 = key).map Prod.snd

/-- The byte a process reads at `addr`, if the page is present. -/
def PageState.read (s : PageState) (pid addr : ℕ) : Option ℕ :=
  (s.leafAt pid addr).map fun l => s.mem l.frame (addr % 4096)

/-- A loop over the pages from `base` below `rangeEnd` reaches the leaf at `va`: the first page at
or above `base` whose bits 12 to 47 are those of `va` lies in the range. -/
def walks (base rangeEnd va : ℕ) : Bool :=
  base + (va + 2 ^ 48 - base % 2 ^ 48) % 2 ^ 48 < rangeEnd

/-- `write_fault_action`: a store through the area is to reach the shared frame. -/
def VmArea.isShared (a : VmArea) : Bool := a.flags &&& mapShared ≠ 0

/-- The area may be written. -/
def VmArea.isWritable (a : VmArea) : Bool := a.prot &&& protWrite ≠ 0

/-- The kinds of access that fault. -/
inductive FaultAccess where
  | instructionFetch | write | read
  deriving DecidableEq, Repr

/-- The protection allows the access. -/
def faultAccessPermitted (prot : ℕ) : FaultAccess → Bool
  | .instructionFetch => prot ≠ 0 ∧ prot &&& protExec ≠ 0
  | .write => prot ≠ 0 ∧ prot &&& protWrite ≠ 0
  | .read => prot ≠ 0 ∧ prot &&& (protRead ||| protWrite ||| protExec) ≠ 0

/-- A device range of the process, which `clone_for_fork` copies without counting. -/
def inDeviceRange (areas : List VmArea) (va : ℕ) : Bool :=
  areas.any fun a => a.backing.isDevice && a.contains va

namespace PageState

variable (s : PageState)

/-! ## Mapping and unmapping -/

/-- The commit of `sys_mmap`: `insert_vma` into the areas of `pid`, at a base that it has rounded to
a page. -/
def mapArea (pid : ℕ) (vma : VmArea) : Option PageState :=
  if vma.base % 4096 ≠ 0 then none
  else if (s.areas pid).any (·.overlaps vma.base vma.length) then some s
  else some { s with
    areas := update s.areas pid (Extents.place VmArea.base vma (s.areas pid)) }

/-- The pages `unmap_and_free_range_in` visits. The end of the range saturates, and the page counter
of a range that reaches it wraps to zero and goes on, so such a sweep visits every page. -/
def sweeps (base length va : ℕ) : Bool :=
  walks base (base + length) va || base + length ≥ 2 ^ 64

/-- A leaf of `pid` that the sweep visits. -/
def sweptBy (pid base length : ℕ) (l : Leaf) : Bool := l.pid = pid ∧ sweeps base length l.va

/-- `sys_munmap` of a range below the trampoline page: the records go, then every swept leaf with
its reference. -/
def munmap (pid addr length : ℕ) : PageState :=
  if length = 0 ∨ addr % 4096 ≠ 0 then s
  else
    let length := pageAlignUp length
    { s with
      areas := update s.areas pid ((s.areas pid).flatMap (carve addr length))
      leaves := s.leaves.filter fun l => !sweptBy pid addr length l
      frames := s.frames.releaseAll
        ((s.leaves.filter (sweptBy pid addr length)).map Leaf.frame) }

/-- A present leaf rewritten by `sys_mprotect` from the requested protection. -/
def retagLeaf (pid base rangeEnd prot : ℕ) (l : Leaf) : Leaf :=
  if l.pid = pid ∧ walks base rangeEnd l.va
    then { l with writable := prot &&& protWrite ≠ 0 } else l

/-- `sys_mprotect` of a range below the trampoline page: the areas are retagged, then every present
leaf of the range is rewritten from the requested protection. -/
def mprotect (pid addr len prot : ℕ) : PageState :=
  if len = 0 ∨ addr % 4096 ≠ 0 then s
  else
    let base := pageAlignDown addr
    let rangeEnd := pageAlignUp (Word.add addr len)
    { s with
      areas := update s.areas pid ((s.areas pid).flatMap (retag base rangeEnd prot))
      leaves := s.leaves.map (retagLeaf pid base rangeEnd prot) }

/-! ## Faults -/

/-- A not-present fault in an anonymous area, served with the free frame `f`. -/
def anonFault (pid addr : ℕ) (access : FaultAccess) (f : ℕ) : Option PageState :=
  match findVma (s.areas pid) addr with
  | none => some s
  | some vma =>
    if !faultAccessPermitted vma.prot access ∨ vma.backing ≠ .anonymous ∨
        (s.leafAt pid addr).isSome then some s
    else if s.frames.used f ∨ addr ≥ trampolineVaddr then none
    else some { s with
      leaves := ⟨pid, pageAlignDown addr, f, vma.isWritable⟩ :: s.leaves
      frames := s.frames.claim f
      mem := update s.mem f fun _ => 0 }

/-- The file page behind `addr` in a file-backed area. -/
def fileKey (vma : VmArea) (addr : ℕ) : Option CacheKey :=
  match vma.backing with
  | .file mountIdx inode offset _ =>
    some ⟨mountIdx, inode, Word.add offset (Word.sub (pageAlignDown addr) vma.base)⟩
  | _ => none

/-- The area and the frame of a not-present fault that finds its file page in the cache
(`lookup_and_acquire`). -/
def acquires (pid addr : ℕ) (access : FaultAccess) : Option (VmArea × ℕ) :=
  match findVma (s.areas pid) addr with
  | none => none
  | some vma =>
    if !faultAccessPermitted vma.prot access ∨ (s.leafAt pid addr).isSome then none
    else ((fileKey vma addr).bind s.cached).map fun phys => (vma, phys)

/-- Such a fault takes a guard reference. A private writable area then gets a copy in the free frame
`f` and the reference is dropped again; any other maps the cache frame and keeps it. -/
def fileFault (pid addr : ℕ) (access : FaultAccess) (f : ℕ) : Option PageState :=
  match s.acquires pid addr access with
  | none => some s
  | some (vma, phys) =>
    if addr ≥ trampolineVaddr then none
    else if vma.isWritable ∧ !vma.isShared then
      if s.frames.used f then none
      else some { s with
        leaves := ⟨pid, pageAlignDown addr, f, true⟩ :: s.leaves
        frames := ((s.frames.inc refWidth phys).claim f).dec phys
        mem := update s.mem f (s.mem phys) }
    else some { s with
      leaves := ⟨pid, pageAlignDown addr, phys, vma.isWritable⟩ :: s.leaves
      frames := s.frames.inc refWidth phys }

/-- The leaves with the one of `pid` at `addr` rewritten. -/
def rewriteLeaf (pid addr : ℕ) (g : Leaf → Leaf) : List Leaf :=
  FirstMatch.updateFirst (Leaf.maps pid addr) g s.leaves

/-- The copy-on-write arm: a write to a present leaf. A frame with more than one reference is copied
to the free frame `f`; the leaf of a sole owner, and any leaf of a shared area, is made writable in
place. A page that no area covers is treated as private and writable. -/
def writeFault (pid addr f : ℕ) : Option PageState :=
  if addr ≥ trampolineVaddr then none
  else match s.leafAt pid addr with
  | none => some s
  | some l =>
    let vma := findVma (s.areas pid) addr
    if vma.any fun a => !a.isWritable then some s
    else if vma.any VmArea.isShared ∨ s.frames.count l.frame ≤ 1 then
      some { s with leaves := s.rewriteLeaf pid addr fun k => { k with writable := true } }
    else if s.frames.used f then none
    else some { s with
      leaves := s.rewriteLeaf pid addr fun k => { k with frame := f, writable := true }
      frames := (s.frames.claim f).dec l.frame
      mem := update s.mem f (s.mem l.frame) }

/-! ## Fork -/

/-- The leaves a fork of `parent` write-protects and counts, as far as the walk has come. -/
def forkCounts (parent limit : ℕ) (l : Leaf) : Bool :=
  l.pid = parent ∧ l.va < limit ∧ !inDeviceRange (s.areas parent) l.va

/-- Their frames. -/
def forkCounted (parent limit : ℕ) : List ℕ :=
  (s.leaves.filter (s.forkCounts parent limit)).map Leaf.frame

/-- A leaf after the walk up to `limit`: what is counted is write-protected. -/
def forkProtect (parent limit : ℕ) (l : Leaf) : Leaf :=
  if s.forkCounts parent limit l then { l with writable := false } else l

/-- `clone_for_fork`, run to its end. The child is a process that has nothing yet. -/
def fork (parent child : ℕ) : Option PageState :=
  if child = parent ∨ s.areas child ≠ [] ∨ s.leaves.any (fun l => l.pid = child) then none
  else
    let protectedLeaves := s.leaves.map (s.forkProtect parent (2 ^ 48))
    some { s with
      areas := update s.areas child (s.areas parent)
      leaves := ((protectedLeaves.filter fun l => l.pid = parent).map fun l =>
        { l with pid := child }) ++ protectedLeaves
      frames := s.frames.incAll refWidth (s.forkCounted parent (2 ^ 48)) }

/-- `clone_for_fork` that runs out of page-table frames when its walk has come to `limit`. No
address space comes of it; the child that `fork_process` starts all the same runs in that of the
parent. -/
def forkOom (parent limit : ℕ) : PageState :=
  { s with
    leaves := s.leaves.map (s.forkProtect parent limit)
    frames := s.frames.incAll refWidth (s.forkCounted parent limit) }

/-! ## The page cache -/

/-- A page read into the free frame `f` and put into the cache: a guard reference, `cache::insert`
with the reference of the cache (which replaces and releases an older entry of the page), and the
guard dropped. -/
def cacheFill (key : CacheKey) (f : ℕ) (content : ℕ → ℕ) : Option PageState :=
  if s.frames.used f then none
  else
    let inserted := ((s.frames.alloc f).inc refWidth f).inc refWidth f
    let frames := match s.cached key with
      | some old => inserted.release old
      | none => inserted
    some { s with
      cache := (key, f) :: s.cache.eraseP fun e => e.1 = key
      frames := frames.dec f
      mem := update s.mem f content }

/-- The entries `truncate_range` evicts. -/
def truncates (mountIdx inode firstFullEvict : ℕ) (e : CacheKey × ℕ) : Bool :=
  e.1.mountIdx = mountIdx ∧ e.1.inode = inode ∧ e.1.offset ≥ firstFullEvict

/-- `truncate_range`: the tail of the page that holds the new end is cleared and the pages past it
leave the cache. -/
def truncateRange (mountIdx inode oldSize newSize : ℕ) : PageState :=
  let boundary := min oldSize newSize
  let firstFullEvict := pageAlignUp boundary
  let mem := match s.cached ⟨mountIdx, inode, pageAlignDown boundary⟩ with
    | some phys =>
      if boundary % 4096 ≠ 0 then
        update s.mem phys fun o => if o ≥ boundary % 4096 then 0 else s.mem phys o
      else s.mem
    | none => s.mem
  { s with
    cache := s.cache.filter fun e => !truncates mountIdx inode firstFullEvict e
    frames := s.frames.releaseAll
      ((s.cache.filter (truncates mountIdx inode firstFullEvict)).map Prod.snd)
    mem := mem }

/-- `cache::evict`: the entry goes and its reference is dropped; the frame is left to the caller. -/
def evict (key : CacheKey) : PageState :=
  match s.cached key with
  | none => s
  | some phys =>
    { s with
      cache := s.cache.eraseP fun e => e.1 = key
      frames := s.frames.dec phys }

/-! ## User stores -/

/-- A store succeeds exactly when the leaf is present and writable; otherwise it faults and changes
nothing by itself. -/
def store (pid addr value : ℕ) : PageState :=
  match s.leafAt pid addr with
  | some l =>
    if l.writable then
      let bytes := update (s.mem l.frame) (addr % 4096) value
      { s with mem := update s.mem l.frame bytes }
    else s
  | none => s

end PageState

/-! ## Steps -/

/-- What can happen, with its arguments and the frame the page allocator answers with. -/
inductive PageOp where
  | mapArea (pid : ℕ) (vma : VmArea)
  | munmap (pid addr length : ℕ)
  | mprotect (pid addr len prot : ℕ)
  | anonFault (pid addr : ℕ) (access : FaultAccess) (f : ℕ)
  | fileFault (pid addr : ℕ) (access : FaultAccess) (f : ℕ)
  | writeFault (pid addr f : ℕ)
  | fork (parent child : ℕ)
  | forkOom (parent limit : ℕ)
  | cacheFill (key : CacheKey) (f : ℕ) (content : ℕ → ℕ)
  | truncateRange (mountIdx inode oldSize newSize : ℕ)
  | evict (key : CacheKey)
  | store (pid addr value : ℕ)

/-- One step. A step that would use a frame the allocator cannot hand out, or commit an area off a
page boundary, does not exist. -/
def pageStep (s : PageState) : PageOp → Option PageState
  | .mapArea pid vma => s.mapArea pid vma
  | .munmap pid addr length => some (s.munmap pid addr length)
  | .mprotect pid addr len prot => some (s.mprotect pid addr len prot)
  | .anonFault pid addr access f => s.anonFault pid addr access f
  | .fileFault pid addr access f => s.fileFault pid addr access f
  | .writeFault pid addr f => s.writeFault pid addr f
  | .fork parent child => s.fork parent child
  | .forkOom parent limit => some (s.forkOom parent limit)
  | .cacheFill key f content => s.cacheFill key f content
  | .truncateRange mountIdx inode oldSize newSize =>
    some (s.truncateRange mountIdx inode oldSize newSize)
  | .evict key => some (s.evict key)
  | .store pid addr value => some (s.store pid addr value)

end Astryx
