import Astryx.Lib.Transition
import Astryx.Paging.State

/-!
# System V shared memory segments

`shmget`, `shmat`, `shmdt` and `shmctl` (`ipc/sysv_shm.rs`) over the paging state, with the teardown
of an address space (`free_process_memory`, `free_vm_space`).

The frames of a segment carry no reference count. What keeps them is the segment table: `shmat`
counts an attachment in `refcount`, `shmdt` takes it back, and `IPC_RMID` gives the frames to the
page allocator when the count is zero. Leaves of a segment are recognised by the `Device` area that
`shmat` records.

Frames are numbered, so the frame at physical address `p` is `p / 4096`. `alloc_pages` answers with
any run of free frames or with none; the answer is part of the label. So is the set of pages for
which `map_page_in` finds no frame for a page table.
-/

namespace Astryx

open RefPool FirstMatch Function

/-- `IPC_PRIVATE` -/
def ipcPrivate : ℤ := 0

/-- `IPC_CREAT` -/
def ipcCreat : ℕ := 0o1000

/-- `IPC_EXCL` -/
def ipcExcl : ℕ := 0o2000

/-- `IPC_RMID` -/
def ipcRmid : ℤ := 0

/-- No such key. -/
def ENOENT : ℤ := -2

/-- No slot is left. -/
def ENOSPC : ℤ := -28

/-- `MAX_SEGMENTS` -/
def maxSegments : ℕ := 64

/-- `MAX_PAGES` of the page allocator. -/
def maxPages : ℕ := 2 ^ 20

/-- Attach counts are `u32`. -/
def attachWidth : ℕ := 2 ^ 32

/-- A slot of the segment table. -/
structure ShmSegment where
  id : ℕ
  key : ℤ
  size : ℕ
  physBase : ℕ
  refcount : ℕ
  inUse : Bool
  deriving DecidableEq, Repr

namespace ShmSegment

/-- A slot that is not in use. -/
def empty : ShmSegment := ⟨0, 0, 0, 0, 0, false⟩

/-- The frames of a segment. -/
def frames (seg : ShmSegment) : List ℕ :=
  (List.range (seg.size / 4096)).map (seg.physBase / 4096 + ·)

/-- In use, under the key. -/
def hasKey (key : ℤ) (seg : ShmSegment) : Bool := seg.inUse ∧ seg.key = key

/-- In use, under the id. -/
def hasId (shmid : ℕ) (seg : ShmSegment) : Bool := seg.inUse ∧ seg.id = shmid

/-- In use, at the address. -/
def hasPhys (physBase : ℕ) (seg : ShmSegment) : Bool := seg.inUse ∧ seg.physBase = physBase

/-- `seg.refcount += 1`. -/
def addRef (seg : ShmSegment) : ShmSegment :=
  { seg with refcount := (seg.refcount + 1) % attachWidth }

/-- `if seg.refcount > 0 { seg.refcount -= 1 }`. -/
def dropRef (seg : ShmSegment) : ShmSegment := { seg with refcount := seg.refcount - 1 }

end ShmSegment

/-- The segment table over the paging state. -/
structure ShmState where
  segs : List ShmSegment
  nextId : ℕ
  page : PageState

/-- No segment. -/
def ShmState.init (used : ℕ → Bool) (mem : ℕ → ℕ → ℕ) : ShmState :=
  { segs := List.replicate maxSegments .empty, nextId := 1, page := .init used mem }

/-- The address behind an area of a device. -/
def VmBacking.devicePhys : VmBacking → ℕ
  | .device physBase => physBase
  | _ => 0

/-- The pages of a size. -/
def pagesFor (size : ℕ) : ℕ := Word.sub (Word.add size 4096) 1 / 4096

namespace ShmState

variable (s : ShmState)

/-! ## `shmget` -/

/-- What `shmget` answers without creating anything. -/
def shmgetExisting (key : ℤ) (flags : ℕ) : Option ℤ :=
  if key = ipcPrivate then none
  else match s.segs.find? (ShmSegment.hasKey key) with
    | some seg => some (if flags &&& ipcCreat ≠ 0 ∧ flags &&& ipcExcl ≠ 0 then EEXIST else seg.id)
    | none => if flags &&& ipcCreat = 0 then some ENOENT else none

/-- The segment a successful `shmget` creates from the frame `start` on. -/
def newSegment (key : ℤ) (size start : ℕ) : ShmSegment :=
  { id := s.nextId, key, size, physBase := start * 4096, refcount := 0, inUse := true }

/-- The segment is entered in the first free slot; its frames are handed out and zeroed. -/
def create (seg : ShmSegment) : ShmState :=
  { s with
    segs := updateFirst (fun g => !g.inUse) (fun _ => seg) s.segs
    nextId := (s.nextId + 1) % 2 ^ 32
    page := { s.page with
      frames := s.page.frames.allocAll seg.frames
      mem := fun f o => if f ∈ seg.frames then 0 else s.page.mem f o } }

/-- The allocating half of `shmget`. -/
def shmgetCreate (key : ℤ) (size : ℕ) (answer : Option ℕ) : Option (ShmState × ℤ) :=
  if s.segs.all (·.inUse) then some (s, ENOSPC)
  else match answer with
    | none => some (s, ENOMEM)
    | some start =>
      let seg := s.newSegment key size start
      if size = 0 ∨ start + size / 4096 > maxPages ∨ seg.frames.any s.page.frames.used then none
      else some (s.create seg, s.nextId)

/-- The segment of a key, made if need be. -/
def shmget (key : ℤ) (size flags : ℕ) (answer : Option ℕ) : Option (ShmState × ℤ) :=
  if size = 0 then some (s, EINVAL)
  else match s.shmgetExisting key flags with
    | some r => some (s, r)
    | none => s.shmgetCreate key (pagesFor size * 4096) answer

variable {s} in
lemma shmget_cases {key : ℤ} {size flags : ℕ} {answer : Option ℕ} {s' : ShmState} {r : ℤ}
    (h : s.shmget key size flags answer = some (s', r)) :
    s' = s ∨ ∃ pages start, 0 < pages ∧ s' = s.create (s.newSegment key (pages * 4096) start) ∧
      ∀ f ∈ (s.newSegment key (pages * 4096) start).frames, s.page.frames.used f = false := by
  rw [shmget] at h
  split at h
  · exact .inl (Prod.mk.inj (Option.some.inj h)).1.symm
  split at h
  · exact .inl (Prod.mk.inj (Option.some.inj h)).1.symm
  obtain _ | start := answer
  · rw [shmgetCreate] at h
    split at h <;> exact .inl (Prod.mk.inj (Option.some.inj h)).1.symm
  rw [shmgetCreate] at h
  dsimp only at h
  split_ifs at h with hfull hbad
  · exact .inl (Prod.mk.inj (Option.some.inj h)).1.symm
  rw [not_or, not_or] at hbad
  refine .inr ⟨pagesFor size,
    start, by omega, (Prod.mk.inj (Option.some.inj h)).1.symm, fun f hf => ?_⟩
  rw [← Bool.not_eq_true]
  exact fun hused => hbad.2.2 (List.any_eq_true.mpr ⟨f, hf, hused⟩)

/-! ## `shmat` and `shmdt` -/

/-- The leaves `shmat` installs. The pages in `failed` got no page table. -/
def attachLeaves (pid vaddr : ℕ) (seg : ShmSegment) (failed : List ℕ) : List Leaf :=
  ((List.range (seg.size / 4096)).filter (· ∉ failed)).map fun i =>
    ⟨pid, (vaddr + i * 4096) % 2 ^ 48, seg.physBase / 4096 + i, true⟩

/-- `map_page_in` overwrites what is there. -/
def installLeaves (new old : List Leaf) : List Leaf :=
  new ++ old.filter fun l => !new.any fun k => k.pid = l.pid ∧ k.va = l.va

/-- The state after a successful attach at `vaddr`. -/
def attach (pid shmid vaddr : ℕ) (seg : ShmSegment) (failed : List ℕ) : ShmState :=
  { s with
    segs := updateFirst (ShmSegment.hasId shmid) ShmSegment.addRef s.segs
    page := { s.page with
      areas := update s.page.areas pid
        (Extents.place VmArea.base (shmArea vaddr seg.size seg.physBase) (s.page.areas pid))
      leaves := installLeaves (attachLeaves pid vaddr seg failed) s.page.leaves } }

@[simp] lemma attach_areas_self (pid shmid vaddr : ℕ) (seg : ShmSegment) (failed : List ℕ) :
    (s.attach pid shmid vaddr seg failed).page.areas pid =
      Extents.place VmArea.base (shmArea vaddr seg.size seg.physBase) (s.page.areas pid) :=
  update_self ..

lemma attach_areas_of_ne {pid q : ℕ} (h : q ≠ pid) (shmid vaddr : ℕ) (seg : ShmSegment)
    (failed : List ℕ) : (s.attach pid shmid vaddr seg failed).page.areas q = s.page.areas q :=
  update_of_ne h _ _

/-- `shmat`. A target past the user half would end in tables that all processes share, which this
state does not have; `ShmOp.Respects` leaves it out. -/
def shmat (pid shmid shmaddr : ℕ) (failed : List ℕ) : ShmState × ℤ :=
  match s.segs.find? (ShmSegment.hasId shmid) with
  | none => (s, EINVAL)
  | some seg =>
    let mapVaddr := shmTarget (s.page.areas pid) seg.size shmaddr
    if mapVaddr = 0 then
      -- the count that was taken first is given back
      let counted := updateFirst (ShmSegment.hasId shmid) ShmSegment.addRef s.segs
      ({ s with segs := updateFirst (ShmSegment.hasId shmid) ShmSegment.dropRef counted }, ENOMEM)
    else (s.attach pid shmid mapVaddr seg failed, asI64 mapVaddr)

/-- The leaves `shmdt` clears. -/
def detaches (pid : ℕ) (vma : VmArea) (l : Leaf) : Bool :=
  l.pid = pid ∧ walks vma.base (vma.base + vma.length / 4096 * 4096) l.va

/-- The state after the area `vma` was detached. -/
def detach (pid shmaddr : ℕ) (vma : VmArea) : ShmState :=
  { s with
    segs := updateFirst (ShmSegment.hasPhys vma.backing.devicePhys) ShmSegment.dropRef s.segs
    page := { s.page with
      areas := update s.page.areas pid ((s.page.areas pid).eraseP (·.isDeviceAt shmaddr))
      leaves := s.page.leaves.filter fun l => !detaches pid vma l } }

@[simp] lemma detach_areas_self (pid shmaddr : ℕ) (vma : VmArea) :
    (s.detach pid shmaddr vma).page.areas pid = (s.page.areas pid).eraseP (·.isDeviceAt shmaddr) :=
  update_self ..

lemma detach_areas_of_ne {pid q : ℕ} (h : q ≠ pid) (shmaddr : ℕ) (vma : VmArea) :
    (s.detach pid shmaddr vma).page.areas q = s.page.areas q :=
  update_of_ne h _ _

/-- Detaches the area at an address. -/
def shmdt (pid shmaddr : ℕ) : ShmState × ℤ :=
  match (s.page.areas pid).find? (·.isDeviceAt shmaddr) with
  | none => (s, EINVAL)
  | some vma => (s.detach pid shmaddr vma, 0)

/-! ## `shmctl` -/

/-- Frees a segment and its frames. -/
def remove (shmid : ℕ) (seg : ShmSegment) : ShmState :=
  { s with
    segs := updateFirst (ShmSegment.hasId shmid) (fun _ => .empty) s.segs
    page := { s.page with frames := s.page.frames.freeAll seg.frames } }

/-- `shmctl`. Of the commands only `IPC_RMID` changes the table, and only for a segment without
attachments. -/
def shmctl (shmid : ℕ) (cmd : ℤ) : ShmState × ℤ :=
  if cmd ≠ ipcRmid then (s, 0)
  else match s.segs.find? (ShmSegment.hasId shmid) with
    | none => (s, EINVAL)
    | some seg => if seg.refcount = 0 then (s.remove shmid seg, 0) else (s, 0)

end ShmState

/-! ## Teardown of an address space -/

/-- The leaves the teardown reads while it walks an area. -/
def Leaf.walkedIn (pid : ℕ) (a : VmArea) (l : Leaf) : Bool :=
  l.pid = pid ∧ walks a.base a.endAddr l.va

/-- The frames `free_process_memory` and `free_vm_space` drop a reference to: those of the leaves in
areas that are not device memory. An entry is read, not cleared, so a page in two areas counts
twice. -/
def PageState.dropped (s : PageState) (pid : ℕ) : List ℕ :=
  ((s.areas pid).filter fun a => !a.backing.isDevice).flatMap fun a =>
    (s.leaves.filter (Leaf.walkedIn pid a)).map Leaf.frame

/-- `free_process_memory` and `free_vm_space`; the page tables go at the end. -/
def PageState.freeVmSpace (s : PageState) (pid : ℕ) : PageState :=
  { s with
    areas := update s.areas pid []
    leaves := s.leaves.filter fun l => l.pid ≠ pid
    frames := s.frames.releaseAll (s.dropped pid) }

/-! ## Steps -/

/-- The calls that create, copy or drop mappings of segments, and the ones by which a process gets
and fills ordinary memory beside them. A `MAP_FIXED` replacement is `munmap` followed by
`mapArea`. -/
inductive ShmOp where
  | shmget (key : ℤ) (size flags : ℕ) (answer : Option ℕ)
  | shmat (pid shmid shmaddr : ℕ) (failed : List ℕ)
  | shmdt (pid shmaddr : ℕ)
  | shmctl (shmid : ℕ) (cmd : ℤ)
  | fork (parent child : ℕ)
  | freeVmSpace (pid : ℕ)
  | munmap (pid addr length : ℕ)
  | mapArea (pid : ℕ) (vma : VmArea)
  | anonFault (pid addr : ℕ) (access : FaultAccess) (f : ℕ)

/-- One call. -/
def shmStep (s : ShmState) : ShmOp → Option ShmState
  | .shmget key size flags answer => (s.shmget key size flags answer).map Prod.fst
  | .shmat pid shmid shmaddr failed => some (s.shmat pid shmid shmaddr failed).1
  | .shmdt pid shmaddr => some (s.shmdt pid shmaddr).1
  | .shmctl shmid cmd => some (s.shmctl shmid cmd).1
  | .fork parent child => (s.page.fork parent child).map fun page => { s with page }
  | .freeVmSpace pid => some { s with page := s.page.freeVmSpace pid }
  | .munmap pid addr length => some { s with page := s.page.munmap pid addr length }
  | .mapArea pid vma => (s.page.mapArea pid vma).map fun page => { s with page }
  | .anonFault pid addr access f =>
    (s.page.anonFault pid addr access f).map fun page => { s with page }

end Astryx
