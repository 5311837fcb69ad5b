import Astryx.Lib.Transition
import Astryx.Vma.Coverage

/-!
# Threads that map and unmap concurrently

`sys_mmap` and `sys_munmap` drop the process-table lock while they clear page-table entries, and the
range being cleared is described by no area then. A reservation in the teardown table stands in for
the area.

A thread is followed from one critical section to the next. Each section is the function of
`Astryx.Vma.Syscalls` for that phase, run on the address space and the one table all address spaces
share; between two sections a thread clears one entry at a time or retires its reservation. The
deadline of a fixed mapping that waits for a teardown may pass at any time.

`commits` and the time stamps are kept for the statements only: a commit is later than the removal
that began a sweep exactly when its time is at least the sweep's mark.
-/

namespace Astryx

/-- The entry of the lowest table that the walk of an address ends at. -/
def entryOf (va : ℕ) : ℕ := va % 2 ^ 48 / 4096

/-- What phase 3 of `sys_mmap` works with. -/
structure Placement where
  call : MmapCall
  base : ℕ
  backing : VmBacking
  name : AreaName
  evictsLeft : ℕ

/-- A range whose records are gone and whose entries are being cleared from `next` on. -/
structure Sweep where
  lo : ℕ
  length : ℕ
  slot : Option ℕ
  next : ℕ
  mark : ℕ
  deriving DecidableEq, Repr

/-- Where `unmap_and_free_range_in` stops. -/
def Sweep.stop (w : Sweep) : ℕ := Word.satAdd w.lo w.length

/-- The sweep goes on to the next page. The counter wraps. -/
def Sweep.advance (w : Sweep) : Sweep := { w with next := Word.add w.next 0x1000 }

@[simp] lemma Sweep.advance_slot (w : Sweep) : w.advance.slot = w.slot := by rw [Sweep.advance]

/-- What a thread does next. -/
inductive Phase where
  /-- It is outside the two calls. -/
  | idle
  /-- A `MAP_FIXED` call after phase 1. -/
  | clearing (p : Placement)
  /-- A call before a section of phase 3. -/
  | placing (p : Placement)
  /-- A fixed mapping that found a reservation in its way. -/
  | awaiting (p : Placement)
  /-- A sweep, and the call to go on with after it. -/
  | sweeping (w : Sweep) (after : Option Placement)

/-- A thread and the address space it runs in. -/
structure Thread where
  space : ℕ
  phase : Phase

/-- A successful `insert_vma` of phase 3. -/
structure Commit where
  space : ℕ
  base : ℕ
  length : ℕ
  time : ℕ
  deriving DecidableEq, Repr

/-- Address spaces with their present entries, the teardown table and the threads. -/
structure MmSystem where
  spaces : ℕ → VmSpace
  present : ℕ → ℕ → Bool
  tds : Teardowns
  threads : List Thread
  commits : List Commit

/-- The slot that a sweep has. -/
def Phase.slot : Phase → Option ℕ
  | .sweeping w _ => w.slot
  | _ => none

/-- What a thread goes on with after a sweep. -/
def Phase.resume : Option Placement → Phase
  | some p => .placing p
  | none => .idle

/-- The thread sweeps. -/
def Phase.isSweeping : Phase → Bool
  | .sweeping .. => true
  | _ => false

namespace MmSystem

variable (s : MmSystem)

/-- What a critical section of a thread in `space` sees. -/
def mm (space : ℕ) : Mm := ⟨s.spaces space, s.tds⟩

/-- A thread gives the space back. -/
def leave (tid : ℕ) (th : Thread) (m : Mm) (phase : Phase) : MmSystem :=
  { s with
    spaces := Function.update s.spaces th.space m.space
    tds := m.tds
    threads := s.threads.set tid { th with phase } }

/-- The sweeps under way. -/
def inFlight : ℕ := s.threads.countP (·.phase.isSweeping)

/-- Phase 1 of `sys_mmap`. -/
def startMmap (tid : ℕ) (th : Thread) (c : MmapCall) : MmSystem :=
  if c.length = 0 then s
  else match c.mmapPhase1 (s.mm th.space) with
    | .error _ => s
    | .ok (base, backing, name) =>
      let p : Placement := ⟨c, base, backing, name, 2⟩
      s.leave tid th (s.mm th.space)
        (if c.isFixed && !c.isNoreplace then .clearing p else .placing p)

/-- The records of a range are dropped and the range is reserved. -/
def tearDown (tid : ℕ) (th : Thread) (lo length : ℕ) (after : Option Placement) : MmSystem :=
  s.leave tid th ((s.mm th.space).beginTeardown lo length).1
    (.sweeping ⟨lo, length, ((s.mm th.space).beginTeardown lo length).2, lo,
      s.commits.length⟩ after)

/-- The first section of `sys_munmap`. -/
def startMunmap (tid : ℕ) (th : Thread) (addr length : ℕ) : MmSystem :=
  if length = 0 ∨ addr % 4096 ≠ 0 then s else s.tearDown tid th addr (pageAlignUp length) none

/-- The present bit of the entry on the walk of `va`. -/
def setEntry (space va : ℕ) (b : Bool) : MmSystem :=
  { s with present := fun q e => if q = space ∧ e = entryOf va then b else s.present q e }

/-- One page of a sweep of user memory, where all leaves are small: the entry on its walk is
cleared. -/
def sweepPage (tid : ℕ) (th : Thread) (w : Sweep) (after : Option Placement) : MmSystem :=
  { s.setEntry th.space w.next false with
    threads := s.threads.set tid { th with phase := .sweeping w.advance after } }

/-- A section of phase 3. -/
def place (tid : ℕ) (th : Thread) (p : Placement) : MmSystem :=
  match p.call.mmapPhase3 p.backing p.name p.evictsLeft 8 p.base (s.mm th.space) with
  | (m, _, .done (some base)) =>
    { s.leave tid th m .idle with
      commits := ⟨th.space, base, p.call.roundedLength, s.commits.length⟩ :: s.commits }
  | (m, _, .done none) => s.leave tid th m .idle
  | (m, base, .evict slot) =>
    s.leave tid th m (.sweeping ⟨base, p.call.roundedLength, slot, base, s.commits.length⟩
      (some { p with base, evictsLeft := p.evictsLeft - 1 }))
  | (m, base, .awaitTeardown) => s.leave tid th m (.awaiting { p with base })

/-- A page fault inside an area puts an entry in place. -/
def fault (space va : ℕ) : MmSystem :=
  if (findVma (s.spaces space).areas va).isSome then s.setEntry space va true else s

end MmSystem

/-! ## Steps -/

/-- What a thread can do. -/
inductive ThreadOp where
  | mmap (c : MmapCall)
  | munmap (addr length : ℕ)
  | clear
  | sweep
  | retire
  | place
  | timeout

/-- A thread moves, or a page fault is served. -/
inductive MmOp where
  | thread (tid : ℕ) (op : ThreadOp)
  | fault (space va : ℕ)

/-- A step of the thread `th`, which is the one numbered `tid`. -/
def MmSystem.act (s : MmSystem) (tid : ℕ) (th : Thread) : ThreadOp → Option MmSystem
  | .mmap c => match th.phase with
    | .idle => some (s.startMmap tid th c)
    | _ => none
  | .munmap addr length => match th.phase with
    | .idle => some (s.startMunmap tid th addr length)
    | _ => none
  | .clear => match th.phase with
    | .clearing p => some (s.tearDown tid th p.base p.call.roundedLength (some p))
    | _ => none
  | .sweep => match th.phase with
    | .sweeping w after => if w.next < w.stop then some (s.sweepPage tid th w after) else none
    | _ => none
  | .retire => match th.phase with
    | .sweeping w after =>
      if w.next < w.stop then none
      else some (s.leave tid th ((s.mm th.space).endTeardown w.slot) (.resume after))
    | _ => none
  | .place => match th.phase with
    | .placing p | .awaiting p => some (s.place tid th p)
    | _ => none
  | .timeout => match th.phase with
    | .awaiting _ => some (s.leave tid th (s.mm th.space) .idle)
    | _ => none

/-- One section, or a fault. -/
def mmStep (s : MmSystem) : MmOp → Option MmSystem
  | .thread tid op => s.threads[tid]?.bind fun th => s.act tid th op
  | .fault space va => some (s.fault space va)

/-- Nobody is inside a call, and no reservation is out. -/
structure MmSystem.Fresh (s : MmSystem) : Prop where
  tds : s.tds = Teardowns.empty
  idle : ∀ th ∈ s.threads, th.phase = .idle
  commits : s.commits = []
  cr3 : ∀ space, (s.spaces space).cr3 ≠ 0 ∧ (s.spaces space).cr3 ≠ 2 ^ 64 - 1

end Astryx
