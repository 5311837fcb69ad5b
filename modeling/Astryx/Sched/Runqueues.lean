import Astryx.Lib.FirstMatch
import Astryx.Lib.Transition
import Mathlib

/-!
# Per-CPU runqueues

The runqueues of `sched/percpu.rs`: one for each CPU, with one FIFO of thread ids for each priority
level, a bitmap of the levels in use, a count and the earliest deadline at which a waiting thread is
forced to run. They mirror the thread table. A thread records in its `mirrorSlot` where it is
queued; `mirrorMaintain`, called by the scheduler with the table locked, moves every thread from
there to its `desiredSlot`, then sets the deadlines, and on every sixteenth pass moves one more
thread to even out the load. `tryStealTo` moves a thread between passes, and `mirrorForget` takes a
thread off its queue before its record is removed.

The table is a list of records of which only the fields the runqueues read are kept. A `u32` or
`u64` counter is a natural number; the deadlines saturate as in the source. What the code reads from
elsewhere is part of the label of a step: the CPUs whose timer is dead, and the threads that are
still live on another CPU. Reschedule interrupts and the audit of every sixty-fourth pass change
nothing that is modelled.
-/

namespace Astryx.Sched

open Function

/-- The number of priority levels. -/
def nprio : ℕ := 32

/-- `MAX_CPUS` -/
def maxCpus : ℕ := 16

/-- The largest `u64`. -/
def u64Max : ℕ := 2 ^ 64 - 1

/-- Thread ids from here on are idle threads to the scheduler. -/
def idleTid : ℕ := 0x1000

/-! ## One runqueue -/

/-- The queue of a CPU. -/
structure PerCpuRq where
  /-- The threads waiting at each level, the next to run first. -/
  lists : ℕ → List ℕ
  bitmap : BitVec 32
  nrRunning : ℕ
  minDeadline : ℕ

namespace PerCpuRq

/-- The empty queue. -/
def new : PerCpuRq := ⟨fun _ => [], 0, 0, u64Max⟩

/-- The earliest deadline is published. -/
def setMinDeadline (q : PerCpuRq) (d : ℕ) : PerCpuRq := { q with minDeadline := d }

/-- A thread goes to the end of its level. -/
def enqueue (q : PerCpuRq) (tid prio : ℕ) : PerCpuRq :=
  let p := min prio (nprio - 1)
  { q with
    lists := update q.lists p (q.lists p ++ [tid])
    bitmap := q.bitmap ||| BitVec.twoPow 32 p
    nrRunning := q.nrRunning + 1 }

/-- A thread leaves its level, if it is there. -/
def dequeue (q : PerCpuRq) (tid prio : ℕ) : PerCpuRq × Bool :=
  let p := min prio (nprio - 1)
  if tid ∈ q.lists p then
    ({ q with
      lists := update q.lists p ((q.lists p).erase tid)
      bitmap := if (q.lists p).erase tid = [] then q.bitmap &&& ~~~ BitVec.twoPow 32 p else q.bitmap
      nrRunning := q.nrRunning - 1 }, true)
  else (q, false)

/-- `invariants_hold`: the bitmap and the count agree with the lists. -/
structure Consistent (q : PerCpuRq) : Prop where
  bitmap : ∀ p < nprio, q.bitmap.getLsbD p = !(q.lists p).isEmpty
  count : q.nrRunning = ∑ p ∈ Finset.range nprio, (q.lists p).length

end PerCpuRq

/-! ## Threads -/

/-- `ThreadState` -/
inductive ThreadState
  | ready
  | running
  | blocked
  | sleeping
  | dead
  deriving DecidableEq, Repr

/-- The fields of a thread that this part of the scheduler reads. -/
structure Thread where
  tid : ℕ
  state : ThreadState
  priority : ℕ
  cpuAffinity : Option ℕ
  lastCpu : ℕ
  readySinceTick : ℕ
  mirrorSlot : Option (ℕ × ℕ)
  ctxRspValid : Bool
  /-- It is the idle thread of an application processor, named `ap_idle_` by its creator. -/
  apIdle : Bool
  deriving DecidableEq

/-- How long a thread may wait, in ticks. -/
def forceDeadlineForTid (tid : ℕ) : ℕ := if tid = 0 then 1 else 100

namespace Thread

/-- The tick from which on a waiting thread is forced to run. -/
def deadline (t : Thread) : ℕ := min (t.readySinceTick + forceDeadlineForTid t.tid) u64Max

/-- The thread is to be in a queue. -/
def isMirroredRunnable (t : Thread) : Prop := t.state = .ready ∧ t.tid < idleTid

instance instDecidableIsMirroredRunnable (t : Thread) : Decidable t.isMirroredRunnable :=
  inferInstanceAs (Decidable (_ ∧ _))

end Thread

/-- The CPU a thread belongs to. -/
def targetCpuFor (affinity : Option ℕ) (lastCpu : ℕ) : ℕ :=
  let c := affinity.getD lastCpu
  if c < maxCpus then c else 0

/-- The slot a thread is to be in. -/
def Thread.desiredSlot (t : Thread) : Option (ℕ × ℕ) :=
  if t.isMirroredRunnable then some (targetCpuFor t.cpuAffinity t.lastCpu, t.priority) else none

/-- The slot is on the CPU. -/
def onCpu (cpu : ℕ) : Option (ℕ × ℕ) → Bool
  | some (c, _) => c == cpu
  | none => false

/-! ## The maintenance pass -/

/-- The queues of all CPUs. -/
abbrev Rqs := ℕ → PerCpuRq

/-- Depth of a runqueue from which on a waking thread goes elsewhere. -/
def rqOverloadThreshold : ℕ := 2

/-- `wake_target_with_loads`: the pin, the CPU the thread last ran on while its queue is short, or
the first of the least loaded ones. -/
def wakeTargetWithLoads (affinity : Option ℕ) (lastCpu ncpus : ℕ) (load : ℕ → ℕ) : ℕ :=
  match affinity with
  | some a => if a < maxCpus then a else 0
  | none =>
    if ncpus ≤ 1 then 0
    else
      let warm := min lastCpu (ncpus - 1)
      if load warm < rqOverloadThreshold then warm
      else (List.range ncpus).foldl
        (fun best cpu => if load cpu < load best then cpu else best) warm

/-- `cpu_wake_load`: a CPU whose timer is dead counts as full. -/
def cpuWakeLoad (timerDead : List ℕ) (cpu raw : ℕ) : ℕ :=
  if cpu ∈ timerDead then 2 ^ 32 - 1 else raw

/-- The load of each CPU as the placement sees it. -/
def loads (timerDead : List ℕ) (rqs : Rqs) (cpu : ℕ) : ℕ :=
  cpuWakeLoad timerDead cpu (rqs cpu).nrRunning

/-- A thread leaves its slot. -/
def dequeueSlot (rqs : Rqs) (tid : ℕ) : Option (ℕ × ℕ) → Rqs
  | some (cpu, prio) => update rqs cpu ((rqs cpu).dequeue tid prio).1
  | none => rqs

/-- A thread enters a slot. -/
def enqueueSlot (rqs : Rqs) (tid : ℕ) : Option (ℕ × ℕ) → Rqs
  | some (cpu, prio) => update rqs cpu ((rqs cpu).enqueue tid prio)
  | none => rqs

/-- A thread that has just become runnable and is not pinned is given a CPU. -/
def wakeEdge (ncpus : ℕ) (timerDead : List ℕ) (rqs : Rqs) (t : Thread) : Thread :=
  if 1 < ncpus ∧ t.mirrorSlot = none ∧ t.cpuAffinity = none ∧ t.isMirroredRunnable then
    { t with lastCpu := wakeTargetWithLoads t.cpuAffinity t.lastCpu ncpus (loads timerDead rqs) }
  else t

/-- The body of the loop over the table: one thread is moved from its slot to the one it should
have. -/
def reconcile (ncpus : ℕ) (timerDead : List ℕ) (rqs : Rqs) (t : Thread) : Rqs × Thread :=
  let t := wakeEdge ncpus timerDead rqs t
  if t.mirrorSlot = t.desiredSlot then (rqs, t)
  else (enqueueSlot (dequeueSlot rqs t.tid t.mirrorSlot) t.tid t.desiredSlot,
    { t with mirrorSlot := t.desiredSlot })

/-- `reconcile` for every thread in the order of the table. -/
def sweep (ncpus : ℕ) (timerDead : List ℕ) : Rqs → List Thread → Rqs × List Thread
  | rqs, [] => (rqs, [])
  | rqs, t :: ts =>
    let (rqs, t) := reconcile ncpus timerDead rqs t
    let (rqs, ts) := sweep ncpus timerDead rqs ts
    (rqs, t :: ts)

/-- The least deadline. -/
def earliest (ds : List ℕ) : ℕ := ds.foldr min u64Max

/-- The deadline of a runqueue, from the slots the threads should have. -/
def minsOf (ts : List Thread) (cpu : ℕ) : ℕ :=
  earliest ((ts.filter fun t => onCpu cpu t.desiredSlot).map Thread.deadline)

/-- `BALANCE_IMBALANCE_THRESHOLD` -/
def balanceImbalanceThreshold : ℕ := 2

/-- `BALANCE_EVERY_PASSES` -/
def balanceEveryPasses : ℕ := 16

/-- The first CPU with the most, or with the fewest, threads waiting. -/
def extremeCpu (before : ℕ → ℕ → Bool) (load : ℕ → ℕ) (ncpus : ℕ) : ℕ :=
  (List.range ncpus).foldl (fun best cpu => if before (load cpu) (load best) then cpu else best) 0

/-- Which of two threads is moved: the one that is due first, and of two due together the one with
the lower id. -/
def Thread.moreOverdue (t best : Thread) : Bool :=
  t.deadline < best.deadline || (t.deadline == best.deadline && t.tid < best.tid)

/-- A thread that may be moved off the CPU. -/
def Thread.movable (src : ℕ) (t : Thread) : Bool :=
  t.cpuAffinity.isNone && t.ctxRspValid && onCpu src t.mirrorSlot

/-- `pick_balance_victim`: the CPUs to move from and to, and the thread. -/
def pickBalanceVictim (load : ℕ → ℕ) (ncpus : ℕ) (ts : List Thread) : Option (ℕ × ℕ × Thread) :=
  let busiest := extremeCpu (fun a b => b < a) load ncpus
  let emptiest := extremeCpu (fun a b => a < b) load ncpus
  if busiest = emptiest ∨ load busiest - load emptiest < balanceImbalanceThreshold then none
  else
    let best := (ts.filter (Thread.movable busiest)).foldl
      (fun best t => match best with
        | some b => if t.moreOverdue b then some t else some b
        | none => some t) none
    best.map fun t => (busiest, emptiest, t)

/-- The thread after a migration. -/
def Thread.movedTo (t : Thread) (dst prio : ℕ) : Thread :=
  { t with lastCpu := dst, mirrorSlot := some (dst, prio) }

/-- `apply_balance_migration`. The victim's priority is the level of its slot. -/
def applyBalanceMigration (rqs : Rqs) (ts : List Thread) (src dst tid prio : ℕ) :
    Rqs × List Thread :=
  match (rqs src).dequeue tid prio with
  | (_, false) => (rqs, ts)
  | (q, true) =>
    let rqs := update rqs src q
    (update rqs dst ((rqs dst).enqueue tid prio),
      FirstMatch.updateFirst (fun t => t.tid == tid) (fun t => t.movedTo dst prio) ts)

/-! ## The table and its runqueues -/

/-- The table of threads and the queues. -/
structure State where
  threads : List Thread
  rqs : Rqs
  /-- `BALANCE_PASSES` -/
  balancePasses : ℕ
  cpuCount : ℕ

/-- No thread, and all queues empty. -/
def boot (cpuCount : ℕ) : State := ⟨[], fun _ => .new, 0, cpuCount⟩

/-- The CPUs that a pass looks at. -/
def State.ncpus (s : State) : ℕ := min s.cpuCount maxCpus

/-- The table after the loop of a pass, with the deadlines set. -/
def swept (timerDead : List ℕ) (s : State) : State :=
  let (rqs, ts) := sweep s.ncpus timerDead s.rqs s.threads
  { s with threads := ts, rqs := fun cpu => (rqs cpu).setMinDeadline (minsOf ts cpu) }

/-- The thread that a pass moves to even out the load, with the CPUs it is moved from and to. -/
def migration (timerDead : List ℕ) (s : State) : Option (ℕ × ℕ × Thread) :=
  if 1 < s.ncpus ∧ s.balancePasses % balanceEveryPasses = 0 then
    let s' := swept timerDead s
    pickBalanceVictim (loads timerDead s'.rqs) s.ncpus s'.threads
  else none

/-- A pass: the sweep, the deadlines, and now and then a migration. -/
def mirrorMaintain (timerDead : List ℕ) (s : State) : State :=
  let s' := swept timerDead s
  let passes := if 1 < s.ncpus then s.balancePasses + 1 else s.balancePasses
  match migration timerDead s with
  | some (src, dst, victim) =>
    let (rqs, ts) := applyBalanceMigration s'.rqs s'.threads src dst victim.tid
      ((victim.mirrorSlot.getD (0, 0)).2)
    { s' with threads := ts, rqs := rqs, balancePasses := passes }
  | none => { s' with balancePasses := passes }

/-- A thread that is removed leaves its slot. -/
def mirrorForget (rqs : Rqs) (slot : Option (ℕ × ℕ)) (tid : ℕ) : Rqs :=
  match slot with
  | some (cpu, prio) => if cpu < maxCpus then update rqs cpu ((rqs cpu).dequeue tid prio).1 else rqs
  | none => rqs

/-- The slot from which a thread may be stolen for a CPU: it waits on another CPU's queue, is not in
the middle of a switch, not live on another CPU, and not pinned elsewhere. -/
def Thread.stealSlot (dst : ℕ) (live : List ℕ) (t : Thread) : Option (ℕ × ℕ) :=
  if t.isMirroredRunnable ∧ t.ctxRspValid ∧ t.tid ∉ live ∧
    (t.cpuAffinity = none ∨ t.cpuAffinity = some dst) then
    match t.mirrorSlot with
    | some (cpu, prio) => if cpu ≠ dst ∧ cpu < maxCpus then some (cpu, prio) else none
    | none => none
  else none

/-- The loop of `try_steal_to`: the first thread that may be stolen and is where its slot says. -/
def stealFirst (dst : ℕ) (live : List ℕ) (rqs : Rqs) : List Thread → Option (Rqs × List Thread)
  | [] => none
  | t :: ts =>
    let skip := (stealFirst dst live rqs ts).map fun r => (r.1, t :: r.2)
    match t.stealSlot dst live with
    | none => skip
    | some (src, prio) =>
      match (rqs src).dequeue t.tid prio with
      | (_, false) => skip
      | (q, true) =>
        let rqs := update rqs src q
        some (update rqs dst ((rqs dst).enqueue t.tid t.priority), t.movedTo dst t.priority :: ts)

/-- A CPU takes a thread of the busiest other one. -/
def tryStealTo (dst : ℕ) (live : List ℕ) (s : State) : State :=
  if s.cpuCount ≤ 1 ∨ maxCpus ≤ dst then s
  else
    match stealFirst dst live s.rqs s.threads with
    | some (rqs, ts) => { s with rqs := rqs, threads := ts }
    | none => s

/-- What the rest of the kernel may set in a thread's record, with the table locked. -/
structure Edit where
  state : ThreadState
  priority : ℕ
  cpuAffinity : Option ℕ
  lastCpu : ℕ
  readySinceTick : ℕ
  ctxRspValid : Bool
  deriving DecidableEq

/-- Priorities are clamped where they are set, and a pin names a CPU. -/
def Edit.apply (e : Edit) (t : Thread) : Thread :=
  { t with
    state := e.state
    priority := min e.priority (nprio - 1)
    cpuAffinity := e.cpuAffinity
    lastCpu := e.lastCpu
    readySinceTick := e.readySinceTick
    ctxRspValid := e.ctxRspValid }

/-- A new record. -/
def Edit.spawn (e : Edit) (tid : ℕ) : Thread :=
  e.apply ⟨tid, .blocked, 0, none, 0, 0, none, true, false⟩

/-- The affinity is that of a CPU. -/
def Edit.namesCpu (e : Edit) : Bool := e.cpuAffinity.all (· < maxCpus)

/-- What changes the table or the queues. -/
inductive Op
  /-- A scheduling pass, with the CPUs whose timer is dead. -/
  | maintain (timerDead : List ℕ)
  /-- A CPU steals, with the threads that are live on other CPUs. -/
  | steal (dst : ℕ) (live : List ℕ)
  /-- A thread is added to the table. -/
  | spawn (tid : ℕ) (e : Edit)
  /-- A record is changed. -/
  | edit (tid : ℕ) (e : Edit)
  /-- A record is removed; the last one takes its place (`swap_remove`) or not (`retain`). -/
  | remove (tid : ℕ) (swap : Bool)
  /-- The number of CPUs that are online changes. -/
  | online (n : ℕ)
  deriving DecidableEq

/-- By `swap_remove` or `retain`. -/
def removeThread (tid : ℕ) (swap : Bool) (ts : List Thread) : List Thread :=
  let i := ts.findIdx fun t => t.tid == tid
  match swap, ts.getLast? with
  | true, some last => (ts.set i last).dropLast
  | _, _ => ts.eraseIdx i

/-- One operation. -/
def step (s : State) : Op → Option State
  | .maintain timerDead => some (mirrorMaintain timerDead s)
  | .steal dst live => some (tryStealTo dst live s)
  | .spawn tid e =>
    if tid ∈ s.threads.map Thread.tid ∨ e.namesCpu = false then none
    else some { s with threads := s.threads ++ [e.spawn tid] }
  | .edit tid e =>
    if e.namesCpu = false then none
    else some { s with threads := FirstMatch.updateFirst (fun t => t.tid == tid) e.apply s.threads }
  | .remove tid swap => (s.threads.find? fun t => t.tid == tid).map fun t =>
    { s with
      threads := removeThread tid swap s.threads, rqs := mirrorForget s.rqs t.mirrorSlot t.tid }
  | .online n => some { s with cpuCount := n }

end Astryx.Sched
