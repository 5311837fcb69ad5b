import Mathlib

/-!
# The futex wait queues

The wait map, the requeue-destination map and the thread table, with the operations of `sys_futex`
on them. A bucket that runs empty is dropped from the map, so a missing bucket is the empty list
here. Thread ids are unique, so the thread table is a partial map.

The user word an operation names is a `UserWord`: its virtual address, what `futex_shared_phys`
answered when the operation computed its key, and where the word lies when the operation reads it.
The two are looked up at different moments, so neither determines the other.

Every operation that may wake threads returns the ids it woke next to the value the caller gets.
-/

namespace Astryx.Futex

open Function

/-- `ThreadState` -/
inductive ThreadState where
  | ready
  | running
  | blocked
  | sleeping
  | dead
  deriving DecidableEq, Repr

/-- The fields of a thread that futexes read or write. -/
structure Thread where
  pid : ℕ
  state : ThreadState
  wakeTick : ℕ
  priority : ℕ
  deriving DecidableEq, Repr

/-- `THREAD_TABLE` -/
abbrev ThreadTable := ℕ → Option Thread

/-- A private key is `(pid, uaddr)`, a shared one `(FUTEX_SHARED_NS, phys)`. -/
abbrev FutexKey := ℕ × ℕ

/-- `u64::MAX`, which is also the wake tick of a wait without a timeout. -/
def u64Max : ℕ := 2 ^ 64 - 1

/-- `FUTEX_SHARED_NS` -/
def futexSharedNs : ℕ := u64Max

/-- The word has another value. -/
def EAGAIN : ℤ := -11

/-- Bad address. -/
def EFAULT : ℤ := -14

/-- Invalid argument. -/
def EINVAL : ℤ := -22

/-- Timed out. -/
def ETIMEDOUT : ℤ := -110

/-- A futex word as a caller names it. -/
structure UserWord where
  uaddr : ℕ
  /-- The answer of `futex_shared_phys`. -/
  sharedPhys : Option ℕ
  /-- Where the word lies, `none` if the pointer fails validation. -/
  phys : Option ℕ
  deriving DecidableEq, Repr

/-- `user_read_u32`. -/
def UserWord.read (w : UserWord) (mem : ℕ → BitVec 32) : Option (BitVec 32) :=
  if w.uaddr % 4 = 0 then w.phys.map mem else none

/-- `user_write_u32`. -/
def UserWord.write (w : UserWord) (mem : ℕ → BitVec 32) (v : BitVec 32) : Option (ℕ → BitVec 32) :=
  if w.uaddr % 4 = 0 then w.phys.map fun p => update mem p v else none

/-- The bucket of a word: by its frame if it is shared and mapped. -/
def futexKey (isPrivate : Bool) (pid : ℕ) (w : UserWord) : FutexKey :=
  if isPrivate then (pid, w.uaddr)
  else
    match w.sharedPhys with
    | some phys => (futexSharedNs, phys)
    | none => (pid, w.uaddr)

/-- `FUTEX_WAITERS`, `FUTEX_REQUEUE_DEST`, `THREAD_TABLE`, user memory by physical address, and
whether a reschedule was requested. -/
structure FutexState where
  waiters : FutexKey → List ℕ
  requeueDest : ℕ × ℕ → Option FutexKey
  threads : ThreadTable
  mem : ℕ → BitVec 32
  resched : Bool

/-- What a wake-class operation leaves, the threads it chose to wake, and the value it returns. -/
structure Reply where
  state : FutexState
  woken : List ℕ
  ret : ℤ

/-! ## Waking -/

/-- The `Blocked → Ready` transition of a wake, with `apply_wake_boost`. -/
def Thread.wake (th : Thread) : Thread :=
  { th with state := .ready, wakeTick := 0, priority := min (th.priority + 2) 31 }

namespace ThreadTable

variable (threads : ThreadTable)

/-- The thread is blocked. -/
def isBlocked (tid : ℕ) : Bool := (threads tid).any (·.state == .blocked)

variable {threads} in
lemma isBlocked_iff {tid : ℕ} : threads.isBlocked tid ↔
    ∃ th, threads tid = some th ∧ th.state = .blocked := by
  cases h : threads tid <;> simp [isBlocked, h]

/-- A blocked thread becomes ready. -/
def wake (tid : ℕ) : ThreadTable :=
  update threads tid
    ((threads tid).map fun th => if th.state = .blocked then th.wake else th)

/-- The priority of a thread. -/
def priority (tid : ℕ) : ℕ := (threads tid).elim 0 (·.priority)

/-- The highest priority among threads. -/
def maxPriority (tids : List ℕ) : ℕ := tids.foldl (fun m tid => max m (threads.priority tid)) 0

end ThreadTable

/-- The loop of `futex_wake_bucket_live`: the threads after it, the ids woken and the list that is
left. A wake slot is spent on a blocked thread only, any other entry it passes is dropped. -/
def wakeScan : List ℕ → ThreadTable → ℕ → ThreadTable × List ℕ × List ℕ
  | [], threads, _ => (threads, [], [])
  | tid :: list, threads, 0 => (threads, [], tid :: list)
  | tid :: list, threads, n + 1 =>
    if threads.isBlocked tid then
      let r := wakeScan list (threads.wake tid) n
      (r.1, tid :: r.2.1, r.2.2)
    else wakeScan list threads (n + 1)

namespace FutexState

variable (s : FutexState)

/-- A reschedule is requested when a woken thread outranks the caller. -/
def reschedules (threads : ThreadTable) (woken : List ℕ) (curTid : ℕ) : Bool :=
  s.resched || decide (s.threads.priority curTid < threads.maxPriority woken)

/-- Wakes the first blocked threads of a bucket. -/
def futexWakeBucketLive (key : FutexKey) (maxWake curTid : ℕ) : FutexState × List ℕ :=
  let r := wakeScan (s.waiters key) s.threads maxWake
  ({ s with
      waiters := update s.waiters key r.2.2
      threads := r.1
      resched := s.reschedules r.1 r.2.1 curTid }, r.2.1)

end FutexState

/-- `if val == 0 { u64::MAX } else { val }`. -/
def wakeLimit (val : ℕ) : ℕ := if val = 0 then u64Max else val

namespace FutexState

variable (s : FutexState)

/-- `FUTEX_WAKE` -/
def futexWake (isPrivate : Bool) (pid curTid : ℕ) (w : UserWord) (val : ℕ) : Reply :=
  let r := s.futexWakeBucketLive (futexKey isPrivate pid w) (wakeLimit val) curTid
  ⟨r.1, r.2, r.2.length⟩

/-- `futex_wake_for_exit`. It takes the first entries of the bucket whatever their state. -/
def futexWakeForExit (pid uaddr maxWake : ℕ) : Reply :=
  let list := s.waiters (pid, uaddr)
  let ready (threads : ThreadTable) (tid : ℕ) : ThreadTable :=
    update threads tid
      ((threads tid).map fun th => if th.state = .blocked then { th with state := .ready } else th)
  ⟨{ s with
      waiters := update s.waiters (pid, uaddr) (list.drop maxWake)
      threads := (list.take maxWake).foldl ready s.threads }, list.take maxWake, 0⟩

/-! ## Waiting -/

end FutexState

/-- The timeout of a wait. A relative one has been turned into the tick it ends at. -/
inductive Timeout where
  | indefinite
  | relative (wakeTick : ℕ)
  | alreadyExpired
  deriving DecidableEq, Repr

/-- What the check of the word found. -/
inductive FutexWaitOutcome where
  | enqueued
  | valueMismatch
  | fault
  deriving DecidableEq, Repr

/-- A wait returns at once, or sleeps and cleans up under `waitKey` afterwards. -/
inductive WaitReply where
  | returns (ret : ℤ)
  | sleeps (waitKey : FutexKey)
  deriving DecidableEq, Repr

/-- `list.remove(list.iter().rposition(|&x| x == tid))`. -/
def eraseLast (tid : ℕ) (list : List ℕ) : List ℕ := (list.reverse.erase tid).reverse

namespace FutexState

variable (s : FutexState)

/-- Reads the word and joins the bucket if it has the value. -/
def futexWaitCheckAndEnqueue (key : FutexKey) (val tid wakeTick : ℕ)
    (readU32 : Option (BitVec 32)) :
    FutexState × FutexWaitOutcome :=
  match readU32 with
  | none => (s, .fault)
  | some current =>
    if current ≠ BitVec.ofNat 32 val then (s, .valueMismatch)
    else
      let waiters := update s.waiters key (s.waiters key ++ [tid])
      match s.threads tid with
      | none => ({ s with waiters }, .enqueued)
      | some t =>
        if t.state = .dead then
          -- the process is exiting on another processor: the push is undone
          ({ s with waiters := update waiters key (eraseLast tid (waiters key)) }, .enqueued)
        else
          ({ s with
              waiters
              threads := update s.threads tid (some { t with state := .blocked, wakeTick }) },
            .enqueued)

/-- `FUTEX_WAIT` up to `schedule()`. A pointer that fails the check made before the lock fails the
read. -/
def futexWait (isPrivate : Bool) (pid tid : ℕ) (w : UserWord) (val : ℕ) (timeout : Timeout) :
    FutexState × WaitReply :=
  match timeout with
  | .alreadyExpired => (s, .returns ETIMEDOUT)
  | .indefinite => park u64Max
  | .relative wakeTick => park wakeTick
where
  park (wakeTick : ℕ) : FutexState × WaitReply :=
    let key := futexKey isPrivate pid w
    match s.futexWaitCheckAndEnqueue key val tid wakeTick (w.read s.mem) with
    | (s', .enqueued) => (s', .sleeps key)
    | (s', .valueMismatch) => (s', .returns EAGAIN)
    | (s', .fault) => (s', .returns EFAULT)

/-- `FUTEX_WAIT` after `schedule()`: the waiter takes itself off the bucket it sits in. It timed out
if it was still there. -/
def futexWaitCleanup (pid tid : ℕ) (waitKey : FutexKey) : FutexState × ℤ :=
  let key := (s.requeueDest (pid, tid)).getD waitKey
  let list := s.waiters key
  let kept := list.filter (· ≠ tid)
  ({ s with
      waiters := update s.waiters key kept
      requeueDest := update s.requeueDest (pid, tid) none },
    if kept.length < list.length then ETIMEDOUT else 0)

end FutexState

/-! ## Requeueing -/

/-- The loop of `FUTEX_REQUEUE` over the source bucket: the ids to wake and the ids to move. While
wake slots are left an entry that is not blocked is dropped; past both limits every entry is. -/
def requeueScan (threads : ThreadTable) : List ℕ → ℕ → ℕ → List ℕ × List ℕ
  | [], _, _ => ([], [])
  | tid :: src, w + 1, r =>
    if threads.isBlocked tid then
      let l := requeueScan threads src w r
      (tid :: l.1, l.2)
    else requeueScan threads src (w + 1) r
  | tid :: src, 0, r + 1 =>
    let l := requeueScan threads src 0 r
    (l.1, tid :: l.2)
  | _ :: src, 0, 0 => requeueScan threads src 0 0

namespace FutexState

variable (s : FutexState)

/-- `FUTEX_REQUEUE` on the two keys. The destination records are entered under the caller's process
id. -/
def requeueWaiters (pid curTid : ℕ) (srcKey dstKey : FutexKey) (maxWake maxRequeue : ℕ) : Reply :=
  let l := requeueScan s.threads (s.waiters srcKey) maxWake maxRequeue
  let waiters := update s.waiters srcKey []
  let threads := l.1.foldl ThreadTable.wake s.threads
  ⟨{ s with
      waiters := update waiters dstKey (waiters dstKey ++ l.2)
      requeueDest := l.2.foldl (fun dest tid => update dest (pid, tid) (some dstKey)) s.requeueDest
      threads
      resched := s.reschedules threads l.1 curTid }, l.1, l.1.length⟩

/-- The check of `FUTEX_CMP_REQUEUE`, which passes the expected value `val3`; the error if it
fails. -/
def cmpRequeueCheck (w : UserWord) : Option ℕ → Option ℤ
  | none => none
  | some val3 =>
    match w.read s.mem with
    | none => some EFAULT
    | some current => if current ≠ BitVec.ofNat 32 val3 then some EAGAIN else none

/-- `FUTEX_REQUEUE`, and `FUTEX_CMP_REQUEUE` if there is a `val3`. -/
def futexRequeue (isPrivate : Bool) (pid curTid : ℕ) (w w2 : UserWord) (val val2 : ℕ)
    (val3 : Option ℕ) : Reply :=
  match s.cmpRequeueCheck w val3 with
  | some err => ⟨s, [], err⟩
  | none =>
    s.requeueWaiters pid curTid (futexKey isPrivate pid w) (futexKey isPrivate pid w2) val val2

end FutexState

/-! ## `FUTEX_WAKE_OP` -/

/-- The low 12 bits as a signed number. -/
def sext12 (v : BitVec 32) : BitVec 32 :=
  let v := v &&& 0xFFF
  if v &&& 0x800 ≠ 0 then v - 0x1000 else v

/-- The argument of the operation. -/
def wakeOpArg (encodedOp : BitVec 32) : BitVec 32 :=
  let oparg := sext12 (encodedOp >>> 12)
  if encodedOp &&& 0x80000000 ≠ 0 then
    let oparg := if 0 ≤ oparg.toInt ∧ oparg.toInt ≤ 31 then oparg else oparg &&& 31
    (1 : BitVec 32) <<< (oparg &&& 31)
  else oparg

/-- The value to store, `none` for an unknown operation. -/
def wakeOpValue (encodedOp oldval : BitVec 32) : Option (BitVec 32) :=
  let oparg := wakeOpArg encodedOp
  match ((encodedOp >>> 28) &&& 0x7).toNat with
  | 0 => some oparg
  | 1 => some (oldval + oparg)
  | 2 => some (oldval ||| oparg)
  | 3 => some (oldval &&& ~~~oparg)
  | 4 => some (oldval ^^^ oparg)
  | _ => none

/-- Whether the comparison holds, `none` for an unknown one. -/
def wakeOpCompare (encodedOp oldval : BitVec 32) : Option Bool :=
  let cmparg := sext12 encodedOp
  match ((encodedOp >>> 24) &&& 0xF).toNat with
  | 0 => some (oldval == cmparg)
  | 1 => some (oldval != cmparg)
  | 2 => some (oldval.slt cmparg)
  | 3 => some (oldval.sle cmparg)
  | 4 => some (cmparg.slt oldval)
  | 5 => some (cmparg.sle oldval)
  | _ => none

namespace FutexState

variable (s : FutexState)

/-- `FUTEX_WAKE_OP`. An unknown comparison is reported after the store and the first wake. -/
def futexWakeOp (isPrivate : Bool) (pid curTid : ℕ) (w w2 : UserWord) (val val2 val3 : ℕ) : Reply :=
  let encodedOp := BitVec.ofNat 32 val3
  match w2.read s.mem with
  | none => ⟨s, [], EFAULT⟩
  | some oldval =>
    match wakeOpValue encodedOp oldval with
    | none => ⟨s, [], EINVAL⟩
    | some newval =>
      match w2.write s.mem newval with
      | none => ⟨s, [], EFAULT⟩
      | some mem =>
        let r := { s with mem }.futexWakeBucketLive (futexKey isPrivate pid w)
          (wakeLimit val) curTid
        match wakeOpCompare encodedOp oldval with
        | none => ⟨r.1, r.2, EINVAL⟩
        | some false => ⟨r.1, r.2, r.2.length⟩
        | some true =>
          let r2 := r.1.futexWakeBucketLive (futexKey isPrivate pid w2) (wakeLimit val2) curTid
          ⟨r2.1, r.2 ++ r2.2, (r.2 ++ r2.2).length⟩

/-! ## Timer and process exit -/

/-- The tick readies threads whose time has come. -/
def dueWakeScan (now : ℕ) : FutexState :=
  { s with
    threads := fun tid => (s.threads tid).map fun th =>
      if th.state = .sleeping ∧ th.wakeTick ≤ now then { th with state := .ready }
      else if th.state = .blocked ∧ th.wakeTick ≠ u64Max ∧ th.wakeTick ≤ now then
        { th with state := .ready }
      else th }

/-- The first half of `exit_group_inner`: every thread of the process but the caller is marked
dead. -/
def markDead (pid callingTid : ℕ) : FutexState :=
  { s with
    threads := fun tid => (s.threads tid).map fun th =>
      if th.pid = pid ∧ tid ≠ callingTid ∧ th.state ≠ .dead then { th with state := .dead }
      else th }

/-- The thread belongs to the process, for `dying_tids`. -/
def ofPid (pid tid : ℕ) : Bool := (s.threads tid).any (·.pid == pid)

/-- The threads of a process that exits leave all buckets. -/
def futexDrainPid (pid : ℕ) : FutexState :=
  { s with
    waiters := fun key =>
      if key.1 = pid ∧ key.1 ≠ futexSharedNs then []
      else if key.1 = futexSharedNs then (s.waiters key).filter fun tid => !s.ofPid pid tid
      else s.waiters key
    requeueDest := fun e => if e.1 = pid then none else s.requeueDest e }

end FutexState

end Astryx.Futex
