import Astryx.Futex.Requeue
import Astryx.Lib.Buckets
import Astryx.Lib.Transition

/-!
# Threads that wait and wake concurrently

A step of the system is one critical section under `FUTEX_WAITERS`: the enqueue of a wait, the
cleanup after its sleep, a whole wake-class operation, one half of a process exit. Between them the
timer runs, and user programs store to memory as they please.

A thread is asleep from its enqueue to its cleanup, whatever its state is. `selected` is kept for
the statements: it says that a wake-class operation chose the thread since it fell asleep.
-/

namespace Astryx.Futex

open Function

/-- Where a thread is. -/
inductive Phase where
  | user
  /-- In `FUTEX_WAIT` between the enqueue and the cleanup. -/
  | asleep (waitKey : FutexKey) (selected : Bool)
  /-- In `exit_group_inner` for the process, before `futex_drain_pid`. -/
  | exiting (pid : ℕ)
  deriving DecidableEq, Repr

/-- A sleeper is chosen. -/
def Phase.select : Phase → Phase
  | .asleep waitKey _ => .asleep waitKey true
  | phase => phase

/-- The futexes and where each thread is. -/
structure FutexSystem where
  futex : FutexState
  phase : ℕ → Phase

/-- The process of a thread. -/
def ThreadTable.pidOf (threads : ThreadTable) (tid : ℕ) : Option ℕ := (threads tid).map (·.pid)

/-- A critical section, or something else that changes threads or words. -/
inductive FutexOp where
  | wait (tid : ℕ) (isPrivate : Bool) (w : UserWord) (val : ℕ) (timeout : Timeout)
  | resume (tid : ℕ)
  | wake (tid : ℕ) (isPrivate : Bool) (w : UserWord) (val : ℕ)
  | requeue (tid : ℕ) (isPrivate : Bool) (w w2 : UserWord) (val val2 : ℕ) (val3 : Option ℕ)
  | wakeOp (tid : ℕ) (isPrivate : Bool) (w w2 : UserWord) (val val2 val3 : ℕ)
  | wakeForExit (tid uaddr maxWake : ℕ)
  | exitGroup (tid pid : ℕ)
  | drain (tid : ℕ)
  | tick (now : ℕ)
  | store (phys : ℕ) (v : BitVec 32)
  deriving DecidableEq, Repr

namespace FutexSystem

variable (s : FutexSystem)

/-- The process of a thread that can make a call. A thread marked dead runs on until it is switched
out. -/
def caller (tid : ℕ) : Option ℕ :=
  if s.phase tid = .user ∧ ¬s.futex.threads.isBlocked tid then s.futex.threads.pidOf tid else none

/-- After a call that chose sleepers. -/
def reply (r : Reply) : FutexSystem where
  futex := r.state
  phase tid := if tid ∈ r.woken then (s.phase tid).select else s.phase tid

/-- The end of `FUTEX_WAIT` before the sleep. -/
def sleep (tid : ℕ) : FutexState × WaitReply → FutexSystem
  | (futex, .returns _) => { s with futex }
  | (futex, .sleeps waitKey) => ⟨futex, update s.phase tid (.asleep waitKey false)⟩

/-- `schedule()` returned to a sleeper. -/
def resume (tid : ℕ) : Option FutexSystem :=
  match s.phase tid, s.futex.threads tid with
  | .asleep waitKey _, some th =>
    if th.state = .ready ∨ th.state = .running then
      some ⟨(s.futex.futexWaitCleanup th.pid tid waitKey).1, update s.phase tid .user⟩
    else none
  | _, _ => none

/-- The second half of `exit_group_inner`. A caller of the process itself is marked dead last. -/
def drain (tid : ℕ) : Option FutexSystem :=
  match s.phase tid with
  | .exiting pid =>
    let futex := s.futex.futexDrainPid pid
    let last (th : Thread) : Thread := if th.pid = pid then { th with state := .dead } else th
    some
      { futex :=
          { futex with threads := update futex.threads tid ((futex.threads tid).map last) }
        phase := update s.phase tid .user }
  | _ => none

end FutexSystem

/-- One critical section. -/
def futexStep (s : FutexSystem) : FutexOp → Option FutexSystem
  | .wait tid isPrivate w val timeout =>
    (s.caller tid).map fun pid => s.sleep tid (s.futex.futexWait isPrivate pid tid w val timeout)
  | .resume tid => s.resume tid
  | .wake tid isPrivate w val =>
    (s.caller tid).map fun pid => s.reply (s.futex.futexWake isPrivate pid tid w val)
  | .requeue tid isPrivate w w2 val val2 val3 =>
    (s.caller tid).map fun pid =>
      s.reply (s.futex.futexRequeue isPrivate pid tid w w2 val val2 val3)
  | .wakeOp tid isPrivate w w2 val val2 val3 =>
    (s.caller tid).map fun pid => s.reply (s.futex.futexWakeOp isPrivate pid tid w w2 val val2 val3)
  | .wakeForExit tid uaddr maxWake =>
    (s.caller tid).map fun pid => s.reply (s.futex.futexWakeForExit pid uaddr maxWake)
  | .exitGroup tid pid =>
    (s.caller tid).map fun _ => ⟨s.futex.markDead pid tid, update s.phase tid (.exiting pid)⟩
  | .drain tid => s.drain tid
  | .tick now => some { s with futex := s.futex.dueWakeScan now }
  | .store phys v => some { s with futex := { s.futex with mem := update s.futex.mem phys v } }

namespace FutexSystem

variable (s : FutexSystem)

/-- Nobody waits yet. No process has the id that marks shared keys. -/
structure Fresh : Prop where
  waiters : ∀ key, s.futex.waiters key = []
  requeueDest : ∀ e, s.futex.requeueDest e = none
  phase : ∀ tid, s.phase tid = .user
  pid : ∀ tid, s.futex.threads.pidOf tid ≠ some futexSharedNs

/-- The operation is no requeue that drops a blocked waiter. -/
def DropsNone : FutexOp → Prop
  | .requeue tid isPrivate w _ val val2 val3 =>
    ∀ pid ∈ s.caller tid, s.futex.cmpRequeueCheck w val3 = none →
      ∀ t ∈ unreached s.futex.threads (s.futex.waiters (futexKey isPrivate pid w)) val val2,
        ¬s.futex.threads.isBlocked t
  | _ => True

/-- The operation is no requeue that moves a waiter of another process than the caller's. -/
def MovesOwn : FutexOp → Prop
  | .requeue tid isPrivate w _ val val2 val3 =>
    ∀ pid ∈ s.caller tid, s.futex.cmpRequeueCheck w val3 = none →
      ∀ t ∈ (requeueScan s.futex.threads (s.futex.waiters (futexKey isPrivate pid w)) val val2).2,
        s.futex.threads.pidOf t = some pid
  | _ => True

instance decidableDropsNone (s : FutexSystem) (op : FutexOp) : Decidable (s.DropsNone op) := by
  cases op <;> dsimp only [DropsNone] <;> infer_instance

instance decidableMovesOwn (s : FutexSystem) (op : FutexOp) : Decidable (s.MovesOwn op) := by
  cases op <;> dsimp only [MovesOwn] <;> infer_instance

end FutexSystem

end Astryx.Futex
