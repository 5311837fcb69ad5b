import Astryx.Lib.Transition
import Mathlib

/-!
# Dispatcher objects and waits on them

Events, mutants, semaphores and timers share a header with a signal state and a list of wait blocks.
A wait first tries to take the signal. If it cannot, it puts one block into the list of each object,
marks its thread `Blocked`, and looks at its blocks once it runs again. An operation that signals an
object marks blocks as satisfied, takes the signal on behalf of their threads, and makes those
threads `Ready` that it finds `Blocked`. A wait for all objects puts no blocks anywhere: it sleeps
for a few ticks and tries again.

A step is one section under `DISPATCHER_REGISTRY` or `THREAD_TABLE`; `wake_blocked_waiters` takes
the second lock inside the first. Time is left out: a wait with a finite timeout may expire at any
moment, and a timer may fire at any moment. The priority boost, the DPC of a timer and `timer_id`
are left out. Blocks are only ever inserted with `WaitAny`, so `wait_type` is left out too.

Each object carries a `Ledger` for the statements: what it started with, what was released, and
which waits have returned with its signal. Signalling operations are numbered, so that a wait can be
traced back to the operation that ended it.
-/

namespace Astryx.Ke

open Function

/-! ### Objects -/

/-- An entry of a wait list. -/
structure WaitBlock where
  threadId : ℕ
  waitKey : ℕ
  satisfied : Bool
  /-- The operation that satisfied it. -/
  cause : ℕ
  deriving DecidableEq

/-- A synchronization event lets one waiter through, a notification event all. -/
inductive EventType
  | notificationEvent
  | synchronizationEvent
  deriving DecidableEq

/-- What an object is, with the fields of its kind. -/
inductive Kind
  | event (eventType : EventType)
  | mutant (owner : Option ℕ) (recursion : ℕ) (abandoned : Bool)
  | semaphore (limit : ℤ)
  | timer
  deriving DecidableEq

/-- What has happened to an object since it was created. -/
structure Ledger where
  /-- The operation that left the object signaled last. -/
  source : ℕ
  initial : ℤ
  released : ℤ
  /-- How many waits have returned with a signal of the object, -/
  consumed : ℕ
  /-- how many of them were those of each thread, -/
  acquired : ℕ → ℕ
  /-- and how many there were because of each operation. -/
  returnedBy : ℕ → ℕ
  /-- How often each thread has released it. -/
  surrendered : ℕ → ℕ

/-- `DispatcherEntry`, with the fields of its `DispatcherHeader`. -/
structure Entry where
  kind : Kind
  signalState : ℤ
  waitList : List WaitBlock
  ledger : Ledger

/-- An object when it is created. -/
def Entry.new (kind : Kind) (initialSignal : ℤ) : Entry :=
  ⟨kind, initialSignal, [], ⟨0, initialSignal, 0, 0, fun _ => 0, fun _ => 0, fun _ => 0⟩⟩

/-- An `i32` as the machine keeps it. -/
def wrapI32 (x : ℤ) : ℤ := Int.bmod x (2 ^ 32)

/-- A `u32` as the machine keeps it. -/
def wrapU32 (x : ℤ) : ℕ := (x % 2 ^ 32).toNat

/-- A wait of the thread has returned with the object's signal, which came from operation
`cause`. -/
def Entry.credit (tid cause : ℕ) (e : Entry) : Entry :=
  { e with
    ledger := { e.ledger with
      consumed := e.ledger.consumed + 1
      acquired := update e.ledger.acquired tid (e.ledger.acquired tid + 1)
      returnedBy := update e.ledger.returnedBy cause (e.ledger.returnedBy cause + 1) } }

/-! ### Signals -/

/-- Marks the first `n` blocks that are not satisfied yet. -/
def satisfyFirst (op : ℕ) : ℕ → List WaitBlock → List WaitBlock
  | _, [] => []
  | 0, l => l
  | n + 1, b :: l =>
    if b.satisfied then b :: satisfyFirst op (n + 1) l
    else { b with satisfied := true, cause := op } :: satisfyFirst op n l

/-- The blocks still waiting. -/
def unsatisfied (l : List WaitBlock) : List WaitBlock := l.filter fun b => !b.satisfied

/-- Satisfies all waiters, or the first of a synchronization event. -/
def setEvent (op : ℕ) (e : Entry) : Entry :=
  match e.kind with
  | .event .notificationEvent =>
    { e with
      signalState := 1
      waitList := satisfyFirst op e.waitList.length e.waitList }
  | .event .synchronizationEvent =>
    { e with
      signalState := if unsatisfied e.waitList = [] then 1 else 0
      waitList := satisfyFirst op 1 e.waitList
      ledger := { e.ledger with source := op } }
  | _ => e

/-- The event is signalled no more. -/
def resetEvent (e : Entry) : Entry :=
  match e.kind with
  | .event _ => { e with signalState := 0 }
  | _ => e

/-- Satisfies all waiters and leaves the event unsignalled. -/
def pulseEvent (op : ℕ) (e : Entry) : Entry :=
  match e.kind with
  | .event _ =>
    { e with signalState := 0, waitList := satisfyFirst op e.waitList.length e.waitList }
  | _ => e

/-- The count after a release by `adjustment`, before any waiter takes from it. -/
def newCount (adjustment : ℤ) (e : Entry) : ℤ := wrapI32 (e.signalState + adjustment)

/-- Adds to the count, unless past the limit, and satisfies waiters with it. -/
def releaseSemaphore (op : ℕ) (adjustment : ℤ) (e : Entry) : Entry :=
  match e.kind with
  | .semaphore limit =>
    if limit < newCount adjustment e then e
    else
      { e with
        signalState := newCount adjustment e -
          (min (newCount adjustment e).toNat (unsatisfied e.waitList).length : ℕ)
        waitList := satisfyFirst op (newCount adjustment e).toNat e.waitList
        ledger := { e.ledger with released := e.ledger.released + adjustment } }
  | _ => e

/-- Takes a free mutant, or one the thread has, again. -/
def acquireMutant (tid : ℕ) (e : Entry) : Entry :=
  match e.kind with
  | .mutant none _ abandoned =>
    Entry.credit tid e.ledger.source { e with
      kind := .mutant (some tid) 1 abandoned, signalState := 0 }
  | .mutant (some owner) recursion abandoned =>
    if owner = tid then
      Entry.credit tid e.ledger.source
        { e with kind := .mutant (some owner) (wrapU32 (recursion + 1)) abandoned }
    else e
  | _ => e

/-- An acquisition is given back. -/
def Entry.surrender (tid : ℕ) (e : Entry) : Entry :=
  { e with
    ledger := { e.ledger with
      surrendered := update e.ledger.surrendered tid (e.ledger.surrendered tid + 1) } }

/-- Gives one acquisition back; the last hands the mutant to a waiter. -/
def releaseMutant (op tid : ℕ) (e : Entry) : Entry :=
  match e.kind with
  | .mutant (some owner) recursion abandoned =>
    if owner ≠ tid then e
    else if wrapU32 (recursion - 1) ≠ 0 then
      Entry.surrender tid { e with
        kind := .mutant (some owner) (wrapU32 (recursion - 1)) abandoned }
    else
      -- Ownership goes straight to the first waiter.
      match unsatisfied e.waitList with
      | [] => Entry.surrender tid { e with kind := .mutant none 0 abandoned, signalState := 1 }
      | b :: _ =>
        Entry.surrender tid { e with
          kind := .mutant (some b.threadId) 1 abandoned
          signalState := 0
          waitList := satisfyFirst op 1 e.waitList }
  | _ => e

/-- Arms a timer. -/
def setTimer (e : Entry) : Entry :=
  match e.kind with
  | .timer => { e with signalState := 0 }
  | _ => e

/-- `signal_timer_in_registry` -/
def signalTimer (op : ℕ) (e : Entry) : Entry :=
  match e.kind with
  | .timer => { e with signalState := 1, waitList := satisfyFirst op e.waitList.length e.waitList }
  | _ => e

/-! ### Sections of a wait -/

/-- `DISPATCHER_REGISTRY` -/
abbrev Registry := ℕ → Option Entry

/-- A change to one object. -/
def Registry.modify (reg : Registry) (id : ℕ) (f : Entry → Entry) : Registry :=
  update reg id ((reg id).map f)

/-- What a wait returns. -/
inductive WaitStatus
  | satisfied (key : ℕ)
  | timeout
  | abandoned
  | failed
  deriving DecidableEq

/-- What a satisfied wait does to the object. -/
def consumeSignal (tid : ℕ) (e : Entry) : Entry :=
  match e.kind with
  | .event .notificationEvent => e
  | .event .synchronizationEvent => { e with signalState := 0 }
  | .mutant _ _ abandoned => { e with kind := .mutant (some tid) 1 abandoned, signalState := 0 }
  | .semaphore _ => { e with signalState := e.signalState - 1 }
  | .timer => e

/-- The thread takes the signal, and its wait returns. -/
def Entry.take (tid : ℕ) (e : Entry) : Entry := (consumeSignal tid e).credit tid e.ledger.source

/-- One look at one object, which takes its signal. -/
def trySatisfySingle (tid id : ℕ) (reg : Registry) : Registry × Option WaitStatus :=
  match reg id with
  | none => (reg, some .failed)
  | some e =>
    match e.kind with
    | .mutant owner recursion abandoned =>
      if abandoned then (reg, some .abandoned)
      else if 0 < e.signalState then (reg.modify id (Entry.take tid), some (.satisfied 0))
      else if owner = some tid then
        (reg.modify id fun e => Entry.credit tid e.ledger.source
          { e with kind := .mutant owner (wrapU32 (recursion + 1)) abandoned }, some (.satisfied 0))
      else (reg, none)
    | _ =>
      if 0 < e.signalState then (reg.modify id (Entry.take tid), some (.satisfied 0))
        else (reg, none)

/-- `try_satisfy_multiple` with `WaitAny`, from index `key` on. -/
def trySatisfyAny (tid : ℕ) : ℕ → List ℕ → Registry → Registry × Option WaitStatus
  | _, [], reg => (reg, none)
  | key, id :: ids, reg =>
    match reg id with
    | none => (reg, some .failed)
    | some e =>
      if 0 < e.signalState then (reg.modify id (Entry.take tid), some (.satisfied key))
      else trySatisfyAny tid (key + 1) ids reg

/-- What keeps a `WaitAll` from being satisfied now: an object that is not there, or one that is not
signaled. -/
def obstacle (reg : Registry) : List ℕ → Option (Option WaitStatus)
  | [] => none
  | id :: ids =>
    match reg id with
    | none => some (some .failed)
    | some e => if 0 < e.signalState then obstacle reg ids else some none

/-- The objects of a `WaitAll` are taken in order. -/
def consumeAll (tid : ℕ) (ids : List ℕ) (reg : Registry) : Registry :=
  ids.foldl (fun reg id => reg.modify id (consumeSignal tid)) reg

/-- A wait for all the objects has returned: it is one wait for each of them, however often it names
it. -/
def creditAll (tid : ℕ) (ids : List ℕ) (reg : Registry) : Registry :=
  fun id => if id ∈ ids then (reg id).map fun e => e.credit tid e.ledger.source else reg id

/-- `try_satisfy_multiple` with `WaitAll` -/
def trySatisfyAll (tid : ℕ) (ids : List ℕ) (reg : Registry) : Registry × Option WaitStatus :=
  match obstacle reg ids with
  | none => (creditAll tid ids (consumeAll tid ids reg), some (.satisfied 0))
  | some result => (reg, result)

/-- A block goes to the end of the list. -/
def Entry.pushBlock (tid key : ℕ) (e : Entry) : Entry :=
  { e with waitList := e.waitList ++ [⟨tid, key, false, 0⟩] }

/-- All blocks of a thread are removed. -/
def Entry.dropBlocks (tid : ℕ) (e : Entry) : Entry :=
  { e with waitList := e.waitList.filter fun b => b.threadId ≠ tid }

/-- Inserts a block for each object from index `key` of `all` on. At an object that is gone it takes
back what it has inserted, and the wait fails. -/
def insertWaitBlocks (tid : ℕ) (all : List ℕ) : ℕ → List ℕ → Registry → Registry × Bool
  | _, [], reg => (reg, true)
  | key, id :: ids, reg =>
    match reg id with
    | some _ => insertWaitBlocks tid all (key + 1) ids (reg.modify id (Entry.pushBlock tid key))
    | none => ((all.take key).foldl (fun reg id => reg.modify id (Entry.dropBlocks tid)) reg, false)

/-- The first block of a thread in the list. -/
def firstBlock (tid id : ℕ) (reg : Registry) : Option WaitBlock :=
  (reg id).bind fun e => e.waitList.find? fun b => b.threadId = tid

/-- The first block of a thread is removed. -/
def Entry.removeBlock (tid : ℕ) (e : Entry) : Entry :=
  { e with waitList := e.waitList.eraseP fun b => b.threadId = tid }

/-- Removes one block of the thread for each object named, and finds the first one that is
satisfied. -/
def collect (tid : ℕ) : List ℕ → Registry → Registry × Option (ℕ × WaitBlock)
  | [], reg => (reg, none)
  | id :: ids, reg =>
    match firstBlock tid id reg with
    | none => collect tid ids reg
    | some b =>
      let rest := collect tid ids (reg.modify id (Entry.removeBlock tid))
      (rest.1, if b.satisfied then some (id, b) else rest.2)

/-! ### Threads -/

/-- How long a wait lasts. -/
inductive Timeout
  | infinite
  | poll
  | finite
  deriving DecidableEq

/-- What a wait is for. -/
inductive Request
  /-- `wait_for_single_object` -/
  | single (id : ℕ)
  /-- `wait_for_multiple_objects` with `WaitAny` -/
  | any (ids : List ℕ)
  /-- `wait_for_multiple_objects` with `WaitAll` -/
  | all (ids : List ℕ)
  deriving DecidableEq

/-- The objects, in order. -/
def Request.ids : Request → List ℕ
  | single id => [id]
  | any ids => ids
  | all ids => ids

/-- It is a `WaitAll`. -/
def Request.isAll : Request → Bool
  | all _ => true
  | _ => false

/-- A call of a wait. -/
structure Wait where
  request : Request
  timeout : Timeout
  deriving DecidableEq

/-- The look at the objects before anything is inserted. -/
def Request.trySatisfy (tid : ℕ) : Request → Registry → Registry × Option WaitStatus
  | single id, reg => trySatisfySingle tid id reg
  | any ids, reg => trySatisfyAny tid 0 ids reg
  | all ids, reg => trySatisfyAll tid ids reg

/-- Where a thread is. -/
inductive Phase
  | running
  /-- It could not take a signal and has inserted no block yet. -/
  | inserting (w : Wait)
  /-- Its blocks are inserted, and it is not `Blocked` yet. -/
  | blocking (w : Wait)
  | blocked (w : Wait)
  /-- It is `Ready` again and has not looked at its blocks yet. -/
  | woken (w : Wait)
  /-- In the loop of a `WaitAll`, before the objects are tried, -/
  | trying (w : Wait)
  /-- before it goes to sleep, -/
  | dozing (w : Wait)
  /-- and asleep. -/
  | asleep (w : Wait)
  deriving DecidableEq

/-- A `Blocked` thread becomes `Ready`. -/
def Phase.wake : Phase → Phase
  | blocked w => woken w
  | asleep w => trying w
  | p => p

/-- The objects and the threads. -/
structure State where
  objects : Registry
  /-- `NEXT_DISPATCHER_ID` -/
  nextId : ℕ
  /-- There are threads `0` to `threadCount - 1`. -/
  threadCount : ℕ
  threads : ℕ → Phase
  /-- The number of the next signalling operation. -/
  nextOp : ℕ

/-- No object, and all threads running. -/
def boot (threadCount : ℕ) : State := ⟨fun _ => none, 1, threadCount, fun _ => .running, 0⟩

/-- Blocked threads with a satisfied block become ready. -/
def wakeBlockedWaiters (e : Entry) (threads : ℕ → Phase) : ℕ → Phase :=
  fun t => if e.waitList.any (fun b => b.satisfied && b.threadId == t) then (threads t).wake
    else threads t

/-- The operations that signal an object. -/
inductive Signal
  | setEvent
  | pulseEvent
  | releaseSemaphore (adjustment : ℤ)
  | releaseMutant (tid : ℕ)
  | timer
  deriving DecidableEq

/-- The operation on the object. -/
def Signal.apply (op : ℕ) : Signal → Entry → Entry
  | setEvent => Ke.setEvent op
  | pulseEvent => Ke.pulseEvent op
  | releaseSemaphore adjustment => Ke.releaseSemaphore op adjustment
  | releaseMutant tid => Ke.releaseMutant op tid
  | timer => signalTimer op

/-- How many blocks the operation satisfies, if there are as many that are not satisfied yet. `none`
if it returns before it comes to the wait list. -/
def Signal.wakes (e : Entry) : Signal → Option ℕ
  | setEvent =>
    match e.kind with
    | .event .notificationEvent => some e.waitList.length
    | .event .synchronizationEvent => some 1
    | _ => none
  | pulseEvent =>
    match e.kind with
    | .event _ => some e.waitList.length
    | _ => none
  | releaseSemaphore adjustment =>
    match e.kind with
    | .semaphore limit =>
      if limit < newCount adjustment e then none else some (newCount adjustment e).toNat
    | _ => none
  | releaseMutant tid =>
    match e.kind with
    | .mutant (some owner) recursion _ =>
      if owner = tid ∧ wrapU32 (recursion - 1) = 0 then some 1 else none
    | _ => none
  | timer =>
    match e.kind with
    | .timer => some e.waitList.length
    | _ => none

/-- A section of a call, or an expiry. -/
inductive Event
  | create (kind : Kind) (initialSignal : ℤ)
  | destroy (id : ℕ)
  | resetEvent (id : ℕ)
  | acquireMutant (id tid : ℕ)
  | setTimer (id : ℕ)
  | signal (id : ℕ) (op : Signal)
  | wait (tid : ℕ) (w : Wait)
  /-- The next section of a wait; `expired` is what the loop of a `WaitAll` finds when it looks at
  the time. -/
  | advance (tid : ℕ) (expired : Bool)
  /-- The scheduler finds the deadline of a `Blocked` thread passed. -/
  | timeout (tid : ℕ)

/-- The kinds and signals that the constructors make. -/
def creatable : Kind → ℤ → Bool
  | .event _, signal => signal = 0
  | .mutant owner recursion abandoned, signal =>
    owner = none ∧ recursion = 0 ∧ abandoned = false ∧ signal = 1
  | .semaphore _, _ => true
  | .timer, signal => signal = 0

/-- A change to one object of the state. -/
def State.modify (s : State) (id : ℕ) (f : Entry → Entry) : State :=
  { s with objects := s.objects.modify id f }

/-- A thread goes on elsewhere. -/
def State.setThread (s : State) (tid : ℕ) (p : Phase) : State :=
  { s with threads := update s.threads tid p }

/-- An operation that signals. It wakes the waiters only if it comes to the wait list. -/
def State.signal (s : State) (id : ℕ) (op : Signal) : State :=
  match s.objects id with
  | none => s
  | some e =>
    { s with
      objects := s.objects.modify id (op.apply s.nextOp)
      threads :=
        if (op.wakes e).isSome then wakeBlockedWaiters (op.apply s.nextOp e) s.threads
          else s.threads
      nextOp := s.nextOp + 1 }

/-- Tries the objects; `next` is where the thread goes on if the wait is not over. -/
def State.tryObjects (s : State) (tid : ℕ) (w : Wait) (next : Phase) : State :=
  let r := w.request.trySatisfy tid s.objects
  { s with objects := r.1 }.setThread tid (if r.2.isSome then .running else next)

/-- Where a wait goes after a look that found nothing. -/
def Wait.next (w : Wait) : Phase :=
  if w.timeout = .poll then .running else if w.request.isAll then .trying w else .inserting w

/-- `wait_for_single_object` and `wait_for_multiple_objects` after the first section. -/
def State.advance (s : State) (tid : ℕ) (expired : Bool) : Option State :=
  match s.threads tid with
  | .inserting w =>
    let r := insertWaitBlocks tid w.request.ids 0 w.request.ids s.objects
    some ({ s with objects := r.1 }.setThread tid (if r.2 then .blocking w else .running))
  | .blocking w => some (s.setThread tid (.blocked w))
  | .woken w =>
    let r := collect tid w.request.ids s.objects
    let objects := r.2.elim r.1 fun found => r.1.modify found.1 (Entry.credit tid found.2.cause)
    some ({ s with objects := objects }.setThread tid .running)
  | .trying w =>
    some (s.tryObjects tid w (if expired ∧ w.timeout = .finite then .running else .dozing w))
  | .dozing w => some (s.setThread tid (.asleep w))
  | _ => none

/-- One section. -/
def step (s : State) : Event → Option State
  | .create kind initialSignal =>
    if creatable kind initialSignal then
      some { s with
        objects := update s.objects s.nextId (some (Entry.new kind initialSignal))
        nextId := s.nextId + 1 }
    else none
  | .destroy id => some { s with objects := update s.objects id none }
  | .resetEvent id => some (s.modify id Ke.resetEvent)
  | .acquireMutant id tid => some (s.modify id (Ke.acquireMutant tid))
  | .setTimer id => some (s.modify id Ke.setTimer)
  | .signal id op => some (s.signal id op)
  | .wait tid w =>
    if tid < s.threadCount ∧ s.threads tid = .running
      then some (s.tryObjects tid w w.next) else none
  | .advance tid expired => s.advance tid expired
  | .timeout tid =>
    match s.threads tid with
    | .blocked w => if w.timeout = .finite then some (s.setThread tid (.woken w)) else none
    | .asleep w => some (s.setThread tid (.trying w))
    | _ => none

end Astryx.Ke
