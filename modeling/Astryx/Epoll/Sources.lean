import Astryx.Unix.Streams

/-!
# What a descriptor is ready for

`epoll_poll_events` (`subsys/linux/syscall.rs`) over the event counters of `ipc/eventfd.rs`, the
pipes of `ipc/pipe.rs`, the sockets of `net/unix.rs` and the queue of passed descriptors of
`syscall/mod.rs`, and what changes its answer. A step is one section under a lock, with any
arguments: `sendmsg`, `recvmsg` and `close` are several of them, and come in any order and between
those of other threads. What a call hands back to its caller is left out, and so are the bytes in a
pipe and the descriptors in a batch.
-/

namespace Astryx.Unix.UnixTable

variable (t : UnixTable) (id : ℕ)

/-- There is something to read. -/
def hasData : Bool :=
  id < maxUnixSockets && match (t.slot id).kind with
    | .seqPacket => (t.slot id).seqLens.head ≠ (t.slot id).seqLens.tail
    | .stream => 0 < (t.slot id).recvAvailable

/-- Nothing more will come to read. -/
def readShutdown : Bool :=
  id < maxUnixSockets && ((t.slot id).state = .free || (t.slot id).shutRd || (t.slot id).rxEof)

/-- The slot of the other end is there and was given up. -/
def peerFree : Bool :=
  (t.slot id).peerId < maxUnixSockets && (t.slot (t.slot id).peerId).state = .free

/-- Nothing can be read or written any more. -/
def fullyHungUp : Bool :=
  id < maxUnixSockets && ((t.slot id).state = .free || (t.slot id).shutRd && (t.slot id).shutWr ||
    (t.slot id).peerClosed || t.peerFree id)

/-- The other end has room, or a write fails without waiting. -/
def writable : Bool :=
  id < maxUnixSockets && ((t.slot id).state ≠ .connected || (t.slot id).shutWr ||
    (t.slot id).peerClosed || maxUnixSockets ≤ (t.slot id).peerId || t.peerFree id ||
    !((t.slot id).kind = .seqPacket && seqQueueCap - 1 ≤ (t.slot (t.slot id).peerId).seqQueued) &&
      0 < (t.slot (t.slot id).peerId).recvSpace)

/-- A connection waits to be accepted. -/
def hasPending : Bool := id < maxUnixSockets && (t.slot id).backlog ≠ []

/-- How many bytes were read from the slot. -/
def recvConsumed : ℕ := if id < maxUnixSockets then (t.slot id).recvPopped else 0

end Astryx.Unix.UnixTable

namespace Astryx.Epoll

open Unix Function

/-! ## Event counters and pipes -/

/-- `MAX_EVENTFDS` -/
def maxEventfds : ℕ := 64

/-- An event counter; its rises from zero are counted. -/
structure EventFd where
  counter : ℕ
  semaphore : Bool
  inUse : Bool
  refs : ℕ
  riseSeq : ℕ

/-- A call on an event counter. -/
inductive EventOp where
  | incRef
  | tryRead
  | write (val : ℕ)
  | close

/-- The counter after a call. -/
def EventFd.apply (e : EventFd) (op : EventOp) : EventFd :=
  if e.inUse then
    match op with
    | .incRef => { e with refs := min (e.refs + 1) (2 ^ 32 - 1) }
    | .tryRead => { e with counter := if e.semaphore then e.counter - 1 else 0 }
    | .write val =>
      -- `EFBIG`
      if Word.sub (2 ^ 64 - 2) e.counter < val then e
      else { e with
        counter := Word.add e.counter val
        riseSeq := if e.counter = 0 ∧ 0 < val then Word.add e.riseSeq 1 else e.riseSeq }
    | .close => if 1 < e.refs then { e with refs := e.refs - 1 } else ⟨0, false, false, 0, 0⟩
  else e

/-- A read would not wait. -/
def EventFd.isReadable (e : EventFd) : Bool := e.inUse && 0 < e.counter

/-- A pipe without its bytes. -/
structure Pipe where
  count : ℕ
  capacity : ℕ
  writers : ℕ
  readers : ℕ

/-- A call on a pipe. -/
inductive PipeOp where
  | read (len : ℕ)
  | write (len : ℕ)
  | writeAtomic (len : ℕ)
  | setCapacity (want : ℕ)
  | addWriter
  | addReader
  | closeWriter
  | closeReader

/-- The pipe after a call. -/
def Pipe.apply (p : Pipe) : PipeOp → Pipe
  | .read len => { p with count := p.count - min len p.count }
  | .write len => { p with count := p.count + min len (p.capacity - p.count) }
  | .writeAtomic len => if p.capacity - p.count < len then p else { p with count := p.count + len }
  | .setCapacity want =>
    match ((List.range 9).map fun k => 4096 * 2 ^ k).find? (want ≤ ·) with
    | some cap => if cap < p.count then p else { p with capacity := cap }
    | none => p
  | .addWriter => { p with writers := min (p.writers + 1) (2 ^ 32 - 1) }
  | .addReader => { p with readers := min (p.readers + 1) (2 ^ 32 - 1) }
  | .closeWriter => { p with writers := p.writers - 1 }
  | .closeReader => { p with readers := p.readers - 1 }

/-! ## Passed descriptors -/

/-- Descriptors queued for a socket, from a position of its stream on. -/
structure ScmBatch where
  receiverId : ℕ
  byteOffset : ℕ
  deriving DecidableEq

/-- The receiver has read up to the position of the batch. -/
def ScmBatch.deliverable (b : ScmBatch) (receiverId consumed : ℕ) : Bool :=
  b.receiverId = receiverId && b.byteOffset ≤ consumed

/-- `has_scm_deliverable` -/
def hasScmDeliverable (q : List ScmBatch) (receiverId consumed : ℕ) : Bool :=
  q.any fun b => b.deliverable receiverId consumed

/-- A section under the lock of the queue. -/
inductive ScmOp where
  | queue (b : ScmBatch)
  | revoke (b : ScmBatch)
  | dequeue (receiverId consumed : ℕ)
  | drain (receiverId : ℕ)

/-- The queue after it: a batch is revoked from the end, and the first of the lowest position that
was reached is delivered. -/
def ScmOp.apply (q : List ScmBatch) : ScmOp → List ScmBatch
  | .queue b => q ++ [b]
  | .revoke b => (q.reverse.erase b).reverse
  | .dequeue receiverId consumed =>
    match ((q.filter (·.deliverable receiverId consumed)).map (·.byteOffset)).min? with
    | some offset => q.erase ⟨receiverId, offset⟩
    | none => q
  | .drain receiverId => q.filter (·.receiverId ≠ receiverId)

/-! ## The world of one process -/

/-- What a descriptor names. -/
inductive FdObject where
  | unixSocket (id : ℕ)
  | pipe (id : ℕ) (writer : Bool)
  | eventFd (id : ℕ)
  | regular
  | other
  deriving DecidableEq

/-- All that a descriptor may name. -/
structure World where
  /-- The descriptor tables of the processes. -/
  files : ℕ → ℕ → Option FdObject
  net : UnixSystem
  /-- `PENDING_SCM` -/
  pending : List ScmBatch
  eventfds : ℕ → EventFd
  pipes : ℕ → Option Pipe
  nextPipe : ℕ
  /-- What the descriptors of other kinds are ready for. -/
  device : ℕ → BitVec 32

/-- A call of a process. -/
inductive Call where
  | unix (op : UnixOp)
  | scm (op : ScmOp)
  | eventfd (initval : ℕ) (semaphore : Bool)
  | onEventfd (id : ℕ) (op : EventOp)
  | pipe
  | onPipe (id : ℕ) (op : PipeOp)
  /-- A slot of the table of a process is filled or emptied. -/
  | setFd (pid fd : ℕ) (o : Option FdObject)
  | device (fd : ℕ) (ready : BitVec 32)

namespace World

variable (w : World)

/-- Nothing is open. -/
def boot : World :=
  ⟨fun _ _ => none, .boot, [], fun _ => ⟨0, false, false, 0, 0⟩, fun _ => none, 1, fun _ => 0⟩

/-- The pipes after a call on one. -/
def onPipe (id : ℕ) (op : PipeOp) : ℕ → Option Pipe :=
  let pipes := update w.pipes id ((w.pipes id).map (·.apply op))
  match op with
  -- the last reader takes away every pipe that has no end left
  | .closeReader => fun i => (pipes i).filter fun p => 0 < p.readers || 0 < p.writers
  | _ => pipes

/-- The section of a call. -/
def call : Call → World
  | .unix op => { w with net := unixStep w.net op }
  | .scm op => { w with pending := op.apply w.pending }
  | .eventfd initval semaphore =>
    match (List.range maxEventfds).find? fun i => !(w.eventfds i).inUse with
    | some i =>
      { w with
        eventfds := update w.eventfds i ⟨initval, semaphore, true, 1, (w.eventfds i).riseSeq⟩ }
    | none => w
  | .onEventfd id op => { w with eventfds := update w.eventfds id ((w.eventfds id).apply op) }
  | .pipe =>
    { w with
      pipes := update w.pipes w.nextPipe (some ⟨0, 65536, 1, 1⟩)
      nextPipe := Word.add w.nextPipe 1 }
  | .onPipe id op => { w with pipes := w.onPipe id op }
  | .setFd pid fd o => { w with files := update w.files pid (update (w.files pid) fd o) }
  | .device fd ready => { w with device := update w.device fd ready }

end World

/-! ## Readiness -/

/-- `EPOLLIN` -/
def epollIn : BitVec 32 := 0x1

/-- `EPOLLOUT` -/
def epollOut : BitVec 32 := 0x4

/-- `EPOLLERR` -/
def epollErr : BitVec 32 := 0x8

/-- `EPOLLHUP` -/
def epollHup : BitVec 32 := 0x10

/-- `EPOLLRDHUP` -/
def epollRdhup : BitVec 32 := 0x2000

/-- `EPOLLET` -/
def epollEt : BitVec 32 := 1 <<< 31

/-- Bits under a condition. -/
def flag (b : Bool) (bits : BitVec 32) : BitVec 32 := if b then bits else 0#32

variable (pid : ℕ) (w : World) (fd : ℕ)

/-- The bits that a descriptor is ready for. -/
def epollPollEvents : BitVec 32 :=
  match w.files pid fd with
  | none => if fd = 0 then 0 else if fd = 1 ∨ fd = 2 then epollOut else epollErr
  | some (.eventFd id) => flag (w.eventfds id).isReadable epollIn
  | some (.pipe _ true) => epollOut
  | some (.pipe id false) =>
    match w.pipes id with
    | some p => if 0 < p.count then epollIn else flag (p.writers = 0) epollHup
    | none => epollHup
  | some (.unixSocket id) =>
    let t := w.net.table
    flag (t.writable id) epollOut |||
      flag (t.hasData id || hasScmDeliverable w.pending id (t.recvConsumed id) ||
        t.hasPending id) epollIn |||
      flag (t.readShutdown id) (epollIn ||| epollRdhup) ||| flag (t.fullyHungUp id) epollHup
  | some .regular => epollIn ||| epollOut
  | some .other => w.device fd

/-- The slot of the event counter that the descriptor names. -/
def evfdSlot : Option ℕ :=
  match w.files pid fd with
  | some (.eventFd id) => some id
  | _ => none

/-- `rise_seq`, which is 0 for other descriptors. -/
def riseSeq : ℕ :=
  match evfdSlot pid w fd with
  | some id => if (w.eventfds id).inUse then (w.eventfds id).riseSeq else 0
  | none => 0

/-! ## The rises of an event counter -/

/-- The rises are counted up, and each time the counter becomes readable is one of them. -/
def EventFd.Follows (e e' : EventFd) : Prop :=
  e.riseSeq ≤ e'.riseSeq ∧ (e.isReadable = false → e'.isReadable = true → e.riseSeq < e'.riseSeq)

lemma EventFd.Follows.refl (e : EventFd) : e.Follows e := by
  simp [Follows]

lemma EventFd.follows_apply {e : EventFd} {op : EventOp} (he : e.inUse) (hop : (e.apply op).inUse)
    (hseq : e.riseSeq < 2 ^ 64 - 1) : e.Follows (e.apply op) := by
  have hnext : Word.add e.riseSeq 1 = e.riseSeq + 1 := Word.add_eq (by omega)
  rcases op with _ | _ | val | _ <;> simp only [apply, he, if_true, Follows, isReadable] at hop ⊢
  · simp
  · split <;> simp
    omega
  · split
    · simp [he]
    · rw [hnext]
      split <;> simp [Word.add]
      exact fun hzero => decide_eq_false (by omega)
  · split at hop <;> simp_all

lemma follows_of_call {id : ℕ} {w : World} {c : Call} (hw : (w.eventfds id).inUse)
    (hw' : ((w.call c).eventfds id).inUse) (hseq : (w.eventfds id).riseSeq < 2 ^ 64 - 1) :
    (w.eventfds id).Follows ((w.call c).eventfds id) := by
  cases c with
  | eventfd initval semaphore =>
    simp only [World.call]
    split
    next i hi =>
      have hne : id ≠ i := by
        rintro rfl
        simpa [hw] using List.find?_some hi
      simpa [update_of_ne hne] using .refl _
    · exact .refl _
  | onEventfd id' op =>
    simp only [World.call] at hw' ⊢
    by_cases hid : id = id'
    · subst hid
      simp only [update_self] at hw' ⊢
      exact EventFd.follows_apply hw hw' hseq
    · simpa [update_of_ne hid] using .refl _
  | _ => exact .refl _

end Astryx.Epoll
