import Astryx.Lib.Ring
import Astryx.Lib.Word

/-!
# The table of UNIX domain sockets

The functions of `net::unix` on the table of 64 slots, each under the one lock of the table. A
socket id is the index of its slot; slots are used again after `close`. A connection is a pair of
slots that name each other in `peer_id`, and a write puts its bytes into the receive ring of the
slot it names.

The rings are arrays with wrapping indices, as in the source. Names are byte strings. What `close`
does to queued descriptors (they may be sockets that are closed in turn) is not part of a call here:
each such close is a call of its own.
-/

namespace Astryx.Unix

/-- `MAX_UNIX_SOCKETS` -/
def maxUnixSockets : ℕ := 64

/-- `UNIX_PATH_MAX` -/
def unixPathMax : ℕ := 108

/-- `RECV_BUF_CAP` -/
def recvBufCap : ℕ := 32768

/-- `BACKLOG_CAP` -/
def backlogCap : ℕ := 8

/-- `SEQ_QUEUE_CAP` -/
def seqQueueCap : ℕ := 64

/-- `u64::MAX`, where there is no socket. -/
def noSocket : ℕ := 2 ^ 64 - 1

/-- `SOCK_STREAM` and `SOCK_SEQPACKET`. -/
inductive SockKind where
  | stream
  | seqPacket
  deriving DecidableEq, Repr

/-- What a slot is used for. -/
inductive UnixState where
  | free
  | unbound
  | bound
  | listening
  | connected
  deriving DecidableEq, Repr

/-- The credentials of the creator. -/
structure PeerCreds where
  pid : ℕ
  uid : ℕ
  gid : ℕ
  deriving DecidableEq, Repr

/-! ## One slot -/

/-- A slot of the table. -/
structure UnixSocket where
  state : UnixState
  kind : SockKind
  path : List UInt8
  peerId : ℕ
  recvBuf : Ring UInt8 recvBufCap
  recvPushed : ℕ
  recvPopped : ℕ
  seqLens : Ring ℕ seqQueueCap
  backlog : List ℕ
  shutRd : Bool
  shutWr : Bool
  rxEof : Bool
  peerClosed : Bool
  refCount : ℕ
  creator : PeerCreds

namespace UnixSocket

variable (s : UnixSocket)

/-- A slot at boot. -/
def zeroed : UnixSocket where
  state := .free
  kind := .stream
  path := []
  peerId := noSocket
  recvBuf := { buf := fun _ => 0, head := 0, tail := 0, head_lt := by decide, tail_lt := by decide }
  recvPushed := 0
  recvPopped := 0
  seqLens := { buf := fun _ => 0, head := 0, tail := 0, head_lt := by decide, tail_lt := by decide }
  backlog := []
  shutRd := false
  shutWr := false
  rxEof := false
  peerClosed := false
  refCount := 0
  creator := ⟨0, 0, 0⟩

/-- The two arrays keep their cells. -/
def reset : UnixSocket :=
  { zeroed with recvBuf := s.recvBuf.clear, seqLens := s.seqLens.clear }

/-- A free slot is taken. -/
def take (state : UnixState) (kind : SockKind) (creds : PeerCreds) : UnixSocket :=
  { s.reset with state := state, kind := kind, refCount := 1, creator := creds }

/-- The bytes that can be read. -/
def recvAvailable : ℕ := s.recvBuf.length

/-- The bytes that can be written. -/
def recvSpace : ℕ := s.recvBuf.space

/-- `push`: the number of bytes taken and the socket with them. -/
def push (data : List UInt8) : ℕ × UnixSocket :=
  let n := min data.length s.recvSpace
  (n, { s with recvBuf := s.recvBuf.putAll (data.take n), recvPushed := Word.add s.recvPushed n })

/-- `pop` into a buffer of `len` bytes. -/
def pop (len : ℕ) : List UInt8 × UnixSocket :=
  let n := min len s.recvAvailable
  ((s.recvBuf.takeOut n).1, { s with
    recvBuf := (s.recvBuf.takeOut n).2, recvPopped := Word.add s.recvPopped n })

/-- `n` bytes leave the ring unread. -/
def discard (n : ℕ) : UnixSocket :=
  { s with recvBuf := s.recvBuf.skip n, recvPopped := Word.add s.recvPopped n }

/-- The messages of a SEQPACKET socket that were not read yet. -/
def seqQueued : ℕ := s.seqLens.length

/-- A whole message goes into the ring, and its length into the queue. -/
def pushMessage (data : List UInt8) : UnixSocket :=
  { (s.push data).2 with seqLens := s.seqLens.put ((s.push data).1 % 2 ^ 32) }

/-- The length of the message at the front. -/
def msgLen : ℕ := s.seqLens.buf s.seqLens.head

/-- The oldest message comes out of the ring, cut to `len` bytes. -/
def popMessage (len : ℕ) : List UInt8 × UnixSocket :=
  { s with seqLens := s.seqLens.advance }.pop (min len s.msgLen)

end UnixSocket

/-! ## Names -/

/-- The name in an address: all of an abstract one, up to the first 0 of a path. -/
def unixName (addr : List UInt8) : List UInt8 :=
  if addr.head? = some 0 then addr.take unixPathMax else (addr.takeWhile (· ≠ 0)).take unixPathMax

/-- The name begins with a 0. -/
def isAbstract (name : List UInt8) : Bool := name.head? = some 0

/-! ## The table -/

/-- `TABLE` -/
structure UnixTable where
  slot : ℕ → UnixSocket

namespace UnixTable

variable (t : UnixTable)

/-- The table at boot. -/
def empty : UnixTable := ⟨fun _ => .zeroed⟩

/-- A slot is replaced. -/
def set (id : ℕ) (s : UnixSocket) : UnixTable := ⟨Function.update t.slot id s⟩

@[simp] lemma set_slot_self (id : ℕ) (s : UnixSocket) :
    (t.set id s).slot id = s := Function.update_self ..

lemma set_slot_of_ne {i id : ℕ} (h : i ≠ id) (s : UnixSocket) :
    (t.set id s).slot i = t.slot i := Function.update_of_ne h ..

lemma forall_set {p : ℕ → UnixSocket → Prop} {id : ℕ} {x : UnixSocket} (hx : p id x)
    (h : ∀ i, i ≠ id → p i (t.slot i)) :
    ∀ i, p i ((t.set id x).slot i) := (Function.forall_update_iff _ p).mpr ⟨hx, h⟩

/-- The first free slot with the property. -/
def freeSlot (p : ℕ → Bool) : Option ℕ :=
  (List.range maxUnixSockets).find? fun i => p i && (t.slot i).state = .free

/-- A new socket in the first free slot. -/
def create (kind : SockKind) (creds : PeerCreds) : ℕ × UnixTable :=
  match t.freeSlot fun _ => true with
  | some i => (i, t.set i ((t.slot i).take .unbound kind creds))
  | none => (noSocket, t)

/-- A socket other than `id` has the name. -/
def nameTaken (id : ℕ) (name : List UInt8) : Bool :=
  (List.range maxUnixSockets).any fun i =>
    i ≠ id && ((t.slot i).state = .bound || (t.slot i).state = .listening) && (t.slot i).path = name

/-- Gives a socket its name. -/
def bind (id : ℕ) (path : List UInt8) : ℤ × UnixTable :=
  if maxUnixSockets ≤ id then (-9, t)
  else if unixName path = [] then (-22, t)
  else if t.nameTaken id (unixName path) then (-98, t)
  else
    match (t.slot id).state with
    | .free => (-9, t)
    | .unbound => (0, t.set id { t.slot id with path := unixName path, state := .bound })
    | _ => (-22, t)

/-- Lets others connect. -/
def listen (id : ℕ) : ℤ × UnixTable :=
  if maxUnixSockets ≤ id then (-9, t)
  else
    match (t.slot id).state with
    | .bound | .unbound => (0, t.set id { t.slot id with state := .listening })
    | .listening => (0, t)
    | _ => (-22, t)

/-- The first socket that listens under the name. -/
def listener (name : List UInt8) : Option ℕ :=
  (List.range maxUnixSockets).find? fun i => (t.slot i).state = .listening && (t.slot i).path = name

/-- A socket that does not listen is bound to the pathname. -/
def nameExists (name : List UInt8) : Bool :=
  (List.range maxUnixSockets).any fun i =>
    ((t.slot i).state = .bound || (t.slot i).state = .connected) && !isAbstract (t.slot i).path
      && (t.slot i).path = name

/-- The end of `connect`: the slot `peer` becomes the other end of `id` and goes to the listener's
backlog, if there is room. -/
def pair (id server peer : ℕ) : UnixTable :=
  let srv := t.slot server
  let t := t.set peer { (t.slot peer).take .connected srv.kind srv.creator with peerId := id }
  let t := t.set id { t.slot id with state := .connected, peerId := peer }
  let srv := t.slot server
  if srv.backlog.length < backlogCap
    then t.set server { srv with backlog := srv.backlog ++ [peer] } else t

/-- Takes a slot for the server's end and queues it with the listener. -/
def connect (id : ℕ) (path : List UInt8) : ℤ × UnixTable :=
  if maxUnixSockets ≤ id then (-9, t)
  else if unixName path = [] then (-22, t)
  else
    match t.listener (unixName path) with
    | none =>
      if isAbstract (unixName path) then (-111, t)
      else if t.nameExists (unixName path) then (-111, t)
      else (-2, t)
    | some server =>
      if (t.slot id).kind ≠ (t.slot server).kind then (-91, t)
      else
        match t.freeSlot fun i => i ≠ id with
        | none => (-24, t)
        | some peer => (0, t.pair id server peer)

/-- Takes the first end from the backlog. -/
def accept (id : ℕ) : ℤ × UnixTable :=
  if maxUnixSockets ≤ id then (-9, t)
  else if (t.slot id).state ≠ .listening then (-22, t)
  else
    match (t.slot id).backlog with
    | [] => (-11, t)
    | peer :: rest => (peer, t.set id { t.slot id with backlog := rest })

/-- `socketpair`. With one free slot left, that slot is taken and given back. -/
def socketpair (kind : SockKind) (creds : PeerCreds) : (ℕ × ℕ) × UnixTable :=
  match t.freeSlot fun _ => true with
  | none => ((noSocket, noSocket), t)
  | some a =>
    match t.freeSlot fun i => i ≠ a with
    | none =>
      ((noSocket, noSocket), t.set a { (t.slot a).take .connected kind creds with state := .free })
    | some b =>
      ((a, b),
        (t.set a { (t.slot a).take .connected kind creds with peerId := b }).set b
          { (t.slot b).take .connected kind creds with peerId := a })

/-- The gate of `write`, `shutdown` and `close`: the slot named by `id` names it back. -/
def namedBack (id peer : ℕ) : Bool :=
  peer < maxUnixSockets && (t.slot peer).state = .connected && (t.slot peer).peerId = id

/-- Pushes bytes to the other end, or a whole message. -/
def write (id : ℕ) (data : List UInt8) : ℤ × UnixTable :=
  if maxUnixSockets ≤ id then (-9, t)
  else
    let s := t.slot id
    if s.state ≠ .connected ∨ s.shutWr ∨ s.peerClosed then (-32, t)
    else if !t.namedBack id s.peerId then (-32, t)
    else
      let peer := t.slot s.peerId
      match s.kind with
      | .seqPacket =>
        if seqQueueCap - 1 ≤ peer.seqQueued then (-11, t)
        else if peer.recvSpace < data.length then (-11, t)
        else (data.length, t.set s.peerId (peer.pushMessage data))
      | .stream =>
        (if (peer.push data).1 = 0 then -11 else (peer.push data).1,
          t.set s.peerId (peer.push data).2)

/-- `read_msg` into a buffer of `len` bytes: the bytes, and how many were dropped. -/
def readMsg (id len : ℕ) : Except ℤ (List UInt8 × ℕ) × UnixTable :=
  if maxUnixSockets ≤ id then (.error (-9), t)
  else
    let s := t.slot id
    if s.state = .free then (.error (-9), t)
    else if s.shutRd then (.ok ([], 0), t)
    else
      match s.kind with
      | .seqPacket =>
        if s.seqQueued = 0 then (if s.rxEof then .ok ([], 0) else .error (-11), t)
        else
          let bytes := (s.popMessage len).1
          (.ok (bytes, s.msgLen - bytes.length),
            t.set id ((s.popMessage len).2.discard (s.msgLen - bytes.length)))
      | .stream =>
        if s.recvAvailable = 0 then (if s.rxEof then .ok ([], 0) else .error (-11), t)
        else
          (.ok ((s.pop len).1, 0), t.set id (s.pop len).2)

/-- Closes one or both directions. -/
def shutdown (id : ℕ) (shutRdFlag shutWrFlag : Bool) : ℤ × UnixTable :=
  if maxUnixSockets ≤ id then (-9, t)
  else
    let s := t.slot id
    if s.state = .free then (-9, t)
    else if s.state ≠ .connected then (-107, t)
    else
      let t := t.set id { s with
        shutRd := s.shutRd || shutRdFlag, shutWr := s.shutWr || shutWrFlag }
      if shutWrFlag && t.namedBack id s.peerId then
        (0, t.set s.peerId { t.slot s.peerId with rxEof := true })
      else (0, t)

/-- One more descriptor names the slot. -/
def incRef (id : ℕ) : UnixTable :=
  if maxUnixSockets ≤ id ∨ (t.slot id).state = .free then t
  else t.set id { t.slot id with refCount := min ((t.slot id).refCount + 1) (2 ^ 32 - 1) }

/-- A descriptor is closed; the last one frees the slot and tells the other end. -/
def close (id : ℕ) : UnixTable :=
  if maxUnixSockets ≤ id ∨ (t.slot id).state = .free then t
  else
    let s := t.slot id
    if 1 < s.refCount then t.set id { s with refCount := s.refCount - 1 }
    else
      let t := t.set id s.reset
      if t.namedBack id s.peerId then
        t.set s.peerId { t.slot s.peerId with
          rxEof := true, peerClosed := true, peerId := noSocket }
      else t

/-! ## What the calls leave alone -/

/-- The slots have the same states, counts and backlogs. -/
def Alike (t t' : UnixTable) : Prop :=
  ∀ i, (t'.slot i).state = (t.slot i).state ∧ (t'.slot i).refCount = (t.slot i).refCount ∧
    (t'.slot i).backlog = (t.slot i).backlog

variable {t t' : UnixTable} {id : ℕ} {x : UnixSocket}

lemma Alike.refl (t : UnixTable) : t.Alike t := fun _ => ⟨rfl, rfl, rfl⟩

lemma Alike.set (h : t.Alike t') (hstate : x.state = (t'.slot id).state)
    (hcount : x.refCount = (t'.slot id).refCount) (hbacklog : x.backlog = (t'.slot id).backlog) :
    t.Alike (t'.set id x) := by
  intro i
  by_cases hi : i = id
  · rw [hi, set_slot_self, hstate, hcount, hbacklog]
    exact h id
  · rw [set_slot_of_ne _ hi]
    exact h i

lemma write_alike (t : UnixTable) (id : ℕ) (data : List UInt8) : t.Alike (t.write id data).2 := by
  rw [write]
  dsimp only
  repeat' split
  all_goals first
    | exact .refl t
    | exact (Alike.refl t).set rfl rfl rfl

lemma readMsg_alike (t : UnixTable) (id len : ℕ) : t.Alike (t.readMsg id len).2 := by
  rw [readMsg]
  dsimp only
  repeat' split
  all_goals first
    | exact .refl t
    | exact (Alike.refl t).set rfl rfl rfl

lemma shutdown_alike (t : UnixTable) (id : ℕ) (rd wr : Bool) : t.Alike (t.shutdown id rd wr).2 := by
  rw [shutdown]
  dsimp only
  repeat' split
  all_goals first
    | exact .refl t
    | exact (Alike.refl t).set rfl rfl rfl
    | exact .set (.set (.refl t) rfl rfl rfl) rfl rfl rfl

end UnixTable

end Astryx.Unix
