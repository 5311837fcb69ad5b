import Astryx.Lib.KeyMap
import Astryx.Lib.Serial
import Astryx.Lib.Word

/-!
# TCP connections

`net::tcp` on one control block: what an incoming segment, `send_data_to`, a close request, a read
and a pass of the timer do to it, and the segments they emit. Every call runs under the lock of the
table, so it is one step.

A segment is its header fields, its payload and, for an acknowledgement, its SACK blocks. The
4-tuple, the checksum and the byte layout of the header are left out, and so are the socket options
and the poll bell, on which nothing below depends. Sequence numbers are 32-bit words, ticks 64-bit
words; the current tick is an argument where the source asks for it.
-/

namespace Astryx.Tcp

/-- `FIN` -/
def fin : ℕ := 0x01

/-- `SYN` -/
def syn : ℕ := 0x02

/-- `RST` -/
def rst : ℕ := 0x04

/-- `PSH` -/
def psh : ℕ := 0x08

/-- `ACK` -/
def ack : ℕ := 0x10

/-- The bytes of one segment at most. -/
def mss : ℕ := 1460

/-- `RTO_INITIAL`, in ticks. -/
def rtoInitial : ℕ := 200

/-- `RTO_MAX` -/
def rtoMax : ℕ := 6400

/-- `MAX_RETRIES` -/
def maxRetries : ℕ := 5

/-- `TIMEWAIT_TICKS` -/
def timewaitTicks : ℕ := 200

/-- `OOO_MAX_BYTES` -/
def oooMaxBytes : ℕ := 65535

/-- `OOO_MAX_SEGS` -/
def oooMaxSegs : ℕ := 64

/-- `SACK_MAX_BLOCKS` -/
def sackMaxBlocks : ℕ := 4

/-- The window that every segment advertises. -/
def recvWindow : ℕ := 65535

/-- The states of a connection. -/
inductive TcpState where
  | closed
  | listen
  | synSent
  | synReceived
  | established
  | finWait1
  | finWait2
  | closeWait
  | lastAck
  | timeWait
  deriving DecidableEq, Repr

/-- A segment that was sent and may have to be sent again. -/
structure RetransmitEntry where
  seq : ℕ
  data : List UInt8
  sentTicks : ℕ
  rto : ℕ
  retries : ℕ
  deriving DecidableEq, Repr

/-- A segment that came before those in front of it. -/
structure OooSeg where
  seq : ℕ
  data : List UInt8
  fin : Bool
  deriving DecidableEq, Repr

/-- `OooSeg::end`. -/
def OooSeg.endSeq (s : OooSeg) : ℕ := Serial.add s.seq s.data.length

/-- The sequence number after the entry. -/
def RetransmitEntry.endSeq (e : RetransmitEntry) : ℕ := Serial.add e.seq e.data.length

/-- The fields have the widths that `TcpHeader::parse` reads. -/
structure TcpHeader where
  seqNum : ℕ
  ackNum : ℕ
  flags : ℕ
  window : ℕ
  seqNum_lt : seqNum < 2 ^ 32
  ackNum_lt : ackNum < 2 ^ 32
  window_lt : window < 2 ^ 16

lemma zero_lt_seq : 0 < 2 ^ 32 := by decide

lemma one_lt_seq : 1 < 2 ^ 32 := by decide

lemma window_max : 65535 < 2 ^ 16 := by decide

/-- The segment has the flag. -/
def TcpHeader.has (hdr : TcpHeader) (flag : ℕ) : Bool := hdr.flags &&& flag ≠ 0

/-- A segment on its way out. -/
structure OutSeg where
  seq : ℕ
  ack : ℕ
  flags : ℕ
  sack : List (ℕ × ℕ)
  payload : List UInt8
  deriving DecidableEq, Repr

/-- The control block, with the fields that the code below reads. -/
structure TcpConnection where
  state : TcpState
  sendNext : ℕ
  sendUnack : ℕ
  recvNext : ℕ
  recvBuffer : List UInt8
  sendBuffer : List UInt8
  retransmitQueue : List RetransmitEntry
  rto : ℕ
  cwnd : ℕ
  ssthresh : ℕ
  dupAcks : ℕ
  peerWindow : ℕ
  oooQueue : List (ℕ × OooSeg)
  oooBytes : ℕ
  sackPermitted : Bool
  oooFinSeq : Option ℕ
  timewaitStart : ℕ
  closedTick : ℕ
  closePending : Bool
  deriving DecidableEq, Repr

namespace TcpConnection

variable (c : TcpConnection)

/-- The block that `connect` makes. -/
def opened (isn : ℕ) : TcpConnection where
  state := .synSent
  sendNext := Serial.add isn 1
  sendUnack := isn
  recvNext := 0
  recvBuffer := []
  sendBuffer := []
  retransmitQueue := []
  rto := rtoInitial
  cwnd := mss
  ssthresh := 65535
  dupAcks := 0
  peerWindow := 65535
  oooQueue := []
  oooBytes := 0
  sackPermitted := true
  oooFinSeq := none
  timewaitStart := 0
  closedTick := 0
  closePending := false

/-- The block that a SYN makes on a listening port. -/
def accepted (isn : ℕ) (hdr : TcpHeader) (peerSack : Bool) : TcpConnection :=
  { opened isn with
    state := .synReceived
    recvNext := Serial.add hdr.seqNum 1
    peerWindow := hdr.window
    sackPermitted := peerSack }

/-- The end of a connection: what came too early is dropped. -/
def markClosed (now : ℕ) : TcpConnection :=
  { c with
    state := .closed
    closedTick := max now 1
    oooQueue := []
    oooBytes := if c.oooQueue = [] then c.oooBytes else 0
    oooFinSeq := none }

/-! ## Reassembly -/

/-- The walk of `ooo_insert` over the resident ranges: the parts of `[cursor, end)` that none of
them covers. -/
def fragments (stop : ℕ) : List (ℕ × ℕ) → ℕ → List (ℕ × ℕ)
  | [], cursor => if Serial.lt cursor stop then [(cursor, stop)] else []
  | (s, e) :: rest, cursor =>
    if Serial.ge cursor stop then []
    else if Serial.le e cursor then fragments stop rest cursor
    else if Serial.ge s stop then [(cursor, stop)]
    else
      (if Serial.lt cursor s then [(cursor, if Serial.lt s stop then s else stop)] else []) ++
        fragments stop rest (if Serial.gt e cursor then e else cursor)

/-- The bytes in the fragments. -/
def totalNew (frags : List (ℕ × ℕ)) : ℕ := (frags.map fun f => Serial.sub f.2 f.1).sum

/-- The queue with its byte count and its latent FIN while `ooo_insert` makes room. -/
structure Room where
  queue : List (ℕ × OooSeg)
  bytes : ℕ
  finSeq : Option ℕ

/-- The loop that evicts from the high end, on the queue in descending order. The flag says that the
newcomer is dropped instead. -/
def evict (count total newOff : ℕ) : List (ℕ × OooSeg) → ℕ → Option ℕ → Bool × Room
  | [], bytes, finSeq => (false, ⟨[], bytes, finSeq⟩)
  | (key, s) :: rest, bytes, finSeq =>
    if oooMaxSegs < rest.length + 1 + count ∨ oooMaxBytes < bytes + total then
      if key ≤ newOff then (true, ⟨((key, s) :: rest).reverse, bytes, finSeq⟩)
      else evict count total newOff rest (bytes - s.data.length)
        (if finSeq = some s.endSeq then none else finSeq)
    else (false, ⟨((key, s) :: rest).reverse, bytes, finSeq⟩)

/-- One fragment of the newcomer `[seq, ..)` goes into the queue. -/
def insertFragment (recvNext seq : ℕ) (data : List UInt8) (hasFin : Bool) (r : Room)
    (frag : ℕ × ℕ) : Room :=
  let len := Serial.sub frag.2 frag.1
  let fragFin := hasFin && frag.2 = Serial.add seq data.length
  { queue := KeyMap.insert (Serial.sub frag.1 recvNext)
      { seq := frag.1, data := (data.drop (Serial.sub frag.1 seq)).take len, fin := fragFin }
      r.queue
    bytes := r.bytes + len
    finSeq := if fragFin then some (Serial.add seq data.length) else r.finSeq }

/-- The queue after `evict`. -/
def withRoom (r : Room) : TcpConnection :=
  { c with oooQueue := r.queue, oooBytes := r.bytes, oooFinSeq := r.finSeq }

/-- Queues the new parts of an early segment, within the caps. -/
def oooInsert (seq : ℕ) (data : List UInt8) (hasFin : Bool) : TcpConnection :=
  let frags := fragments (Serial.add seq data.length)
    (c.oooQueue.map fun x => (x.2.seq, x.2.endSeq)) seq
  match frags with
  | [] => c
  | first :: _ =>
    let r := evict frags.length (totalNew frags)
      (Serial.sub first.1 c.recvNext) c.oooQueue.reverse c.oooBytes
      c.oooFinSeq
    if r.1 ∨ oooMaxBytes < r.2.bytes + totalNew frags then c.withRoom r.2
    else c.withRoom (frags.foldl (insertFragment c.recvNext seq data hasFin) r.2)

/-- A segment that was already delivered leaves the queue. -/
def dropStale (seg : OooSeg) : TcpConnection :=
  { c with
    oooBytes := c.oooBytes - seg.data.length
    oooFinSeq := if c.oooFinSeq = some seg.endSeq then none else c.oooFinSeq }

/-- The latent FIN is the one of this segment. -/
def reachesFin (seg : OooSeg) : Bool := seg.fin && c.oooFinSeq = some seg.endSeq

/-- The part of a segment that was not yet delivered is appended. -/
def splice (seg : OooSeg) : TcpConnection :=
  { c with
    oooBytes := c.oooBytes - seg.data.length
    recvBuffer := c.recvBuffer ++ seg.data.drop (Serial.sub c.recvNext seg.seq)
    recvNext := seg.endSeq
    oooFinSeq := if c.reachesFin seg then none else c.oooFinSeq }

/-- The first loop of `ooo_drain`, on what is left of the queue. -/
def drainLoop : List (ℕ × OooSeg) → TcpConnection → Bool → TcpConnection × Bool
  | [], c, finReached => ({ c with oooQueue := [] }, finReached)
  | x :: rest, c, finReached =>
    if Serial.gt x.2.seq c.recvNext then ({ c with oooQueue := x :: rest }, finReached)
    else if Serial.le x.2.endSeq c.recvNext then drainLoop rest (c.dropStale x.2) finReached
    else drainLoop rest (c.splice x.2) (finReached || c.reachesFin x.2)

/-- The keys are counted from the new `recv_next`. -/
def rebase : TcpConnection :=
  { c with
    oooQueue :=
      c.oooQueue.foldl (fun q x => KeyMap.insert (Serial.sub x.2.seq c.recvNext) x.2 q) [] }

/-- Moves what has become contiguous to the reader. -/
def oooDrain : TcpConnection × Bool :=
  let r := drainLoop c.oooQueue c false
  (r.1.rebase, r.2)

/-- The queue with adjacent segments joined. -/
def sackRuns (q : List (ℕ × OooSeg)) : List (ℕ × ℕ) :=
  q.foldl (fun runs x =>
    match runs.getLast? with
    | some last =>
      if last.2 = x.2.seq then runs.dropLast ++ [(last.1, x.2.endSeq)]
        else runs ++ [(x.2.seq, x.2.endSeq)]
    | none => [(x.2.seq, x.2.endSeq)]) []

/-- The runs to report; that of the most recent segment comes first. -/
def sackBlocks (mostRecentSeq : ℕ) : List (ℕ × ℕ) :=
  let runs := sackRuns c.oooQueue
  let runs :=
    match runs.find? fun r => Serial.ge mostRecentSeq r.1 ∧ Serial.lt mostRecentSeq r.2 with
    | some run => run :: runs.erase run
    | none => runs
  runs.take sackMaxBlocks

/-- The acknowledgement that answers a segment. -/
def buildAckReply (triggerSeq : ℕ) : OutSeg where
  seq := c.sendNext
  ack := c.recvNext
  flags := ack
  sack := if c.sackPermitted then c.sackBlocks triggerSeq else []
  payload := []

/-- The FIN takes one sequence number. -/
def consumeFin : TcpConnection := { c with recvNext := Serial.add c.recvNext 1 }

/-- A FIN without text that is not next. -/
def latentFin (seq : ℕ) : TcpConnection := { c with oooFinSeq := some seq }

/-- Bytes in order go to the reader. -/
def append (bytes : List UInt8) (segEnd : ℕ) : TcpConnection :=
  { c with recvBuffer := c.recvBuffer ++ bytes, recvNext := segEnd }

/-- In-order bytes arrive: they are appended, the queue is spliced, and the FIN of the segment is
consumed if it is next. -/
def deliver (bytes : List UInt8) (segEnd : ℕ) (hasFin : Bool) : Bool × TcpConnection :=
  let r := (c.append bytes segEnd).oooDrain
  if hasFin ∧ r.1.recvNext = segEnd then (true, r.1.consumeFin) else (r.2, r.1)

/-- The out-of-order branch: what lies in the window is kept. -/
def buffer (segSeq : ℕ) (payload : List UInt8) (hasFin : Bool) : TcpConnection :=
  let segEnd := Serial.add segSeq payload.length
  let winEnd := Serial.add c.recvNext recvWindow
  if Serial.lt segSeq winEnd then
    c.oooInsert segSeq
      (if Serial.gt segEnd winEnd then payload.take (Serial.sub winEnd segSeq) else payload)
      (hasFin && !Serial.gt segEnd winEnd)
  else c

/-- `receive_segment_data`: whether a FIN was consumed, and the reply. -/
def receiveSegmentData (hdr : TcpHeader) (payload : List UInt8) :
    Bool × TcpConnection × List OutSeg :=
  let segSeq := hdr.seqNum
  let hasFin := hdr.has fin
  let segEnd := Serial.add segSeq payload.length
  if payload = [] then
    if hasFin ∧ segSeq = c.recvNext then
      (true, c.consumeFin, [c.consumeFin.buildAckReply segSeq])
    else if hasFin then (false, c.latentFin segSeq, [(c.latentFin segSeq).buildAckReply segSeq])
    else (false, c, [])
  else if segSeq = c.recvNext then
    let r := c.deliver payload segEnd hasFin
    (r.1, r.2, [r.2.buildAckReply segSeq])
  else if Serial.lt segSeq c.recvNext then
    if Serial.gt segEnd c.recvNext then
      let r := c.deliver (payload.drop (Serial.sub c.recvNext segSeq)) segEnd hasFin
      (r.1, r.2, [r.2.buildAckReply segSeq])
    else (false, c, [c.buildAckReply segSeq])
  else
    (false, c.buffer segSeq payload hasFin, [(c.buffer segSeq payload hasFin).buildAckReply segSeq])

/-! ## Acknowledgements -/

/-- Entries that the number covers are dropped. -/
def drainRetransmit (ackNum : ℕ) : TcpConnection :=
  { c with retransmitQueue := c.retransmitQueue.dropWhile fun e => Serial.le e.endSeq ackNum }

/-- Slow start below `ssthresh`, congestion avoidance above. -/
def updateCwnd (acked : ℕ) : TcpConnection :=
  { c with
    cwnd :=
      if c.cwnd < c.ssthresh then min (c.cwnd + min acked mss) (2 ^ 32 - 1)
      else min (c.cwnd + max (mss * mss / max c.cwnd 1) 1) (2 ^ 32 - 1) }

/-- The front entry is sent again on the next tick. -/
def forceRetransmit : List RetransmitEntry → List RetransmitEntry
  | [] => []
  | e :: rest => { e with sentTicks := 0 } :: rest

/-- A third duplicate halves the window and has the front sent again. -/
def handleAck (ackNum : ℕ) : TcpConnection :=
  if ackNum = c.sendUnack then
    if 3 ≤ min (c.dupAcks + 1) 255 then
      { c with
        ssthresh := max (c.cwnd / 2) (2 * mss)
        cwnd := (max (c.cwnd / 2) (2 * mss) + 3 * mss) % 2 ^ 32
        dupAcks := 0
        retransmitQueue := forceRetransmit c.retransmitQueue }
    else { c with dupAcks := min (c.dupAcks + 1) 255 }
  else if Serial.gt ackNum c.sendUnack then
    ({ c with sendUnack := ackNum, dupAcks := 0, rto := rtoInitial }.drainRetransmit
      ackNum).updateCwnd
      (Serial.sub ackNum c.sendUnack)
  else c

/-- The peer's window is noted. -/
def withWindow (hdr : TcpHeader) : TcpConnection := { c with peerWindow := hdr.window }

/-- The window of a segment, and its acknowledgement if it has one. -/
def acknowledge (hdr : TcpHeader) : TcpConnection :=
  if hdr.has ack then (c.withWindow hdr).handleAck hdr.ackNum else c.withWindow hdr

/-- The acknowledgement that ends the handshake is taken as it is. -/
def finishOpen (hdr : TcpHeader) : TcpConnection :=
  { { c.withWindow hdr with sendUnack := hdr.ackNum }.drainRetransmit hdr.ackNum with
    state := .established }

/-- Text arrives; `next` says what a consumed FIN and what its absence do to the state. -/
def receive (hdr : TcpHeader) (payload : List UInt8) (next : Bool → TcpConnection → TcpConnection) :
    TcpConnection × List OutSeg :=
  let r := c.receiveSegmentData hdr payload
  (next r.1 r.2.1, r.2.2)

/-- What a segment does in each state, and the replies. -/
def processSegment (hdr : TcpHeader) (payload : List UInt8) (segOffersSack : Bool) (now : ℕ) :
    TcpConnection × List OutSeg :=
  match c.state with
  | .synSent =>
    if hdr.flags &&& (syn ||| ack) = syn ||| ack then
      let c := { c.finishOpen hdr with
        recvNext := Serial.add hdr.seqNum 1, sackPermitted := segOffersSack }
      (c, [{ seq := c.sendNext, ack := c.recvNext, flags := ack, sack := [], payload := [] }])
    else (c.withWindow hdr, [])
  | .synReceived => (if hdr.has ack then c.finishOpen hdr else c.withWindow hdr, [])
  | .established =>
    (c.acknowledge hdr).receive hdr payload fun finConsumed c =>
      if finConsumed then { c with state := .closeWait } else c
  | .finWait1 =>
    (c.acknowledge hdr).receive hdr payload fun finConsumed c =>
      if finConsumed then { c with state := .timeWait, timewaitStart := now }
      else if hdr.has ack then { c with state := .finWait2 }
      else c
  | .finWait2 =>
    (c.withWindow hdr).receive hdr payload fun finConsumed c =>
      if finConsumed then { c with state := .timeWait, timewaitStart := now } else c
  | .lastAck =>
    (if hdr.has ack then { (c.withWindow hdr).markClosed now with retransmitQueue := [] }
      else c.withWindow hdr, [])
  | _ => (c.withWindow hdr, [])

/-! ## Sending -/

/-- The bytes sent and not acknowledged. -/
def inFlight : ℕ := Serial.sub c.sendNext c.sendUnack

/-- The window; a closed one still lets a segment through. -/
def effWindow : ℕ := min c.cwnd (max c.peerWindow mss)

/-- The bytes that may be sent now. -/
def canSend : ℕ := c.effWindow - c.inFlight

/-- A chunk goes to the wire and to the retransmit queue. -/
def transmit (ticks : ℕ) (chunk : List UInt8) : TcpConnection :=
  { c with
    retransmitQueue := c.retransmitQueue ++
      [{ seq := c.sendNext, data := chunk, sentTicks := ticks, rto := c.rto, retries := 0 }]
    sendNext := Serial.add c.sendNext chunk.length }

/-- A segment with data. -/
def dataSegment (chunk : List UInt8) : OutSeg where
  seq := c.sendNext
  ack := c.recvNext
  flags := psh ||| ack
  sack := []
  payload := chunk

/-- The loop of `send_data_inner` on the bytes and the window that are left. Every pass sends at
least one byte, so as many passes as bytes are enough. -/
def sendLoop (ticks : ℕ) : ℕ → TcpConnection → List UInt8 → ℕ →
    TcpConnection × List OutSeg × List UInt8
  | 0, c, rest, _ => (c, [], rest)
  | passes + 1, c, rest, left =>
    if rest = [] ∨ left = 0 then (c, [], rest)
    else
      let chunk := rest.take (min mss left)
      let r := sendLoop ticks passes (c.transmit ticks chunk) (rest.drop (min mss left))
        (left - chunk.length)
      (r.1, c.dataSegment chunk :: r.2.1, r.2.2)

/-- `send_data_to`: `none` is the error. -/
def sendDataTo (ticks : ℕ) (data : List UInt8) : Option (TcpConnection × List OutSeg) :=
  if data = [] then some (c, [])
  else if c.state ≠ .established then none
  else
    let r := sendLoop ticks data.length c data c.canSend
    some ({ r.1 with sendBuffer := r.1.sendBuffer ++ r.2.2 }, r.2.1)

/-- A segment with FIN. -/
def finSegment : OutSeg where
  seq := c.sendNext
  ack := c.recvNext
  flags := fin ||| ack
  sack := []
  payload := []

/-- The state once FIN is sent. -/
def afterFin : TcpState := if c.state = .closeWait then .lastAck else .finWait1

/-- The writing side is closed; FIN waits for buffered bytes. -/
def requestClose : TcpConnection × List OutSeg :=
  if c.sendBuffer = [] then ({ c with state := c.afterFin }, [c.finSegment])
    else ({ c with closePending := true }, [])

/-- `close_connection` and `shutdown_write`. -/
def closeConnection : TcpConnection × List OutSeg :=
  if c.state = .established ∨ c.state = .closeWait then c.requestClose else (c, [])

/-- Takes bytes from the reader's buffer. -/
def readFrom (maxLen : ℕ) : List UInt8 × TcpConnection :=
  if c.state = .established ∨ c.state = .closeWait then
    (c.recvBuffer.take maxLen, { c with recvBuffer := c.recvBuffer.drop maxLen })
  else ([], c)

/-! ## The timer -/

/-- The timer finds the front entry overdue: it is sent again, or given up. -/
def retransmitFront (now : ℕ) : TcpConnection × List OutSeg :=
  match c.retransmitQueue with
  | [] => (c, [])
  | e :: rest =>
    if e.rto ≤ Word.sub now e.sentTicks then
      if maxRetries ≤ e.retries then
        ({ c.markClosed now with retransmitQueue := [] },
          [{ seq := c.sendNext, ack := 0, flags := rst, sack := [], payload := [] }])
      else
        ({ c with
            retransmitQueue :=
              { e with
                retries := e.retries + 1, rto := min (e.rto * 2) rtoMax, sentTicks := now } :: rest
            ssthresh := max (c.cwnd / 2) (2 * mss)
            cwnd := mss },
          [{
            seq := e.seq, ack := c.recvNext, flags := psh ||| ack, sack := [], payload := e.data }])
    else (c, [])

/-- The timer sends one segment of what is buffered. -/
def drainSendBuffer (now : ℕ) : TcpConnection × List OutSeg :=
  if c.sendBuffer ≠ [] ∧ c.inFlight < c.effWindow then
    let chunk := c.sendBuffer.take (min c.canSend mss)
    ({ c.transmit now chunk with sendBuffer := c.sendBuffer.drop (min c.canSend mss) },
      [c.dataSegment chunk])
  else (c, [])

/-- The timer sends a FIN that waited. -/
def deferredFin : TcpConnection × List OutSeg :=
  if c.closePending ∧ c.sendBuffer = [] then
    ({ c with closePending := false, state := c.afterFin }, [c.finSegment])
  else (c, [])

/-- The states that the timer serves. -/
def TcpState.ticks (s : TcpState) : Bool :=
  s = .synSent ∨ s = .synReceived ∨ s = .established ∨ s = .finWait1 ∨ s = .closeWait ∨ s = .lastAck

/-- `tcp_timer_tick` on one connection. The entry of a closed connection may be dropped from the
table afterwards. -/
def timerTick (now : ℕ) : TcpConnection × List OutSeg :=
  if c.state = .timeWait then
    (if timewaitTicks ≤ Word.sub now c.timewaitStart then c.markClosed now else c, [])
  else if TcpState.ticks c.state then
    let r₁ := c.retransmitFront now
    let r₂ := r₁.1.drainSendBuffer now
    let r₃ := r₂.1.deferredFin
    (r₃.1, r₁.2 ++ r₂.2 ++ r₃.2)
  else (c, [])

end TcpConnection

end Astryx.Tcp
