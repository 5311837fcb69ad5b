import Astryx.Lib.Transition
import Astryx.Tcp.Connection

/-!
# The stream that is sent

Everything that `send_data_to` was given, in call order, is the stream of a connection. Position `k`
of it has sequence number `S + k`. A byte takes one of two ways to the wire: directly from
`send_data_to` while the window is open, or through `send_buffer` and the timer.

The two ways do not keep the order. `send_data_to` sends what the window allows without looking at
`send_buffer`, so when an acknowledgement has opened the window and the timer has not yet emptied
the buffer, new bytes get the sequence numbers of buffered ones. `SendOk` rules out such a call.

## Main results

* `sendRun_carries` — under `SendOk` every data segment carries its bytes of the stream
* `send_overtakes` — a call that overtakes a buffered byte
-/

namespace Astryx.Tcp

open Transition List Option

namespace TcpConnection

/-! ## What receiving leaves alone -/

/-- The fields of the sending side. -/
structure SameSend (c c' : TcpConnection) : Prop where
  sendNext : c'.sendNext = c.sendNext
  sendUnack : c'.sendUnack = c.sendUnack
  sendBuffer : c'.sendBuffer = c.sendBuffer
  retransmitQueue : c'.retransmitQueue = c.retransmitQueue
  peerWindow : c'.peerWindow = c.peerWindow
  state : c'.state = c.state

/-- The connection with the receiving side of another one. -/
def receivingOf (c' c : TcpConnection) : TcpConnection :=
  { c' with
    recvNext := c.recvNext
    recvBuffer := c.recvBuffer
    oooQueue := c.oooQueue
    oooBytes := c.oooBytes
    oooFinSeq := c.oooFinSeq }

/-- Receiving appends to the buffer and leaves the other fields alone. -/
structure Receives (c c' : TcpConnection) : Prop where
  buffer : c.recvBuffer <+: c'.recvBuffer
  rest : c'.receivingOf c = c

variable {c : TcpConnection}

lemma Receives.refl (c : TcpConnection) : Receives c c := ⟨prefix_rfl, rfl⟩

lemma Receives.trans {c' c'' : TcpConnection} (h : Receives c c') (h' : Receives c' c'') :
    Receives c c'' :=
  ⟨h.buffer.trans h'.buffer, (congrArg (receivingOf · c) h'.rest).trans h.rest⟩

lemma Receives.sameSend {c' : TcpConnection} (h : Receives c c') : SameSend c c' :=
  ⟨congrArg (·.sendNext) h.rest, congrArg (·.sendUnack) h.rest, congrArg (·.sendBuffer) h.rest,
    congrArg (·.retransmitQueue) h.rest, congrArg (·.peerWindow) h.rest, congrArg (·.state) h.rest⟩

lemma drainLoop_receives (q : List (ℕ × OooSeg)) (c : TcpConnection) (finReached : Bool) :
    Receives c (drainLoop q c finReached).1 := by
  induction q generalizing c finReached with
  | nil => exact ⟨prefix_rfl, rfl⟩
  | cons x rest ih =>
    rw [drainLoop]
    split
    · exact ⟨prefix_rfl, rfl⟩
    split
    · have h : Receives c (c.dropStale x.2) := ⟨prefix_rfl, rfl⟩
      exact h.trans (ih _ _)
    · have h : Receives c (c.splice x.2) := ⟨prefix_append .., rfl⟩
      exact h.trans (ih _ _)

section

variable (c : TcpConnection)

lemma deliver_receives (bytes : List UInt8) (segEnd : ℕ) (hasFin : Bool) :
    Receives c (c.deliver bytes segEnd hasFin).2 := by
  have h : Receives c (c.append bytes segEnd) := ⟨prefix_append .., rfl⟩
  have h := h.trans (drainLoop_receives (c.append bytes segEnd).oooQueue _ false)
  rw [deliver]
  split <;> exact ⟨h.buffer, h.rest⟩

lemma oooInsert_receives (seq : ℕ) (data : List UInt8) (hasFin : Bool) :
    Receives c (c.oooInsert seq data hasFin) := by
  rw [oooInsert]
  split
  · exact .refl c
  · dsimp only
    split <;> exact ⟨prefix_rfl, rfl⟩

/-- Receiving text changes nothing on the sending side, and replies carry no text. -/
lemma receiveSegmentData_send (hdr : TcpHeader) (payload : List UInt8) :
    Receives c (c.receiveSegmentData hdr payload).2.1 ∧
    ∀ o ∈ (c.receiveSegmentData hdr payload).2.2, o.payload = [] := by
  have hreply : ∀ (c' : TcpConnection) (seq : ℕ), ∀ o ∈ [c'.buildAckReply seq], o.payload = [] := by
    intro c' seq o ho
    rw [mem_singleton.mp ho]
    rfl
  rw [receiveSegmentData]
  split
  · split
    · exact ⟨⟨prefix_rfl, rfl⟩, hreply _ _⟩
    split
    · exact ⟨⟨prefix_rfl, rfl⟩, hreply _ _⟩
    · exact ⟨.refl c, by simp⟩
  split
  · exact ⟨deliver_receives .., hreply _ _⟩
  split
  · split
    · exact ⟨deliver_receives .., hreply _ _⟩
    · exact ⟨.refl c, hreply _ _⟩
  refine ⟨?_, hreply _ _⟩
  rw [buffer]
  split
  · exact oooInsert_receives ..
  · exact .refl c

end

/-! ## The retransmit queue -/

/-- Sequence number and bytes of the entries. -/
def pieces (q : List RetransmitEntry) : List (ℕ × List UInt8) := q.map fun e => (e.seq, e.data)

@[simp] lemma pieces_forceRetransmit (q : List RetransmitEntry) :
    pieces (forceRetransmit q) = pieces q := by
  cases q <;> rfl

lemma handleAck_send (c : TcpConnection) (ackNum : ℕ) :
    (c.handleAck ackNum).sendNext = c.sendNext ∧ (c.handleAck ackNum).sendBuffer = c.sendBuffer ∧
      (c.handleAck ackNum).peerWindow = c.peerWindow ∧ (c.handleAck ackNum).state = c.state ∧
      (((c.handleAck ackNum).sendUnack = c.sendUnack ∧
          pieces (c.handleAck ackNum).retransmitQueue = pieces c.retransmitQueue ∧
          (ackNum = c.sendUnack ∨ ¬ Serial.gt ackNum c.sendUnack)) ∨
        ((c.handleAck ackNum).sendUnack = ackNum ∧ Serial.gt ackNum c.sendUnack ∧
          (c.handleAck ackNum).retransmitQueue = c.retransmitQueue.dropWhile fun e =>
            Serial.le e.endSeq ackNum)) := by
  rw [handleAck]
  split
  next heq =>
    split
    · exact ⟨rfl, rfl, rfl, rfl, .inl ⟨rfl, pieces_forceRetransmit _, .inl heq⟩⟩
    · exact ⟨rfl, rfl, rfl, rfl, .inl ⟨rfl, rfl, .inl heq⟩⟩
  split
  next hgt => exact ⟨rfl, rfl, rfl, rfl, .inr ⟨rfl, hgt, rfl⟩⟩
  next hgt => exact ⟨rfl, rfl, rfl, rfl, .inl ⟨rfl, rfl, .inr hgt⟩⟩

lemma acknowledge_send (c : TcpConnection) (hdr : TcpHeader) :
    (c.acknowledge hdr).sendNext = c.sendNext ∧ (c.acknowledge hdr).sendBuffer = c.sendBuffer ∧
      (c.acknowledge hdr).peerWindow = hdr.window ∧ (c.acknowledge hdr).state = c.state := by
  rw [acknowledge]
  split
  · obtain ⟨hnext, hbuffer, hwindow, hstate, -⟩ := handleAck_send (c.withWindow hdr) hdr.ackNum
    exact ⟨hnext, hbuffer, hwindow, hstate⟩
  · exact ⟨rfl, rfl, rfl, rfl⟩

/-- On the sending side a segment in ESTABLISHED is its acknowledgement. -/
lemma processSegment_established (h : c.state = .established) (hdr : TcpHeader)
    (payload : List UInt8) (segOffersSack : Bool) (now : ℕ) :
    (c.processSegment hdr payload segOffersSack now).1.sendNext = c.sendNext ∧
      (c.processSegment hdr payload segOffersSack now).1.sendBuffer = c.sendBuffer ∧
      (c.processSegment hdr payload segOffersSack now).1.sendUnack = (c.acknowledge hdr).sendUnack ∧
      (c.processSegment hdr payload segOffersSack now).1.retransmitQueue =
        (c.acknowledge hdr).retransmitQueue ∧
      ∀ o ∈ (c.processSegment hdr payload segOffersSack now).2, o.payload = [] := by
  obtain ⟨hreceives, hout⟩ := receiveSegmentData_send (c.acknowledge hdr) hdr payload
  have hsend := hreceives.sameSend
  obtain ⟨hnext, hbuffer, -⟩ := acknowledge_send c hdr
  rw [processSegment, h, receive]
  dsimp only
  refine ⟨?_, ?_, ?_, ?_, hout⟩ <;> split
  · exact hsend.sendNext.trans hnext
  · exact hsend.sendNext.trans hnext
  · exact hsend.sendBuffer.trans hbuffer
  · exact hsend.sendBuffer.trans hbuffer
  · exact hsend.sendUnack
  · exact hsend.sendUnack
  · exact hsend.retransmitQueue
  · exact hsend.retransmitQueue

end TcpConnection

open TcpConnection

/-! ## Runs -/

/-- A connection with the stream it was given and the data segments it has emitted. -/
structure SendSystem where
  conn : TcpConnection
  written : List UInt8
  sent : List (ℕ × List UInt8)

/-- A call, a segment or the timer. -/
inductive SendOp where
  | send (ticks : ℕ) (data : List UInt8)
  | segment (hdr : TcpHeader) (payload : List UInt8) (segOffersSack : Bool) (now : ℕ)
  | tick (now : ℕ)

/-- Sequence number and bytes of the segments with data. -/
def dataSegments (out : List OutSeg) : List (ℕ × List UInt8) :=
  (out.filter fun o => o.payload ≠ []).map fun o => (o.seq, o.payload)

/-- A step of a connection that is ESTABLISHED before it. -/
def sendStep (s : SendSystem) (op : SendOp) : Option SendSystem :=
  if s.conn.state ≠ .established then none
  else
    match op with
    | .send ticks data =>
      (s.conn.sendDataTo ticks data).map fun r =>
        { conn := r.1, written := s.written ++ data, sent := s.sent ++ dataSegments r.2 }
    | .segment hdr payload segOffersSack now =>
      let r := s.conn.processSegment hdr payload segOffersSack now
      some { s with conn := r.1, sent := s.sent ++ dataSegments r.2 }
    | .tick now =>
      let r := s.conn.timerTick now
      some { s with conn := r.1, sent := s.sent ++ dataSegments r.2 }

/-- What a call must meet: `send_data_to` finds the buffer empty or the window closed. -/
def SendOk (s : SendSystem) : SendOp → Prop
  | .send _ data => data = [] ∨ s.conn.sendBuffer = [] ∨ s.conn.canSend = 0
  | _ => True

instance SendOk.decidable (s : SendSystem) (op : SendOp) : Decidable (SendOk s op) := by
  cases op <;> dsimp only [SendOk] <;> infer_instance

/-! ## The stream -/

section Stream

variable {c : TcpConnection} {s : SendSystem} {start : ℕ} {w w' : List UInt8}

/-- The bytes are those written, at the place that the number says. -/
def Carries (start : ℕ) (w : List UInt8) (x : ℕ × List UInt8) : Prop :=
  ∃ o, x.1 = Serial.add start o ∧ o + x.2.length ≤ w.length ∧ x.2 = (w.drop o).take x.2.length

variable {x : ℕ × List UInt8} {out : List OutSeg}

lemma Carries.append (h : Carries start w x) (w' : List UInt8) : Carries start (w ++ w') x := by
  obtain ⟨o, hseq, hlen, hdata⟩ := h
  refine ⟨o, hseq, by rw [length_append]; omega, ?_⟩
  rw [drop_append_of_le_length (by omega), take_append_of_le_length (by rw [length_drop]; omega)]
  exact hdata

/-- The connection has sent the first `k` bytes of the stream and can send them again. -/
structure Sent (start : ℕ) (w : List UInt8) (k : ℕ) (c : TcpConnection) : Prop where
  next : c.sendNext = Serial.add start k
  bound : k ≤ w.length
  queued : ∀ x ∈ pieces c.retransmitQueue, Carries start w x

variable {k : ℕ}

section

variable (h : Sent start w k c)

include h

lemma Sent.append (w' : List UInt8) : Sent start (w ++ w') k c where
  next := h.next
  bound := Nat.le_trans h.bound (by rw [length_append]; omega)
  queued x hx := (h.queued x hx).append w'

lemma carries_next {n : ℕ} : Carries start w (c.sendNext, (w.drop k).take n) := by
  refine ⟨k, h.next, ?_, ?_⟩
  · have hle := h.bound
    simp only [length_take, length_drop]
    omega
  simp only [length_take, length_drop]
  rw [take_eq_take_iff, length_drop]
  omega

lemma Sent.transmit (ticks n : ℕ) :
    Sent start w (k + ((w.drop k).take n).length) (c.transmit ticks ((w.drop k).take n)) where
  next := by
    show Serial.add c.sendNext _ = _
    rw [h.next, Serial.add_add]
  bound := by
    have hle := h.bound
    rw [length_take, length_drop]
    omega
  queued x hx := by
    have hpieces : pieces (c.transmit ticks ((w.drop k).take n)).retransmitQueue
        = pieces c.retransmitQueue ++ [(c.sendNext, (w.drop k).take n)] := by
      simp [pieces, TcpConnection.transmit]
    rw [hpieces, mem_append, mem_singleton] at hx
    obtain hx | rfl := hx
    · exact h.queued x hx
    · exact carries_next h

omit h in
/-- The loop of `send_data_to` takes the bytes from the front of what was not sent. -/
lemma sendLoop_sent (ticks passes left : ℕ) (h : Sent start w k c) :
    ∃ k', Sent start w k' (sendLoop ticks passes c (w.drop k) left).1 ∧
      (sendLoop ticks passes c (w.drop k) left).2.2 = w.drop k' ∧
      (∀ o ∈ (sendLoop ticks passes c (w.drop k) left).2.1, Carries start w (o.seq, o.payload)) ∧
      (sendLoop ticks passes c (w.drop k) left).1.sendBuffer = c.sendBuffer := by
  induction passes generalizing c k left with
  | zero => exact ⟨k, h, rfl, by simp [sendLoop], rfl⟩
  | succ passes ih =>
    rw [sendLoop]
    split
    · exact ⟨k, h, rfl, by simp, rfl⟩
    have hrest : (w.drop k).drop (min mss left) =
        w.drop (k + ((w.drop k).take (min mss left)).length) := by
      rw [drop_drop, length_take, length_drop, drop_eq_drop_iff]
      omega
    rw [hrest]
    obtain ⟨k', hsent, hleft, hout, hbuffer⟩ := ih (left - ((w.drop k).take (min mss left)).length)
      (h.transmit ticks (min mss left))
    refine ⟨k', hsent, hleft, ?_, hbuffer⟩
    intro o ho
    obtain rfl | ho := mem_cons.mp ho
    · exact carries_next h
    · exact hout o ho

omit h in
lemma sendLoop_closed (ticks passes : ℕ) (c : TcpConnection) (data : List UInt8) :
    sendLoop ticks passes c data 0 = (c, [], data) := by
  cases passes with
  | zero => rfl
  | succ passes => exact if_pos (.inr rfl)

lemma retransmitFront_sent (now : ℕ) :
    Sent start w k (c.retransmitFront now).1 ∧ (c.retransmitFront now).1.sendBuffer = c.sendBuffer ∧
      ∀ o ∈ (c.retransmitFront now).2, o.payload = [] ∨ Carries start w (o.seq, o.payload) := by
  have hq := h.queued
  rw [retransmitFront]
  split
  · exact ⟨h, rfl, by simp⟩
  next e rest hqueue =>
    rw [hqueue] at hq
    split
    · split
      · refine ⟨⟨h.next, h.bound, nofun⟩, rfl, ?_⟩
        intro o ho
        rw [mem_singleton.mp ho]
        exact .inl rfl
      refine ⟨⟨h.next, h.bound, hq⟩, rfl, ?_⟩
      intro o ho
      rw [mem_singleton.mp ho]
      exact .inr (hq (e.seq, e.data) mem_cons_self)
    · exact ⟨h, rfl, by simp⟩

lemma drainSendBuffer_sent (hbuffer : c.sendBuffer = w.drop k) (now : ℕ) :
    ∃ k', Sent start w k' (c.drainSendBuffer now).1 ∧
      (c.drainSendBuffer now).1.sendBuffer = w.drop k' ∧
      ∀ o ∈ (c.drainSendBuffer now).2, Carries start w (o.seq, o.payload) := by
  rw [drainSendBuffer, hbuffer]
  split
  · have hsent := h.transmit now (min c.canSend mss)
    refine ⟨k + ((w.drop k).take (min c.canSend mss)).length,
      ⟨hsent.next, hsent.bound, hsent.queued⟩, ?_, ?_⟩
    · rw [drop_drop, length_take, length_drop, drop_eq_drop_iff]
      omega
    intro o ho
    rw [mem_singleton.mp ho]
    exact carries_next h
  · exact ⟨k, h, hbuffer, by simp⟩

end

/-- The invariant of a run. -/
structure SendInv (start : ℕ) (s : SendSystem) : Prop where
  sent : ∃ k, Sent start s.written k s.conn ∧ s.conn.sendBuffer = s.written.drop k
  emitted : ∀ x ∈ s.sent, Carries start s.written x

lemma mem_dataSegments (h : x ∈ dataSegments out) :
    ∃ o ∈ out, o.payload ≠ [] ∧ x = (o.seq, o.payload) := by
  obtain ⟨o, ho, rfl⟩ := mem_map.mp h
  rw [mem_filter, decide_eq_true_eq] at ho
  exact ⟨o, ho.1, ho.2, rfl⟩

lemma emitted_append (h : ∀ x ∈ s.sent, Carries start w x)
    (hout : ∀ o ∈ out, o.payload = [] ∨ Carries start w (o.seq, o.payload)) :
    ∀ x ∈ s.sent ++ dataSegments out, Carries start w x := by
  intro x hx
  obtain hx | hx := mem_append.mp hx
  · exact h x hx
  · obtain ⟨o, ho, hpayload, rfl⟩ := mem_dataSegments hx
    exact (hout o ho).resolve_left hpayload

section

variable (h : SendInv start s)

include h

lemma send_inv {ticks : ℕ} {data : List UInt8} (hok : SendOk s (.send ticks data))
    {r : TcpConnection × List OutSeg} (hr : s.conn.sendDataTo ticks data = some r) :
    SendInv start {
      conn := r.1, written := s.written ++ data, sent := s.sent ++ dataSegments r.2 } := by
  obtain ⟨k, hsent, hbuffer⟩ := h.sent
  have hold : ∀ x ∈ s.sent, Carries start (s.written ++ data) x := fun x hx =>
    (h.emitted x hx).append data
  have hdrop : (s.written ++ data).drop k = s.written.drop k ++ data :=
    drop_append_of_le_length hsent.bound
  rw [sendDataTo] at hr
  split at hr
  next hnil =>
    cases hr
    refine ⟨⟨k, hsent.append data, ?_⟩, emitted_append hold (by simp)⟩
    show s.conn.sendBuffer = (s.written ++ data).drop k
    rw [hdrop, hnil, append_nil]
    exact hbuffer
  rename_i hdata
  split at hr
  · cases hr
  cases hr
  obtain hempty | hclosed := hok.resolve_left hdata
  · -- nothing is buffered: the new bytes are the next ones
    rw [hempty] at hbuffer
    rw [← hbuffer, nil_append] at hdrop
    obtain ⟨k', hsent', hleft, hout, hsame⟩ :=
      sendLoop_sent ticks data.length s.conn.canSend (hsent.append data)
    rw [hdrop] at hsent' hleft hout hsame
    refine ⟨⟨k', ⟨hsent'.next, hsent'.bound, hsent'.queued⟩, ?_⟩, emitted_append hold fun o ho =>
      .inr (hout o ho)⟩
    rw [hsame, hempty, nil_append]
    exact hleft
  -- nothing can be sent: the new bytes wait behind the buffered ones
  rw [hclosed, sendLoop_closed]
  have hsent' := hsent.append data
  refine ⟨⟨k, ⟨hsent'.next, hsent'.bound, hsent'.queued⟩, ?_⟩, emitted_append hold (by simp)⟩
  rw [hdrop, hbuffer]

lemma segment_inv (hstate : s.conn.state = .established) (hdr : TcpHeader)
    (payload : List UInt8) (segOffersSack : Bool) (now : ℕ) :
    SendInv start { s with
      conn := (s.conn.processSegment hdr payload segOffersSack now).1
      sent := s.sent ++ dataSegments (s.conn.processSegment hdr payload segOffersSack now).2 } := by
  obtain ⟨k, hsent, hbuffer⟩ := h.sent
  obtain ⟨hnext, hbuf, -, hqueue, hout⟩ :=
    processSegment_established hstate hdr payload segOffersSack now
  refine ⟨⟨k, ⟨hnext.trans hsent.next, hsent.bound, ?_⟩, hbuf.trans hbuffer⟩,
    emitted_append h.emitted fun o ho => .inl (hout o ho)⟩
  intro x hx
  rw [hqueue, acknowledge] at hx
  refine hsent.queued x ?_
  split at hx
  · obtain ⟨-, -, -, -, ⟨-, hpieces, -⟩ | ⟨-, -, hdropped⟩⟩ :=
      handleAck_send (s.conn.withWindow hdr) hdr.ackNum
    · rw [hpieces] at hx
      exact hx
    rw [hdropped, pieces] at hx
    obtain ⟨e, he, rfl⟩ := mem_map.mp hx
    exact mem_map_of_mem ((dropWhile_sublist _).subset he)
  · exact hx

lemma tick_inv (now : ℕ) :
    SendInv start { s with
      conn := (s.conn.timerTick now).1
      sent := s.sent ++ dataSegments (s.conn.timerTick now).2 } := by
  obtain ⟨k, hsent, hbuffer⟩ := h.sent
  rw [timerTick]
  split
  · refine ⟨⟨k, ?_⟩, emitted_append h.emitted (by simp)⟩
    split
    · exact ⟨⟨hsent.next, hsent.bound, hsent.queued⟩, hbuffer⟩
    · exact ⟨hsent, hbuffer⟩
  split
  · dsimp only
    obtain ⟨hsent1, hbuffer1, hout1⟩ := retransmitFront_sent hsent now
    obtain ⟨k', hsent2, hbuffer2, hout2⟩ := drainSendBuffer_sent hsent1 (hbuffer1.trans hbuffer) now
    generalize (s.conn.retransmitFront now).1.drainSendBuffer now = r at hsent2 hbuffer2 hout2 ⊢
    have hfin : Sent start s.written k' r.1.deferredFin.1 ∧
      r.1.deferredFin.1.sendBuffer = s.written.drop k' ∧
        ∀ o ∈ r.1.deferredFin.2, o.payload = [] := by
      rw [deferredFin]
      split
      · refine ⟨⟨hsent2.next, hsent2.bound, hsent2.queued⟩, hbuffer2, ?_⟩
        intro o ho
        rw [mem_singleton.mp ho]
        rfl
      · exact ⟨hsent2, hbuffer2, by simp⟩
    refine ⟨⟨k', hfin.1, hfin.2.1⟩, emitted_append h.emitted ?_⟩
    intro o ho
    simp only [mem_append] at ho
    obtain (ho | ho) | ho := ho
    · exact hout1 o ho
    · exact .inr (hout2 o ho)
    · exact .inl (hfin.2.2 o ho)
  · exact ⟨⟨k, hsent, hbuffer⟩, emitted_append h.emitted (by simp)⟩

lemma sendStep_inv {s' : SendSystem} {op : SendOp} (hok : SendOk s op)
    (hstep : sendStep s op = some s') : SendInv start s' := by
  rw [sendStep.eq_def] at hstep
  split at hstep
  · cases hstep
  rename_i hstate
  rw [not_not] at hstate
  cases op with
  | send ticks data =>
    obtain ⟨r, hr, rfl⟩ := map_eq_some_iff.mp hstep
    exact send_inv h hok hr
  | segment hdr payload segOffersSack now =>
    cases hstep
    exact segment_inv h hstate hdr payload segOffersSack now
  | tick now =>
    cases hstep
    exact tick_inv h now

end

end Stream

/-- A run from an ESTABLISHED connection with empty queues whose steps all meet `SendOk`: as long as
fewer than `2 ^ 31` bytes were written, every data segment carries the bytes of the stream at its
sequence number, and `send_buffer` is the stream from `send_next` on. -/
theorem sendRun_carries (c : TcpConnection) (hstart : c.sendNext < 2 ^ 32)
    (hbuffer : c.sendBuffer = []) (hqueue : c.retransmitQueue = []) (ops : List SendOp)
    (hok : Guarded sendStep SendOk ⟨c, [], []⟩ ops) (n : ℕ) (s : SendSystem)
    (hrun : run sendStep ⟨c, [], []⟩ (ops.take n) = some s) (hsize : s.written.length < 2 ^ 31) :
    (∀ q d, (q, d) ∈ s.sent →
        Serial.sub q c.sendNext + d.length ≤ s.written.length ∧
          d = (s.written.drop (Serial.sub q c.sendNext)).take d.length) ∧
      s.conn.sendBuffer = s.written.drop (Serial.sub s.conn.sendNext c.sendNext) := by
  have hinit : SendInv c.sendNext ⟨c, [], []⟩ := by
    refine ⟨⟨0, ⟨(Serial.add_zero hstart).symm, le_rfl, ?_⟩, hbuffer⟩, by simp⟩
    rw [hqueue]
    simp [pieces]
  have hinv : SendInv c.sendNext s :=
    run_guarded (fun _ _ _ h hok hstep => sendStep_inv h hok hstep) hinit (guarded_take hok n) hrun
  refine ⟨fun q d hqd => ?_, ?_⟩
  · obtain ⟨o, hseq, hlen, hdata⟩ := hinv.emitted (q, d) hqd
    dsimp only at hseq hlen hdata
    rw [hseq, Serial.sub_add_self (by omega)]
    exact ⟨hlen, hdata⟩
  obtain ⟨k, hsent, hbuf⟩ := hinv.sent
  have hbound := hsent.bound
  rw [hbuf, hsent.next, Serial.sub_add_self (by omega)]

/-- A connection once it is open. -/
def TcpConnection.afterHandshake (start : ℕ) : TcpConnection :=
  { TcpConnection.opened 0 with state := .established, sendNext := start, sendUnack := start }

/-- An acknowledgement. -/
def ackOf (ackNum : ℕ) (h : ackNum < 2 ^ 32) : SendOp :=
  .segment ⟨0, ackNum, ack, 65535, zero_lt_seq, h, window_max⟩ [] false 0

/-- Two writes with an acknowledgement between them, across the wrap of the sequence numbers. -/
def wrappingWrites : List SendOp :=
  [.send 0 [1, 2, 3], ackOf 1 one_lt_seq, .send 0 [4], .tick 300]

theorem sendRun_carries_of_wrappingWrites :
    ∃ s, run sendStep ⟨.afterHandshake (2 ^ 32 - 2), [], []⟩ wrappingWrites = some s ∧
      (1, [4]) ∈ s.sent ∧
      [4] = (s.written.drop (Serial.sub 1 (2 ^ 32 - 2))).take 1 := by
  obtain ⟨s, hrun, hs⟩ :
    ∃ s, run sendStep ⟨.afterHandshake (2 ^ 32 - 2), [], []⟩ wrappingWrites = some s ∧
      (1, [4]) ∈ s.sent ∧ s.written.length = 4 := exists_of_decide (by decide +kernel)
  have hcarries := sendRun_carries (.afterHandshake (2 ^ 32 - 2))
    (by decide) rfl rfl wrappingWrites (by decide +kernel) 4 s
    hrun (by rw [hs.2]; decide)
  exact ⟨s, hrun, hs.1, (hcarries.1 1 [4] hs.1).2⟩

/-- One byte more than the window allows is buffered. The acknowledgement opens the window, and the
next call sends its byte at the buffered byte's place in the stream. -/
theorem send_overtakes :
    ∃ s, run sendStep ⟨.afterHandshake 0, [], []⟩
        [.send 0 (List.replicate 1461 0), ackOf 1460 (by decide), .send 0 [7]] = some s ∧
      (1460, [7]) ∈ s.sent ∧ (s.written.drop 1460).take 1 = [0] := by
  exact exists_of_decide (by decide +kernel)

end Astryx.Tcp
