import Astryx.Tcp.Accounting
import Astryx.Tcp.Reassembly

/-!
# Reading after a half-close

`shutdown_write` leaves the socket to its user so that what arrived can still be read. That holds
while the FIN is deferred because something waits in the send buffer. `read_from` reads in
ESTABLISHED and CLOSE-WAIT only, and the FIN takes the connection to FIN-WAIT-1 or LAST-ACK: what
was not read by then, and all that arrives later, cannot be read any more.

## Main results

* `halfClose_readable` — reads return what was received, in its order and without a gap, and all of
  it until the FIN is sent
-/

namespace Astryx.Tcp

open Transition List TcpConnection

/-- A connection with what was ever appended to `recv_buffer` and what reads returned. -/
structure Reading where
  conn : TcpConnection
  appended : List UInt8
  got : List UInt8

/-- A call, a reset or a read. -/
inductive ReadingOp where
  | call (op : TcpOp)
  /-- A RST arrives, or `abort` is called. -/
  | reset (now : ℕ)
  | read (maxLen : ℕ)

/-- One call, with what came and what was read. -/
def readingStep (s : Reading) : ReadingOp → Option Reading
  | .call op =>
    (tcpStep s.conn op).map fun c =>
      { s with conn := c, appended := s.appended ++ c.recvBuffer.drop s.conn.recvBuffer.length }
  | .reset now => some { s with conn := { s.conn.markClosed now with retransmitQueue := [] } }
  | .read maxLen =>
    some { s with conn := (s.conn.readFrom maxLen).2, got := s.got ++ (s.conn.readFrom maxLen).1 }

lemma processSegment_received (c : TcpConnection) (hdr : TcpHeader) (payload : List UInt8)
    (segOffersSack : Bool) (now : ℕ) :
    c.recvBuffer <+: (c.processSegment hdr payload segOffersSack now).1.recvBuffer := by
  have hreceive : ∀ c' : TcpConnection, c'.recvBuffer <+:
      (c'.receiveSegmentData hdr payload).2.1.recvBuffer := fun c' =>
    (receiveSegmentData_send c' hdr payload).1.1
  have hack : (c.acknowledge hdr).recvBuffer = c.recvBuffer := by
    rw [acknowledge]
    split
    · exact (handleAck_recv ..).2.1
    · rfl
  have hacked := hreceive (c.acknowledge hdr)
  rw [hack] at hacked
  rw [processSegment]
  split <;> dsimp only [receive] <;> (try split_ifs) <;>
    first | exact hacked | exact hreceive (c.withWindow hdr) | exact prefix_rfl

lemma sendLoop_received (ticks passes : ℕ) (c : TcpConnection) (rest : List UInt8) (left : ℕ) :
    (sendLoop ticks passes c rest left).1.recvBuffer = c.recvBuffer := by
  induction passes generalizing c rest left with
  | zero => rfl
  | succ passes ih =>
    rw [sendLoop]
    split
    · rfl
    · exact ih ..

lemma timerTick_received (c : TcpConnection) (now : ℕ) :
    (c.timerTick now).1.recvBuffer = c.recvBuffer := by
  have hfront : (c.retransmitFront now).1.recvBuffer = c.recvBuffer := by
    rw [retransmitFront]
    split
    · rfl
    · split_ifs <;> rfl
  have hdrain : ∀ c : TcpConnection, (c.drainSendBuffer now).1.recvBuffer =
      c.recvBuffer := fun c => by
    rw [drainSendBuffer]
    split_ifs <;> rfl
  rw [timerTick]
  split_ifs
  · rfl
  · rfl
  · dsimp only
    rw [deferredFin]
    split_ifs <;> exact (hdrain _).trans hfront
  · rfl

/-- A call takes nothing out of `recv_buffer`. -/
lemma tcpStep_received {c c' : TcpConnection} {op : TcpOp} (h : tcpStep c op = some c') :
    c.recvBuffer <+: c'.recvBuffer := by
  cases op with
  | segment hdr payload segOffersSack now =>
    cases h
    exact processSegment_received ..
  | send ticks data =>
    rw [tcpStep, sendDataTo] at h
    split_ifs at h <;> cases h
    · exact prefix_rfl
    · exact prefix_rfl
    · exact (sendLoop_received ..).symm ▸ prefix_rfl
  | close =>
    cases h
    rw [closeConnection, requestClose]
    split_ifs <;> exact prefix_rfl
  | tick now =>
    cases h
    exact (timerTick_received ..).symm ▸ prefix_rfl

lemma readingStep_stream {s t : Reading} {op : ReadingOp}
    (h : s.got ++ s.conn.recvBuffer = s.appended) (hstep : readingStep s op = some t) :
    t.got ++ t.conn.recvBuffer = t.appended := by
  cases op with
  | call op =>
    obtain ⟨c, hc, rfl⟩ := Option.map_eq_some_iff.mp hstep
    obtain ⟨bytes, hbytes⟩ := tcpStep_received hc
    rw [← hbytes, drop_left, ← append_assoc, h]
  | reset now =>
    cases hstep
    exact h
  | read maxLen =>
    cases hstep
    rw [readFrom]
    split_ifs
    · rwa [append_assoc, take_append_drop]
    · rwa [append_nil]

/-- **Half-close keeps the read side**: reads return what was received in its order. One that is
large enough returns all that is left exactly if the FIN was not sent or nothing is left. -/
theorem halfClose_readable {c₀ : TcpConnection} (h₀ : c₀.recvBuffer = []) {ops : List ReadingOp}
    {s : Reading} (hrun : run readingStep ⟨c₀, [], []⟩ ops = some s) (n : ℕ) :
    s.got ++ (s.conn.readFrom n).1 <+: s.appended ∧
      (s.conn.recvBuffer.length ≤ n → (s.got ++ (s.conn.readFrom n).1 = s.appended ↔
        s.conn.state = .established ∨ s.conn.state = .closeWait ∨ s.conn.recvBuffer = [])) := by
  have hstream : s.got ++ s.conn.recvBuffer = s.appended :=
    run_invariant (I := fun s : Reading => s.got ++ s.conn.recvBuffer = s.appended)
      (fun _ _ _ => readingStep_stream)
      (by exact h₀) hrun
  rw [readFrom, ← hstream, ← or_assoc]
  split_ifs with hopen
  · refine ⟨(prefix_append_right_inj _).mpr ( take_prefix ..), fun hn => ?_⟩
    simp [take_of_length_le hn, hopen]
  · simp [hopen]

/-- A segment with three bytes. -/
def threeBytes : ReadingOp :=
  .call (.segment ⟨1, 1, ack, 65535, one_lt_seq, one_lt_seq, window_max⟩ [1, 2, 3] false 0)

/-- A byte that waits to be sent defers the FIN. -/
theorem halfClose_readable_of_deferred :
    ∃ s, run readingStep ⟨{ expecting 1 with sendBuffer := [7] }, [], []⟩
      [.call .close, threeBytes] = some s ∧ s.conn.closePending = true ∧
      s.got ++ (s.conn.readFrom 9).1 = s.appended := by
  have h := @halfClose_readable { expecting 1 with sendBuffer := [7] } rfl
    [.call .close, threeBytes] _ rfl 9
  exact ⟨_, rfl, rfl, (h.2 (by decide +kernel)).mpr (.inl rfl)⟩

/-- With nothing left to send the three bytes are lost. -/
theorem halfClose_loses :
    (run readingStep ⟨expecting 1, [], []⟩ [threeBytes, .call .close, .read 9]).map
    (fun s => (s.conn.recvBuffer, s.got)) = some ([1, 2, 3], []) := by
  decide +kernel

end Astryx.Tcp
