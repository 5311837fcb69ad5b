import Astryx.Tcp.Sending

/-!
# What is acknowledged

The entries of the retransmit queue end at ascending distances from `send_unack`, none beyond
`send_next`. An acknowledgement covers an entry if its number is after `send_unack` and not before
the end of the entry. One that covers the first `k` of them takes exactly these out.

That fails for the segments that `process_segment` does not check. Nobody compares an
acknowledgement with `send_next`, so one for bytes that were never sent moves `send_unack` past it.
In CLOSE-WAIT no acknowledgement is looked at, although `tcp_timer_tick` goes on sending and
repeating in that state. In LAST-ACK every acknowledgement empties the queue. `TcpOk` rules out
these segments.

## Main results

* `tcpRun_accounts` — under `TcpOk` acknowledgements take out what they cover
* `unchecked_acks` — the three kinds of segments
-/

namespace Astryx.Tcp

open List Option

variable {c c' : TcpConnection}

open Transition TcpConnection

/-! ## Runs -/

/-- A segment, a call or the timer. -/
inductive TcpOp where
  | segment (hdr : TcpHeader) (payload : List UInt8) (segOffersSack : Bool) (now : ℕ)
  | send (ticks : ℕ) (data : List UInt8)
  | close
  | tick (now : ℕ)

/-- A call; one that fails changes nothing. -/
def tcpStep (c : TcpConnection) : TcpOp → Option TcpConnection
  | .segment hdr payload segOffersSack now =>
    some (c.processSegment hdr payload segOffersSack now).1
  | .send ticks data =>
    match c.sendDataTo ticks data with
    | some r => some r.1
    | none => some c
  | .close => some c.closeConnection.1
  | .tick now => some (c.timerTick now).1

namespace TcpConnection

variable (c : TcpConnection)

/-- The distance of a sequence number from `send_unack`. -/
def ahead (q : ℕ) : ℕ := Serial.sub q c.sendUnack

/-- The number is after `send_unack`, and the entry ends at or before it. -/
def covers (ackNum : ℕ) (e : RetransmitEntry) : Bool :=
  Serial.gt ackNum c.sendUnack ∧ c.ahead e.endSeq ≤ c.ahead ackNum

/-- The acknowledgement covers the first `k` entries and no other. -/
def Acks (ackNum k : ℕ) : Prop :=
  (∀ e ∈ c.retransmitQueue.take k, c.covers ackNum e = true) ∧
    ∀ e ∈ c.retransmitQueue.drop k, c.covers ackNum e = false

instance Acks.decidable (ackNum k : ℕ) : Decidable (c.Acks ackNum k) := by
  dsimp only [Acks]
  infer_instance

end TcpConnection

/-- The states in which unacknowledged data can exist. -/
def TcpState.unacked (s : TcpState) : Bool := s = .established ∨ s = .finWait1 ∨ s = .closeWait ∨
    s = .lastAck

/-- What a segment must meet. An acknowledgement that is taken does not go past `send_next + 1`; one
in CLOSE-WAIT covers no entry, one in LAST-ACK all that there are. -/
def TcpOk (c : TcpConnection) : TcpOp → Prop
  | .segment hdr _ _ _ =>
    match c.state with
    | .synSent =>
      hdr.flags &&& (syn ||| ack) = syn ||| ack →
        Serial.le hdr.ackNum (Serial.add c.sendNext 1) = true
    | .synReceived => hdr.has ack = true → Serial.le hdr.ackNum (Serial.add c.sendNext 1) = true
    | .established | .finWait1 =>
      hdr.has ack = true → Serial.gt hdr.ackNum c.sendUnack = true →
        Serial.le hdr.ackNum (Serial.add c.sendNext 1) = true
    | .closeWait =>
      hdr.has ack = true → ∀ e ∈ c.retransmitQueue.head?, c.covers hdr.ackNum e = false
    | .lastAck => hdr.has ack = true → ∀ e ∈ c.retransmitQueue, c.covers hdr.ackNum e = true
    | _ => True
  | _ => True

instance TcpOk.decidable (c : TcpConnection) (op : TcpOp) : Decidable (TcpOk c op) := by
  cases op with
  | segment hdr payload segOffersSack now =>
    dsimp only [TcpOk]
    cases c.state <;> dsimp only <;> infer_instance
  | send | close | tick => exact isTrue trivial

/-! ## The invariant -/

/-- The ends lie at ascending distances from `send_unack`, up to `next`. -/
structure Outstanding (unack next : ℕ) (ends : List ℕ) : Prop where
  near : ends ≠ [] → Serial.sub next unack < 2 ^ 31
  range : ∀ q ∈ ends, 0 < Serial.sub q unack ∧ Serial.sub q unack ≤ Serial.sub next unack
  sorted : ends.Pairwise fun q q' => Serial.sub q unack ≤ Serial.sub q' unack

lemma Outstanding.nil (unack next : ℕ) : Outstanding unack next [] :=
  ⟨fun h => absurd rfl h, by simp, .nil⟩

/-- Where the entries end. -/
def endsOf (q : List RetransmitEntry) : List ℕ := q.map (·.endSeq)

/-- What holds in every state. -/
structure Accounted (c : TcpConnection) : Prop where
  next_lt : c.sendNext < 2 ^ 32
  unack_lt : c.sendUnack < 2 ^ 32
  window_lt : c.peerWindow < 2 ^ 16
  /-- At most half the circle is in flight, or the acknowledgement is one ahead of everything. -/
  flight : c.inFlight < 2 ^ 31 ∨ c.inFlight = 2 ^ 32 - 1
  outstanding : Outstanding c.sendUnack c.sendNext (endsOf c.retransmitQueue)
  opening : c.state = .synSent ∨ c.state = .synReceived → c.retransmitQueue = [] ∧ c.sendBuffer = []

lemma endsOf_eq_of_pieces {q q' : List RetransmitEntry} (h : pieces q' = pieces q) :
    endsOf q' = endsOf q := by
  have hmap := congrArg (List.map fun x : ℕ × List UInt8 => Serial.add x.1 x.2.length) h
  rw [pieces, pieces, List.map_map, List.map_map] at hmap
  exact hmap

lemma endsOf_dropWhile (p : ℕ → Bool) (q : List RetransmitEntry) :
    endsOf (q.dropWhile fun e => p e.endSeq) = (endsOf q).dropWhile p := by
  rw [endsOf, endsOf, dropWhile_map]
  rfl

/-! ### Arithmetic -/

section Arithmetic

variable {unack next : ℕ}

/-- `send_unack <= send_next + 1` in terms of what is in flight. -/
lemma le_next_succ (unack next : ℕ) :
    Serial.le unack (Serial.add next 1) ↔ Serial.sub next unack < 2 ^ 31 ∨
    Serial.sub next unack = 2 ^ 32 - 1 := by
  rw [Serial.le, Serial.sub, Serial.add, Serial.sub, decide_eq_true_eq]
  omega

lemma sub_sub (q unack ackNum : ℕ) (hle : Serial.sub ackNum unack ≤ Serial.sub q unack) :
    Serial.sub q ackNum = Serial.sub q unack - Serial.sub ackNum unack := by
  rw [Serial.sub, Serial.sub] at hle ⊢
  rw [Serial.sub]
  omega

lemma le_iff_of_near {q ackNum : ℕ} (hq : Serial.sub q unack < 2 ^ 31)
    (hq0 : 0 < Serial.sub q unack) (hack : Serial.sub ackNum unack ≤ 2 ^ 31) :
    Serial.le q ackNum ↔ Serial.sub q unack ≤ Serial.sub ackNum unack := by
  rw [Serial.le, decide_eq_true_eq]
  rw [Serial.sub] at hq hq0 hack ⊢
  rw [Serial.sub, Serial.sub]
  omega

end Arithmetic

lemma Outstanding.ack {unack next : ℕ} {ends : List ℕ} {ackNum : ℕ}
    (h : Outstanding unack next ends) (hnext : Serial.sub next unack < 2 ^ 31)
    (hle : Serial.sub ackNum unack ≤ Serial.sub next unack + 1) :
    Outstanding ackNum next (ends.dropWhile fun q => Serial.le q ackNum) := by
  have hsub := dropWhile_sublist (l := ends) fun q => Serial.le q ackNum
  -- the first one left is not covered, and the others end later
  have hleft : ∀ q ∈ ends.dropWhile (fun q => Serial.le q ackNum),
      Serial.sub ackNum unack < Serial.sub q unack := by
    have hsorted := h.sorted.sublist hsub
    have hhead := List.head?_dropWhile_not (fun q => Serial.le q ackNum) ends
    generalize hl : ends.dropWhile (fun q => Serial.le q ackNum) = l at *
    intro q hq
    cases l with
    | nil => cases hq
    | cons q₀ l =>
      have hq0 := h.range q₀ (hsub.subset mem_cons_self)
      have hnot : ¬ Serial.le q₀ ackNum := by
        simpa using hhead
      rw [le_iff_of_near (by omega) hq0.1 (by omega)] at hnot
      obtain rfl | hq := mem_cons.mp hq
      · omega
      · have hle' := (pairwise_cons.mp hsorted).1 q hq
        omega
  have hrange : ∀ q ∈ ends.dropWhile (fun q => Serial.le q ackNum),
      Serial.sub q ackNum = Serial.sub q unack - Serial.sub ackNum unack := by
    intro q hq
    have hlt := hleft q hq
    exact sub_sub q unack ackNum (by omega)
  refine ⟨fun hne => ?_, fun q hq => ?_, ?_⟩
  · obtain ⟨q, hq⟩ := exists_mem_of_ne_nil _ hne
    have hlt := hleft q hq
    have hq' := h.range q (hsub.subset hq)
    rw [sub_sub next unack ackNum (by omega)]
    omega
  · have hlt := hleft q hq
    have hq' := h.range q (hsub.subset hq)
    rw [hrange q hq, sub_sub next unack ackNum (by omega)]
    omega
  refine (h.sorted.sublist hsub).imp_of_mem fun hq hq' hle' => ?_
  rw [hrange _ hq, hrange _ hq']
  omega

/-! ## Steps -/

/-- A connection that differs in nothing the invariant is about, or whose queue is emptied. -/
lemma Accounted.congr (h : Accounted c) (hnext : c'.sendNext = c.sendNext)
    (hunack : c'.sendUnack = c.sendUnack) (hbuffer : c'.sendBuffer = c.sendBuffer)
    (hwindow : c'.peerWindow < 2 ^ 16)
    (hqueue : pieces c'.retransmitQueue = pieces c.retransmitQueue ∨ c'.retransmitQueue = [])
    (hstate : c'.state = c.state ∨ (c'.state ≠ .synSent ∧ c'.state ≠ .synReceived)) :
    Accounted c' where
  next_lt := hnext ▸ h.next_lt
  unack_lt := hunack ▸ h.unack_lt
  window_lt := hwindow
  flight := by
    rw [inFlight, hnext, hunack]
    exact h.flight
  outstanding := by
    rcases hqueue with hqueue | hqueue
    · rw [hnext, hunack, endsOf_eq_of_pieces hqueue]
      exact h.outstanding
    · rw [hqueue]
      exact .nil ..
  opening hopen := by
    have hsame : c'.state = c.state := hstate.resolve_right fun hne => hopen.elim hne.1 hne.2
    rw [hsame] at hopen
    have hempty := h.opening hopen
    rw [hempty.1] at hqueue
    exact ⟨hqueue.elim map_eq_nil_iff.mp id, hbuffer.trans hempty.2⟩
lemma Accounted.acked {ackNum : ℕ} (h : Accounted c) (hack : ackNum < 2 ^ 32)
    (hle : Serial.le ackNum (Serial.add c.sendNext 1))
    (hgt : Serial.gt ackNum c.sendUnack ∨ c.retransmitQueue = []) (hnext : c'.sendNext = c.sendNext)
    (hunack : c'.sendUnack = ackNum) (hwindow : c'.peerWindow < 2 ^ 16)
    (hqueue : c'.retransmitQueue = c.retransmitQueue.dropWhile fun e => Serial.le e.endSeq ackNum)
    (hstate : c'.state ≠ .synSent ∧ c'.state ≠ .synReceived) : Accounted c' where
  next_lt := hnext ▸ h.next_lt
  unack_lt := hunack ▸ hack
  window_lt := hwindow
  flight := by
    rw [inFlight, hnext, hunack]
    exact (le_next_succ _ _).mp hle
  outstanding := by
    rw [hnext, hunack, hqueue, endsOf_dropWhile fun q => Serial.le q ackNum]
    by_cases hempty : c.retransmitQueue = []
    · rw [hempty]
      exact .nil ..
    have hnear := h.outstanding.near fun hnil => hempty (map_eq_nil_iff.mp hnil)
    refine h.outstanding.ack hnear ?_
    have hgt := Serial.gt_iff.mp (hgt.resolve_right hempty)
    rw [Serial.le, decide_eq_true_eq] at hle
    rw [Serial.sub, Serial.add] at hle
    rw [Serial.sub] at hnear hgt ⊢
    rw [Serial.sub]
    omega
  opening hopen := absurd hopen fun hor => hor.elim hstate.1 hstate.2

lemma Accounted.withWindow (h : Accounted c) (hdr : TcpHeader) : Accounted (c.withWindow hdr) :=
  h.congr rfl rfl rfl hdr.window_lt (.inl rfl) (.inl rfl)

variable {hdr : TcpHeader}

section

variable (h : Accounted c)

include h

lemma Accounted.finishOpen (hstate : c.state = .synSent ∨ c.state = .synReceived)
    (hle : Serial.le hdr.ackNum (Serial.add c.sendNext 1)) : Accounted (c.finishOpen hdr) :=
  h.acked hdr.ackNum_lt hle (.inr (h.opening hstate).1) rfl rfl hdr.window_lt rfl ⟨nofun, nofun⟩

lemma Accounted.acknowledge (hstate : c.state ≠ .synSent ∧ c.state ≠ .synReceived)
    (hok : hdr.has ack → Serial.gt hdr.ackNum c.sendUnack →
      Serial.le hdr.ackNum (Serial.add c.sendNext 1)) : Accounted (c.acknowledge hdr) := by
  rw [TcpConnection.acknowledge]
  split
  next hack =>
    obtain ⟨hnext, hbuffer, hwindow, hsame, ⟨hunack, hqueue, -⟩ | ⟨hunack, hgt, hqueue⟩⟩ :=
      handleAck_send (c.withWindow hdr) hdr.ackNum
    · exact h.congr hnext hunack hbuffer (hwindow ▸ hdr.window_lt) (.inl hqueue) (.inl hsame)
    · exact h.acked hdr.ackNum_lt (hok hack hgt)
        (.inl hgt) hnext hunack (hwindow ▸ hdr.window_lt) hqueue (hsame ▸ hstate)
  · exact h.withWindow hdr

/-- Text and FINs of the peer do not concern the sending side. -/
lemma Accounted.receive (hdr : TcpHeader) (payload : List UInt8)
    {next : Bool → TcpConnection → TcpConnection}
    (hnext : ∀ finConsumed c', Accounted c' → Accounted (next finConsumed c')) :
    Accounted (c.receive hdr payload next).1 := by
  have hsame := (receiveSegmentData_send c hdr payload).1.sameSend
  exact hnext _ _ (h.congr hsame.sendNext hsame.sendUnack hsame.sendBuffer
    (hsame.peerWindow ▸ h.window_lt)
    (.inl (by rw [hsame.retransmitQueue])) (.inl hsame.state))

lemma segment_accounted {payload : List UInt8}
    {segOffersSack : Bool} {now : ℕ} (hok : TcpOk c (.segment hdr payload segOffersSack now)) :
    Accounted (c.processSegment hdr payload segOffersSack now).1 := by
  -- no transition leads into the handshake
  have hmove : ∀ (c' : TcpConnection) (state : TcpState), state ≠ .synSent ∧
    state ≠ .synReceived → ∀ start,
      Accounted c' → Accounted { c' with state := state, timewaitStart := start } :=
    fun c' state hstate start h' => h'.congr rfl rfl rfl h'.window_lt (.inl rfl) (.inr hstate)
  rw [TcpOk] at hok
  rw [processSegment]
  cases hstate : c.state <;> simp only [hstate] at hok ⊢
  case synSent =>
    split
    next hflags =>
      have hopen := h.finishOpen (.inl hstate) (hok hflags)
      exact hopen.congr rfl rfl rfl hopen.window_lt (.inl rfl) (.inl rfl)
    · exact h.withWindow hdr
  case synReceived =>
    split
    next hack => exact h.finishOpen (.inr hstate) (hok hack)
    · exact h.withWindow hdr
  case established =>
    refine (h.acknowledge (by simp [hstate]) hok).receive hdr payload fun finConsumed c' h' => ?_
    split
    · exact hmove c' .closeWait (by simp) c'.timewaitStart h'
    · exact h'
  case finWait1 =>
    refine (h.acknowledge (by simp [hstate]) hok).receive hdr payload fun finConsumed c' h' => ?_
    split
    · exact hmove c' .timeWait (by simp) now h'
    split
    · exact hmove c' .finWait2 (by simp) c'.timewaitStart h'
    · exact h'
  case finWait2 =>
    refine (h.withWindow hdr).receive hdr payload fun finConsumed c' h' => ?_
    split
    · exact hmove c' .timeWait (by simp) now h'
    · exact h'
  case lastAck =>
    split
    · exact h.congr rfl rfl rfl hdr.window_lt (.inr rfl) (.inr ⟨by rintro ⟨⟩, by rintro ⟨⟩⟩)
    · exact h.withWindow hdr
  all_goals exact h.withWindow hdr

/-! ### Sending -/

lemma Accounted.transmit (hstate : c.state ≠ .synSent ∧ c.state ≠ .synReceived) {chunk : List UInt8}
    (hchunk : chunk ≠ []) (hroom : c.inFlight + chunk.length < 2 ^ 16) (ticks : ℕ) :
    Accounted (c.transmit ticks chunk) ∧
    (c.transmit ticks chunk).inFlight = c.inFlight + chunk.length := by
  have hpos := length_pos_iff.mpr hchunk
  have hflight : (c.transmit ticks chunk).inFlight = c.inFlight + chunk.length := by
    show Serial.sub (Serial.add c.sendNext chunk.length) c.sendUnack = _
    rw [inFlight, Serial.sub] at hroom ⊢
    rw [Serial.sub, Serial.add]
    omega
  have hends : endsOf (c.transmit ticks chunk).retransmitQueue
      = endsOf c.retransmitQueue ++ [Serial.add c.sendNext chunk.length] := by
    rw [endsOf, TcpConnection.transmit, map_append]
    rfl
  have hlast : Serial.sub (Serial.add c.sendNext chunk.length) c.sendUnack = c.inFlight +
      chunk.length := hflight
  refine ⟨⟨Serial.add_lt _ _, h.unack_lt, h.window_lt, .inl (by omega), ⟨fun _ => ?_, ?_, ?_⟩,
    ?_⟩, hflight⟩
  · exact hlast ▸ lt_trans hroom (by decide)
  · intro q hq
    rw [hends, mem_append, mem_singleton] at hq
    show 0 < Serial.sub q c.sendUnack ∧
      Serial.sub q c.sendUnack ≤ Serial.sub (Serial.add c.sendNext _) c.sendUnack
    obtain hq | rfl := hq
    · have hq := h.outstanding.range q hq
      rw [← inFlight] at hq
      omega
    · omega
  · rw [hends, pairwise_append]
    refine ⟨h.outstanding.sorted, pairwise_singleton .., ?_⟩
    intro q hq q' hq'
    rw [mem_singleton.mp hq']
    show Serial.sub q c.sendUnack ≤ Serial.sub (Serial.add c.sendNext _) c.sendUnack
    have hq := h.outstanding.range q hq
    rw [← inFlight] at hq
    omega
  · exact fun hopen => absurd hopen fun hor => hor.elim hstate.1 hstate.2

omit h in
lemma sendLoop_accounted (ticks passes : ℕ) (h : Accounted c)
    (hstate : c.state ≠ .synSent ∧ c.state ≠ .synReceived) (data : List UInt8) {left : ℕ}
    (hroom : left = 0 ∨ c.inFlight + left < 2 ^ 16) :
    Accounted (sendLoop ticks passes c data left).1 ∧
    (sendLoop ticks passes c data left).1.state = c.state := by
  induction passes generalizing c data left with
  | zero => exact ⟨h, rfl⟩
  | succ passes ih =>
    rw [sendLoop]
    split
    · exact ⟨h, rfl⟩
    next hgo =>
      rw [not_or] at hgo
      have hpos : 0 < data.length := length_pos_iff.mpr hgo.1
      have hlen : (data.take (min mss left)).length = min (min mss left) data.length := length_take
      have hmss : 0 < mss := by decide
      have hchunk : data.take (min mss left) ≠ [] := length_pos_iff.mp (by omega)
      obtain ⟨hacc, hflight⟩ := h.transmit hstate hchunk (by omega) ticks
      exact ih hacc hstate _ (.inr (by omega))

/-- What `can_send` allows keeps the flight below the greatest window. -/
lemma Accounted.canSend : c.canSend = 0 ∨ c.inFlight + c.canSend < 2 ^ 16 := by
  have hwindow := h.window_lt
  have hmss : mss < 2 ^ 16 := by decide
  rw [TcpConnection.canSend, effWindow]
  omega

lemma send_accounted {ticks : ℕ} {data : List UInt8}
    {r : TcpConnection × List OutSeg} (hr : c.sendDataTo ticks data = some r) : Accounted r.1 := by
  rw [sendDataTo] at hr
  split at hr
  · cases hr
    exact h
  split at hr
  · cases hr
  next hstate =>
    rw [not_not] at hstate
    cases hr
    have hopen : c.state ≠ .synSent ∧ c.state ≠ .synReceived := by simp [hstate]
    obtain ⟨hacc, hsame⟩ := sendLoop_accounted ticks data.length h hopen data h.canSend
    exact ⟨hacc.next_lt, hacc.unack_lt, hacc.window_lt, hacc.flight, hacc.outstanding,
      fun hor => absurd hor (by dsimp only; rw [hsame, hstate]; simp)⟩

end

lemma TcpConnection.afterFin_ne (c : TcpConnection) :
    c.afterFin ≠ .synSent ∧ c.afterFin ≠ .synReceived := by
  rw [afterFin]
  split <;> simp

section

variable (h : Accounted c)

include h

lemma close_accounted : Accounted c.closeConnection.1 := by
  rw [closeConnection]
  split
  · rw [requestClose]
    split
    · exact h.congr rfl rfl rfl h.window_lt (.inl rfl) (.inr c.afterFin_ne)
    · exact h.congr rfl rfl rfl h.window_lt (.inl rfl) (.inl rfl)
  · exact h

lemma Accounted.retransmitFront (now : ℕ) : Accounted (c.retransmitFront now).1 := by
  rw [TcpConnection.retransmitFront]
  split
  · exact h
  next e rest hqueue =>
    split
    · split
      · exact h.congr rfl rfl rfl h.window_lt (.inr rfl) (.inr ⟨by rintro ⟨⟩, by rintro ⟨⟩⟩)
      · exact h.congr rfl rfl rfl h.window_lt (.inl (by rw [hqueue]; rfl)) (.inl rfl)
    · exact h

lemma Accounted.drainSendBuffer (now : ℕ) : Accounted (c.drainSendBuffer now).1 := by
  rw [TcpConnection.drainSendBuffer]
  split
  next hgo =>
    have hstate : c.state ≠ .synSent ∧ c.state ≠ .synReceived :=
      not_or.mp fun hopen => hgo.1 (h.opening hopen).2
    have hpos : 0 < c.sendBuffer.length := length_pos_iff.mpr hgo.1
    have hlen : (c.sendBuffer.take (min c.canSend mss)).length =
        min (min c.canSend mss) c.sendBuffer.length := length_take
    have hmss : 0 < mss := by decide
    have hcan : c.canSend ≠ 0 := by
      rw [TcpConnection.canSend]
      omega
    have hroom := h.canSend.resolve_left hcan
    have hchunk : c.sendBuffer.take (min c.canSend mss) ≠ [] := length_pos_iff.mp (by omega)
    obtain ⟨hacc, -⟩ := h.transmit hstate hchunk (by omega) now
    exact ⟨hacc.next_lt, hacc.unack_lt, hacc.window_lt, hacc.flight, hacc.outstanding,
      fun hopen => absurd hopen fun hor => hor.elim hstate.1 hstate.2⟩
  · exact h

lemma Accounted.deferredFin : Accounted c.deferredFin.1 := by
  rw [TcpConnection.deferredFin]
  split
  · exact h.congr rfl rfl rfl h.window_lt (.inl rfl) (.inr c.afterFin_ne)
  · exact h

lemma tick_accounted (now : ℕ) : Accounted (c.timerTick now).1 := by
  rw [timerTick]
  split
  · split
    · exact h.congr rfl rfl rfl h.window_lt (.inl rfl) (.inr ⟨by rintro ⟨⟩, by rintro ⟨⟩⟩)
    · exact h
  split
  · exact ((h.retransmitFront now).drainSendBuffer now).deferredFin
  · exact h

lemma tcpStep_accounted {op : TcpOp} (hok : TcpOk c op) (hstep : tcpStep c op = some c') :
    Accounted c' := by
  cases op with
  | segment hdr payload segOffersSack now =>
    cases hstep
    exact segment_accounted h hok
  | send ticks data =>
    rw [tcpStep] at hstep
    split at hstep
    next r hr =>
      cases hstep
      exact send_accounted h hr
    · cases hstep
      exact h
  | close =>
    cases hstep
    exact close_accounted h
  | tick now =>
    cases hstep
    exact tick_accounted h now

end

/-! ## What an acknowledgement removes -/

section Removal

variable {c : TcpConnection} {ackNum k : ℕ}

lemma TcpConnection.Acks.drop_eq_self (hk : c.Acks ackNum k)
    (hhead : ∀ e ∈ c.retransmitQueue.head?, c.covers ackNum e = false) :
    c.retransmitQueue.drop k = c.retransmitQueue := by
  cases hqueue : c.retransmitQueue with
  | nil => exact drop_nil
  | cons e rest =>
    have hcovered := hk.1
    rw [hqueue] at hhead hcovered
    cases k with
    | zero => rfl
    | succ k =>
      have htrue := hcovered e (by rw [take_succ_cons]; exact mem_cons_self)
      rw [hhead e rfl] at htrue
      exact absurd htrue nofun

lemma TcpConnection.Acks.drop_eq_nil (hk : c.Acks ackNum k)
    (hall : ∀ e ∈ c.retransmitQueue, c.covers ackNum e) : c.retransmitQueue.drop k = [] := by
  refine eq_nil_iff_forall_not_mem.mpr fun e he => ?_
  have hfalse := hk.2 e he
  rw [hall e (mem_of_mem_drop he)] at hfalse
  exact Bool.false_ne_true hfalse.symm

/-- The comparison in `drain_retransmit` picks the covered entries. -/
lemma Accounted.le_eq_covers (h : Accounted c) (hgt : Serial.gt ackNum c.sendUnack)
    {e : RetransmitEntry} (he : e ∈ c.retransmitQueue) :
    Serial.le e.endSeq ackNum = c.covers ackNum e := by
  have hnear := h.outstanding.near (ne_nil_of_mem (mem_map_of_mem he))
  have hrange := h.outstanding.range e.endSeq (mem_map_of_mem he)
  have hle := le_iff_of_near (by omega) hrange.1 (Serial.gt_iff.mp hgt).2
  rw [Bool.eq_iff_iff, hle, covers, decide_eq_true_eq, ahead, ahead]
  exact (and_iff_right hgt).symm

lemma Accounted.dropWhile_eq_drop (h : Accounted c) (hgt : Serial.gt ackNum c.sendUnack)
    (hk : c.Acks ackNum k) :
    c.retransmitQueue.dropWhile (fun e => Serial.le e.endSeq ackNum) =
      c.retransmitQueue.drop k := by
  have htake : ∀ e ∈ c.retransmitQueue.take k, Serial.le e.endSeq ackNum := by
    intro e he
    rw [h.le_eq_covers hgt (mem_of_mem_take he)]
    exact hk.1 e he
  have hdrop : ∀ e ∈ c.retransmitQueue.drop k, Serial.le e.endSeq ackNum = false := by
    intro e he
    rw [h.le_eq_covers hgt (mem_of_mem_drop he)]
    exact hk.2 e he
  conv_lhs => rw [← take_append_drop k c.retransmitQueue]
  rw [dropWhile_append_of_pos htake]
  cases hrest : c.retransmitQueue.drop k with
  | nil => rfl
  | cons e rest =>
    refine dropWhile_cons_of_neg ?_
    rw [hdrop e (hrest ▸ mem_cons_self)]
    nofun

/-- In ESTABLISHED and FIN-WAIT-1 the acknowledged entries leave the queue. -/
lemma Accounted.acknowledge_removes (h : Accounted c) {hdr : TcpHeader} (hack : hdr.has ack)
    (hk : c.Acks hdr.ackNum k) :
    pieces (c.acknowledge hdr).retransmitQueue = pieces (c.retransmitQueue.drop k) := by
  rw [TcpConnection.acknowledge, if_pos hack]
  obtain ⟨-, -, -, -, ⟨-, hqueue, hold⟩ | ⟨-, hgt, hqueue⟩⟩ :=
    handleAck_send (c.withWindow hdr) hdr.ackNum
  · -- a number that is not after `send_unack` covers nothing
    have hnot : ¬ Serial.gt hdr.ackNum c.sendUnack := by
      obtain heq | hnot := hold
      · rw [show hdr.ackNum = c.sendUnack from heq, Serial.gt_iff, Serial.sub]
        omega
      · exact hnot
    rw [hqueue, hk.drop_eq_self fun e _ => decide_eq_false fun hcov => hnot hcov.1]
    rfl
  · rw [hqueue]
    exact congrArg pieces (h.dropWhile_eq_drop hgt hk)

lemma segment_removes (h : Accounted c) {hdr : TcpHeader} {payload : List UInt8}
    {segOffersSack : Bool} {now : ℕ} (hok : TcpOk c (.segment hdr payload segOffersSack now))
    (hstate : c.state.unacked) (hack : hdr.has ack) (hk : c.Acks hdr.ackNum k) :
    pieces (c.processSegment hdr payload segOffersSack now).1.retransmitQueue =
      pieces (c.retransmitQueue.drop k) := by
  have hreceive :=
    (receiveSegmentData_send (c.acknowledge hdr) hdr payload).1.sameSend.retransmitQueue
  rw [TcpState.unacked, decide_eq_true_eq] at hstate
  rw [TcpOk] at hok
  rw [processSegment]
  obtain hstate | hstate | hstate | hstate := hstate <;> simp only [hstate] at hok ⊢
  · rw [← h.acknowledge_removes hack hk, ← hreceive, TcpConnection.receive]
    split <;> rfl
  · rw [← h.acknowledge_removes hack hk, ← hreceive, TcpConnection.receive]
    split <;> rfl
  · rw [hk.drop_eq_self (hok hack)]
    rfl
  · rw [if_pos hack, hk.drop_eq_nil (hok hack)]

end Removal

lemma opened_accounted {isn : ℕ} (hisn : isn < 2 ^ 32) : Accounted (.opened isn) := by
  refine ⟨Serial.add_lt _ _, hisn, by simp [opened], .inl ?_, .nil .., fun _ => ⟨rfl, rfl⟩⟩
  show Serial.sub (Serial.add isn 1) isn < 2 ^ 31
  rw [Serial.sub_add_self (by decide)]
  decide

/-- The two ways to get a connection. -/
def TcpConnection.Fresh (c : TcpConnection) : Prop :=
  ∃ isn < 2 ^ 32, c = .opened isn ∨ ∃ hdr peerSack, c = .accepted isn hdr peerSack

lemma TcpConnection.Fresh.accounted (h : c.Fresh) : Accounted c := by
  obtain ⟨isn, hisn, rfl | ⟨hdr, -, rfl⟩⟩ := h
  · exact opened_accounted hisn
  · have hopened := opened_accounted hisn
    exact ⟨hopened.next_lt, hopened.unack_lt, hdr.window_lt, hopened.flight, hopened.outstanding,
      fun _ => ⟨rfl, rfl⟩⟩

/-- A run of a connection whose steps all meet `TcpOk`: after every step `send_unack` is at most
`send_next + 1`, and where data can be unacknowledged, a segment that acknowledges exactly the first
`k` entries removes exactly these. -/
theorem tcpRun_accounts (c₀ : TcpConnection) (hfresh : c₀.Fresh) (ops : List TcpOp)
    (hok : Guarded tcpStep TcpOk c₀ ops) (n : ℕ) (c : TcpConnection)
    (hrun : run tcpStep c₀ (ops.take n) = some c) :
    Serial.le c.sendUnack (Serial.add c.sendNext 1) = true ∧
      ∀ hdr payload segOffersSack now k, TcpOk c (.segment hdr payload segOffersSack now) →
        c.state.unacked = true → hdr.has ack = true → c.Acks hdr.ackNum k →
        pieces (c.processSegment hdr payload segOffersSack now).1.retransmitQueue =
          pieces (c.retransmitQueue.drop k) := by
  have hinv : Accounted c :=
    run_guarded (fun _ _ _ h hok hstep => tcpStep_accounted h hok hstep) hfresh.accounted
      (guarded_take hok n) hrun
  refine ⟨(le_next_succ _ _).mpr hinv.flight, ?_⟩
  intro hdr payload segOffersSack now k hok' hstate hack hk
  exact segment_removes hinv hok' hstate hack hk

/-- A header that acknowledges. -/
def acking (ackNum : ℕ) (h : ackNum < 2 ^ 32) : TcpHeader :=
  ⟨0, ackNum, ack, 65535, zero_lt_seq, h, window_max⟩

/-- The answer to the opening segment. -/
def synAck (ackNum : ℕ) (h : ackNum < 2 ^ 32) : TcpOp :=
  .segment ⟨0, ackNum, syn ||| ack, 65535, zero_lt_seq, h, window_max⟩ [] false 0

/-- The peer closes. -/
def peerFin : TcpOp :=
  .segment ⟨1, 1, fin ||| ack, 65535, one_lt_seq, one_lt_seq, window_max⟩ [] false 0

/-- A connection with two segments in flight. -/
def twoWrites : List TcpOp := [synAck (2 ^ 32 - 1) (by decide), .send 0 [1, 2, 3], .send 0 [4]]

theorem tcpRun_accounts_of_twoWrites :
    ∃ c, run tcpStep (.opened (2 ^ 32 - 2)) twoWrites = some c ∧ c.Acks 2 1 ∧
      pieces (c.processSegment (acking 2 (by decide)) [] false 0).1.retransmitQueue =
        pieces (c.retransmitQueue.drop 1) := by
  obtain ⟨c, hrun, hok, hstate, hk⟩ : ∃ c, run tcpStep (.opened (2 ^ 32 - 2)) twoWrites = some c ∧
      TcpOk c (.segment (acking 2 (by decide)) [] false 0) ∧ c.state.unacked ∧ c.Acks 2 1 :=
    exists_of_decide (by decide +kernel)
  have hacc := tcpRun_accounts (.opened (2 ^ 32 - 2))
    ⟨2 ^ 32 - 2, by decide, .inl rfl⟩ twoWrites (by decide +kernel) 3 c hrun
  exact ⟨c, hrun, hk, hacc.2 (acking 2 (by decide)) [] false 0 1 hok hstate (by decide) hk⟩

/-- The three segments that are not checked. An acknowledgement of bytes that were never sent takes
`send_unack` past `send_next + 1`. In CLOSE-WAIT an acknowledgement of the only entry leaves it in
the queue. In LAST-ACK a repeated acknowledgement of nothing removes it. -/
theorem unchecked_acks :
    (∃ c, run tcpStep (.opened 0)
      [synAck 1 (by decide), .segment (acking 1000 (by decide)) [] false 0] = some c ∧
      Serial.le c.sendUnack (Serial.add c.sendNext 1) = false) ∧
    (∃ c, run tcpStep (.opened 0) [synAck 1 (by decide), .send 0 [1, 2, 3], peerFin] = some c ∧
      c.state = .closeWait ∧ c.Acks 4 1 ∧
      pieces (c.processSegment (acking 4 (by decide)) [] false 0).1.retransmitQueue ≠
        pieces (c.retransmitQueue.drop 1)) ∧
    ∃ c, run tcpStep (.opened 0)
      [synAck 1 (by decide), .send 0 [1, 2, 3], peerFin, .close] = some c ∧
      c.state = .lastAck ∧ c.Acks 1 0 ∧
      pieces (c.processSegment (acking 1 (by decide)) [] false 0).1.retransmitQueue ≠
        pieces (c.retransmitQueue.drop 0) := by
  refine ⟨exists_of_decide ?_, exists_of_decide ?_, exists_of_decide ?_⟩
  all_goals decide +kernel

end Astryx.Tcp
