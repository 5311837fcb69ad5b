import Astryx.Lib.Transition
import Astryx.Unix.Sockets

/-!
# Connections are isolated streams

A connection is made by `connect` or `socketpair`; here each gets a number. For each connection and
each of its two ends we log the bytes that writes of the end were told to be accepted, and the bytes
that reads of the end returned, when the end is a STREAM socket. What an end has read must be a
prefix of what the other end has written.

`connect` does not look at the state of the socket it connects. Called on a socket that has a peer,
it leaves the old peer naming a socket that names another one; called on a STREAM socket whose peer
is gone but whose ring still holds bytes, it hands these bytes to the new connection. `UnixOk` rules
out these two calls and nothing else.

## Main results

* `unixRun_isolated` — under `UnixOk` connections are isolated
* `reconnect_crosses` — a connected socket that is connected again
-/

namespace Astryx.Unix

open Transition Function List UnixTable

/-! ## One slot -/

namespace UnixSocket

variable {s : UnixSocket}

/-- The counters agree with the bytes in the ring. -/
def Balanced (s : UnixSocket) : Prop := Word.sub s.recvPushed s.recvPopped = s.recvAvailable

/-- What holds of every slot by itself. -/
structure Ok (s : UnixSocket) : Prop where
  balanced : s.Balanced
  messages : s.kind = .seqPacket → s.seqLens.contents.sum = s.recvAvailable
  idle : s.state ≠ .connected → s.peerId = noSocket ∧ s.recvAvailable = 0

/-- The bytes that were written and not read. -/
def queued (s : UnixSocket) : List UInt8 := s.recvBuf.contents

lemma length_queued (s : UnixSocket) : s.queued.length = s.recvAvailable := Ring.length_contents _

lemma Ok.queued_nil (h : s.Ok) (hstate : s.state ≠ .connected) : s.queued = [] := by
  rw [← length_eq_zero_iff, length_queued]
  exact (h.idle hstate).2

@[simp] lemma queued_reset (s : UnixSocket) : s.reset.queued = [] := Ring.contents_clear _

lemma zeroed_ok : zeroed.Ok := by
  have hempty : zeroed.recvAvailable = 0 := by decide
  refine ⟨?_, ?_, fun _ => ⟨rfl, hempty⟩⟩
  · rw [Balanced]
    decide
  · intro hkind
    cases hkind

/-- What a call may change without moving a byte. -/
def rings (s : UnixSocket) := (s.recvBuf, s.seqLens, s.recvPushed, s.recvPopped)

variable {s' : UnixSocket}

lemma reset_with_ok (hrings : s'.rings = s.reset.rings)
    (hidle : s'.state ≠ .connected → s'.peerId = noSocket) : s'.Ok := by
  have hempty : s'.recvAvailable = 0 := (congrArg (·.1.length) hrings).trans (Ring.length_clear _)
  refine ⟨?_, fun _ => ?_, fun hstate => ⟨hidle hstate, hempty⟩⟩
  · rw [Balanced, hempty]
    exact (congrArg (fun r => Word.sub r.2.2.1 r.2.2.2) hrings).trans (by decide : Word.sub 0 0 = 0)
  have hnone : s'.seqLens.contents = [] :=
    (congrArg (·.2.1.contents) hrings).trans (Ring.contents_clear _)
  simp [hnone, hempty]

lemma Ok.congr (h : s.Ok) (hrings : s'.rings = s.rings) (hkind : s'.kind = s.kind)
    (hidle : s'.state ≠ .connected → s'.peerId = noSocket ∧ s'.recvAvailable = 0) : s'.Ok := by
  rw [rings, rings] at hrings
  simp only [Prod.mk.injEq] at hrings
  obtain ⟨hbuf, hlens, hpushed, hpopped⟩ := hrings
  refine ⟨?_, fun hk => ?_, hidle⟩
  · rw [Balanced, hpushed, hpopped, h.balanced, recvAvailable, recvAvailable, hbuf]
  · rw [hlens, h.messages (hkind ▸ hk), recvAvailable, recvAvailable, hbuf]

/-! ### Pushing and popping -/

section

variable (s : UnixSocket) (data : List UInt8)

lemma push_le_space : s.recvBuf.length + (data.take (s.push data).1).length < recvBufCap := by
  have hlt := s.recvBuf.length_lt
  have hn : (s.push data).1 = min data.length s.recvSpace := rfl
  rw [length_take, hn, recvSpace, Ring.space]
  omega

lemma push_fst : (data.take (s.push data).1).length = (s.push data).1 := by
  have hn : (s.push data).1 = min data.length s.recvSpace := rfl
  rw [length_take]
  omega

lemma queued_push : (s.push data).2.queued = s.queued ++ data.take (s.push data).1 :=
  Ring.contents_putAll _ _ (s.push_le_space data)

lemma recvAvailable_push : (s.push data).2.recvAvailable = s.recvAvailable + (s.push data).1 := by
  rw [← length_queued, queued_push, length_append, length_queued, push_fst]

end

lemma Balanced.push (h : s.Balanced) (data : List UInt8) : (s.push data).2.Balanced := by
  have hlt : (s.push data).2.recvAvailable < 2 ^ 64 := lt_trans (Ring.length_lt _) (by decide)
  rw [Balanced] at h
  rw [recvAvailable_push] at hlt
  rw [Balanced, recvAvailable_push]
  show Word.sub (Word.add s.recvPushed (s.push data).1) s.recvPopped = _
  rw [Word.sub_add_left (by omega), h]

section

variable (s : UnixSocket) (len : ℕ)

lemma queued_pop : s.queued = (s.pop len).1 ++ (s.pop len).2.queued := by
  obtain ⟨hout, hrest⟩ := s.recvBuf.takeOut_spec (n := min len s.recvAvailable) (min_le_right ..)
  show s.recvBuf.contents = (s.recvBuf.takeOut _).1 ++ (s.recvBuf.takeOut _).2.contents
  simp [hout, hrest]

lemma length_pop : (s.pop len).1.length = min len s.recvAvailable := by
  obtain ⟨hout, -⟩ := s.recvBuf.takeOut_spec (n := min len s.recvAvailable) (min_le_right ..)
  have hle : min len s.recvAvailable ≤ s.recvBuf.length := min_le_right ..
  show (s.recvBuf.takeOut _).1.length = _
  simp [hout, Ring.length_contents, hle]

lemma recvAvailable_pop :
    (s.pop len).2.recvAvailable = s.recvAvailable - min len s.recvAvailable := by
  have hsplit := congrArg List.length (s.queued_pop len)
  rw [length_append, length_queued, length_queued, length_pop] at hsplit
  omega

end

lemma Balanced.pop (h : s.Balanced) (len : ℕ) : (s.pop len).2.Balanced := by
  rw [Balanced] at h
  rw [Balanced, recvAvailable_pop]
  show Word.sub s.recvPushed (Word.add s.recvPopped (min len s.recvAvailable)) = _
  rw [Word.sub_add_right (by omega), h]

lemma recvAvailable_discard {n : ℕ} (h : n ≤ s.recvAvailable) :
    (s.discard n).recvAvailable = s.recvAvailable - n := by
  rw [← length_queued, ← length_queued, ← length_drop]
  exact congrArg List.length (Ring.contents_skip _ h)

lemma Balanced.discard (h : s.Balanced) {n : ℕ} (hn : n ≤ s.recvAvailable) :
    (s.discard n).Balanced := by
  rw [Balanced] at h
  rw [Balanced, recvAvailable_discard hn]
  show Word.sub s.recvPushed (Word.add s.recvPopped n) = _
  rw [Word.sub_add_right (by omega), h]

lemma push_ok (h : s.Ok) (hkind : s.kind = .stream) (hstate : s.state = .connected)
    (data : List UInt8) : (s.push data).2.Ok := by
  refine ⟨h.balanced.push data, fun hk => ?_, fun hs => absurd hstate hs⟩
  have hsame : (s.push data).2.kind = s.kind := rfl
  rw [hsame, hkind] at hk
  cases hk

lemma pop_ok (h : s.Ok) (hkind : s.kind = .stream) (len : ℕ) : (s.pop len).2.Ok := by
  refine ⟨h.balanced.pop len, fun hk => ?_, fun hs => ⟨(h.idle hs).1, ?_⟩⟩
  · have hsame : (s.pop len).2.kind = s.kind := rfl
    rw [hsame, hkind] at hk
    cases hk
  · simp [recvAvailable_pop, (h.idle hs).2]

/-! ### Messages -/

lemma pushMessage_ok (h : s.Ok) (hkind : s.kind = .seqPacket) (hstate : s.state = .connected)
    {data : List UInt8} (hqueue : s.seqQueued < seqQueueCap - 1)
    (hspace : data.length ≤ s.recvSpace) : (s.pushMessage data).Ok := by
  have hn : (s.push data).1 = data.length := min_eq_left hspace
  have hsmall : data.length < 2 ^ 32 := by
    have hcap : s.recvSpace < 2 ^ 32 := lt_of_le_of_lt (Nat.sub_le ..) (by decide)
    omega
  refine ⟨h.balanced.push data, fun _ => ?_, fun hs => absurd hstate hs⟩
  have hlens : (s.pushMessage data).seqLens = s.seqLens.put (data.length % 2 ^ 32) := by
    rw [pushMessage, hn]
  have havail : (s.pushMessage data).recvAvailable = s.recvAvailable + data.length := by
    rw [← hn]
    exact recvAvailable_push s data
  have hroom : s.seqLens.length + 1 < seqQueueCap := Nat.add_lt_of_lt_sub hqueue
  rw [hlens, Ring.contents_put _ hroom, sum_append, sum_singleton, h.messages hkind, havail,
    Nat.mod_eq_of_lt hsmall]

lemma contents_seqLens (hqueue : s.seqQueued ≠ 0) :
    s.seqLens.contents = s.msgLen :: s.seqLens.advance.contents :=
  Ring.contents_advance _ (Nat.pos_of_ne_zero hqueue)

/-- The queue's lengths add up to the ring's, so the message that is read is there as a whole. -/
lemma popMessage_ok (h : s.Ok) (hkind : s.kind = .seqPacket) (hqueue : s.seqQueued ≠ 0) (len : ℕ) :
    ((s.popMessage len).2.discard (s.msgLen - (s.popMessage len).1.length)).Ok := by
  let s₁ : UnixSocket := { s with seqLens := s.seqLens.advance }
  have hsum := h.messages hkind
  rw [contents_seqLens hqueue, sum_cons] at hsum
  have havail : s₁.recvAvailable = s.recvAvailable := rfl
  have hlen : (s.popMessage len).1.length = min len s.msgLen := by
    show (s₁.pop (min len s.msgLen)).1.length = _
    rw [length_pop]
    omega
  have hleft : (s.popMessage len).2.recvAvailable = s.recvAvailable - min len s.msgLen := by
    show (s₁.pop (min len s.msgLen)).2.recvAvailable = _
    rw [recvAvailable_pop]
    omega
  have hdrop : s.msgLen - (s.popMessage len).1.length ≤ (s.popMessage len).2.recvAvailable := by
    omega
  have hbalanced : (s.popMessage len).2.Balanced := Balanced.pop h.balanced _
  refine ⟨hbalanced.discard hdrop, fun _ => ?_, fun hs => ?_⟩
  · rw [recvAvailable_discard hdrop, hleft]
    show s.seqLens.advance.contents.sum = _
    omega
  have hnone := h.idle hs
  refine ⟨hnone.1, ?_⟩
  rw [recvAvailable_discard hdrop]
  omega

end UnixSocket

/-! ## Connections and logs -/

/-- The table with what was written and read on each connection: `ends` are the two slots of a
connection, `conn` is the connection a slot was last part of. -/
structure UnixSystem where
  table : UnixTable
  conns : ℕ
  ends : ℕ → ℕ × ℕ
  conn : ℕ → ℕ
  accepted : ℕ → ℕ → List UInt8
  got : ℕ → ℕ → List UInt8

/-- Bytes are added to a log. -/
def record (log : ℕ → ℕ → List UInt8) (c id : ℕ) (bytes : List UInt8) : ℕ → ℕ → List UInt8 :=
  fun c' i => if c' = c ∧ i = id then log c' i ++ bytes else log c' i

namespace UnixSystem

variable (s : UnixSystem)

/-- No socket and no connection. -/
def boot : UnixSystem where
  table := .empty
  conns := 0
  ends _ := (0, 0)
  conn _ := 0
  accepted _ _ := []
  got _ _ := []

/-- A slot of the table. -/
def slot (id : ℕ) : UnixSocket := s.table.slot id

/-- The table changes. -/
def setTable (t : UnixTable) : UnixSystem := { s with table := t }

/-- A new connection between two slots of the new table. -/
def join (t : UnixTable) (a b : ℕ) : UnixSystem :=
  { s with
    table := t
    conns := s.conns + 1
    ends := update s.ends s.conns (a, b)
    conn := update (update s.conn a s.conns) b s.conns }

/-- A write that returned `r`. -/
def wrote (id : ℕ) (data : List UInt8) (r : ℤ) (t : UnixTable) : UnixSystem :=
  match (s.slot id).kind with
  | .stream =>
    { s with table := t, accepted := record s.accepted (s.conn id) id (data.take r.toNat) }
  | .seqPacket => { s with table := t }

/-- The bytes that a read returned. -/
def bytesOf : Except ℤ (List UInt8 × ℕ) → List UInt8
  | .ok (bytes, _) => bytes
  | .error _ => []

/-- A read of a stream is logged. -/
def didRead (id : ℕ) (r : Except ℤ (List UInt8 × ℕ)) (t : UnixTable) : UnixSystem :=
  match (s.slot id).kind with
  | .stream => { s with table := t, got := record s.got (s.conn id) id (bytesOf r) }
  | .seqPacket => { s with table := t }

end UnixSystem

/-- A call on the table. -/
inductive UnixOp where
  | create (kind : SockKind) (creds : PeerCreds)
  | bind (id : ℕ) (path : List UInt8)
  | listen (id : ℕ)
  | connect (id : ℕ) (path : List UInt8)
  | accept (id : ℕ)
  | socketpair (kind : SockKind) (creds : PeerCreds)
  | write (id : ℕ) (data : List UInt8)
  | read (id len : ℕ)
  | shutdown (id : ℕ) (shutRdFlag shutWrFlag : Bool)
  | incRef (id : ℕ)
  | close (id : ℕ)

/-- One call. -/
def unixStep (s : UnixSystem) : UnixOp → UnixSystem
  | .create kind creds => s.setTable (s.table.create kind creds).2
  | .bind id path => s.setTable (s.table.bind id path).2
  | .listen id => s.setTable (s.table.listen id).2
  | .connect id path =>
    let r := s.table.connect id path
    if r.1 = 0 then s.join r.2 id (r.2.slot id).peerId else s.setTable r.2
  | .accept id => s.setTable (s.table.accept id).2
  | .socketpair kind creds =>
    let r := s.table.socketpair kind creds
    if r.1.2 = noSocket then s.setTable r.2 else s.join r.2 r.1.1 r.1.2
  | .write id data => s.wrote id data (s.table.write id data).1 (s.table.write id data).2
  | .read id len => s.didRead id (s.table.readMsg id len).1 (s.table.readMsg id len).2
  | .shutdown id shutRdFlag shutWrFlag => s.setTable (s.table.shutdown id shutRdFlag shutWrFlag).2
  | .incRef id => s.setTable (s.table.incRef id)
  | .close id => s.setTable (s.table.close id)

/-- A `connect` that gets through: there is a listener of the same type and a free slot. -/
def UnixTable.connects (t : UnixTable) (id : ℕ) (path : List UInt8) : Bool :=
  id < maxUnixSockets && unixName path ≠ [] &&
    match t.listener (unixName path) with
    | none => false
    | some server => (t.slot id).kind = (t.slot server).kind && (t.freeSlot fun i => i ≠ id).isSome

/-- What a call must meet: a `connect` that gets through is not made on a socket that has a peer, or
on a STREAM socket that lost its peer and still holds unread bytes. -/
def UnixOk (s : UnixSystem) : UnixOp → Prop
  | .connect id path =>
    s.table.connects id path = true → (s.slot id).state = .connected →
      (s.slot id).peerId = noSocket ∧ ((s.slot id).kind = .stream → (s.slot id).recvAvailable = 0)
  | _ => True

instance UnixOk.decidable (s : UnixSystem) (op : UnixOp) : Decidable (UnixOk s op) := by
  cases op <;> dsimp only [UnixOk] <;> infer_instance

/-! ## The invariant -/

namespace UnixSystem

variable {s : UnixSystem}

/-- The end of a connection that is not `id`. -/
def other (s : UnixSystem) (c id : ℕ) : ℕ :=
  if id = (s.ends c).1 then (s.ends c).2 else (s.ends c).1

/-- What holds in every state. -/
structure Inv (s : UnixSystem) : Prop where
  slots : ∀ i, (s.slot i).Ok
  bounded : ∀ i, (s.slot i).state = .connected → i < maxUnixSockets
  /-- A connected slot is an end of its connection. -/
  ends : ∀ i, (s.slot i).state = .connected →
    s.conn i < s.conns ∧ s.other (s.conn i) i ≠ i ∧
      (s.ends (s.conn i) = (i, s.other (s.conn i) i) ∨
        s.ends (s.conn i) = (s.other (s.conn i) i, i))
  /-- If it has a peer, that is the other end, and names it. -/
  paired : ∀ i, (s.slot i).state = .connected → (s.slot i).peerId ≠ noSocket →
    (s.slot i).peerId = s.other (s.conn i) i ∧ (s.slot (s.slot i).peerId).state = .connected ∧
      (s.slot (s.slot i).peerId).peerId = i ∧ (s.slot (s.slot i).peerId).kind = (s.slot i).kind ∧
      s.conn (s.slot i).peerId = s.conn i
  fresh : ∀ c, s.conns ≤ c → ∀ i, s.accepted c i = [] ∧ s.got c i = []
  faithful : ∀ c i, s.got c i <+: s.accepted c (s.other c i)
  /-- What the other end wrote is what was read and what is still queued. -/
  inFlight : ∀ i, (s.slot i).state = .connected → (s.slot i).kind = .stream →
    s.accepted (s.conn i) (s.other (s.conn i) i) = s.got (s.conn i) i ++ (s.slot i).queued

/-! ### Changes that no connection notices -/

/-- Two values of a slot with the same part in its connection. -/
structure Same (x y : UnixSocket) : Prop where
  state : y.state = .connected ↔ x.state = .connected
  peerId : y.state = .connected → y.peerId = x.peerId
  kind : y.state = .connected → y.kind = x.kind
  queued : y.state = .connected → y.kind = .stream → y.queued = x.queued

lemma Same.refl (x : UnixSocket) : Same x x := ⟨Iff.rfl, fun _ => rfl, fun _ => rfl, fun _ _ => rfl⟩

variable {x : UnixSocket} {t : UnixTable} {id i : ℕ}

lemma Same.of_idle {y : UnixSocket} (hx : x.state ≠ .connected)
    (hy : y.state ≠ .connected) : Same x y :=
  ⟨⟨(absurd · hy), (absurd · hx)⟩, (absurd · hy), (absurd · hy), (absurd · hy)⟩

/-- Connections may end, as long as both ends lose each other. -/
lemma Inv.thin (h : s.Inv) (hok : ∀ i, (t.slot i).Ok)
    (hlive : ∀ i, (t.slot i).state = .connected → (s.slot i).state = .connected ∧
      (t.slot i).kind = (s.slot i).kind ∧
      ((t.slot i).kind = .stream → (t.slot i).queued = (s.slot i).queued))
    (hpaired : ∀ i, (t.slot i).state = .connected → (t.slot i).peerId ≠ noSocket →
      (t.slot i).peerId = (s.slot i).peerId ∧ (t.slot (s.slot i).peerId).state = .connected ∧
        (t.slot (s.slot i).peerId).peerId = i) : (s.setTable t).Inv := by
  refine ⟨hok, fun i hi => ?_, fun i hi => ?_, fun i hi hpeer => ?_, h.fresh, h.faithful,
    fun i hi hkind => ?_⟩
  · exact h.bounded i (hlive i hi).1
  · exact h.ends i (hlive i hi).1
  · obtain ⟨hp, hstate, hback⟩ := hpaired i hi hpeer
    have hold := hp ▸ hpeer
    obtain ⟨hother, -, -, hkind, hconn⟩ := h.paired i (hlive i hi).1 hold
    have hsl : ∀ j, (s.setTable t).slot j = t.slot j := fun _ => rfl
    rw [hsl, hp]
    exact ⟨hother, hstate, hback,
      (hlive _ hstate).2.1.trans (hkind.trans (hlive i hi).2.1.symm), hconn⟩
  obtain ⟨hstate, hk, hq⟩ := hlive i hi
  have hqueued : ((s.setTable t).slot i).queued = (s.slot i).queued := hq hkind
  rw [hqueued]
  exact h.inFlight i hstate (hk.symm.trans hkind)

lemma Inv.congr (h : s.Inv) (hok : ∀ i, (t.slot i).Ok) (hsame : ∀ i, Same (s.slot i) (t.slot i)) :
    (s.setTable t).Inv := by
  refine h.thin hok (fun i hi => ?_) fun i hi hpeer => ?_
  · exact ⟨(hsame i).state.mp hi, (hsame i).kind hi, (hsame i).queued hi⟩
  have hp := (hsame i).peerId hi
  obtain ⟨-, hstate, hback, -⟩ := h.paired i ((hsame i).state.mp hi) (hp ▸ hpeer)
  have hstate' := (hsame _).state.mpr hstate
  exact ⟨hp, hstate', ((hsame _).peerId hstate').trans hback⟩

lemma Inv.quiet (h : s.Inv) (hok : x.Ok) (hsame : Same (s.slot id) x) :
    (s.setTable (s.table.set id x)).Inv := by
  refine h.congr ?_ ?_
  · exact s.table.forall_set hok fun i _ => h.slots i
  · exact s.table.forall_set hsame fun i _ => Same.refl _

/-- A slot outside any connection is changed and stays outside. -/
lemma Inv.idle {state : UnixState} (h : s.Inv) (hfrom : (s.table.slot id).state = state)
    (hidle : state ≠ .connected) (hok : x.Ok) (hx : x.state ≠ .connected) :
    (s.setTable (s.table.set id x)).Inv := by
  rw [← hfrom] at hidle
  exact h.quiet hok (Same.of_idle hidle hx)

/-! ### A new connection -/

section Join

variable {t : UnixTable} {a b : ℕ} {x y : UnixSocket}

lemma other_join_of_lt {c : ℕ} (hc : c < s.conns) (i : ℕ) :
    (s.join t a b).other c i = s.other c i := by
  have hends : (s.join t a b).ends c = s.ends c := update_of_ne (hc.ne) ..
  rw [other, other, hends]

lemma ends_join : (s.join t a b).ends s.conns = (a, b) := update_self ..

lemma conn_join_of_ne {i : ℕ} (ha : i ≠ a) (hb : i ≠ b) : (s.join t a b).conn i = s.conn i := by
  show update (update s.conn a s.conns) b s.conns i = _
  simp [hb, ha]

lemma conn_join_left (hab : a ≠ b) : (s.join t a b).conn a = s.conns := by
  show update (update s.conn a s.conns) b s.conns a = _
  simp [hab]

lemma conn_join_right : (s.join t a b).conn b = s.conns := update_self ..

lemma other_join_left : (s.join t a b).other s.conns a = b := by
  simp [other, ends_join]

lemma other_join_right (hab : a ≠ b) : (s.join t a b).other s.conns b = a := by
  rw [other, ends_join, if_neg hab.symm]

/-- Two slots that nobody names become the ends of a connection, with nothing in their rings. -/
lemma Inv.join (h : s.Inv) (hab : a ≠ b) (ha : a < maxUnixSockets) (hb : b < maxUnixSockets)
    (hta : t.slot a = x) (htb : t.slot b = y) (ht : ∀ i, i ≠ a → i ≠ b → t.slot i = s.slot i)
    (hx : x.Ok ∧ x.state = .connected ∧ x.peerId = b ∧ (x.kind = .stream → x.queued = []))
    (hy : y.Ok ∧ y.state = .connected ∧ y.peerId = a ∧ (y.kind = .stream → y.queued = []))
    (hkind : x.kind = y.kind)
    (hfree : ∀ i, (s.slot i).state = .connected → i ≠ a → i ≠ b → (s.slot i).peerId ≠ a ∧
      (s.slot i).peerId ≠ b) :
    (s.join t a b).Inv := by
  obtain ⟨hxok, hxstate, hxpeer, hxqueued⟩ := hx
  obtain ⟨hyok, hystate, hypeer, hyqueued⟩ := hy
  have hsa : (s.join t a b).slot a = x := hta
  have hsb : (s.join t a b).slot b = y := htb
  have hsi : ∀ i, i ≠ a → i ≠ b → (s.join t a b).slot i = s.slot i := ht
  have hnone := h.fresh s.conns le_rfl
  have hlog : (s.join t a b).accepted = s.accepted ∧ (s.join t a b).got = s.got := ⟨rfl, rfl⟩
  have hall : ∀ {p : ℕ → Prop}, p a → p b → (∀ i, i ≠ a → i ≠ b → p i) → ∀ i, p i := by grind
  refine ⟨hall (hsa ▸ hxok) (hsb ▸ hyok) fun i hia hib => ?_,
    hall (fun _ => ha) (fun _ => hb) fun i hia hib hi => ?_,
    hall (fun _ => ?_) (fun _ => ?_) fun i hia hib hi => ?_,
      hall (fun _ _ => ?_) (fun _ _ => ?_) fun i hia hib hi hpeer => ?_,
    fun c hc => h.fresh c (Nat.le_of_succ_le hc), fun c i => ?_,
    hall (fun _ hstream => ?_) (fun _ hstream => ?_) fun i hia hib hi hstream => ?_⟩
  · rw [hsi i hia hib]
    exact h.slots i
  · rw [hsi i hia hib] at hi
    exact h.bounded i hi
  · rw [conn_join_left hab, other_join_left]
    exact ⟨Nat.lt_succ_self _, hab.symm, .inl ends_join⟩
  · rw [conn_join_right, other_join_right hab]
    exact ⟨Nat.lt_succ_self _, hab, .inr ends_join⟩
  · rw [hsi i hia hib] at hi
    obtain ⟨hlt, hne, hends⟩ := h.ends i hi
    rw [conn_join_of_ne hia hib, other_join_of_lt hlt]
    refine ⟨Nat.lt_succ_of_lt hlt, hne, ?_⟩
    have hsame : (s.join t a b).ends (s.conn i) = s.ends (s.conn i) := update_of_ne (hlt.ne) ..
    rw [hsame]
    exact hends
  · rw [hsa, hxpeer, hsb, conn_join_left hab, conn_join_right, other_join_left]
    exact ⟨rfl, hystate, hypeer, hkind.symm, rfl⟩
  · rw [hsb, hypeer, hsa, conn_join_left hab, conn_join_right, other_join_right hab]
    exact ⟨rfl, hxstate, hxpeer, hkind, rfl⟩
  · rw [hsi i hia hib] at hi hpeer ⊢
    obtain ⟨hpa, hpb⟩ := hfree i hi hia hib
    rw [hsi _ hpa hpb, conn_join_of_ne hia hib, conn_join_of_ne hpa hpb,
      other_join_of_lt (h.ends i hi).1]
    exact h.paired i hi hpeer
  · rw [hlog.2]
    by_cases hc : c < s.conns
    · rw [other_join_of_lt hc]
      exact h.faithful c i
    · rw [(h.fresh c (not_lt.mp hc) i).2]
      exact nil_prefix
  · rw [hsa] at hstream ⊢
    simp [hlog.1, hlog.2, conn_join_left hab, (hnone _).1, (hnone _).2, hxqueued hstream]
  · rw [hsb] at hstream ⊢
    simp [hlog.1, hlog.2, conn_join_right, (hnone _).1, (hnone _).2, hyqueued hstream]
  rw [hsi i hia hib] at hi hstream ⊢
  rw [hlog.1, hlog.2, conn_join_of_ne hia hib, other_join_of_lt (h.ends i hi).1]
  exact h.inFlight i hi hstream

end Join

/-! ### Bytes -/

lemma record_nil (log : ℕ → ℕ → List UInt8) (c id : ℕ) : record log c id [] = log := by
  funext c' i
  simp [record]

lemma record_self (log : ℕ → ℕ → List UInt8) (c id : ℕ) (bytes : List UInt8) :
    record log c id bytes c id = log c id ++ bytes := if_pos ⟨rfl, rfl⟩

lemma record_of_ne {log : ℕ → ℕ → List UInt8} {c c' : ℕ} (h : ¬ (c' = c ∧ i = id))
    (bytes : List UInt8) :
    record log c id bytes c' i = log c' i := if_neg h

/-- The two ends of a connection are all the slots that are part of it. -/
lemma Inv.eq_peer (h : s.Inv) (hi : (s.slot i).state = .connected)
    (hid : (s.slot id).state = .connected) (hpeer : (s.slot id).peerId ≠ noSocket)
    (hconn : s.conn i = s.conn id) (hother : s.other (s.conn i) i = id) :
    i = (s.slot id).peerId := by
  obtain ⟨-, hne, hends⟩ := h.ends i hi
  obtain ⟨-, -, hends'⟩ := h.ends id hid
  rw [← (h.paired id hid hpeer).1, ← hconn] at hends'
  rw [hother] at hne hends
  obtain hends | hends := hends <;> obtain hends' | hends' :=
    hends' <;> rw [hends, Prod.mk.injEq] at hends'
  · exact absurd hends'.1.symm hne
  · exact hends'.1
  · exact hends'.2
  · exact absurd hends'.2.symm hne

/-- The bytes of one slot change, and the logs with them. -/
lemma Inv.move (h : s.Inv) {q : ℕ} {accepted got : ℕ → ℕ → List UInt8} (hx : x.Ok)
    (hstate : x.state = (s.slot q).state) (hpeer : x.peerId = (s.slot q).peerId)
    (hkind : x.kind = (s.slot q).kind)
    (hfresh : ∀ c, s.conns ≤ c → ∀ i, accepted c i = [] ∧ got c i = [])
    (hfaithful : ∀ c i, got c i <+: accepted c (s.other c i))
    (hmoved : accepted (s.conn q) (s.other (s.conn q) q) = got (s.conn q) q ++ x.queued)
    (hrest : ∀ i, i ≠ q → (s.slot i).state = .connected →
      accepted (s.conn i) (s.other (s.conn i) i) = s.accepted (s.conn i) (s.other (s.conn i) i) ∧
        got (s.conn i) i = s.got (s.conn i) i) :
          Inv { s with table := s.table.set q x, accepted := accepted, got := got } := by
  have hfields : ∀ i, ((s.table.set q x).slot i).state = (s.slot i).state ∧
      ((s.table.set q x).slot i).peerId = (s.slot i).peerId ∧
        ((s.table.set q x).slot i).kind = (s.slot i).kind :=
    s.table.forall_set (p :=
      fun i y => y.state = (s.slot i).state ∧ y.peerId = (s.slot i).peerId ∧
        y.kind = (s.slot i).kind)
      ⟨hstate, hpeer, hkind⟩ fun _ _ => ⟨rfl, rfl, rfl⟩
  have hlive : ∀ i, ((s.table.set q x).slot i).state = .connected → (s.slot i).state = .connected :=
    fun i hi => (hfields i).1.symm.trans hi
  refine ⟨s.table.forall_set hx fun i _ => h.slots i, fun i hi => h.bounded i (hlive i hi),
    fun i hi => h.ends i (hlive i hi), fun i hi hp => ?_, hfresh, hfaithful, fun i hi hstream => ?_⟩
  · dsimp only [slot] at hp ⊢
    rw [(hfields i).2.1] at hp ⊢
    rw [(hfields _).1, (hfields _).2.1, (hfields _).2.2, (hfields i).2.2]
    exact h.paired i (hlive i hi) hp
  dsimp only [slot]
  by_cases hiq : i = q
  · rw [hiq, set_slot_self]
    exact hmoved
  obtain ⟨hacc, hgot⟩ := hrest i hiq (hlive i hi)
  rw [set_slot_of_ne _ hiq]
  exact hacc.trans (hgot ▸ h.inFlight i (hlive i hi) ((hfields i).2.2.symm.trans hstream))

section

variable (h : s.Inv) (hid : (s.slot id).state = .connected)

include h hid

lemma Inv.fresh_record {log : ℕ → ℕ → List UInt8} {c : ℕ} (bytes : List UInt8) (hc : s.conns ≤ c)
    (hlog : log c i = []) : record log (s.conn id) id bytes c i = [] := by
  rw [record_of_ne, hlog]
  rintro ⟨rfl, -⟩
  exact not_lt.mpr hc (h.ends id hid).1

variable (hkind : (s.slot id).kind = .stream)

include hkind

lemma Inv.deliver (hpeer : (s.slot id).peerId ≠ noSocket) (data : List UInt8) :
    Inv { s with
      table := s.table.set (s.slot id).peerId ((s.slot (s.slot id).peerId).push data).2
      accepted := record s.accepted (s.conn id) id
        (data.take ((s.slot (s.slot id).peerId).push data).1) } := by
  obtain ⟨-, hstate, hback, hsame, hconn⟩ := h.paired id hid hpeer
  have hstream := hsame.trans hkind
  refine h.move (UnixSocket.push_ok (h.slots _) hstream hstate data) rfl rfl rfl (fun c hc i => ?_)
    (fun c i => ?_) ?_
    fun i hi hconnected => ⟨?_, rfl⟩
  · exact ⟨h.fresh_record hid _ hc (h.fresh c hc i).1, (h.fresh c hc i).2⟩
  · refine (h.faithful c i).trans ?_
    dsimp only [record]
    split
    · exact prefix_append ..
    · exact prefix_rfl
  · -- the writer is the other end of the connection of its peer
    have hwriter := (h.paired _ hstate (fun hnone => by
      rw [hback] at hnone
      exact absurd (h.bounded id hid) (hnone ▸ by decide))).1
    rw [hback] at hwriter
    rw [← hwriter, hconn, record_self, UnixSocket.queued_push, ← append_assoc]
    congr 1
    have hold := h.inFlight _ hstate hstream
    rw [← hwriter, hconn] at hold
    exact hold
  · refine record_of_ne (fun heq => hi ?_) _
    exact h.eq_peer hconnected hid hpeer heq.1 heq.2

lemma Inv.collect (len : ℕ) :
    Inv { s with
      table := s.table.set id ((s.slot id).pop len).2
      got := record s.got (s.conn id) id ((s.slot id).pop len).1 } := by
  have hall := h.inFlight id hid hkind
  rw [(s.slot id).queued_pop len, ← append_assoc] at hall
  refine h.move (UnixSocket.pop_ok (h.slots id) hkind len) rfl rfl rfl (fun c hc i => ?_)
    (fun c i => ?_) ?_
    fun i hi _ => ⟨rfl, record_of_ne (fun heq => hi heq.2) _⟩
  · exact ⟨(h.fresh c hc i).1, h.fresh_record hid _ hc (h.fresh c hc i).2⟩
  · by_cases heq : c = s.conn id ∧ i = id
    · rw [heq.1, heq.2, record_self, hall]
      exact prefix_append ..
    · rw [record_of_ne heq]
      exact h.faithful c i
  · rw [record_self]
    exact hall

end

/-! ### The calls -/

lemma freeSlot_spec {p : ℕ → Bool} (h : t.freeSlot p = some i) :
    i < maxUnixSockets ∧ p i ∧ (t.slot i).state = .free := by
  have hmem := mem_of_find?_eq_some h
  have hp := List.find?_some h
  rw [Bool.and_eq_true, decide_eq_true_eq] at hp
  exact ⟨mem_range.mp hmem, hp⟩

section

variable (h : s.Inv) (id : ℕ)

include h

/-- Only fields change that neither the connections nor the counters depend on. -/
lemma Inv.touch (hstate : x.state = (s.slot id).state) (hpeer : x.peerId = (s.slot id).peerId)
    (hkind : x.kind = (s.slot id).kind) (hrings : x.rings = (s.slot id).rings) :
    (s.setTable (s.table.set id x)).Inv := by
  have hbuf : x.recvBuf = (s.slot id).recvBuf := congrArg (·.1) hrings
  refine h.quiet ((h.slots id).congr hrings hkind fun hs => ?_)
    ⟨by rw [hstate], fun _ => hpeer, fun _ => hkind, fun _ _ => congrArg Ring.contents hbuf⟩
  rw [hstate] at hs
  rw [hpeer, UnixSocket.recvAvailable, hbuf]
  exact (h.slots id).idle hs

lemma shutdown_inv (rd wr : Bool) : (s.setTable (s.table.shutdown id rd wr).2).Inv := by
  rw [UnixTable.shutdown]
  split
  · exact h
  dsimp only
  split
  · exact h
  split
  · exact h
  have hself := h.touch id
    (x := { s.slot id with shutRd := (s.slot id).shutRd || rd, shutWr := (s.slot id).shutWr || wr })
      rfl rfl rfl rfl
  split
  · exact hself.touch _ rfl rfl rfl rfl
  · exact hself

end

lemma namedBack_spec {p : ℕ} (h : t.namedBack id p) :
    p < maxUnixSockets ∧ (t.slot p).state = .connected ∧ (t.slot p).peerId = id := by
  rw [namedBack, Bool.and_eq_true, Bool.and_eq_true, decide_eq_true_eq, decide_eq_true_eq,
    decide_eq_true_eq] at h
  exact ⟨h.1.1, h.1.2, h.2⟩

lemma ne_noSocket {p : ℕ} (h : p < maxUnixSockets) : p ≠ noSocket := by
  rintro rfl
  exact absurd h (by decide)

/-- The slot of a closed socket is free. The socket that it named, if that named it back, names
nobody any more. -/
lemma close_inv (h : s.Inv) (id : ℕ) : (s.setTable (s.table.close id)).Inv := by
  rw [UnixTable.close]
  split
  · exact h
  rename_i hopen
  rw [not_or, not_le] at hopen
  dsimp only
  split
  · exact h.touch _ rfl rfl rfl rfl
  have hpid : (s.table.slot id).peerId = (s.slot id).peerId := rfl
  rw [hpid]
  generalize ht : s.table.set id (s.table.slot id).reset = t
  generalize hp : (s.slot id).peerId = p
  have hid : t.slot id = (s.slot id).reset := by
    rw [← ht]
    exact set_slot_self ..
  have hrest : ∀ i, i ≠ id → t.slot i = s.slot i := by
    intro i hi
    rw [← ht]
    exact set_slot_of_ne _ hi _
  -- whoever names the closed socket is its peer
  have hnamed : ∀ i, (s.slot i).state = .connected → i ≠ id → (s.slot i).peerId = id →
      t.namedBack id p ∧ p = i := by
    intro i hi hne hpeer
    obtain ⟨-, -, hback, -⟩ := h.paired i hi (hpeer ▸ ne_noSocket hopen.1)
    rw [hpeer, hp] at hback
    refine ⟨?_, hback⟩
    rw [hback, namedBack, hrest i hne, hi, hpeer, decide_eq_true (h.bounded i hi)]
    simp
  generalize ht' :
    (if t.namedBack id p then t.set p { t.slot p with
      rxEof := true, peerClosed := true, peerId := noSocket } else t) = t'
  have hid' : t'.slot id = (s.slot id).reset := by
    rw [← ht']
    split
    next hback =>
      have hne : id ≠ p := by
        rintro rfl
        have hstate := (namedBack_spec hback).2.1
        rw [hid] at hstate
        cases hstate
      exact (set_slot_of_ne _ hne _).trans hid
    · exact hid
  have hother : ∀ i, i ≠ id → t'.slot i = s.slot i ∧
    ((s.slot i).state = .connected → (s.slot i).peerId ≠ id) ∨
      t'.slot i = { s.slot i with rxEof := true, peerClosed := true, peerId := noSocket } ∧
        (s.slot i).state = .connected ∧ (s.slot i).peerId = id := by
    intro i hi
    rw [← ht']
    split
    next hback =>
      by_cases hip : i = p
      · obtain ⟨-, hstate, hpeer⟩ := namedBack_spec hback
        rw [← hip, hrest i hi] at hstate hpeer
        rw [← hip, set_slot_self, hrest i hi]
        exact .inr ⟨rfl, hstate, hpeer⟩
      · rw [set_slot_of_ne _ hip, hrest i hi]
        exact .inl ⟨rfl, fun hstate hpeer => hip (hnamed i hstate hi hpeer).2.symm⟩
    next hback => exact .inl ⟨hrest i hi, fun hstate hpeer => hback (hnamed i hstate hi hpeer).1⟩
  have hlive : ∀ i, (t'.slot i).state = .connected → i ≠ id := by
    rintro i hi rfl
    rw [hid'] at hi
    cases hi
  refine h.thin (fun i => ?_) (fun i hi => ?_) fun i hi hpeer => ?_
  · by_cases hi : i = id
    · rw [hi, hid']
      exact UnixSocket.reset_with_ok rfl fun _ => rfl
    obtain ⟨heq, -⟩ | ⟨heq, hstate, -⟩ := hother i hi <;> rw [heq]
    · exact h.slots i
    · exact (h.slots i).congr rfl rfl fun hs => absurd hstate hs
  · obtain ⟨heq, -⟩ | ⟨heq, -, -⟩ :=
      hother i (hlive i hi) <;> rw [heq] at hi ⊢ <;> exact ⟨hi, rfl, fun _ => rfl⟩
  have hne := hlive i hi
  obtain ⟨heq, hkept⟩ | ⟨heq, -⟩ := hother i hne
  · rw [heq] at hi hpeer ⊢
    obtain ⟨-, hconnected, hmutual, -⟩ := h.paired i hi hpeer
    obtain ⟨heq', -⟩ | ⟨-, -, hback⟩ := hother _ (hkept hi)
    · rw [heq']
      exact ⟨rfl, hconnected, hmutual⟩
    · exact absurd (hmutual.symm.trans hback) hne
  · rw [heq] at hpeer
    exact absurd rfl hpeer

lemma write_inv (h : s.Inv) (id : ℕ) (data : List UInt8) :
    (s.wrote id data (s.table.write id data).1 (s.table.write id data).2).Inv := by
  -- a write that is refused leaves everything as it is
  have hrefused : ∀ r : ℤ, r < 0 → (s.wrote id data r s.table).Inv := by
    intro r hr
    rw [wrote, Int.toNat_of_nonpos (Int.le_of_lt hr), take_zero, record_nil]
    split <;> exact h
  have hslot : s.table.slot = s.slot := rfl
  rw [UnixTable.write, hslot]
  split
  · exact hrefused _ (Int.negSucc_lt_zero _)
  dsimp only
  split
  · exact hrefused _ (Int.negSucc_lt_zero _)
  rename_i hlive
  rw [not_or, not_not] at hlive
  split
  · exact hrefused _ (Int.negSucc_lt_zero _)
  rename_i hback
  rw [Bool.not_eq_true', Bool.not_eq_false] at hback
  have hnamed := namedBack_spec hback
  have hpeer := ne_noSocket hnamed.1
  obtain ⟨-, -, -, hsame, -⟩ := h.paired id hlive.1 hpeer
  split
  next hkind =>
    split
    · exact hrefused _ (Int.negSucc_lt_zero _)
    split
    · exact hrefused _ (Int.negSucc_lt_zero _)
    rename_i hqueue hspace
    rw [wrote, hkind]
    have hpkind := hsame.trans hkind
    exact h.quiet (UnixSocket.pushMessage_ok (h.slots _) hpkind hnamed.2.1 (not_le.mp hqueue)
      (not_lt.mp hspace))
      ⟨Iff.rfl, fun _ => rfl, fun _ => rfl, fun _ hstream =>
        absurd (hpkind.symm.trans hstream) (by decide)⟩
  next hkind =>
    have hdeliver := h.deliver hlive.1 hkind hpeer data
    have hn : ∀ n : ℕ, (if n = 0 then (-11 : ℤ) else n).toNat = n := by
      intro n
      split
      next hzero =>
        rw [hzero]
        rfl
      · exact Int.toNat_natCast n
    rw [wrote, hkind]
    rw [hn]
    exact hdeliver

lemma read_inv (h : s.Inv) (id len : ℕ) :
    (s.didRead id (s.table.readMsg id len).1 (s.table.readMsg id len).2).Inv := by
  -- a read without bytes leaves everything as it is
  have hnothing : ∀ r : Except ℤ (List UInt8 × ℕ), bytesOf r = [] →
      (s.didRead id r s.table).Inv := by
    intro r hr
    rw [didRead, hr, record_nil]
    split <;> exact h
  have heof : ∀ b : Bool, (s.didRead id (if b then .ok ([], 0) else .error (-11)) s.table).Inv := by
    intro b
    refine hnothing _ ?_
    cases b <;> rfl
  have hslot : s.table.slot = s.slot := rfl
  rw [readMsg, hslot]
  split
  · exact hnothing _ rfl
  dsimp only
  split
  · exact hnothing _ rfl
  split
  · exact hnothing _ rfl
  split
  next hkind =>
    split
    · exact heof _
    rename_i hqueue
    rw [didRead, hkind]
    exact h.quiet (UnixSocket.popMessage_ok (h.slots id) hkind hqueue len)
      ⟨Iff.rfl, fun _ => rfl, fun _ => rfl, fun _ hstream =>
        absurd (hkind.symm.trans hstream) (by decide)⟩
  next hkind =>
    split
    · exact heof _
    rename_i hsome
    have hid : (s.slot id).state = .connected := by
      by_contra hidle
      exact hsome ((h.slots id).idle hidle).2
    rw [didRead, hkind]
    exact h.collect hid hkind len

lemma connect_cases (t : UnixTable) (id : ℕ) (path : List UInt8) :
    (∃ r, r ≠ 0 ∧ t.connect id path = (r, t)) ∨
      (t.connects id path ∧ id < maxUnixSockets ∧
        ∃ server peer, t.listener (unixName path) = some server ∧
        (t.slot id).kind = (t.slot server).kind ∧ t.freeSlot (fun i => i ≠ id) = some peer ∧
        t.connect id path = (0, t.pair id server peer)) := by
  rw [UnixTable.connect]
  split
  · exact .inl ⟨_, by decide, rfl⟩
  rename_i hid
  split
  · exact .inl ⟨_, by decide, rfl⟩
  rename_i hname
  split
  · refine .inl ?_
    split
    · exact ⟨_, by decide, rfl⟩
    split
    · exact ⟨_, by decide, rfl⟩
    · exact ⟨_, by decide, rfl⟩
  rename_i server hserver
  split
  · exact .inl ⟨_, by decide, rfl⟩
  rename_i hkind
  rw [not_not] at hkind
  split
  · exact .inl ⟨_, by decide, rfl⟩
  rename_i peer hpeer
  refine .inr ⟨?_, not_le.mp hid, server, peer, hserver, hkind, hpeer, rfl⟩
  rw [connects, hserver]
  dsimp only
  rw [hpeer, decide_eq_true hkind, decide_eq_true (not_le.mp hid), decide_eq_true hname]
  rfl

lemma pair_inv (h : s.Inv) {server peer : ℕ} (hid : id < maxUnixSockets)
    (hkind : (s.slot id).kind = (s.slot server).kind)
    (hpeer : s.table.freeSlot (fun i => i ≠ id) = some peer) (hok : (s.slot id).state = .connected →
      (s.slot id).peerId = noSocket ∧
      ((s.slot id).kind = .stream → (s.slot id).recvAvailable = 0)) :
    (s.join (s.table.pair id server peer) id peer).Inv ∧
    ((s.table.pair id server peer).slot id).peerId = peer := by
  obtain ⟨hlt, hne, hfree⟩ := freeSlot_spec hpeer
  have hne : peer ≠ id := of_decide_eq_true hne
  have hidle : (s.slot peer).state ≠ .connected := by
    rw [slot, hfree]
    decide
  let y : UnixSocket :=
    { (s.slot peer).take .connected (s.slot server).kind (s.slot server).creator with peerId := id }
  have hset : (s.table.set peer y).slot id = s.slot id := set_slot_of_ne _ hne.symm _
  obtain ⟨x, hxdef⟩ :
      ∃ x : UnixSocket, x = { (s.table.set peer y).slot id with
        state := .connected, peerId := peer } :=
    ⟨_, rfl⟩
  generalize ht : (s.table.set peer y).set id x = t
  have hx : t.slot id = x := by
    rw [← ht]
    exact set_slot_self ..
  have hy : t.slot peer = y := by
    rw [← ht, set_slot_of_ne _ hne]
    exact set_slot_self ..
  have hrest : ∀ i, i ≠ id → i ≠ peer → t.slot i = s.slot i := by
    intro i hi hp
    rw [← ht, set_slot_of_ne _ hi, set_slot_of_ne _ hp]
    rfl
  have hpair : s.table.pair id server peer = if (t.slot server).backlog.length < backlogCap then
          t.set server { t.slot server with backlog := (t.slot server).backlog ++ [peer] }
            else t := by
    rw [← ht, hxdef]
    rfl
  rw [hset] at hxdef
  subst hxdef
  have hinv : (s.join t id peer).Inv := by
    refine h.join hne.symm hid hlt hx hy hrest ⟨?_, rfl, rfl, fun hstream => ?_⟩
      ⟨?_, rfl, rfl, fun _ => ?_⟩ hkind
      fun i hi hia hib => ⟨fun heq => ?_, fun heq => ?_⟩
    · exact (h.slots id).congr rfl rfl fun hs => absurd rfl hs
    · by_cases hstate : (s.slot id).state = .connected
      · rw [← length_eq_zero_iff, UnixSocket.length_queued]
        exact (hok hstate).2 hstream
      · exact (h.slots id).queued_nil hstate
    · exact UnixSocket.reset_with_ok rfl fun hs => absurd rfl hs
    · exact (s.slot peer).queued_reset
    · obtain ⟨-, hstate, hback, -⟩ := h.paired i hi (heq ▸ ne_noSocket hid)
      rw [heq] at hstate hback
      rw [(hok hstate).1] at hback
      exact ne_noSocket (h.bounded i hi) hback.symm
    · obtain ⟨-, hstate, -⟩ := h.paired i hi (heq ▸ ne_noSocket hlt)
      exact hidle (heq ▸ hstate)
  rw [hpair]
  split
  · refine ⟨hinv.touch server rfl rfl rfl rfl, ?_⟩
    by_cases hs : id = server
    · simp [← hs, hx]
    · rw [set_slot_of_ne _ hs, hx]
  · exact ⟨hinv, by rw [hx]⟩

lemma connect_inv (h : s.Inv) {path : List UInt8} (hok : UnixOk s (.connect id path)) :
    (unixStep s (.connect id path)).Inv := by
  rw [unixStep]
  obtain ⟨r, hr, heq⟩ | ⟨hconnects, hid, server, peer, -, hkind, hpeer, heq⟩ :=
    connect_cases s.table id path
  · rw [heq]
    rw [if_neg hr]
    exact h
  obtain ⟨hinv, hback⟩ := pair_inv h hid hkind hpeer (hok hconnects)
  rw [heq]
  rw [hback]
  exact hinv

lemma socketpair_inv (h : s.Inv) (kind : SockKind) (creds : PeerCreds) :
    (unixStep s (.socketpair kind creds)).Inv := by
  have hfresh : ∀ i, (s.slot i).state = .free →
    ∀ j, (s.slot j).state = .connected → i < maxUnixSockets →
      (s.slot j).peerId ≠ i := by
    intro i hi j hj hlt heq
    obtain ⟨-, hstate, -⟩ := h.paired j hj (heq ▸ ne_noSocket hlt)
    rw [heq, hi] at hstate
    cases hstate
  rw [unixStep, UnixTable.socketpair]
  split
  · exact h
  rename_i a ha
  obtain ⟨halt, -, hafree⟩ := freeSlot_spec ha
  split
  · exact h.idle hafree (by decide) (UnixSocket.reset_with_ok rfl fun _ => rfl) nofun
  next b hb =>
    obtain ⟨hblt, hne, hbfree⟩ := freeSlot_spec hb
    have hne : b ≠ a := of_decide_eq_true hne
    rw [if_neg (ne_noSocket hblt)]
    refine h.join hne.symm halt hblt ((set_slot_of_ne _ hne.symm _).trans (set_slot_self ..))
      (set_slot_self ..) (fun i hia hib => ?_) ⟨?_, rfl, rfl, fun _ => ?_⟩
        ⟨?_, rfl, rfl, fun _ => ?_⟩ rfl
      fun i hi _ _ => ⟨hfresh a hafree i hi halt, hfresh b hbfree i hi hblt⟩
    · rw [set_slot_of_ne _ hib, set_slot_of_ne _ hia]
      rfl
    · exact UnixSocket.reset_with_ok rfl fun hs => absurd rfl hs
    · exact (s.slot a).queued_reset
    · exact UnixSocket.reset_with_ok rfl fun hs => absurd rfl hs
    · exact (s.slot b).queued_reset

end UnixSystem

/-! ## Runs -/

open UnixSystem

lemma unixStep_inv {s : UnixSystem} {op : UnixOp} (h : s.Inv) (hok : UnixOk s op) :
    (unixStep s op).Inv := by
  cases op with
  | create _ _ | bind _ _ | listen _ | accept _ | incRef _ =>
    simp only [unixStep, UnixTable.create, UnixTable.bind, UnixTable.listen, UnixTable.accept,
      UnixTable.incRef]
    repeat' split
    all_goals first
      | exact h
      | exact h.touch _ rfl rfl rfl rfl
      | exact h.idle (freeSlot_spec ‹_›).2.2 (by decide)
          (UnixSocket.reset_with_ok rfl fun _ => rfl) nofun
      | exact h.idle ‹_› (by decide) ((h.slots _).congr rfl rfl
          fun _ => (h.slots _).idle (ne_of_eq_of_ne ‹_› (by decide))) nofun
  | connect id path => exact connect_inv h hok
  | socketpair kind creds => exact socketpair_inv h kind creds
  | write id data => exact write_inv h id data
  | read id len => exact read_inv h id len
  | shutdown id rd wr => exact shutdown_inv h id rd wr
  | close id => exact close_inv h id

lemma boot_inv : boot.Inv where
  slots _ := UnixSocket.zeroed_ok
  bounded _ h := nomatch h
  ends _ h := nomatch h
  paired _ h := nomatch h
  fresh _ _ _ := ⟨rfl, rfl⟩
  faithful _ _ := prefix_rfl
  inFlight _ h := nomatch h

/-- The steps never fail. -/
def unixNext (s : UnixSystem) (op : UnixOp) : Option UnixSystem := some (unixStep s op)

/-- In a run whose steps all meet `UnixOk`, after every step: a connected socket that has a peer is
the peer of a connected socket; what one end of a connection has read is a prefix of what the other
end wrote on it; and the counters of every slot differ by the bytes in its ring. -/
theorem unixRun_isolated (ops : List UnixOp) (hok : Guarded unixNext UnixOk boot ops) (n : ℕ)
    (s : UnixSystem) (hrun : run unixNext boot (ops.take n) = some s) :
    (∀ i p, (s.slot i).state = .connected → (s.slot i).peerId = p → p ≠ noSocket →
        (s.slot p).state = .connected ∧ (s.slot p).peerId = i) ∧
      (∀ c a b, c < s.conns → s.ends c = (a, b) → s.got c a <+: s.accepted c b ∧
        s.got c b <+: s.accepted c a) ∧
      ∀ i, Word.sub (s.slot i).recvPushed (s.slot i).recvPopped = (s.slot i).recvAvailable := by
  have hstep : ∀ s op s', s.Inv → UnixOk s op → unixNext s op = some s' → s'.Inv := by
    intro s op s' h hop heq
    cases heq
    exact unixStep_inv h hop
  have hinv : s.Inv := run_guarded hstep boot_inv (guarded_take hok n) hrun
  refine ⟨?_, ?_, fun i => (hinv.slots i).balanced⟩
  · rintro i - hi rfl hp
    obtain ⟨-, hstate, hback, -⟩ := hinv.paired i hi hp
    exact ⟨hstate, hback⟩
  intro c a b hc hends
  have hleft := hinv.faithful c a
  have hright := hinv.faithful c b
  rw [other, hends] at hleft hright
  rw [if_pos rfl] at hleft
  refine ⟨hleft, ?_⟩
  split at hright
  next heq =>
    rw [heq] at hright ⊢
    exact hright
  · exact hright

/-- No byte of a stream is lost: it has been read or is in the ring. -/
theorem streams_of_reachable
    (s : {s // ∃ ops, Guarded unixNext UnixOk boot ops ∧ run unixNext boot ops = some s}) (i : ℕ) :
    (s.1.slot i).Ok ∧ ((s.1.slot i).state = .connected → (s.1.slot i).kind = .stream →
      s.1.accepted (s.1.conn i) (s.1.other (s.1.conn i) i) = s.1.got (s.1.conn i) i ++
        (s.1.slot i).queued) := by
  obtain ⟨s, ops, hok, hrun⟩ := s
  have h : s.Inv := run_guarded (fun _ _ _ h hop heq => Option.some.inj heq ▸ unixStep_inv h hop)
    boot_inv hok hrun
  exact ⟨h.slots i, h.inFlight i⟩

/-- A pair is used and closed, and its slots are used again. -/
def reusedPair : List UnixOp :=
  [.socketpair .stream ⟨1, 0, 0⟩, .write 0 [1, 2, 3], .read 1 2, .close 0, .close 1,
    .socketpair .stream ⟨2, 0, 0⟩, .write 1 [9], .read 0 8]

/-- Of three bytes written two were read, and the third is in the ring. -/
theorem streams_of_reachable_of_reusedPair :
    ∃ s, run unixNext boot (reusedPair.take 3) = some s ∧ s.accepted 0 0 = [1, 2, 3] ∧
      s.accepted 0 0 = s.got 0 1 ++ (s.slot 1).queued := by
  have hok : Guarded unixNext UnixOk boot (reusedPair.take 3) := by decide +kernel
  obtain ⟨s, hrun, hbytes, hconn, hother, hstate, hkind⟩ :
      ∃ s, run unixNext boot (reusedPair.take 3) = some s ∧ s.accepted 0 0 = [1, 2, 3] ∧
        s.conn 1 = 0 ∧ s.other 0 1 = 0 ∧ (s.slot 1).state = .connected ∧
        (s.slot 1).kind = .stream := exists_of_decide (by decide +kernel)
  have h := (streams_of_reachable ⟨s, _, hok, hrun⟩ 1).2 hstate hkind
  rw [hconn, hother] at h
  exact ⟨s, hrun, hbytes, h⟩

theorem unixRun_isolated_of_reusedPair :
    ∃ s, run unixNext boot reusedPair = some s ∧ s.ends 1 = (0, 1) ∧ s.got 1 0 = [9] ∧
      s.got 1 0 <+: s.accepted 1 1 := by
  obtain ⟨s, hrun, hs⟩ : ∃ s, run unixNext boot reusedPair = some s ∧ s.conns = 2 ∧
      s.ends 1 = (0, 1) ∧ s.got 1 0 = [9] :=
    exists_of_decide (by decide +kernel)
  have hok : Guarded unixNext UnixOk boot reusedPair := by decide +kernel
  have hprefix := (unixRun_isolated reusedPair hok 8 s hrun).2.1 1 0 1 (by rw [hs.1]; decide) hs.2.1
  exact ⟨s, hrun, hs.2.1, hs.2.2, hprefix.1⟩

/-- Socket 0 of a pair is connected again, to a listener: socket 1 still names it but it names
socket 3, and the byte that socket 1 had written is read on the connection with socket 3. -/
theorem reconnect_crosses :
    ∃ s, run unixNext boot
        [.socketpair .stream ⟨1, 0, 0⟩, .write 1 [65], .create .stream ⟨2, 0, 0⟩, .bind 2 [120],
          .listen 2, .connect 0 [120],
          .read 0 8] = some s ∧
      (s.slot 1).state = .connected ∧ (s.slot 1).peerId = 0 ∧ (s.slot 0).peerId = 3 ∧
      s.ends 1 = (0, 3) ∧ s.got 1 0 = [65] ∧ s.accepted 1 3 = [] :=
  ⟨_, rfl, by decide +kernel⟩

end Astryx.Unix
