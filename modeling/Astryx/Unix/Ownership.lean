import Astryx.Lib.Rows
import Astryx.Unix.Streams

/-!
# Who owns a slot

A slot of the table is given out by `create`, `accept` and `socketpair`, and given back by `close`.
The slot that `connect` takes for the other end belongs to nobody yet: it waits in the backlog of
the listener until `accept` gives it out. So a slot that is in use should be held by somebody or
wait in one backlog. Here `held` counts, for each slot, the file descriptions that were given out
(by the three calls, or by `inc_ref` for a copy) and not closed.

Three calls leave a slot that nobody can ever give back. `connect` takes a slot and returns 0 also
when the backlog is full. `close` of a listener forgets its backlog. And `connect` does not look at
the state of the socket it is called on: a listener that connects is no listener any more, and what
waits in its backlog waits for ever. The reference count is 32 bits wide and saturates, after which
it is too low. `LeakOk` rules out these calls.

A process names a socket by a description it holds, so `connect`, `inc_ref` and `close` are for held
slots only.

## Main results

* `ownRun_noLeak` — under `LeakOk` a slot in use is held or waits in one backlog
* `connect_leaks` — the three calls
-/

namespace Astryx.Unix

open Transition Function List Option UnixTable

/-- The table with the descriptions given out. -/
structure OwnSystem where
  table : UnixTable
  /-- The file descriptions given out for a slot and not closed. -/
  held : ℕ → ℕ

namespace OwnSystem

variable (s : OwnSystem)

/-- No socket. -/
def boot : OwnSystem := ⟨.empty, fun _ => 0⟩

/-- A slot of the table. -/
def slot (id : ℕ) : UnixSocket := s.table.slot id

/-- One more description of a slot is given out; errors are no slots. -/
def give (held : ℕ → ℕ) (id : ℕ) : ℕ → ℕ :=
  if id < maxUnixSockets then update held id (held id + 1) else held

/-- A description is closed. -/
def drop (held : ℕ → ℕ) (id : ℕ) : ℕ → ℕ := update held id (held id - 1)

end OwnSystem

open OwnSystem

/-- One call. -/
def ownStep (s : OwnSystem) : UnixOp → Option OwnSystem
  | .create kind creds =>
    some ⟨(s.table.create kind creds).2, give s.held (s.table.create kind creds).1⟩
  | .bind id path => some ⟨(s.table.bind id path).2, s.held⟩
  | .listen id => some ⟨(s.table.listen id).2, s.held⟩
  | .connect id path => if 0 < s.held id then some ⟨(s.table.connect id path).2, s.held⟩ else none
  | .accept id =>
    let r := s.table.accept id
    some ⟨r.2, if 0 ≤ r.1 then give s.held r.1.toNat else s.held⟩
  | .socketpair kind creds =>
    let r := s.table.socketpair kind creds
    some ⟨r.2, give (give s.held r.1.1) r.1.2⟩
  | .write id data => some ⟨(s.table.write id data).2, s.held⟩
  | .read id len => some ⟨(s.table.readMsg id len).2, s.held⟩
  | .shutdown id shutRdFlag shutWrFlag =>
    some ⟨(s.table.shutdown id shutRdFlag shutWrFlag).2, s.held⟩
  | .incRef id => if 0 < s.held id then some ⟨s.table.incRef id, give s.held id⟩ else none
  | .close id => if 0 < s.held id then some ⟨s.table.close id, drop s.held id⟩ else none

/-- What a call must meet: a `connect` that gets through finds room in the backlog, and is not
called on the listener or on another listener with waiting connections; the last `close` of a
listener finds nothing waiting; the reference count has room for one more. -/
def LeakOk (s : OwnSystem) : UnixOp → Prop
  | .connect id path =>
    s.table.connects id path = true → ∀ server ∈ s.table.listener (unixName path),
      (s.slot server).backlog.length < backlogCap ∧ id ≠ server ∧
        ((s.slot id).state = .listening → (s.slot id).backlog = [])
  | .incRef id => (s.slot id).refCount < 2 ^ 32 - 1
  | .close id => (s.slot id).refCount ≤ 1 → (s.slot id).backlog = []
  | _ => True

instance LeakOk.decidable (s : OwnSystem) (op : UnixOp) : Decidable (LeakOk s op) := by
  induction op using UnixOp.casesOn <;> dsimp only [LeakOk] <;> infer_instance

/-! ## The invariant -/

/-- How often a slot waits in a backlog. -/
def UnixTable.pending (t : UnixTable) (i : ℕ) : ℕ :=
  ∑ j ∈ Finset.range maxUnixSockets, (t.slot j).backlog.count i

namespace OwnSystem

variable {id : ℕ} {t : UnixTable} {x : UnixSocket} {held : ℕ → ℕ} {s : OwnSystem}

/-- A slot is free, or held as often as its count says, or waits in a backlog once. -/
def Accounted (s : OwnSystem) (i : ℕ) : Prop :=
  ((s.slot i).state = .free ∧ s.held i = 0 ∧ s.table.pending i = 0) ∨
    ((s.slot i).state ≠ .free ∧ (s.slot i).refCount = s.held i ∧ 0 < s.held i ∧
      s.table.pending i = 0) ∨
    ((s.slot i).state = .connected ∧ (s.slot i).refCount = 1 ∧ s.held i = 0 ∧ s.table.pending i = 1)

/-- What holds in every state. -/
structure Inv (s : OwnSystem) : Prop where
  accounted : ∀ i, s.Accounted i
  /-- Only listeners have something waiting. -/
  quiet : ∀ i, (s.slot i).state ≠ .listening → (s.slot i).backlog = []
  bounded : ∀ i, maxUnixSockets ≤ i → (s.slot i).state = .free

lemma not_unused (hid : id < maxUnixSockets) (hstate : (t.slot id).state ≠ .free) :
    ¬ (maxUnixSockets ≤ id ∨ (t.slot id).state = .free) :=
  not_or.mpr ⟨not_le.mpr hid, hstate⟩

variable {i server peer : ℕ}

lemma Inv.of_held (h : s.Inv) (hi : 0 < s.held i) :
    (s.slot i).state ≠ .free ∧ (s.slot i).refCount = s.held i ∧ s.table.pending i = 0 ∧
    i < maxUnixSockets := by
  rcases h.accounted i with ⟨-, hzero, -⟩ | ⟨hstate, hcount, -, hpending⟩ | ⟨-, -, hzero, -⟩
  · omega
  · exact ⟨hstate, hcount, hpending, Nat.lt_of_not_le fun hle => hstate (h.bounded i hle)⟩
  · omega

lemma Inv.of_free (h : s.Inv) (hi : (s.slot i).state = .free) :
    s.held i = 0 ∧ s.table.pending i = 0 := by
  rcases h.accounted i with ⟨-, hfree⟩ | ⟨hstate, -⟩ | ⟨hstate, -⟩
  · exact hfree
  · exact absurd hi hstate
  · rw [hi] at hstate
    cases hstate

lemma Inv.of_pending (h : s.Inv) (hi : 0 < s.table.pending i) :
    (s.slot i).state = .connected ∧ (s.slot i).refCount = 1 ∧ s.held i = 0 ∧
    s.table.pending i = 1 := by
  rcases h.accounted i with ⟨-, -, hzero⟩ | ⟨-, -, -, hzero⟩ | hwaits
  · omega
  · omega
  · exact hwaits

lemma Inv.of_idle (h : s.Inv) {c : UnixState} (hi : (s.slot i).state = c)
    (hc : c ≠ .free ∧ c ≠ .connected) :
    (s.slot i).refCount = s.held i ∧ 0 < s.held i ∧ s.table.pending i = 0 := by
  subst hi
  rcases h.accounted i with ⟨hstate, -⟩ | ⟨-, hheld⟩ | ⟨hstate, -⟩
  · exact absurd hstate hc.1
  · exact hheld
  · exact absurd hstate hc.2

lemma pending_set (hid : id < maxUnixSockets) (x : UnixSocket) (i : ℕ) :
    (t.set id x).pending i + (t.slot id).backlog.count i = t.pending i + x.backlog.count i :=
  Rows.sum_update (fun _ (y : UnixSocket) => y.backlog.count i) t.slot hid x

lemma pending_add (more : List ℕ) (hid : id < maxUnixSockets)
    (hx : x.backlog = (t.slot id).backlog ++ more) :
    (t.set id x).pending i = t.pending i + more.count i := by
  have hsum := pending_set (t := t) hid x i
  rw [hx, count_append] at hsum
  omega

lemma pending_same (hid : id < maxUnixSockets)
    (hx : x.backlog = (t.slot id).backlog) : (t.set id x).pending i = t.pending i := by
  rw [pending_add [] hid (by rw [hx, append_nil]), count_nil, add_zero]

lemma Inv.congr (h : s.Inv) (ht : s.table.Alike t) : Inv ⟨t, s.held⟩ := by
  have hpending : ∀ i, t.pending i = s.table.pending i := fun i =>
    Finset.sum_congr rfl fun j _ => by rw [(ht j).2.2]
  refine ⟨fun i => ?_, fun i hi => ?_, fun i hi => ?_⟩
  · rw [Accounted]
    dsimp only [slot]
    rw [(ht i).1, (ht i).2.1, hpending]
    exact h.accounted i
  · dsimp only [slot] at hi ⊢
    rw [(ht i).1] at hi
    rw [(ht i).2.2]
    exact h.quiet i hi
  dsimp only [slot]
  rw [(ht i).1]
  exact h.bounded i hi

/-- What `Accounted` says of a slot, for any number of holders and of backlogs it waits in. -/
def Counts (x : UnixSocket) (n m : ℕ) : Prop :=
  (x.state = .free ∧ n = 0 ∧ m = 0) ∨ (x.state ≠ .free ∧ x.refCount = n ∧ 0 < n ∧ m = 0) ∨
    (x.state = .connected ∧ x.refCount = 1 ∧ n = 0 ∧ m = 1)

/-- The invariant inside a call, while the backlogs do not hold yet what waits by `w`. -/
structure Kept (t : UnixTable) (held w : ℕ → ℕ) : Prop where
  counts : ∀ i, Counts (t.slot i) (held i) (w i)
  quiet : ∀ i, (t.slot i).state ≠ .listening → (t.slot i).backlog = []
  bounded : ∀ i, maxUnixSockets ≤ i → (t.slot i).state = .free

variable {k w w' : ℕ → ℕ}

lemma Inv.kept (h : s.Inv) : Kept s.table s.held s.table.pending :=
  ⟨h.accounted, h.quiet, h.bounded⟩

lemma Kept.inv (h : Kept t held w) (hw : ∀ i, t.pending i = w i) : Inv ⟨t, held⟩ := by
  obtain rfl : t.pending = w := funext hw
  exact ⟨h.counts, h.quiet, h.bounded⟩

lemma Kept.set (h : Kept t held w') (hid : id < maxUnixSockets)
    (hquiet : x.state ≠ .listening → x.backlog = []) (hheld : ∀ i, i ≠ id → k i = held i)
    (hw : ∀ i, i ≠ id → w i = w' i) (hx : Counts x (k id) (w id)) : Kept (t.set id x) k w := by
  refine ⟨t.forall_set (p := fun i y => Counts y (k i) (w i)) hx fun i hi => ?_,
    t.forall_set (p := fun _ y => y.state ≠ .listening → y.backlog = []) hquiet fun i _ =>
      h.quiet i, fun i hi => ?_⟩
  · rw [hheld i hi, hw i hi]
    exact h.counts i
  · rw [set_slot_of_ne _ (by omega)]
    exact h.bounded i hi

/-- One slot changes, with the same waiting in it before and after. -/
lemma Inv.set (h : s.Inv) (hid : id < maxUnixSockets) (hbefore : (s.slot id).backlog = x.backlog)
    (hquiet : x.state ≠ .listening → x.backlog = []) (hheld : ∀ i, i ≠ id → held i = s.held i)
    (hx : Counts x (held id) (s.table.pending id)) : Inv ⟨s.table.set id x, held⟩ :=
  (h.kept.set hid hquiet hheld (fun _ _ => rfl) hx).inv fun _ => pending_same hid hbefore.symm

/-! ## The calls keep it -/

lemma give_self (hid : id < maxUnixSockets) : give held id id = held id + 1 := by
  simp [give, hid]

lemma give_of_ne (hi : i ≠ id) : give held id i = held i := by
  rw [give]
  split
  · exact update_of_ne hi ..
  · rfl

lemma Inv.take (h : s.Inv) (hid : id < maxUnixSockets) (hfree : (s.slot id).state = .free)
    (hstate : x.state ≠ .free) (hcount : x.refCount = 1) (hbacklog : x.backlog = []) :
    Inv ⟨s.table.set id x, give s.held id⟩ := by
  obtain ⟨hheld, hpending⟩ := h.of_free hfree
  have hbefore : (s.slot id).backlog = [] := h.quiet id (by rw [hfree]; exact nofun)
  refine h.set hid (hbefore.trans hbacklog.symm) (fun _ => hbacklog) (fun i => give_of_ne)
    (.inr (.inl ?_))
  rw [give_self hid, hheld]
  exact ⟨hstate, hcount, one_pos, hpending⟩

lemma create_owned (h : s.Inv) (kind : SockKind) (creds : PeerCreds) :
    Inv ⟨(s.table.create kind creds).2, give s.held (s.table.create kind creds).1⟩ := by
  rw [UnixTable.create]
  split
  next i hi =>
    obtain ⟨hlt, -, hfree⟩ := UnixSystem.freeSlot_spec hi
    exact h.take hlt hfree UnixState.noConfusion rfl rfl
  · exact h

/-- A socket that is neither connected nor listening changes its state. -/
lemma Inv.restate (h : s.Inv) {c : UnixState} (hid : id < maxUnixSockets)
    (hstate : (s.slot id).state = c) (hc : (c ≠ .free ∧ c ≠ .connected) ∧ c ≠ .listening)
    (hx : x.state ≠ .free) (hcount : x.refCount = (s.slot id).refCount)
    (hbacklog : x.backlog = (s.slot id).backlog) : Inv ⟨s.table.set id x, s.held⟩ :=
  h.set hid hbacklog.symm (fun _ => hbacklog.trans (h.quiet id (ne_of_eq_of_ne hstate hc.2)))
    (fun _ _ => rfl)
    (.inr (.inl ⟨hx, hcount ▸ h.of_idle hstate hc.1⟩))

lemma bind_owned (h : s.Inv) (id : ℕ) (path : List UInt8) :
    Inv ⟨(s.table.bind id path).2, s.held⟩ := by
  rw [UnixTable.bind]
  split
  · exact h
  rename_i hid
  split
  · exact h
  split
  · exact h
  split
  · exact h
  next hstate => exact h.restate (not_le.mp hid) hstate (by decide) UnixState.noConfusion rfl rfl
  · exact h

lemma listen_owned (h : s.Inv) (id : ℕ) : Inv ⟨(s.table.listen id).2, s.held⟩ := by
  rw [UnixTable.listen]
  split
  · exact h
  rename_i hid
  split
  next hstate => exact h.restate (not_le.mp hid) hstate (by decide) UnixState.noConfusion rfl rfl
  next hstate => exact h.restate (not_le.mp hid) hstate (by decide) UnixState.noConfusion rfl rfl
  · exact h
  · exact h

lemma listener_spec {name : List UInt8} (h : t.listener name = some server) :
    server < maxUnixSockets ∧ (t.slot server).state = .listening := by
  have hmem := mem_of_find?_eq_some h
  have hp := List.find?_some h
  rw [Bool.and_eq_true, decide_eq_true_eq] at hp
  exact ⟨mem_range.mp hmem, hp.1⟩

section

variable (h : s.Inv)

include h

/-- A connection that gets through waits in the backlog of its listener. -/
lemma pair_owned (hheld : 0 < s.held id) (hserver : (s.slot server).state = .listening)
    (hlt : server < maxUnixSockets) (hpeer : s.table.freeSlot (fun i => i ≠ id) = some peer)
    (hroom : (s.slot server).backlog.length < backlogCap) (hne : id ≠ server)
    (hquiet : (s.slot id).state = .listening → (s.slot id).backlog = []) :
    Inv ⟨s.table.pair id server peer, s.held⟩ ∧
    ((s.table.pair id server peer).slot id).peerId = peer ∧
      ((s.table.pair id server peer).slot server).state = .listening ∧
      peer ∈ ((s.table.pair id server peer).slot server).backlog := by
  obtain ⟨hplt, hpne, hfree⟩ := UnixSystem.freeSlot_spec hpeer
  have hpne : peer ≠ id := of_decide_eq_true hpne
  have hsp : server ≠ peer := by
    rintro rfl
    rw [slot, hfree] at hserver
    cases hserver
  obtain ⟨-, hcount, hpend, hidlt⟩ := h.of_held hheld
  obtain ⟨hpheld, -⟩ := h.of_free hfree
  obtain ⟨hscount, hsheld, hspend⟩ := h.of_idle hserver (by decide)
  have hidquiet : (s.slot id).backlog = [] := by
    by_cases hl : (s.slot id).state = .listening
    · exact hquiet hl
    · exact h.quiet id hl
  -- the slot is taken, the client gets it as its peer, and it goes to the backlog
  have htaken :=
    h.kept.set (x :=
      { (s.slot peer).take .connected (s.slot server).kind (s.slot server).creator with
        peerId := id })
    hplt (fun _ => rfl) (fun _ _ => rfl) (fun i hi => update_of_ne hi ..)
    (.inr (.inr ⟨rfl, rfl, hpheld, update_self ..⟩))
  have hclient := htaken.set (x := { s.slot id with state := .connected, peerId := peer }) hidlt
    (fun _ => hidquiet)
    (fun _ _ => rfl) (fun _ _ => rfl)
      (.inr (.inl ⟨nofun, hcount, hheld, (update_of_ne hpne.symm ..).trans hpend⟩))
  have hqueued :=
    hclient.set (x := { s.slot server with backlog := (s.slot server).backlog ++ [peer] }) hlt
    (fun hl => absurd hserver hl) (fun _ _ => rfl) (fun _ _ => rfl)
    (.inr (.inl ⟨ne_of_eq_of_ne hserver nofun, hscount, hsheld,
      (update_of_ne hsp ..).trans hspend⟩))
  rw [slot] at hroom
  rw [pair]
  rw [set_slot_of_ne _ hne.symm, set_slot_of_ne _ hsp, if_pos hroom, set_slot_of_ne _ hpne.symm]
  refine ⟨hqueued.inv fun i => ?_, ?_, ?_, ?_⟩
  · rw [pending_add [peer] hlt (by rw [set_slot_of_ne _ hne.symm, set_slot_of_ne _ hsp]; rfl),
      pending_same hidlt (by rw [set_slot_of_ne _ hpne.symm]; rfl),
      pending_same hplt (h.quiet peer (ne_of_eq_of_ne hfree nofun)).symm, count_singleton,
        update_apply]
    by_cases hi : i = peer
    · rw [if_pos hi, if_pos (beq_iff_eq.mpr hi.symm), hi, (h.of_free hfree).2]
    · rw [if_neg hi, if_neg fun heq => hi (beq_iff_eq.mp heq).symm, add_zero]
  · rw [set_slot_of_ne _ hne, set_slot_self]
  · rw [set_slot_self]
    exact hserver
  · rw [set_slot_self]
    simp

lemma connect_owned {path : List UInt8} (hheld : 0 < s.held id)
    (hok : LeakOk s (.connect id path)) :
    Inv ⟨(s.table.connect id path).2, s.held⟩ ∧ ((s.table.connect id path).1 = 0 → ∃ server,
      (((s.table.connect id path).2).slot server).state = .listening ∧
        (((s.table.connect id path).2).slot id).peerId ∈
          (((s.table.connect id path).2).slot server).backlog) := by
  obtain ⟨r, hr, heq⟩ | ⟨hconnects, -, server, peer, hserver, -, hpeer, heq⟩ :=
    UnixSystem.connect_cases s.table id path
  · rw [heq]
    exact ⟨h, (absurd · hr)⟩
  obtain ⟨hlt, hlistening⟩ := listener_spec hserver
  obtain ⟨hroom, hne, hquiet⟩ := hok hconnects server hserver
  obtain ⟨hinv, hback, hstate, hmem⟩ := pair_owned h hheld hlistening hlt hpeer hroom hne hquiet
  rw [heq]
  refine ⟨hinv, fun _ => ⟨server, hstate, ?_⟩⟩
  rw [hback]
  exact hmem

lemma accept_owned (id : ℕ) :
    Inv ⟨(s.table.accept id).2,
      if 0 ≤ (s.table.accept id).1 then give s.held (s.table.accept id).1.toNat else s.held⟩ := by
  rw [UnixTable.accept]
  split
  · exact h
  rename_i hid
  split
  · exact h
  rename_i hstate
  rw [not_not] at hstate
  split
  · exact h
  rename_i peer rest hbacklog
  have hsum : ∀ i, (s.table.set id { s.table.slot id with backlog := rest }).pending i +
    (if peer = i then 1 else 0)
      = s.table.pending i := by
    intro i
    have hset := pending_set (t := s.table) (not_le.mp hid)
      { s.table.slot id with backlog := rest } i
    dsimp only at hset ⊢
    rw [hbacklog, count_cons] at hset
    simp only [beq_iff_eq] at hset
    omega
  have hbefore : 0 < s.table.pending peer := by
    rw [← hsum peer, if_pos rfl]
    exact Nat.succ_pos _
  obtain ⟨hpstate, hpcount, hpheld, hpone⟩ := h.of_pending hbefore
  have hplt : peer < maxUnixSockets := Nat.lt_of_not_le fun hle => by
    rw [h.bounded peer hle] at hpstate
    cases hpstate
  have hne : peer ≠ id := by
    rintro rfl
    rw [slot, hstate] at hpstate
    cases hpstate
  -- the listener changes, and then who holds the slot that waited
  have hshorter := h.kept.set (x := { s.table.slot id with backlog := rest }) (not_le.mp hid)
    (fun hl => absurd hstate hl) (fun _ _ => rfl) (fun _ _ => rfl) (h.accounted id)
  have hgiven := hshorter.set
    (w := (s.table.set id { s.table.slot id with backlog := rest }).pending) hplt
    (fun _ => h.quiet peer (ne_of_eq_of_ne hpstate (by decide))) (fun i => give_of_ne)
      (fun i hi => ?_) (.inr (.inl ?_))
  · rw [slot, ← set_slot_of_ne s.table hne { s.table.slot id with backlog := rest }, UnixTable.set,
      update_eq_self] at hgiven
    exact hgiven.inv fun _ => rfl
  · rw [← hsum i, if_neg hi.symm, add_zero]
  have hafter := hsum peer
  rw [if_pos rfl, hpone] at hafter
  rw [give_self hplt, hpheld]
  exact ⟨ne_of_eq_of_ne hpstate (by decide), hpcount, one_pos, by omega⟩

lemma socketpair_owned (kind : SockKind) (creds : PeerCreds) :
    Inv ⟨(s.table.socketpair kind creds).2,
      give (give s.held (s.table.socketpair kind creds).1.1)
      (s.table.socketpair kind creds).1.2⟩ := by
  rw [UnixTable.socketpair]
  split
  · exact h
  rename_i a ha
  obtain ⟨halt, -, hafree⟩ := UnixSystem.freeSlot_spec ha
  split
  · have hquiet : (s.slot a).backlog = [] := h.quiet a (by rw [slot, hafree]; decide)
    refine h.set halt hquiet (fun _ => rfl) (fun _ _ => rfl) (.inl ⟨rfl, h.of_free hafree⟩)
  next b hb =>
    obtain ⟨hblt, hba, hbfree⟩ := UnixSystem.freeSlot_spec hb
    have hba : b ≠ a := of_decide_eq_true hba
    have hfirst :
        Inv ⟨s.table.set a { (s.table.slot a).take .connected kind creds with peerId := b },
          give s.held a⟩ :=
      h.take halt hafree UnixState.noConfusion rfl rfl
    refine hfirst.take hblt ?_ UnixState.noConfusion rfl rfl
    dsimp only [slot]
    rw [set_slot_of_ne _ hba]
    exact hbfree

lemma incRef_owned (hheld : 0 < s.held id) (hok : LeakOk s (.incRef id)) :
    Inv ⟨s.table.incRef id, give s.held id⟩ := by
  obtain ⟨hstate, hcount, hpending, hid⟩ := h.of_held hheld
  have hmin : min ((s.slot id).refCount + 1) (2 ^ 32 - 1) = (s.slot id).refCount + 1 :=
    min_eq_left (Nat.succ_le_of_lt hok)
  rw [UnixTable.incRef, if_neg (not_unused hid hstate)]
  refine h.set hid rfl (h.quiet id) (fun i => give_of_ne) (.inr (.inl ?_))
  rw [give_self hid]
  exact ⟨hstate, by rw [← hcount]; exact hmin, Nat.succ_pos _, hpending⟩

end

lemma drop_self : drop held id id = held id - 1 := update_self ..

lemma close_owned (h : s.Inv) (hheld : 0 < s.held id) (hok : LeakOk s (.close id)) :
    Inv ⟨s.table.close id, drop s.held id⟩ := by
  obtain ⟨hstate, hcount, hpending, hid⟩ := h.of_held hheld
  rw [UnixTable.close, if_neg (not_unused hid hstate)]
  dsimp only
  split
  next hmany =>
    have hmany : 1 < s.held id := by rw [← hcount]; exact hmany
    refine h.set hid rfl (h.quiet id) (fun i hi => update_of_ne hi ..) (.inr (.inl ?_))
    rw [drop_self, ← hcount]
    rw [← hcount] at hmany
    exact ⟨hstate, rfl, Nat.sub_pos_of_lt hmany, hpending⟩
  next hlast =>
    have hlast : (s.slot id).refCount ≤ 1 := not_lt.mp hlast
    have hone : s.held id = 1 := by omega
    have hset : Inv ⟨s.table.set id (s.table.slot id).reset, drop s.held id⟩ := by
      refine h.set hid (hok hlast) (fun _ => rfl) (fun i hi => update_of_ne hi ..) (.inl ?_)
      rw [drop_self, hone]
      exact ⟨rfl, rfl, hpending⟩
    split
    · exact hset.congr ((Alike.refl _).set rfl rfl rfl)
    · exact hset

lemma boot_owned : boot.Inv where
  accounted i := .inl ⟨rfl, rfl, by rw [pending]; exact Finset.sum_eq_zero fun j _ => rfl⟩
  quiet _ _ := rfl
  bounded _ _ := rfl

lemma Inv.noLeak (h : s.Inv) (hi : (s.slot i).state ≠ .free) :
    0 < s.held i ∨ ∃! server, server < maxUnixSockets ∧ (s.slot server).state = .listening ∧
      i ∈ (s.slot server).backlog := by
  rcases h.accounted i with ⟨hfree, -⟩ | ⟨-, -, hheld, -⟩ | ⟨-, -, -, hone⟩
  · exact absurd hfree hi
  · exact .inl hheld
  refine .inr ?_
  -- the counts of one slot over all backlogs add up to one
  obtain ⟨server, hmem, hcount, hothers⟩ :
    ∃ j ∈ Finset.range maxUnixSockets, 0 < (s.slot j).backlog.count i ∧
      ∀ k ∈ Finset.range maxUnixSockets, k ≠ j → (s.slot k).backlog.count i = 0 := by
    obtain ⟨j, hj, hpos⟩ : ∃ j ∈ Finset.range maxUnixSockets, 0 < (s.slot j).backlog.count i := by
      by_contra hnone
      push Not at hnone
      have hzero : s.table.pending i = 0 :=
        Finset.sum_eq_zero fun j hj => Nat.le_zero.mp (hnone j hj)
      omega
    refine ⟨j, hj, hpos, fun k hk hne => ?_⟩
    have hsplit := Finset.add_sum_erase (Finset.range maxUnixSockets)
      (fun j => (s.slot j).backlog.count i) hj
    have hle := Finset.single_le_sum (f := fun j => (s.slot j).backlog.count i)
      (fun _ _ => Nat.zero_le _)
      (Finset.mem_erase.mpr ⟨hne, hk⟩)
    have htotal : ∑ j ∈ Finset.range maxUnixSockets, (s.slot j).backlog.count i = 1 := hone
    omega
  have hmember : i ∈ (s.slot server).backlog := count_pos_iff.mp hcount
  refine ⟨server, ⟨Finset.mem_range.mp hmem, ?_, hmember⟩, ?_⟩
  · by_contra hstate
    rw [h.quiet server hstate] at hmember
    cases hmember
  rintro k ⟨hk, -, hkmem⟩
  by_contra hne
  have hzero := hothers k (by simp [hk]) hne
  exact absurd (count_pos_iff.mpr hkmem) (by omega)

/-- What waits in a backlog comes out of it, after what waits before it. -/
lemma accept_iterate (front : List ℕ) {back : List ℕ} (hlt : server < maxUnixSockets)
    (hstate : (t.slot server).state = .listening)
    (hbacklog : (t.slot server).backlog = front ++ peer :: back) :
    (((fun t => (t.accept server).2)^[front.length] t).accept server).1 = peer := by
  induction front generalizing t with
  | nil =>
    rw [nil_append] at hbacklog
    rw [length_nil, iterate_zero_apply, UnixTable.accept, if_neg (not_le.mpr hlt),
      if_neg (not_not.mpr hstate), hbacklog]
  | cons first front ih =>
    have hnext : (t.accept server).2 =
        t.set server { t.slot server with backlog := front ++ peer :: back } := by
      rw [UnixTable.accept, if_neg (not_le.mpr hlt), if_neg (not_not.mpr hstate), hbacklog,
        cons_append]
    rw [length_cons, iterate_succ_apply, hnext]
    refine ih ?_ ?_
    · rw [set_slot_self]
      exact hstate
    · rw [set_slot_self]

end OwnSystem

lemma ownStep_inv {s t : OwnSystem} {op : UnixOp} (h : s.Inv) (hok : LeakOk s op)
    (ht : ownStep s op = some t) : t.Inv := by
  cases op with
  | create kind creds => exact some.inj ht ▸ create_owned h kind creds
  | bind id path => exact some.inj ht ▸ bind_owned h id path
  | listen id => exact some.inj ht ▸ listen_owned h id
  | connect id path =>
    rw [ownStep, ite_none_right_eq_some] at ht
    exact some.inj ht.2 ▸ (connect_owned h ht.1 hok).1
  | accept id => exact some.inj ht ▸ accept_owned h id
  | socketpair kind creds => exact some.inj ht ▸ socketpair_owned h kind creds
  | write id data => exact some.inj ht ▸ h.congr (s.table.write_alike id data)
  | read id len => exact some.inj ht ▸ h.congr (s.table.readMsg_alike id len)
  | shutdown id rd wr => exact some.inj ht ▸ h.congr (s.table.shutdown_alike id rd wr)
  | incRef id =>
    rw [ownStep, ite_none_right_eq_some] at ht
    exact some.inj ht.2 ▸ incRef_owned h ht.1 hok
  | close id =>
    rw [ownStep, ite_none_right_eq_some] at ht
    exact some.inj ht.2 ▸ close_owned h ht.1 hok

/-- In a run whose calls meet `LeakOk`, after every call: a slot in use is held or waits in the
backlog of exactly one listener; a `connect` that meets `LeakOk` and returns 0 took a slot that
`accept` can give out; and a `close` that meets `LeakOk` and frees a listener leaves none of its
waiting slots in use. -/
theorem ownRun_noLeak (ops : List UnixOp) (hok : Guarded ownStep LeakOk boot ops) (n : ℕ)
    (s : OwnSystem) (hs : run ownStep boot (ops.take n) = some s) :
    (∀ i, (s.slot i).state ≠ .free → 0 < s.held i ∨ ∃! server, server < maxUnixSockets ∧
      (s.slot server).state = .listening ∧ i ∈ (s.slot server).backlog) ∧
    (∀ id path, 0 < s.held id → LeakOk s (.connect id path) →
      (s.table.connect id path).1 = 0 → ∃ server k,
      0 < s.held server ∧
      (((fun t => (UnixTable.accept t server).2)^[k] (s.table.connect id path).2).accept server).1
        = (((s.table.connect id path).2).slot id).peerId) ∧
    ∀ id, 0 < s.held id → LeakOk s (.close id) → ((s.table.close id).slot id).state = .free →
      ∀ i ∈ (s.slot id).backlog, ((s.table.close id).slot i).state = .free := by
  have hinv : s.Inv := run_guarded (fun _ _ _ => ownStep_inv) boot_owned (guarded_take hok n) hs
  refine ⟨fun i => hinv.noLeak, fun id path hheld hconnect hzero => ?_,
    fun id hheld hclose hfree i hi => ?_⟩
  · obtain ⟨hafter, haccept⟩ := connect_owned hinv hheld hconnect
    obtain ⟨server, hstate, hmem⟩ := haccept hzero
    obtain ⟨front, back, hsplit⟩ := append_of_mem hmem
    obtain ⟨-, hserver, -⟩ := hafter.of_idle hstate (by decide)
    exact ⟨server, front.length, hserver,
      accept_iterate front (hafter.of_held hserver).2.2.2 hstate hsplit⟩
  -- the last reference goes, so nothing waits
  obtain ⟨hstate, -, -, hid⟩ := hinv.of_held hheld
  have hlast : (s.table.slot id).refCount ≤ 1 := by
    by_contra hmany
    rw [UnixTable.close, if_neg (not_unused hid hstate)] at hfree
    rw [if_pos (Nat.lt_of_not_le hmany), set_slot_self] at hfree
    exact hstate hfree
  rw [hclose hlast] at hi
  cases hi

/-- A server listens on the name `x`, a client connects, the server accepts, and all is closed. -/
def servedClient : List UnixOp :=
  [.create .stream ⟨1, 0, 0⟩, .bind 0 [120], .listen 0, .create .stream ⟨2, 0, 0⟩,
    .connect 1 [120], .accept 0,
    .incRef 2, .close 2, .close 2, .close 0, .close 1]

/-- After the `connect`, slot 2 waits in the backlog of the server; after all is closed, no slot is
in use. -/
theorem ownRun_noLeak_of_servedClient :
    (∃ s, run ownStep boot (servedClient.take 5) = some s ∧ s.held 2 = 0 ∧
      ∃! server, server < maxUnixSockets ∧ (s.slot server).state = .listening ∧
        2 ∈ (s.slot server).backlog) ∧
    ∃ s, run ownStep boot servedClient = some s ∧
      ∀ i < maxUnixSockets, (s.slot i).state = .free := by
  have hok : Guarded ownStep LeakOk boot servedClient := by decide +kernel
  constructor
  · obtain ⟨s, hrun, hstate, hnobody⟩ : ∃ s, run ownStep boot (servedClient.take 5) = some s ∧
        (s.slot 2).state ≠ .free ∧ s.held 2 = 0 := exists_of_decide (by decide +kernel)
    refine ⟨s, hrun, hnobody, ?_⟩
    obtain hheld | hwaits := (ownRun_noLeak servedClient hok 5 s hrun).1 2 hstate
    · omega
    · exact hwaits
  obtain ⟨s, hrun, hidle⟩ : ∃ s, run ownStep boot servedClient = some s ∧
      ∀ i < maxUnixSockets, s.held i = 0 ∧
        (s.slot i).backlog = [] := exists_of_decide (by decide +kernel)
  refine ⟨s, hrun, fun i hi => ?_⟩
  by_contra hstate
  obtain hheld | ⟨server, ⟨hlt, -, hmem⟩, -⟩ :=
    (ownRun_noLeak servedClient hok 11 s hrun).1 i hstate
  · rw [(hidle i hi).1] at hheld
    cases hheld
  · rw [(hidle server hlt).2] at hmem
    cases hmem

/-- A slot in use that nobody holds and that waits nowhere. -/
def OwnSystem.Leaked (s : OwnSystem) (i : ℕ) : Prop :=
  (s.slot i).state ≠ .free ∧ s.held i = 0 ∧
    ∀ server ∈ List.range maxUnixSockets, (s.slot server).state = .listening →
      i ∉ (s.slot server).backlog

instance OwnSystem.Leaked.decidable (s : OwnSystem) (i : ℕ) : Decidable (s.Leaked i) := by
  dsimp only [OwnSystem.Leaked]
  infer_instance

/-- A server that listens on the name `x`. -/
def listening : List UnixOp := [.create .stream ⟨1, 0, 0⟩, .bind 0 [120], .listen 0]

/-- The slots that `connect` takes and nobody can give back: the one of the ninth client of a
listener that accepts none, after a `connect` that returns 0; those that wait when the listener is
closed; and those that wait when the listener connects to another one. -/
theorem connect_leaks :
    (∃ s, run ownStep boot
      (listening ++ (List.range 8).flatMap
        (fun k => [.create .stream ⟨2, 0, 0⟩, .connect (2 * k + 1) [120]])
        ++ [.create .stream ⟨2, 0, 0⟩]) = some s ∧
      (s.table.connect 17 [120]).1 = 0 ∧
      ∃ t, ownStep s (.connect 17 [120]) = some t ∧ t.Leaked 18) ∧
    (∃ s, run ownStep boot (listening ++ [.create .stream ⟨2, 0, 0⟩, .connect 1 [120], .close 0]) =
      some s ∧ s.Leaked 2) ∧
    ∃ s, run ownStep boot
      (listening ++ [.create .stream ⟨2, 0, 0⟩, .connect 1 [120], .create .stream ⟨3, 0, 0⟩,
        .bind 3 [121],
      .listen 3, .connect 0 [121]]) = some s ∧ s.Leaked 2 := by
  refine ⟨⟨_, rfl, ?_, _, rfl, ?_⟩, ⟨_, rfl, ?_⟩, ⟨_, rfl, ?_⟩⟩
  all_goals decide +kernel

end Astryx.Unix
