import Astryx.Epoll.Sources

/-!
# Edge-triggered watches

`sys_epoll_ctl` and `sys_epoll_wait` with a timeout of zero, over the watches of one instance
(`ipc/epoll.rs`) of one process. The watches are kept by their descriptor and in the order in which
they were added: none is added twice.

A bit that comes up after a watch was last reported, or is up when the watch is made, is owed to it
until it is returned or goes down. `sys_epoll_wait` returns up to `maxevents` watches, but then
takes down what is up as delivered for all of them. So there has to be room for all that are ready,
and a bit that goes down and up again between two calls is seen only where it was not taken down, or
where the rises are counted.
-/

namespace Astryx.Epoll

open Function Transition

/-- A watched descriptor. -/
structure EpollWatch where
  events : BitVec 32
  data : ℕ
  lastReady : BitVec 32
  etRise : ℕ

/-- The account of what is owed to the caller, which the code does not keep. -/
structure Account where
  owed : BitVec 32
  /-- The room in the calls that did not return an owed bit. -/
  missed : ℕ → ℕ
  overdue : Bool
  /-- The bits that were taken down and not returned. -/
  unreturned : BitVec 32

/-- A watched descriptor with its account. -/
structure Watch extends EpollWatch, Account

/-- What a call returns for one descriptor. -/
structure EpollEvent where
  events : BitVec 32
  data : ℕ
  deriving DecidableEq

/-- The interest list over the world. -/
structure State where
  world : World
  fds : List ℕ
  watch : ℕ → Watch
  /-- What the last call returned. -/
  ret : ℤ
  fired : List EpollEvent

/-- A call on the instance, or any other call. -/
inductive Event where
  | ctl (op fd : ℕ) (events : BitVec 32) (data : ℕ)
  | wait (maxevents : ℕ)
  | call (c : Call)

variable (pid : ℕ)

/-! ## One watch -/

namespace Watch

variable (w : World) (fd : ℕ) (x : Watch)

/-- A descriptor that is new in the list. -/
def blank : Watch := ⟨⟨0, 0, 0, 0⟩, ⟨0, fun _ => 0, false, 0⟩⟩

/-- It is edge triggered. -/
def isEt : Bool := x.events &&& epollEt ≠ 0#32

/-- The bits that a watch reports: those it subscribed to, errors and hang-ups. -/
def level : BitVec 32 :=
  x.events &&& epollPollEvents pid w fd ||| epollPollEvents pid w fd &&& (epollErr ||| epollHup)

/-- The rises of a counter that is up have moved on since they were taken down. -/
def risen : Bool := riseSeq pid w fd ≠ x.etRise ∧ x.level pid w fd &&& epollIn ≠ 0#32

/-- The bits that the next call would return. -/
def delivered : BitVec 32 :=
  if x.isEt then
    x.level pid w fd &&& ~~~x.lastReady ||| flag
      ((evfdSlot pid w fd).isSome && x.risen pid w fd) epollIn
  else x.level pid w fd

/-- The bits that a call takes down as delivered and that were not so before. -/
def recorded : BitVec 32 := x.level pid w fd &&& ~~~x.lastReady ||| flag (x.risen pid w fd) epollIn

/-- What `add` and `modify` write. -/
def subscribe (events : BitVec 32) (data : ℕ) : Watch :=
  { x with
    events := events
    data := data
    lastReady := 0
    etRise := 0
    owed := { x with events := events }.level pid w fd
    missed := fun _ => 0 }

/-- The bits owed, and the room that was left for them. -/
def owe (owed : BitVec 32) (room : ℕ) : Watch :=
  { x with owed := owed, missed := fun i => if owed.getLsbD i then x.missed i + room else 0 }

/-- The account of a call that had `room` for some of `count` watches and returned these bits. -/
def account (room count : ℕ) (returned : BitVec 32) : Watch :=
  let y := x.owe (x.owed &&& ~~~returned) room
  { y with
    overdue := x.overdue || (List.range 32).any fun i => y.owed.getLsbD i && count ≤ y.missed i
    unreturned := x.unreturned ||| x.recorded pid w fd &&& ~~~returned }

/-- `commit_edges` for one watch. -/
def commitEdges : Watch := { x with lastReady := x.level pid w fd, etRise := riseSeq pid w fd }

end Watch

/-! ## The instance -/

namespace State

variable (s : State)

/-- `do_poll`: the watches that a call returns. -/
def doPoll (maxevents : ℕ) : List ℕ :=
  (s.fds.filter fun fd => (s.watch fd).delivered pid s.world fd ≠ 0#32).take maxevents

/-- The bits that this call returns for a descriptor. -/
def returned (maxevents fd : ℕ) : BitVec 32 :=
  flag (fd ∈ s.doPoll pid maxevents) ((s.watch fd).delivered pid s.world fd)

/-- A descriptor after a call. -/
def commit (maxevents fd : ℕ) : Watch :=
  if fd ∈ s.fds ∧ (s.watch fd).isEt then
    ((s.watch fd).account pid s.world fd maxevents s.fds.length
      (s.returned pid maxevents fd)).commitEdges pid s.world fd
  else s.watch fd

/-- `epoll_wait` without blocking. -/
def wait (maxevents : ℕ) : State :=
  if maxevents = 0 then { s with ret := -22 } else
    { s with
      watch := s.commit pid maxevents
      ret := (s.doPoll pid maxevents).length
      fired := (s.doPoll pid maxevents).map fun fd =>
        ⟨(s.watch fd).delivered pid s.world fd, (s.watch fd).data⟩ }

/-- `epoll_ctl` -/
def ctl (op fd : ℕ) (events : BitVec 32) (data : ℕ) : State :=
  let subscribe (x : Watch) := update s.watch fd (x.subscribe pid s.world fd events data)
  match op with
  | 1 => if fd ∈ s.fds then { s with ret := -17 } else
    { s with fds := s.fds ++ [fd], watch := subscribe .blank, ret := 0 }
  | 2 =>
    if fd ∈ s.fds then { s with fds := s.fds.filter (· ≠ fd), ret := 0 } else { s with ret := -2 }
  | 3 =>
    if fd ∈ s.fds then { s with watch := subscribe (s.watch fd), ret := 0 }
      else { s with ret := -2 }
  | _ => { s with ret := -22 }

/-- The world moves on: what is up now and was not before is owed. -/
def observe (w' : World) : State :=
  { s with
    world := w'
    watch := fun fd => (s.watch fd).owe
      ((s.watch fd).level pid w' fd &&&
        ((s.watch fd).owed ||| ~~~(s.watch fd).level pid s.world fd)) 0 }

end State

/-- Nothing is watched. -/
def boot : State := ⟨.boot, [], fun _ => .blank, 0, []⟩

/-- One call. -/
def step (s : State) : Event → Option State
  | .ctl op fd events data => some (s.ctl pid op fd events data)
  | .wait maxevents => some (s.wait pid maxevents)
  | .call c => some (s.observe pid (s.world.call c))

/-- Nothing is overdue or lost. -/
def Watch.Clean (x : Watch) : Prop := x.overdue = false ∧ x.unreturned = 0#32

/-- The counter of a watch stays open and its rises do not come round, and no bit that was taken
down comes up at any other watch. -/
def Steady (w w' : World) (fd : ℕ) (x : Watch) : Prop :=
  (∀ id ∈ evfdSlot pid w fd, evfdSlot pid w' fd = some id ∧
    (w.eventfds id).inUse = true ∧ (w'.eventfds id).inUse = true ∧
      (w.eventfds id).riseSeq < 2 ^ 64 - 1) ∧
  (evfdSlot pid w fd = none → x.level pid w' fd &&& ~~~x.level pid w fd &&& x.lastReady = 0#32)

/-- There is room for all that are ready, and no bit goes down unseen. -/
def Clear (s : State) : Event → Prop
  | .ctl .. => True
  | .wait maxevents =>
    (s.fds.filter fun fd => (s.watch fd).level pid s.world fd ≠ 0#32).length ≤ maxevents
  | .call c =>
    ∀ fd ∈ s.fds, (s.watch fd).isEt → Steady pid s.world (s.world.call c) fd (s.watch fd)

instance decidableClear (s : State) (ev : Event) : Decidable (Clear pid s ev) := by
  cases ev <;> dsimp only [Clear, Steady] <;> infer_instance

/-! ## The invariant -/

/-- What is owed to a watch would be returned now. -/
structure Kept (w : World) (fd : ℕ) (x : Watch) : Prop where
  owed : ∀ i, x.owed.getLsbD i = true → (x.delivered pid w fd).getLsbD i = true
  rise : x.etRise ≤ riseSeq pid w fd

/-- What holds in every state. -/
def Inv (s : State) : Prop :=
  ∀ fd ∈ s.fds, (s.watch fd).Clean ∧ ((s.watch fd).isEt → Kept pid s.world fd (s.watch fd))

variable {pid} {w w' : World} {s s' : State} {fd : ℕ} {x : Watch}

/-! ### A call to `epoll_wait` -/

variable {m i id : ℕ} {c : Call}

lemma returned_eq (hfd : fd ∈ s.fds) (hm : Clear pid s (.wait m)) :
    s.returned pid m fd = (s.watch fd).delivered pid s.world fd := by
  have hsub : ∀ fd, (s.watch fd).level pid s.world fd = 0#32 →
      (s.watch fd).delivered pid s.world fd = 0#32 := by
    intro fd hzero
    simp [Watch.delivered, Watch.risen, hzero, flag]
  have hlen : (s.fds.filter fun fd => (s.watch fd).delivered pid s.world fd ≠ 0#32).length ≤ m := by
    refine le_trans (List.Sublist.length_le (List.monotone_filter_right _ ?_)) hm
    intro fd hne
    simpa using fun hzero => by simp [hsub fd hzero] at hne
  rw [State.returned, State.doPoll, List.take_of_length_le hlen]
  by_cases hzero : (s.watch fd).delivered pid s.world fd = 0#32 <;> simp [flag, hfd, hzero]

lemma Kept.recorded_eq (h : Kept pid w fd x) (het : x.isEt) :
    x.recorded pid w fd = x.delivered pid w fd := by
  have hrise := h.rise
  cases hslot : evfdSlot pid w fd <;> simp_all
    [Watch.recorded, Watch.delivered, Watch.risen, riseSeq, flag]

lemma Kept.owed_eq_zero (h : Kept pid w fd x) : x.owed &&& ~~~x.delivered pid w fd = 0#32 := by
  apply BitVec.eq_of_getLsbD_eq
  intro i hi
  simpa [hi] using h.owed i

lemma wait_inv (h : Inv pid s) (hm : Clear pid s (.wait m)) : Inv pid (s.wait pid m) := by
  unfold State.wait
  split
  · exact h
  intro fd (hfd : fd ∈ s.fds)
  obtain ⟨hclean, hkept⟩ := h fd hfd
  simp only [State.commit]
  by_cases het : (s.watch fd).isEt
  · have howed := (hkept het).owed_eq_zero
    rw [if_pos ⟨hfd, het⟩, returned_eq hfd hm, Watch.account, (hkept het).recorded_eq het, howed]
    constructor
    · simpa [Watch.Clean, Watch.commitEdges, Watch.owe] using hclean
    · intro _
      constructor <;> simp [Watch.owe, Watch.commitEdges]
  · simpa [het] using hclean

/-! ### The other calls -/

lemma getLsbD_delivered (het : x.isEt) : (x.delivered pid w fd).getLsbD i ↔
    (x.level pid w fd).getLsbD i ∧ x.lastReady.getLsbD i = false ∨
      (evfdSlot pid w fd).isSome ∧ x.risen pid w fd ∧ epollIn.getLsbD i := by
  rw [Watch.delivered, if_pos het, flag]
  split <;> simp_all <;> grind

variable {data : ℕ} {events : BitVec 32}

lemma Inv.subscribe (h : Inv pid s) (hx : x.Clean) (hworld : s'.world = s.world)
    (hwatch : s'.watch = update s.watch fd (x.subscribe pid s.world fd events data))
    (hfds : ∀ fd' ∈ s'.fds, fd' ≠ fd → fd' ∈ s.fds) : Inv pid s' := by
  intro fd' hfd'
  rw [hworld, hwatch]
  by_cases hne : fd' = fd
  · subst hne
    rw [update_self]
    -- a watch that was just made is owed what is up, and nothing was taken down
    refine ⟨hx, fun het => ⟨fun _ hi => (getLsbD_delivered het).mpr (.inl ⟨hi, ?_⟩), Nat.zero_le _⟩⟩
    simp [Watch.subscribe]
  · rw [update_of_ne hne]
    exact h fd' (hfds fd' hfd' hne)

lemma ctl_inv {op : ℕ} (h : Inv pid s) : Inv pid (s.ctl pid op fd events data) := by
  unfold State.ctl
  split <;> try split
  · exact h
  · exact h.subscribe (by simp [Watch.Clean, Watch.blank]) rfl rfl (by simp; tauto)
  · exact fun fd' hfd' => h fd' (List.mem_filter.mp hfd').1
  · exact h
  · next hfd => exact h.subscribe (h fd hfd).1 rfl rfl fun _ hfd' _ => hfd'
  · exact h
  · exact h

lemma getLsbD_level (h : evfdSlot pid w fd = some id) : (x.level pid w fd).getLsbD i =
    ((w.eventfds id).isReadable && x.events.getLsbD i && epollIn.getLsbD i) := by
  have hready : epollPollEvents pid w fd = flag (w.eventfds id).isReadable epollIn := by
    unfold evfdSlot at h
    unfold epollPollEvents
    split at h <;> simp_all
  have hother : epollIn &&& (epollErr ||| epollHup) = 0#32 := by decide
  cases hr : (w.eventfds id).isReadable <;> simp [Watch.level, hready, flag, hr, hother]

/-- The watch of a counter that stays open: when the bit comes up again the rises have moved on. -/
lemma Kept.of_eventfd (h : Kept pid w fd x) (het : x.isEt)
    (hfollows : (w.eventfds id).Follows (w'.eventfds id)) (hslot : evfdSlot pid w fd = some id)
    (hslot' : evfdSlot pid w' fd = some id) (huse : (w.eventfds id).inUse)
    (huse' : (w'.eventfds id).inUse) :
    Kept pid w' fd (x.owe (x.level pid w' fd &&& (x.owed ||| ~~~x.level pid w fd)) 0) := by
  have hrise := h.rise
  obtain ⟨hle, hlt⟩ := hfollows
  simp only [riseSeq, hslot, huse, if_true] at hrise
  have hrise' : riseSeq pid w' fd = (w'.eventfds id).riseSeq := by simp [riseSeq, hslot', huse']
  refine ⟨fun i hi => (getLsbD_delivered het).mpr ?_, hrise' ▸ hrise.trans hle⟩
  obtain ⟨hup, howed⟩ : (x.level pid w' fd).getLsbD i ∧
      (x.owed.getLsbD i ∨ (x.level pid w fd).getLsbD i = false) := by
    simp [Watch.owe] at hi
    tauto
  by_cases hlast : x.lastReady.getLsbD i = false
  · exact .inl ⟨hup, hlast⟩
  have hbits := hup
  rw [getLsbD_level hslot'] at hbits
  have hmoved : x.etRise < (w'.eventfds id).riseSeq := by
    rcases howed with howed | hdown
    · -- it was owed before, so the rises had moved on then
      have hrisen := (getLsbD_delivered het).mp (h.owed i howed)
      simp [hlast, Watch.risen, riseSeq, hslot, huse] at hrisen
      omega
    · rw [getLsbD_level hslot] at hdown
      exact lt_of_le_of_lt hrise (hlt (by grind) (by grind))
  have hin : epollIn.getLsbD i := by grind
  refine .inr ⟨by simp [hslot'], decide_eq_true ⟨hrise' ▸ hmoved.ne', fun hzero => ?_⟩, hin⟩
  have hbit := congrArg (·.getLsbD i) hzero
  rw [BitVec.getLsbD_and, hin, Bool.and_true, BitVec.getLsbD_zero] at hbit
  exact Bool.false_ne_true (hbit.symm.trans hup)

lemma Kept.of_other (h : Kept pid w fd x) (het : x.isEt) (hslot : evfdSlot pid w fd = none)
    (hquiet : x.level pid w' fd &&& ~~~x.level pid w fd &&& x.lastReady = 0#32) :
    Kept pid w' fd (x.owe (x.level pid w' fd &&& (x.owed ||| ~~~x.level pid w fd)) 0) := by
  have hrise := h.rise
  simp only [riseSeq, hslot] at hrise
  refine ⟨fun i hi => (getLsbD_delivered het).mpr (.inl ?_), le_trans hrise (Nat.zero_le _)⟩
  have hquiet := congrArg (·.getLsbD i) hquiet
  have howed := fun hi => (getLsbD_delivered het).mp (h.owed i hi)
  simp [Watch.owe, hslot] at hi howed hquiet
  grind

lemma observe_inv (h : Inv pid s) (hok : Clear pid s (.call c)) :
    Inv pid (s.observe pid (s.world.call c)) := by
  intro fd hfd
  obtain ⟨hclean, hkept⟩ := h fd hfd
  refine ⟨hclean, fun het => ?_⟩
  obtain ⟨hevent, hother⟩ := hok fd hfd het
  cases hslot : evfdSlot pid s.world fd with
  | none => exact (hkept het).of_other het hslot (hother hslot)
  | some id =>
    obtain ⟨hslot', huse, huse', hseq⟩ := hevent id hslot
    exact (hkept het).of_eventfd het (follows_of_call huse huse' hseq) hslot hslot' huse huse'

theorem step_inv {ev : Event} (h : Inv pid s) (hok : Clear pid s ev)
    (hs : step pid s ev = some s') : Inv pid s' := by
  rcases ev with ⟨op, fd, events, data⟩ | m | c
  · cases hs
    exact ctl_inv h
  · cases hs
    exact wait_inv h hok
  · cases hs
    exact observe_inv h hok

/-- The counter goes up. -/
def post (id : ℕ) : Event := .call (.onEventfd id (.write 1))

end Astryx.Epoll
