import Astryx.Lib.Rows
import Astryx.Lib.Transition

/-!
# Frames in quarantine

A frame whose shootdown was not acknowledged in time may still be reached through a stale
translation. `quarantine_free` keeps it in a ring together with the tick count at that moment, and
the timer interrupt of each CPU, `on_cpu_tick`, frees the frames that have waited for long enough.
It first drops the whole TLB of its CPU, then records its tick, takes the least tick recorded by any
CPU, and frees what was put into the ring at an earlier one. A CPU that recorded a later tick read
it after the frame was passed in, and flushed after it read it, so nothing stale is left.

The steps are the single accesses to shared memory; a section under the lock of the ring is its
change of the ring followed by the store of the depth, which is read without the lock. The tick
count is set to any later value at any time. The deferred flush requests that `on_cpu_tick` also
clears are not modelled here.
-/

namespace Astryx.Quarantine

open Function List Option Transition

/-- `MAX_CPUS` -/
def maxCpus : ℕ := 16

/-- The largest `u64`. -/
def u64Max : ℕ := 2 ^ 64 - 1

/-- `QUARANTINE_CAPACITY` -/
def capacity : ℕ := 256

/-- A frame in the ring. -/
structure QuarantineEntry where
  phys : ℕ
  enqueueTick : ℕ
  /-- The call that put it there. -/
  call : ℕ
  deriving DecidableEq

/-- Where a call of `quarantine_free` is. -/
inductive CallPc
  | entered
  /-- It has read the tick count. -/
  | loaded (tick : ℕ)
  /-- It has put the frame into the ring and still holds the lock. -/
  | pushed
  /-- It has found the ring full. -/
  | full
  | returned
  deriving DecidableEq

/-- The call has read the tick. -/
def CallPc.isLoaded : CallPc → Bool
  | loaded _ => true
  | _ => false

/-- A call of `quarantine_free`. -/
structure Call where
  phys : ℕ
  pc : CallPc
  /-- The CPUs that have flushed their TLB since the call was entered. -/
  flushed : ℕ → Bool

/-- Where a CPU is in its timer interrupt. -/
inductive TickPc
  | idle
  /-- It has read the tick count and is about to flush. -/
  | flush (tick : ℕ)
  | stamp (tick : ℕ)
  | checkDepth
  /-- The least tick of the CPUs before the given one. -/
  | scan (next minTick : ℕ)
  | drain (minTick : ℕ)
  /-- It has taken the frames out of the ring and still holds the lock. -/
  | drained (toFree : List QuarantineEntry)
  | free (toFree : List QuarantineEntry)

/-- The ring, the ticks of the CPUs and the calls. -/
structure State where
  tickCount : ℕ
  ring : List QuarantineEntry
  /-- `STAT_QUARANTINE_DEPTH` -/
  depth : ℕ
  locked : Bool
  /-- `CPU_LAST_TICK` -/
  lastTick : ℕ → ℕ
  pc : ℕ → TickPc
  calls : ℕ → Option Call
  nextCall : ℕ
  /-- The frames handed to `pmm::free_page`. -/
  freed : List QuarantineEntry

/-- Nothing is in quarantine. -/
def boot : State := ⟨0, [], 0, false, fun _ => 0, fun _ => .idle, fun _ => none, 0, []⟩

/-- The number of CPUs that `on_cpu_tick` looks at. -/
def ncpus (cpuCount : ℕ) : ℕ := max (min cpuCount maxCpus) 1

/-- The clock, a call, or a CPU. -/
inductive Event
  | clock (tick : ℕ)
  | enter (phys : ℕ)
  | call (id : ℕ)
  | interrupt (cpu : ℕ)
  | cpu (cpu : ℕ)
  deriving DecidableEq

/-- A CPU goes on. -/
def State.setPc (s : State) (cpu : ℕ) (pc : TickPc) : State := { s with pc := update s.pc cpu pc }

/-- A call goes on. -/
def State.setCall (s : State) (id : ℕ) (c : Call) : State :=
  { s with calls := update s.calls id (some c) }

/-- One access of `quarantine_free`. -/
def callStep (s : State) (id : ℕ) (c : Call) : Option State :=
  match c.pc with
  | .entered => some (s.setCall id { c with pc := .loaded s.tickCount })
  | .loaded tick =>
    if s.locked then none
    else if s.ring.length < capacity then
      some ({ s with ring := s.ring ++ [QuarantineEntry.mk c.phys tick id], locked := true }.setCall
        id { c with pc := .pushed })
    else some (s.setCall id { c with pc := .full })
  | .pushed =>
    some ({ s with depth := s.ring.length, locked := false }.setCall id { c with pc := .returned })
  | .full =>
    some ({ s with freed := s.freed ++ [QuarantineEntry.mk c.phys s.tickCount id] }.setCall id
      { c with pc := .returned })
  | .returned => none

/-- A CPU has flushed its TLB since. -/
def Call.flush (cpu : ℕ) (c : Call) : Call := { c with flushed := update c.flushed cpu true }

/-- The next step of `on_cpu_tick` on a CPU. -/
def tickStep (cpuCount : ℕ) (s : State) (cpu : ℕ) : Option State :=
  match s.pc cpu with
  | .idle => none
  | .flush tick =>
    some ({ s with calls := fun id => (s.calls id).map (Call.flush cpu) }.setPc cpu (.stamp tick))
  | .stamp tick => some ({ s with lastTick := update s.lastTick cpu tick }.setPc cpu .checkDepth)
  | .checkDepth => some (s.setPc cpu (if s.depth = 0 then .idle else .scan 0 u64Max))
  | .scan next minTick =>
    if next < ncpus cpuCount then
      some (s.setPc cpu
        (.scan (next + 1) (if s.lastTick next < minTick then s.lastTick next else minTick)))
    else some (s.setPc cpu (.drain minTick))
  | .drain minTick =>
    if s.locked then none
    else if s.ring = [] then some (s.setPc cpu .idle)
    else
      some ({ s with
        ring := s.ring.filter fun e => !(e.enqueueTick < minTick), locked := true }.setPc cpu
        (.drained (s.ring.filter fun e => e.enqueueTick < minTick)))
  | .drained toFree =>
    some ({ s with depth := s.ring.length, locked := false }.setPc cpu (.free toFree))
  | .free [] => some (s.setPc cpu .idle)
  | .free (e :: toFree) => some ({ s with freed := s.freed ++ [e] }.setPc cpu (.free toFree))

/-- One event. -/
def step (cpuCount : ℕ) (s : State) : Event → Option State
  | .clock tick => if s.tickCount ≤ tick then some { s with tickCount := tick } else none
  | .enter phys =>
    some ({ s with nextCall := s.nextCall + 1 }.setCall s.nextCall
      ⟨phys, if phys = 0 then .returned else .entered, fun _ => false⟩)
  | .call id => (s.calls id).bind (callStep s id)
  | .interrupt cpu =>
    match s.pc cpu with
    | .idle => if cpu < cpuCount then some (s.setPc cpu (.flush s.tickCount)) else none
    | _ => none
  | .cpu cpu => if cpu < cpuCount then tickStep cpuCount s cpu else none

/-- A call that has read the tick finds room. -/
def HasRoom (s : State) : Event → Prop
  | .call id => ∀ c ∈ s.calls id, c.pc.isLoaded → s.ring.length < capacity
  | _ => True

instance instDecidableHasRoom (s : State) (e : Event) : Decidable (HasRoom s e) := by
  cases e <;> dsimp only [HasRoom] <;> infer_instance

/-! ## What quarantine is for -/

/-- The frames that a CPU has taken out of the ring and is about to free. -/
def TickPc.toFree : TickPc → List QuarantineEntry
  | drained toFree => toFree
  | free toFree => toFree
  | _ => []

/-- How often the frame of a call is in the ring, about to be freed by some CPU, or freed. -/
def State.places (cpuCount : ℕ) (s : State) (call : ℕ) : ℕ :=
  s.ring.countP (·.call = call) +
    ∑ cpu ∈ Finset.range cpuCount, (s.pc cpu).toFree.countP (·.call = call) +
    s.freed.countP (·.call = call)

/-- Each frame that a call has put into the ring is in one place: in the ring, about to be freed by
one CPU, or freed. None is freed twice, and when one is about to be freed every CPU has flushed
since the call was entered. -/
structure Quarantined (cpuCount : ℕ) (s : State) : Prop where
  once : ∀ call, s.freed.countP (·.call = call) ≤ 1
  kept : ∀ call c, s.calls call = some c → c.phys ≠ 0 → c.pc = .pushed ∨ c.pc = .returned →
    s.places cpuCount call = 1
  flushed : ∀ cpu < cpuCount,
    ∀ e ∈ (s.pc cpu).toFree, ∃ c, s.calls e.call = some c ∧ c.phys = e.phys ∧
    ∀ i < cpuCount, c.flushed i = true

/-! ## Who has flushed since -/

/-- What the place of a CPU in its interrupt says about the CPUs `F` that have flushed since a call
that read tick `t`: a CPU about to record a later tick has flushed, and if the least tick found so
far is later then so have the CPUs that have been looked at. -/
def Promise (cpuCount : ℕ) (F : ℕ → Bool) (t cpu : ℕ) : TickPc → Prop
  | .stamp tick => t < tick → F cpu = true
  | .scan next minTick => t < minTick → ∀ i < next, F i = true
  | .drain minTick => t < minTick → ∀ i < ncpus cpuCount, F i = true
  | _ => True

/-- The CPUs that have seen a later tick than a call have flushed since it was entered. -/
structure Since (cpuCount : ℕ) (s : State) (F : ℕ → Bool) (t : ℕ) : Prop where
  le : t ≤ s.tickCount
  stamps : ∀ i, t < s.lastTick i → F i = true
  promises : ∀ cpu, Promise cpuCount F t cpu (s.pc cpu)

/-- No tick in use is ahead of the clock. -/
def Known (s : State) : TickPc → Prop
  | .flush tick => tick ≤ s.tickCount
  | .stamp tick => tick ≤ s.tickCount
  | .scan next minTick => 0 < next → minTick ≤ s.tickCount
  | .drain minTick => minTick ≤ s.tickCount
  | _ => True

variable {cpuCount cpu id t : ℕ} {s s' : State} {F : ℕ → Bool} {c : Call} {pc : TickPc}

lemma Promise.mono {F' : ℕ → Bool} (h : Promise cpuCount F t cpu pc) (hF : ∀ i, F i → F' i) :
    Promise cpuCount F' t cpu pc := by
  cases pc with
  | stamp tick => exact fun ht => hF cpu (h ht)
  | scan next minTick | drain minTick => exact fun ht i hi => hF i (h ht i hi)
  | _ => exact trivial

lemma Since.setPc (h : Since cpuCount s F t) (hp : Promise cpuCount F t cpu pc) :
    Since cpuCount (s.setPc cpu pc) F t where
  le := h.le
  stamps := h.stamps
  promises := (forall_update_iff s.pc (Promise cpuCount F t)).mpr ⟨hp, fun k _ => h.promises k⟩

/-! ## The invariant -/

/-- An entry belongs to a call for its frame, of which the CPUs that have flushed since are as
given. -/
def Owned (calls : ℕ → Option Call) (e : QuarantineEntry) (P : (ℕ → Bool) → Prop) : Prop :=
  ∃ c, calls e.call = some c ∧ c.phys = e.phys ∧ P c.flushed

/-- What holds in every state. -/
structure Inv (cpuCount : ℕ) (s : State) : Prop where
  fresh : ∀ id, s.nextCall ≤ id → s.calls id = none
  room : ∀ id c, s.calls id = some c → c.pc ≠ .full
  frames : ∀ id c, s.calls id = some c → c.pc ≠ .returned → c.phys ≠ 0
  last : ∀ i, s.lastTick i ≤ s.tickCount
  known : ∀ cpu, Known s (s.pc cpu)
  loaded : ∀ id c, s.calls id = some c → ∀ t, c.pc = .loaded t → Since cpuCount s c.flushed t
  ring : ∀ e ∈ s.ring, Owned s.calls e fun F => Since cpuCount s F e.enqueueTick
  taken : ∀ cpu, ∀ e ∈ (s.pc cpu).toFree, Owned s.calls e fun F => ∀ i < ncpus cpuCount, F i = true

lemma boot_inv (cpuCount : ℕ) : Inv cpuCount boot where
  fresh := fun _ _ => rfl
  room := by rintro id c ⟨⟩
  frames := by rintro id c ⟨⟩
  last := fun _ => le_rfl
  known := fun _ => trivial
  loaded := by rintro - - ⟨⟩
  ring := nofun
  taken := by rintro - - ⟨⟩

section Calls

variable {e : QuarantineEntry} {P Q : (ℕ → Bool) → Prop} {calls : ℕ → Option Call}

lemma Owned.mono (h : Owned calls e P) (hPQ : ∀ F, P F → Q F) : Owned calls e Q := by
  obtain ⟨c, hc, hphys, hP⟩ := h
  exact ⟨c, hc, hphys, hPQ _ hP⟩

lemma Owned.setCall {pc : CallPc} (h : Owned calls e P) (hc : calls id = some c) :
    Owned (update calls id (some { c with pc := pc })) e P := by
  obtain ⟨k, hk, hphys, hP⟩ := h
  by_cases hid : e.call = id
  · rw [hid, hc] at hk
    cases hk
    exact ⟨{ c with pc := pc }, by simp [hid], hphys, hP⟩
  · exact ⟨k, by simp [hid, hk], hphys, hP⟩

lemma Owned.flush (h : Owned calls e P) (hPQ : ∀ F, P F → Q (update F cpu true)) :
    Owned (fun id => (calls id).map (Call.flush cpu)) e Q := by
  obtain ⟨c, hc, hphys, hP⟩ := h
  exact ⟨c.flush cpu, by simp [hc], hphys, hPQ _ hP⟩

end Calls

section

variable (h : Inv cpuCount s)

include h

lemma Inv.setCall {pc : CallPc} (hc : s.calls id = some c) (hpc : c.pc ≠ .returned)
    (hfull : pc ≠ .full) (hload : ∀ t, pc = .loaded t → Since cpuCount s c.flushed t) :
    Inv cpuCount (s.setCall id { c with pc := pc }) where
  fresh := by
    intro k hk
    have hne : k ≠ id := by
      rintro rfl
      rw [h.fresh k hk] at hc
      cases hc
    show update s.calls id _ k = none
    rw [update_of_ne hne]
    exact h.fresh k hk
  room := by
    intro k d hd
    rcases eq_some_of_update hd with ⟨-, rfl⟩ | ⟨-, hk⟩
    · exact hfull
    · exact h.room k d hk
  frames := by
    intro k d hd hret
    rcases eq_some_of_update hd with ⟨-, rfl⟩ | ⟨-, hk⟩
    · exact h.frames id c hc hpc
    · exact h.frames k d hk hret
  last := h.last
  known := h.known
  loaded := by
    intro k d hd t ht
    have hs : Since cpuCount s d.flushed t := by
      rcases eq_some_of_update hd with ⟨-, rfl⟩ | ⟨-, hk⟩
      · exact hload t ht
      · exact h.loaded k d hk t ht
    exact ⟨hs.le, hs.stamps, hs.promises⟩
  ring := fun e he => ((h.ring e he).setCall hc).mono fun _ hF => ⟨hF.le, hF.stamps, hF.promises⟩
  taken := fun cpu e he => (h.taken cpu e he).setCall hc

/-- The ring, its lock and its depth change, and frames are freed; the entries still belong to
calls. -/
lemma Inv.setRing (ring : List QuarantineEntry)
    (hring : ∀ e ∈ ring, Owned s.calls e fun F => Since cpuCount s F e.enqueueTick) (depth : ℕ)
    (locked : Bool) (freed : List QuarantineEntry) :
    Inv cpuCount { s with ring := ring, depth := depth, locked := locked, freed := freed } where
  fresh := h.fresh
  room := h.room
  frames := h.frames
  last := h.last
  known := h.known
  loaded := fun k d hd t ht =>
    have hs := h.loaded k d hd t ht
    ⟨hs.le, hs.stamps, hs.promises⟩
  ring := fun e he => (hring e he).mono fun _ hF => ⟨hF.le, hF.stamps, hF.promises⟩
  taken := h.taken

lemma Inv.setPc (hknown : Known s pc)
    (hpromise : ∀ k d t, s.calls k = some d → Since cpuCount s d.flushed t →
      Promise cpuCount d.flushed t cpu pc)
    (htaken : ∀ e ∈ pc.toFree, Owned s.calls e fun F => ∀ i < ncpus cpuCount, F i) :
    Inv cpuCount (s.setPc cpu pc) where
  fresh := h.fresh
  room := h.room
  frames := h.frames
  last := h.last
  known := (forall_update_iff s.pc fun _ => Known s).mpr ⟨hknown, fun k _ => h.known k⟩
  loaded := fun k d hd t ht =>
    have hs := h.loaded k d hd t ht
    hs.setPc (hpromise k d t hd hs)
  ring := by
    intro e he
    obtain ⟨d, hd, hphys, hs⟩ := h.ring e he
    exact ⟨d, hd, hphys, hs.setPc (hpromise _ d _ hd hs)⟩
  taken := (forall_update_iff s.pc fun _ pc =>
    ∀ e ∈ pc.toFree, Owned s.calls e fun F => ∀ i < ncpus cpuCount, F i).mpr
    ⟨htaken, fun k _ => h.taken k⟩

lemma Inv.enter (phys : ℕ) : Inv cpuCount ({ s with nextCall := s.nextCall + 1 }.setCall s.nextCall
      ⟨phys, if phys = 0 then .returned else .entered, fun _ => false⟩) := by
  have howned : ∀ {e P}, Owned s.calls e P →
      ∀ c, Owned (update s.calls s.nextCall (some c)) e P := by
    rintro e P ⟨d, hd, hrest⟩ -
    have hne : e.call ≠ s.nextCall := by
      intro heq
      rw [heq, h.fresh _ le_rfl] at hd
      cases hd
    exact ⟨d, by simp [hne, hd], hrest⟩
  refine ⟨?_, ?_, ?_, h.last, h.known, ?_, ?_, fun cpu e he => howned (h.taken cpu e he) _⟩
  · intro k hk
    replace hk : s.nextCall + 1 ≤ k := hk
    show update s.calls s.nextCall _ k = none
    rw [update_of_ne (by omega)]
    exact h.fresh k (by omega)
  · intro k d hd
    rcases eq_some_of_update hd with ⟨-, rfl⟩ | ⟨-, hk⟩
    · dsimp only
      split <;> decide
    · exact h.room k d hk
  · intro k d hd hret
    rcases eq_some_of_update hd with ⟨-, rfl⟩ | ⟨-, hk⟩
    · intro hzero
      exact hret (if_pos hzero)
    · exact h.frames k d hk hret
  · intro k d hd t ht
    rcases eq_some_of_update hd with ⟨-, rfl⟩ | ⟨-, hk⟩
    · split at ht <;> cases ht
    · have hs := h.loaded k d hk t ht
      exact ⟨hs.le, hs.stamps, hs.promises⟩
  · intro e he
    exact (howned (h.ring e he) _).mono fun _ hF => ⟨hF.le, hF.stamps, hF.promises⟩

lemma Inv.clock {tick : ℕ} (hle : s.tickCount ≤ tick) :
    Inv cpuCount { s with tickCount := tick } := by
  have hsince : ∀ F t, Since cpuCount s F t →
      Since cpuCount { s with tickCount := tick } F t := fun F t hs =>
    ⟨hs.le.trans hle, hs.stamps, hs.promises⟩
  refine ⟨h.fresh, h.room, h.frames, fun i => (h.last i).trans hle, ?_, ?_, ?_, h.taken⟩
  · intro cpu
    have hk := h.known cpu
    cases hpc : s.pc cpu with
    | flush v | stamp v | drain minTick =>
      rw [hpc] at hk
      exact hk.trans hle
    | scan next minTick =>
      rw [hpc] at hk
      exact fun hpos => le_trans (hk hpos) hle
    | _ => exact trivial
  · exact fun id c hc t ht => hsince _ t (h.loaded id c hc t ht)
  · exact fun e he => (h.ring e he).mono fun F => hsince F _

end

lemma Since.flush (h : Since cpuCount s F t) (calls : ℕ → Option Call) (cpu : ℕ) :
    Since cpuCount { s with calls := calls } (update F cpu true) t := by
  have hF : ∀ i, F i → update F cpu true i := by
    intro i hi
    rw [update_apply, hi, ite_self]
  exact ⟨h.le, fun i hi => hF i (h.stamps i hi), fun k => (h.promises k).mono hF⟩

section

variable (h : Inv cpuCount s)

include h

lemma Inv.flush (cpu : ℕ) :
    Inv cpuCount { s with calls := fun id => (s.calls id).map (Call.flush cpu) } := by
  refine ⟨?_, ?_, ?_, h.last, h.known, ?_, ?_, ?_⟩
  · intro k hk
    show (s.calls k).map _ = none
    rw [h.fresh k hk]
    rfl
  · intro k d hd
    obtain ⟨c, hc, rfl⟩ := map_eq_some_iff.mp hd
    exact h.room k c hc
  · intro k d hd
    obtain ⟨c, hc, rfl⟩ := map_eq_some_iff.mp hd
    exact h.frames k c hc
  · intro k d hd t ht
    obtain ⟨c, hc, rfl⟩ := map_eq_some_iff.mp hd
    exact (h.loaded k c hc t ht).flush _ cpu
  · intro e he
    exact (h.ring e he).flush fun F hF => hF.flush _ cpu
  intro k e he
  refine (h.taken k e he).flush fun F hF i hi => ?_
  rw [update_apply, hF i hi, ite_self]

/-- A CPU records the tick it has read before it flushed. -/
lemma Inv.stamp {tick : ℕ} (hpc : s.pc cpu = .stamp tick) :
    Inv cpuCount { s with lastTick := update s.lastTick cpu tick } := by
  have hknown := h.known cpu
  rw [hpc] at hknown
  have hsince : ∀ F t, Since cpuCount s F t →
      Since cpuCount { s with lastTick := update s.lastTick cpu tick } F t := by
    intro F t hs
    have hp := hs.promises cpu
    rw [hpc] at hp
    have hstamps := (forall_update_iff s.lastTick fun i tick => t < tick → F i).mpr
      ⟨hp, fun i _ => hs.stamps i⟩
    exact ⟨hs.le, hstamps, hs.promises⟩
  refine ⟨h.fresh, h.room, h.frames, ?_, h.known, ?_, ?_, h.taken⟩
  · exact (forall_update_iff s.lastTick fun _ tick => tick ≤ s.tickCount).mpr
      ⟨hknown, fun i _ => h.last i⟩
  · exact fun id c hc t ht => hsince _ t (h.loaded id c hc t ht)
  · exact fun e he => (h.ring e he).mono fun F => hsince F _

end

/-! ## Where each frame is -/

/-- The call has handed its frame over. -/
def handed : Option Call → ℕ
  | some c => if c.phys ≠ 0 ∧ (c.pc = .pushed ∨ c.pc = .returned) then 1 else 0
  | none => 0

/-- The frame of each call is in one place once it has been put into the ring. -/
def Counted (cpuCount : ℕ) (s : State) : Prop := ∀ id, s.places cpuCount id = handed (s.calls id)

lemma boot_counted (cpuCount : ℕ) : Counted cpuCount boot := by
  intro id
  simp [State.places, boot, TickPc.toFree, handed]

lemma Counted.setCall (h : Counted cpuCount s) {c' : Call}
    (hc : handed (some c') = handed (s.calls id)) : Counted cpuCount (s.setCall id c') :=
  (forall_update_iff s.calls fun k c => s.places cpuCount k = handed c).mpr
    ⟨(h id).trans hc.symm, fun k _ => h k⟩

lemma Counted.move (h : Counted cpuCount s) (hcpu : cpu < cpuCount)
    {ring freed : List QuarantineEntry}
    (hmove : ∀ p : QuarantineEntry → Bool, ring.countP p + pc.toFree.countP p + freed.countP p =
      s.ring.countP p + (s.pc cpu).toFree.countP p + s.freed.countP p) (depth : ℕ) (locked : Bool) :
    Counted cpuCount
      ({ s with ring := ring, depth := depth, locked := locked, freed := freed }.setPc cpu pc) := by
  intro id
  have hsum := Rows.sum_update (fun _ q => q.toFree.countP (·.call = id)) s.pc hcpu pc
  have hid := h id
  have hm := hmove (·.call = id)
  show ring.countP _ +
    ∑ k ∈ Finset.range cpuCount, (update s.pc cpu pc k).toFree.countP _ + freed.countP _ =
    handed (s.calls id)
  rw [State.places] at hid
  omega

lemma places_push (cpuCount : ℕ) (s : State) (e : QuarantineEntry) (id : ℕ) (c : Call) (k : ℕ) :
    ({ s with ring := s.ring ++ [e], locked := true }.setCall id c).places cpuCount k =
      s.places cpuCount k + if e.call = k then 1 else 0 := by
  show (s.ring ++ [e]).countP _ +
    ∑ cpu ∈ Finset.range cpuCount, (s.pc cpu).toFree.countP _ + s.freed.countP _ = _
  rw [State.places, countP_append, countP_singleton]
  simp only [decide_eq_true_eq]
  omega

lemma countP_filter_add_filter_not (p q : QuarantineEntry → Bool) (l : List QuarantineEntry) :
    (l.filter fun e => !q e).countP p + (l.filter q).countP p = l.countP p := by
  rw [Nat.add_comm, ← countP_append, (filter_append_perm q l).countP_eq]

/-! ## Steps -/

section

variable (h : Inv cpuCount s) (hcount : Counted cpuCount s)

include h hcount

lemma callStep_inv (hc : s.calls id = some c) (hok : HasRoom s (.call id))
    (hs : callStep s id c = some s') : Inv cpuCount s' ∧ Counted cpuCount s' := by
  rw [callStep] at hs
  cases hpc : c.pc with
  | entered =>
    rw [hpc] at hs
    cases hs
    refine ⟨h.setCall hc (by rw [hpc]; nofun) nofun ?_, hcount.setCall ?_⟩
    · -- no CPU has seen a later tick count
      rintro - ⟨⟩
      refine ⟨le_rfl, fun i hi => absurd hi (not_lt.mpr (h.last i)), fun cpu => ?_⟩
      have hk := h.known cpu
      cases hcpu : s.pc cpu with
      | stamp tick | drain minTick =>
        rw [hcpu] at hk
        exact fun ht => absurd ht (not_lt.mpr hk)
      | scan next minTick =>
        rw [hcpu] at hk
        exact fun ht i hi => absurd ht (not_lt.mpr (hk (by omega)))
      | _ => exact trivial
    · simp [hc, handed, hpc]
  | loaded tick =>
    rw [hpc] at hs
    dsimp only at hs
    split at hs
    · cases hs
    rw [if_pos (hok c hc (by rw [hpc]; rfl))] at hs
    cases hs
    constructor
    · have hring := h.setRing (s.ring ++ [⟨c.phys, tick, id⟩]) (forall_mem_append.mpr ⟨h.ring,
        forall_mem_singleton.mpr ⟨c, hc, rfl, h.loaded id c hc tick hpc⟩⟩) s.depth true s.freed
      exact hring.setCall hc (by rw [hpc]; nofun) nofun nofun
    have hphys : c.phys ≠ 0 := h.frames id c hc (by rw [hpc]; nofun)
    intro k
    rw [places_push, hcount k]
    show _ = handed (update s.calls id _ k)
    by_cases hkid : k = id
    · subst hkid
      have hold : handed (s.calls k) = 0 := by simp [hc, handed, hpc]
      rw [hold, update_self, if_pos rfl]
      simp [handed, hphys]
    · rw [update_of_ne hkid, if_neg fun heq : id = k => hkid heq.symm, add_zero]
  | pushed =>
    rw [hpc] at hs
    cases hs
    refine ⟨(h.setRing s.ring h.ring s.ring.length false s.freed).setCall hc (by rw [hpc]; nofun)
      nofun nofun, ?_⟩
    refine Counted.setCall hcount ?_
    simp [hc, handed, hpc]
  | full => exact absurd hpc (h.room id c hc)
  | returned =>
    rw [hpc] at hs
    cases hs

lemma tickStep_inv (hcpu : cpu < cpuCount) (hs : tickStep cpuCount s cpu = some s') :
    Inv cpuCount s' ∧ Counted cpuCount s' := by
  have hknown := h.known cpu
  have htaken := h.taken cpu
  -- a step that leaves the ring, the frames in hand and the freed ones as they are
  have hstay : ∀ pc : TickPc, pc.toFree = (s.pc cpu).toFree →
      Counted cpuCount (s.setPc cpu pc) := fun pc hpc =>
    hcount.move hcpu (fun p => by rw [hpc]) s.depth s.locked
  rw [tickStep] at hs
  split at hs
  · cases hs
  next tick hpc =>
    rw [hpc] at hknown
    cases hs
    refine ⟨(h.flush cpu).setPc hknown ?_ nofun, fun id => ?_⟩
    · -- every call has just seen this CPU flush
      intro k d t hd _ _
      obtain ⟨c, -, rfl⟩ := map_eq_some_iff.mp hd
      exact update_self cpu true c.flushed
    refine (hstay (.stamp tick) (by rw [hpc]; rfl) id).trans ?_
    show handed (s.calls id) = handed ((s.calls id).map (Call.flush cpu))
    cases s.calls id <;> rfl
  next tick hpc =>
    cases hs
    refine ⟨(h.stamp hpc).setPc trivial (fun _ _ _ _ _ => trivial) nofun, ?_⟩
    exact hstay _ (by rw [hpc]; rfl)
  next hpc =>
    cases hs
    split
    · exact ⟨h.setPc trivial (fun _ _ _ _ _ => trivial) nofun, hstay _ (by rw [hpc]; rfl)⟩
    · exact ⟨h.setPc (fun hpos => absurd hpos (lt_irrefl 0))
        (fun _ _ _ _ _ _ i hi => absurd hi (Nat.not_lt_zero i))
        nofun, hstay _ (by rw [hpc]; rfl)⟩
  next next minTick hpc =>
    rw [hpc] at hknown
    split at hs
    · cases hs
      refine ⟨h.setPc ?_ ?_ nofun, hstay _ (by rw [hpc]; rfl)⟩
      · intro _
        split
        · exact h.last next
        next hge => exact le_trans (not_lt.mp hge) (h.last next)
      intro k d t hd hF hlt i hi
      have hp := hF.promises cpu
      rw [hpc] at hp
      rcases Nat.lt_succ_iff_lt_or_eq.mp hi with hi | rfl
      · refine hp ?_ i hi
        split at hlt <;> omega
      · refine hF.stamps i ?_
        split at hlt <;> omega
    next hnext =>
      cases hs
      refine ⟨h.setPc ?_ ?_ nofun, hstay _ (by rw [hpc]; rfl)⟩
      · have hpos : 0 < next := lt_of_lt_of_le (by rw [ncpus]; omega) (not_lt.mp hnext)
        exact hknown hpos
      intro k d t hd hF hlt i hi
      have hp := hF.promises cpu
      rw [hpc] at hp
      exact hp hlt i (lt_of_lt_of_le hi (not_lt.mp hnext))
  next minTick hpc =>
    split at hs
    · cases hs
    split at hs
    · cases hs
      exact ⟨h.setPc trivial (fun _ _ _ _ _ => trivial) nofun, hstay _ (by rw [hpc]; rfl)⟩
    cases hs
    constructor
    · have hring := h.setRing (s.ring.filter fun e => !(e.enqueueTick < minTick))
        (fun e he => h.ring e (mem_of_mem_filter he)) s.depth true s.freed
      refine hring.setPc trivial (fun _ _ _ _ _ => trivial) (fun e he => ?_)
      -- the least tick found is later than the entry's
      obtain ⟨hmem, hlt⟩ := mem_filter.mp he
      refine (h.ring e hmem).mono fun F hF => ?_
      have hp := hF.promises cpu
      rw [hpc] at hp
      exact hp (of_decide_eq_true hlt)
    refine hcount.move hcpu (fun p => ?_) s.depth true
    rw [hpc]
    have hsplit := countP_filter_add_filter_not p (fun e => decide (e.enqueueTick < minTick)) s.ring
    simp only [TickPc.toFree, countP_nil]
    omega
  next toFree hpc =>
    rw [hpc] at htaken
    cases hs
    refine ⟨(h.setRing s.ring h.ring s.ring.length false s.freed).setPc trivial
      (fun _ _ _ _ _ => trivial) htaken, ?_⟩
    exact hcount.move hcpu (fun p => by rw [hpc]; rfl) s.ring.length false
  next hpc =>
    cases hs
    exact ⟨h.setPc trivial (fun _ _ _ _ _ => trivial) nofun, hstay _ (by rw [hpc]; rfl)⟩
  next e toFree hpc =>
    rw [hpc] at htaken
    cases hs
    refine ⟨(h.setRing s.ring h.ring s.depth s.locked (s.freed ++ [e])).setPc trivial
      (fun _ _ _ _ _ => trivial)
      fun e' he' => htaken e' (mem_cons_of_mem e he'),
        hcount.move hcpu (fun p => ?_) s.depth s.locked⟩
    rw [hpc]
    simp only [TickPc.toFree, countP_append, countP_cons, countP_nil]
    omega

theorem step_inv {e : Event} (hok : HasRoom s e) (hs : step cpuCount s e = some s') :
    Inv cpuCount s' ∧ Counted cpuCount s' := by
  cases e with
  | clock tick =>
    obtain ⟨hle, rfl⟩ := of_guard hs
    exact ⟨h.clock hle, hcount⟩
  | enter phys =>
    cases hs
    refine ⟨h.enter phys, Counted.setCall hcount ?_⟩
    rw [h.fresh _ le_rfl]
    by_cases hzero : phys = 0 <;> simp [handed, hzero]
  | call id =>
    obtain ⟨c, hc, hcs⟩ := bind_eq_some_iff.mp hs
    exact callStep_inv h hcount hc hok hcs
  | interrupt cpu =>
    rw [step] at hs
    split at hs
    next hpc =>
      obtain ⟨hcpu, rfl⟩ := of_guard hs
      refine ⟨h.setPc le_rfl (fun _ _ _ _ _ => trivial) nofun, ?_⟩
      exact hcount.move hcpu (fun p => by rw [hpc]; rfl) s.depth s.locked
    · cases hs
  | cpu cpu =>
    obtain ⟨hcpu, hs⟩ := Option.ite_none_right_eq_some.mp hs
    exact tickStep_inv h hcount hcpu hs

end

lemma ncpus_eq (hpos : 0 < cpuCount) (hle : cpuCount ≤ maxCpus) : ncpus cpuCount = cpuCount := by
  rw [ncpus, min_eq_left hle]
  omega

/-- While the ring has room for the frames that are put there, none of them is lost, freed twice or
freed before every CPU has flushed. -/
theorem quarantined_of_guarded {es : List Event} (hle : cpuCount ≤ maxCpus)
    (hg : Guarded (step cpuCount) HasRoom boot es)
    (hrun : run (step cpuCount) boot es = some s) : Quarantined cpuCount s := by
  have hboth : Inv cpuCount s ∧ Counted cpuCount s :=
    run_guarded (I := fun s => Inv cpuCount s ∧ Counted cpuCount s)
      (fun _ _ _ hi hok hs => step_inv hi.1 hi.2 hok hs)
      ⟨boot_inv cpuCount, boot_counted cpuCount⟩ hg hrun
  obtain ⟨hinv, hcount⟩ := hboth
  refine ⟨fun call => ?_, fun call c hc hphys hret => ?_, fun cpu hcpu e he => ?_⟩
  · have hone : handed (s.calls call) ≤ 1 := by
      cases s.calls call with
      | none => exact Nat.zero_le 1
      | some c =>
        rw [handed]
        split <;> omega
    have hplaces := hcount call
    rw [State.places] at hplaces
    omega
  · rw [hcount call, hc]
    exact if_pos ⟨hphys, hret⟩
  obtain ⟨c, hc, hphys, hF⟩ := hinv.taken cpu e he
  rw [ncpus_eq (by omega) hle] at hF
  exact ⟨c, hc, hphys, hF⟩

/-- A frame is put into the ring at tick 0. CPU 0 flushes at tick 5, and another frame is put there.
CPU 1 flushes at tick 6 and takes the first frame out; the second has to wait for CPU 0. -/
def twoFrames : List Event :=
  [.enter 7, .call 0, .call 0, .call 0, .clock 5, .interrupt 0] ++ replicate 9 (.cpu 0) ++
    [.enter 9, .call 1, .call 1, .call 1, .clock 6, .interrupt 1] ++ replicate 7 (.cpu 1)

theorem quarantined_of_guarded_twoFrames :
    ∃ s, run (step 2) boot twoFrames = some s ∧ (s.pc 1).toFree = [⟨7, 0, 0⟩] ∧
      s.ring = [⟨9, 5, 1⟩] ∧ Quarantined 2 s := by
  have hg : Guarded (step 2) HasRoom boot twoFrames := by decide +kernel
  obtain ⟨s, hrun, htaken, hring⟩ : ∃ s, run (step 2) boot twoFrames = some s ∧
      (s.pc 1).toFree = [⟨7, 0, 0⟩] ∧ s.ring = [⟨9, 5, 1⟩] := exists_of_decide (by decide +kernel)
  exact ⟨s, hrun, htaken, hring, quarantined_of_guarded (by decide) hg hrun⟩

end Astryx.Quarantine
