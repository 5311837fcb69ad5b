import Astryx.Ke.Roll

/-!
# Waits that a signal has passed by

A wait tries its objects, inserts its blocks and marks its thread `Blocked` in three sections. A
signal between the first two finds no block, and one between the last two marks the block of a
thread that it does not find `Blocked`; both times the thread then sleeps although what it waits for
has happened. Signals that keep out of these two windows lose nothing: a signal stays on an object
only when no block is left to satisfy, and satisfies no block without waking its thread.

## Main results

* `step_alert` — threads on their way to `Blocked` have missed nothing
-/

namespace Astryx.Ke

open List Option Transition

/-- A thread is `Blocked` without a timeout although one of its blocks is satisfied or one of its
objects is signaled. -/
def Asleep (s : State) : Prop :=
  ∃ tid w, s.threads tid = .blocked w ∧ w.timeout = .infinite ∧
    ((∃ id e, s.objects id = some e ∧ ∃ b ∈ e.waitList, b.threadId = tid ∧ b.satisfied = true) ∨
      ∃ id ∈ w.request.ids, ∃ e, s.objects id = some e ∧ 0 < e.signalState)

/-- The wait of a thread that has found nothing signaled and is not `Blocked` yet. -/
def Phase.window : Phase → Option Wait
  | inserting w | blocking w => some w
  | _ => none

/-- The wait of a thread that has found nothing signaled and has not been woken since. -/
def Phase.pending : Phase → Option Wait
  | inserting w | blocking w | blocked w => some w
  | _ => none

lemma Phase.mem_targets_of_pending {p : Phase} {w : Wait} (hw : w ∈ p.pending) {id : ℕ}
    (hid : id ∈ w.request.ids) : id ∈ p.targets := by
  cases p <;> cases hw <;> exact hid

lemma Wait.of_mem_pending_next (w : Wait) {w' : Wait} (h : w' ∈ w.next.pending) :
    w' = w ∧ w.request.isAll = false := by
  rw [next] at h
  split at h
  · cases h
  split at h
  · cases h
  · next ha => exact ⟨(some.inj h).symm, by simpa using ha⟩

/-- A signal comes when no wait for the object without a timeout is between its first section and
`Blocked`. -/
def Unraced (s : State) : Event → Prop
  | .signal id _ =>
    ∀ tid < s.threadCount, ∀ w ∈ (s.threads tid).window, w.timeout = .infinite → id ∉ w.request.ids
  | _ => True

instance decidableUnraced (s : State) (ev : Event) : Decidable (Unraced s ev) := by
  induction ev using Event.casesOn <;> dsimp only [Unraced] <;> infer_instance

/-- None of the objects is signaled, and no block of the thread is satisfied. -/
structure Quiet (reg : Registry) (tid : ℕ) (ids : List ℕ) : Prop where
  unsignaled : ∀ id ∈ ids, ∀ e, reg id = some e → e.signalState ≤ 0
  unsatisfied : ∀ id e, reg id = some e → ∀ b ∈ e.waitList, b.threadId = tid → b.satisfied = false

/-- A change of an object that neither signals it nor satisfies a block of the thread. -/
def Entry.Passes (tid : ℕ) (e e' : Entry) : Prop :=
  (e.signalState ≤ 0 → e'.signalState ≤ 0) ∧
    ∀ b ∈ e'.waitList, b.threadId = tid → b.satisfied = true → b ∈ e.waitList

lemma Entry.Calm.passes {e e' : Entry} (h : e.Calm e') (tid : ℕ) :
    e.Passes tid e' := ⟨h.2, fun _ hb _ _ => h.1 ▸ hb⟩

lemma Quiet.mono {reg reg' : Registry} {tid : ℕ} {ids : List ℕ} (h : Quiet reg tid ids)
    (hreg : ∀ id e', reg' id = some e' → ∃ e, reg id = some e ∧ e.Passes tid e') :
    Quiet reg' tid ids where
  unsignaled := fun id hid e' he' => by
    obtain ⟨e, he, hp⟩ := hreg id e' he'
    exact hp.1 (h.unsignaled id hid e he)
  unsatisfied := fun id e' he' b hb ht => by
    obtain ⟨e, he, hp⟩ := hreg id e' he'
    by_contra hs
    have hs : b.satisfied := by simpa using hs
    rw [h.unsatisfied id e he b (hp.2 b hb ht hs) ht] at hs
    cases hs

/-- What holds in every state. -/
structure Alert (s : State) : Prop where
  tidy : Tidy s
  quiet : ∀ tid, ∀ w ∈ (s.threads tid).pending, w.timeout = .infinite →
    Quiet s.objects tid w.request.ids

lemma alert_boot (n : ℕ) : Alert (boot n) := ⟨tidy_boot n, nofun⟩

lemma Alert.not_asleep {s : State} (h : Alert s) : ¬ Asleep s := by
  rintro ⟨tid, w, hw, htime, hlost⟩
  have hq := h.quiet tid w (by rw [hw]; rfl) htime
  rcases hlost with ⟨id, e, he, b, hb, ht, hs⟩ | ⟨id, hid, e, he, hs⟩
  · rw [hq.unsatisfied id e he b hb ht] at hs
    cases hs
  · have := hq.unsignaled id hid e he
    omega

namespace Alert

variable {s s' : State} {tid : ℕ}

/-- One thread moves on, and no object is signaled and no block satisfied. -/
lemma move (h : Alert s) {reg : Registry} {p : Phase}
    (htidy : Tidy ({ s with objects := reg }.setThread tid p))
    (hreg : ∀ t id e', reg id = some e' → ∃ e, s.objects id = some e ∧ e.Passes t e')
    (hp : ∀ w ∈ p.pending, w.timeout = .infinite → Quiet reg tid w.request.ids) :
    Alert ({ s with objects := reg }.setThread tid p) := by
  refine ⟨htidy, fun t w hw htime => ?_⟩
  by_cases ht : t = tid
  · subst ht
    exact hp w (by simpa [State.setThread] using hw) htime
  · exact (h.quiet t w (by simpa [State.setThread, ht] using hw) htime).mono (hreg t)

lemma passes_refl (s : State) (t id : ℕ) (e : Entry) (he : s.objects id = some e) :
    ∃ e', s.objects id = some e' ∧ e'.Passes t e := ⟨e, he, (Entry.Calm.refl e).passes t⟩

section

variable (h : Alert s)

include h

lemma modify (id : ℕ) {f : Entry → Entry} (hf : ∀ e : Entry, e.Calm (f e)) :
    Alert (s.modify id f) := by
  refine ⟨h.tidy.modify id hf, fun t w hw htime => (h.quiet t w hw htime).mono fun id' e' he' => ?_⟩
  obtain ⟨e, he, hc⟩ := s.objects.calm_modify id (fun e _ => hf e) id' e' he'
  exact ⟨e, he, hc.passes t⟩

lemma tryObjects (w : Wait) {next : Phase} (htidy : Tidy (s.tryObjects tid w next))
    (hidle : (s.threads tid).enrolled = [])
    (hnext : ∀ w' ∈ next.pending, w' = w ∧ w.request.isAll = false) :
    Alert (s.tryObjects tid w next) := by
  refine h.move htidy (fun t id e' he' => ?_) fun w' hw' htime => ?_
  · obtain ⟨e, he, hc⟩ := calm_trySatisfy tid w.request s.objects id e' he'
    exact ⟨e, he, hc.passes t⟩
  split at hw'
  · cases hw'
  next hnone =>
  obtain ⟨rfl, hall⟩ := hnext w' hw'
  obtain ⟨hreg, hids⟩ := Request.trySatisfy_eq_none hall (not_isSome_iff_eq_none.mp hnone)
  rw [hreg]
  -- a thread without blocks is quiet as soon as its objects are
  refine ⟨fun id hid e he => ?_, fun id e he b hb ht => ?_⟩
  · obtain ⟨e', he', hs⟩ := hids id hid
    rw [he, Option.some.injEq] at he'
    rwa [he']
  · have hroll : e.roll tid = 0 := by simp [h.tidy.roll id e tid he, hidle]
    exact absurd (decide_eq_true ht) (countP_eq_zero.mp hroll b hb)

/-- A signal that comes to the wait list, seen by a thread that is not woken by it: no block of the
thread is satisfied in the list, and if the thread waits for the object, it was `Blocked`
already. -/
lemma unwoken {id : ℕ} {op : Signal} (hok : Unraced s (.signal id op)) {e : Entry}
    (he : s.objects id = some e) {w : Wait} (htime : w.timeout = .infinite)
    (hw : w ∈ (wakeBlockedWaiters (op.apply s.nextOp e) s.threads tid).pending) :
    w ∈ (s.threads tid).pending ∧ (id ∈ w.request.ids → s.threads tid = .blocked w) ∧
      ∀ b ∈ (op.apply s.nextOp e).waitList, b.threadId = tid → b.satisfied = false := by
  have hnotin : w ∈ (s.threads tid).window → id ∉ w.request.ids := fun hwin => by
    refine hok tid (h.tidy.started tid fun hrun => ?_) w hwin htime
    rw [hrun] at hwin
    cases hwin
  -- A thread in a window that does not wait for the object has no block in its list.
  have habsent : w ∈ (s.threads tid).window →
      ∀ b ∈ (op.apply s.nextOp e).waitList, b.threadId ≠ tid := by
    intro hwin b hb ht
    have hroll : (op.apply s.nextOp e).roll tid = 0 := by
      rw [op.roll_apply, h.tidy.roll id e tid he, count_eq_zero]
      intro hmem
      refine hnotin hwin ?_
      cases hp : s.threads tid <;> rw [hp] at hwin hmem <;> cases hwin
        <;> first | exact hmem | cases hmem
    exact absurd (decide_eq_true ht) (countP_eq_zero.mp hroll b hb)
  rw [wakeBlockedWaiters] at hw
  split at hw
  · have hwin : w ∈ (s.threads tid).window := by
      cases hp : s.threads tid <;> rw [hp] at hw <;> exact hw
    refine ⟨?_, fun hid => absurd hid (hnotin hwin), fun b hb ht => absurd ht (habsent hwin b hb)⟩
    cases hp : s.threads tid <;> rw [hp] at hwin <;> first | exact hwin | cases hwin
  next hany =>
  refine ⟨hw, fun hid => ?_, fun b hb ht => ?_⟩
  · by_contra hblocked
    refine hnotin ?_ hid
    cases hp : s.threads tid <;> rw [hp] at hw hblocked <;> cases hw <;>
      first | rfl | exact absurd rfl hblocked
  · by_contra hs
    exact hany (any_eq_true.mpr ⟨b, hb, by simpa [ht] using hs⟩)

/-- A signal wakes every thread whose block it satisfies, and stays only if there is none left. -/
lemma signal {id : ℕ} {op : Signal} (hok : Unraced s (.signal id op)) : Alert (s.signal id op) := by
  have htidy := h.tidy.signal id op
  rw [State.signal] at htidy ⊢
  cases he : s.objects id with
  | none => simpa only [he] using h
  | some e =>
    simp only [he] at htidy ⊢
    refine ⟨htidy, fun t w hw htime => ?_⟩
    cases hwakes : op.wakes e with
    | none =>
      -- The operation returns early: neither the list nor the signal changes.
      obtain ⟨hlist, hsignal⟩ := op.apply_of_wakes_none hwakes s.nextOp
      have hcalm : ∀ e', s.objects id = some e' → e'.Calm (op.apply s.nextOp e') := fun e' he' => by
        obtain rfl := some.inj (he.symm.trans he')
        exact ⟨hlist, fun hs => hsignal ▸ hs⟩
      refine (h.quiet t w (by simpa [hwakes] using hw) htime).mono fun id' e' he' => ?_
      obtain ⟨e₀, he0, hc⟩ := s.objects.calm_modify id hcalm id' e' he'
      exact ⟨e₀, he0, hc.passes t⟩
    | some n =>
      rw [hwakes] at hw
      obtain ⟨hpending, hblocked, hunsat⟩ := h.unwoken hok he htime hw
      have hq := h.quiet t w hpending htime
      constructor
      · intro id' hid' e' he'
        rcases Registry.modify_cases he he' with ⟨rfl, rfl⟩ | ⟨-, hold⟩
        · -- The thread is in the list, and its block is not satisfied.
          have hpos : 0 < (op.apply s.nextOp e).roll t := by
            rw [op.roll_apply, h.tidy.roll id' e t he, hblocked hid']
            exact count_pos_iff.mpr hid'
          obtain ⟨b, hb, ht⟩ := countP_pos_iff.mp hpos
          obtain ⟨hlist, hstate⟩ := op.apply_of_wakes hwakes s.nextOp
          have hmem := mem_unsatisfied.mpr ⟨hb, hunsat b hb (of_decide_eq_true ht)⟩
          rw [hlist, unsatisfied_satisfyFirst] at hmem
          exact hstate (Nat.lt_of_not_le fun hle => by simp [drop_eq_nil_of_le hle] at hmem)
        · exact hq.unsignaled id' hid' e' hold
      intro id' e' he' b hb ht
      rcases Registry.modify_cases he he' with ⟨-, rfl⟩ | ⟨-, hold⟩
      · exact hunsat b hb ht
      · exact hq.unsatisfied id' e' hold b hb ht

lemma create (kind : Kind) (signal : ℤ) :
    Alert { s with
      objects := Function.update s.objects s.nextId (some (Entry.new kind signal))
      nextId := s.nextId + 1 } := by
  refine ⟨h.tidy.create kind signal, fun t w hw htime => ?_⟩
  have hq := h.quiet t w hw htime
  constructor
  · intro id hid e he
    have hlt : id < s.nextId := h.tidy.named t id (Phase.mem_targets_of_pending hw hid)
    exact hq.unsignaled id hid e (by simpa [Nat.ne_of_lt hlt] using he)
  intro id e he b hb ht
  by_cases hid : id = s.nextId
  · obtain rfl : Entry.new kind signal = e := by simpa [hid] using he
    cases hb
  · exact hq.unsatisfied id e (by simpa [hid] using he) b hb ht

end

lemma passes_append {ids : List ℕ} (t id : ℕ) (e' : Entry)
    (he' : (s.objects id).map (fun e => e.append (blocksFor tid id 0 ids)) = some e') :
    ∃ e, s.objects id = some e ∧ e.Passes t e' := by
  obtain ⟨e, he, rfl⟩ := map_eq_some_iff.mp he'
  refine ⟨e, he, fun hs => hs, fun b hb ht hs => ?_⟩
  rcases mem_append.mp hb with hb | hb
  · exact hb
  · rw [(of_mem_blocksFor hb).2] at hs
    cases hs

lemma advance (h : Alert s) {expired : Bool} (hs : s.advance tid expired = some s') : Alert s' := by
  have htidy := h.tidy.advance hs
  rw [State.advance] at hs
  split at hs
  · next w hw =>
    have hidle : (s.threads tid).enrolled = [] := by rw [hw]; rfl
    cases hs
    rcases h.tidy.inserted hidle w.request.ids with ⟨hok, hreg⟩ | ⟨hfail, hreg⟩
    · rw [hok, hreg] at htidy ⊢
      refine h.move htidy passes_append fun w' hw' htime => ?_
      obtain rfl := some.inj hw'
      exact (h.quiet tid w (by rw [hw]; rfl) htime).mono (passes_append tid)
    · rw [hfail, hreg] at htidy ⊢
      exact h.move htidy (passes_refl s) (by rintro _ ⟨⟩)
  · next w hw =>
    cases hs
    refine h.move htidy (passes_refl s) fun w' hw' htime => ?_
    obtain rfl := some.inj hw'
    exact h.quiet tid w (by rw [hw]; rfl) htime
  · next w hw =>
    cases hs
    refine h.move htidy (fun t id e' he' => ?_) (by rintro _ ⟨⟩)
    obtain ⟨e, he, hcase⟩ := h.tidy.collected hw he'
    have hdrop : e.Passes t (e.dropBlocks tid) :=
      ⟨fun hs => hs, fun b hb _ _ => (mem_filter.mp hb).1⟩
    rcases hcase with ⟨-, -, rfl⟩ | ⟨-, rfl⟩
    · exact ⟨e, he, hdrop⟩
    · exact ⟨e, he, hdrop⟩
  · next w hw =>
    cases hs
    refine h.tryObjects w htidy (by rw [hw]; rfl) ?_
    split <;> rintro _ ⟨⟩
  · next w hw =>
    cases hs
    exact h.move htidy (passes_refl s) (by rintro _ ⟨⟩)
  · cases hs

end Alert

theorem step_alert {s s' : State} {ev : Event} (h : Alert s) (hok : Unraced s ev)
    (hs : step s ev = some s') : Alert s' := by
  have htidy := step_tidy h.tidy hs
  cases ev with
  | create kind signal =>
    obtain ⟨-, rfl⟩ := of_guard hs
    exact h.create kind signal
  | destroy id =>
    cases hs
    refine ⟨htidy, fun t w hw htime => (h.quiet t w hw htime).mono fun id' e' he' => ?_⟩
    by_cases hid : id' = id
    · simp [hid] at he'
    · exact Alert.passes_refl s t id' e' (by simpa [hid] using he')
  | resetEvent id =>
    cases hs
    exact h.modify id calm_resetEvent
  | acquireMutant id tid =>
    cases hs
    exact h.modify id (calm_acquireMutant tid)
  | setTimer id =>
    cases hs
    exact h.modify id calm_setTimer
  | signal id op =>
    cases hs
    exact h.signal hok
  | wait tid w =>
    obtain ⟨hw, rfl⟩ := of_guard hs
    exact h.tryObjects w htidy (by rw [hw.2]; rfl) fun w' => w.of_mem_pending_next
  | advance tid expired => exact h.advance hs
  | timeout tid =>
    simp only [step] at hs
    split at hs
    · obtain ⟨-, rfl⟩ := of_guard hs
      exact h.move htidy (Alert.passes_refl s) (by rintro _ ⟨⟩)
    · cases hs
      exact h.move htidy (Alert.passes_refl s) (by rintro _ ⟨⟩)
    · cases hs

theorem not_asleep_of_guarded {n : ℕ} {evs : List Event} {s : State}
    (hg : Guarded step Unraced (boot n) evs) (hs : run step (boot n) evs = some s) :
    ¬ Asleep s := by
  have halert : Alert s := run_guarded (fun _ _ _ => step_alert) (alert_boot n) hg hs
  exact halert.not_asleep

/-- Thread `0` waits for a new event without a timeout, up to the point where its block is
inserted. -/
def waitForEvent : List Event :=
  [.create (.event .synchronizationEvent) 0, .wait 0 ⟨.single 1, .infinite⟩, .advance 0 false]

theorem not_asleep_of_guarded_event : ∃ s,
    run step (boot 1) (waitForEvent ++ [.advance 0 false, .signal 1 .setEvent]) = some s ∧
    s.threads 0 = .woken ⟨.single 1, .infinite⟩ ∧ ¬ Asleep s := by
  have hg : Guarded step Unraced (boot 1)
      (waitForEvent ++ [.advance 0 false, .signal 1 .setEvent]) := by
    decide
  exact ⟨_, rfl, rfl, not_asleep_of_guarded hg rfl⟩

/-- The event is set after the block is inserted and before the thread is `Blocked`. -/
theorem asleep_of_signal_before_blocked : ∃ s,
    run step (boot 1) (waitForEvent ++ [.signal 1 .setEvent, .advance 0 false]) = some s ∧
    Asleep s := by
  refine ⟨_, rfl, 0, ⟨.single 1, .infinite⟩, rfl, rfl,
    .inl ⟨1, _, rfl, ⟨0, 0, true, 0⟩, ?_, rfl, rfl⟩⟩
  exact mem_cons_self

end Astryx.Ke
