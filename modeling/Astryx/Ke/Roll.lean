import Astryx.Ke.WaitLists

/-!
# Who is in which wait list

The number of blocks a thread has in the list of an object is given by where the thread is: none
while it runs, and one for each time its wait names the object from the moment the blocks are
inserted until the result is collected. With it goes that nobody waits for an object that was never
created. Every step keeps this (`step_tidy`), and with it the results of the sections that depend on
what is in the lists (`Tidy.inserted`, `Tidy.collected`).
-/

namespace Astryx.Ke

open List Option Entry Transition

/-! ### Changes that wake nobody -/

lemma Entry.roll_congr {e e' : Entry}
    (h : e'.waitList.map WaitBlock.threadId = e.waitList.map WaitBlock.threadId) (tid : ℕ) :
    e'.roll tid = e.roll tid := by
  have hroll : ∀ e : Entry, e.roll tid =
      (e.waitList.map WaitBlock.threadId).countP fun t => t = tid :=
    fun e => by rw [countP_map]; rfl
  rw [hroll, hroll, h]

/-- The wait list stays, and an object that is not signaled does not become so. -/
def Entry.Calm (e e' : Entry) : Prop :=
  e'.waitList = e.waitList ∧ (e.signalState ≤ 0 → e'.signalState ≤ 0)

lemma Entry.Calm.refl (e : Entry) : e.Calm e := ⟨rfl, id⟩

lemma Entry.Calm.trans {e e' e'' : Entry} (h : e.Calm e') (h' : e'.Calm e'') : e.Calm e'' :=
  ⟨h'.1.trans h.1, fun hs => h'.2 (h.2 hs)⟩

lemma calm_consumeSignal (tid : ℕ) (e : Entry) : e.Calm (consumeSignal tid e) := by
  rw [consumeSignal]
  split
  · exact .refl e
  · exact ⟨rfl, fun _ => Int.le_refl 0⟩
  · exact ⟨rfl, fun _ => Int.le_refl 0⟩
  · exact ⟨rfl, fun hs => by dsimp only; omega⟩
  · exact .refl e

lemma calm_iterate_consumeSignal (tid n : ℕ) (e : Entry) : e.Calm ((consumeSignal tid)^[n] e) := by
  induction n with
  | zero => exact .refl e
  | succ n ih =>
    rw [Function.iterate_succ_apply']
    exact ih.trans (calm_consumeSignal tid _)

lemma calm_resetEvent (e : Entry) : e.Calm (resetEvent e) := by
  rw [resetEvent]
  split
  · exact ⟨rfl, fun _ => Int.le_refl 0⟩
  · exact .refl e

lemma calm_setTimer (e : Entry) : e.Calm (setTimer e) := by
  rw [setTimer]
  split
  · exact ⟨rfl, fun _ => Int.le_refl 0⟩
  · exact .refl e

lemma calm_acquireMutant (tid : ℕ) (e : Entry) : e.Calm (acquireMutant tid e) := by
  rw [acquireMutant]
  split
  · exact ⟨rfl, fun _ => Int.le_refl 0⟩
  · split
    · exact ⟨rfl, id⟩
    · exact .refl e
  · exact .refl e

/-- Every object comes from a calmer change of one that was there. -/
def Registry.Calm (reg reg' : Registry) : Prop :=
  ∀ id e', reg' id = some e' → ∃ e, reg id = some e ∧ e.Calm e'

lemma Registry.Calm.refl (reg : Registry) : reg.Calm reg := fun _ e he => ⟨e, he, .refl e⟩

lemma Registry.calm_modify (reg : Registry) (id : ℕ) {f : Entry → Entry}
    (hf : ∀ e, reg id = some e → e.Calm (f e)) :
    reg.Calm (reg.modify id f) := fun _ _ => of_modify .refl hf

lemma calm_trySatisfyAll (tid : ℕ) (ids : List ℕ) (reg : Registry) :
    reg.Calm (trySatisfyAll tid ids reg).1 := by
  rw [trySatisfyAll]
  split
  · intro id e' he'
    simp only [creditAll, consumeAll_apply] at he'
    split at he'
    · rw [Option.map_map, Option.map_eq_some_iff] at he'
      obtain ⟨e, he, rfl⟩ := he'
      exact ⟨e, he, calm_iterate_consumeSignal tid _ e⟩
    · obtain ⟨e, he, rfl⟩ := Option.map_eq_some_iff.mp he'
      exact ⟨e, he, calm_iterate_consumeSignal tid _ e⟩
  · exact .refl reg

theorem calm_trySatisfy (tid : ℕ) (request : Request) (reg : Registry) :
    reg.Calm (request.trySatisfy tid reg).1 := by
  cases request with
  | single id =>
    rw [Request.trySatisfy]
    rcases trySatisfySingle_cases tid id reg
      with ⟨e, -, -, h⟩ | ⟨e, -, -, -, -, h⟩ | ⟨h, -⟩ <;> rw [h]
    · exact reg.calm_modify id fun e _ => calm_consumeSignal tid e
    · exact reg.calm_modify id fun e _ => calm_acquireMutant tid e
    · exact .refl reg
  | any ids =>
    rw [Request.trySatisfy]
    rcases trySatisfyAny_cases tid 0 ids reg with ⟨id, -, e, -, -, h, -⟩ | ⟨h, -⟩ <;> rw [h]
    · exact reg.calm_modify id fun e _ => calm_consumeSignal tid e
    · exact .refl reg
  | all ids => exact calm_trySatisfyAll tid ids reg

/-! ### The roll -/

/-- Every object comes from one that was there, with the same threads in its list. -/
def Registry.SameRoll (reg reg' : Registry) : Prop :=
  ∀ id e', reg' id = some e' → ∃ e, reg id = some e ∧ ∀ tid, e'.roll tid = e.roll tid

lemma Registry.Calm.sameRoll {reg reg' : Registry} (h : reg.Calm reg') : reg.SameRoll reg' := by
  intro id e' he'
  obtain ⟨e, he, hl, -⟩ := h id e' he'
  exact ⟨e, he, roll_congr (by rw [hl])⟩

lemma Signal.roll_apply (op : Signal) (k : ℕ) (e : Entry) (tid : ℕ) :
    (op.apply k e).roll tid = e.roll tid := by
  refine roll_congr ?_ tid
  cases h : op.wakes e with
  | none => rw [(apply_of_wakes_none h k).1]
  | some n => rw [(apply_of_wakes h k).1, map_threadId_satisfyFirst]

lemma Entry.roll_append (e : Entry) (tid : ℕ) {l : List WaitBlock} {t : ℕ}
    (hl : ∀ b ∈ l, b.threadId = t) :
    (e.append l).roll tid = e.roll tid + if tid = t then l.length else 0 := by
  rw [roll, append, countP_append, ← roll]
  congr 1
  split
  · next h => exact countP_eq_length.mpr fun b hb => by simp [h, hl b hb]
  · next h => exact countP_eq_zero.mpr fun b hb => by simpa [hl b hb] using Ne.symm h

lemma Entry.roll_dropBlocks (e : Entry) (t tid : ℕ) :
    (e.dropBlocks t).roll tid = if tid = t then 0 else e.roll tid := by
  rw [roll, dropBlocks, countP_filter]
  split
  · next h => exact countP_eq_zero.mpr fun b _ => by simp [h]
  next h =>
  refine countP_congr fun b _ => ?_
  simp only [ne_eq, decide_not, Bool.and_eq_true, decide_eq_true_eq, Bool.not_eq_eq_eq_not,
    Bool.not_true,
    decide_eq_false_iff_not, and_iff_left_iff_imp]
  exact fun hb hbt => h (hb.symm.trans hbt)

/-- The objects in whose lists the thread has blocks, once for each block. -/
def Phase.enrolled : Phase → List ℕ
  | blocking w | blocked w | woken w => w.request.ids
  | _ => []

/-- The objects a thread waits for with blocks, or will once it has inserted them. -/
def Phase.targets : Phase → List ℕ
  | inserting w | blocking w | blocked w | woken w => w.request.ids
  | _ => []

lemma Phase.enrolled_subset_targets (p : Phase) : p.enrolled ⊆ p.targets := by
  cases p <;> simp [enrolled, targets]

lemma Wait.enrolled_next (w : Wait) : w.next.enrolled = [] := by
  rw [next]
  split
  · rfl
  · split <;> rfl

lemma Wait.of_mem_targets_next (w : Wait) {id : ℕ} (h : id ∈ w.next.targets) :
    w.next = .inserting w ∧ w.request.isAll = false ∧ id ∈ w.request.ids := by
  rw [next] at h ⊢
  split at h
  · cases h
  next hp =>
  split at h
  · cases h
  next ha =>
  rw [if_neg hp, if_neg ha]
  exact ⟨rfl, by simpa using ha, h⟩

/-- What every state keeps: the thread and object numbers in use, and who is in which list. -/
structure Tidy (s : State) : Prop where
  fresh : ∀ id e, s.objects id = some e → id < s.nextId
  started : ∀ tid, s.threads tid ≠ .running → tid < s.threadCount
  named : ∀ tid, ∀ id ∈ (s.threads tid).targets, id < s.nextId
  roll : ∀ id e tid, s.objects id = some e → e.roll tid = (s.threads tid).enrolled.count id

lemma tidy_boot (n : ℕ) : Tidy (boot n) where
  fresh := nofun
  started := fun _ h => absurd rfl h
  named := nofun
  roll := nofun

namespace Tidy

variable {s s' : State} {tid : ℕ}

lemma names (h : Tidy s) {ids : List ℕ} (hids : (s.threads tid).enrolled = ids) :
    Names tid ids s.objects := by
  intro id e he
  exact Nat.le_of_eq (by rw [h.roll id e tid he, hids])

variable {reg : Registry}

/-- One thread moves on, and the lists change only in what its place asks for. -/
lemma move (h : Tidy s) {p : Phase} (hstart : p ≠ .running → tid < s.threadCount)
    (hnamed : ∀ id ∈ p.targets, id < s.nextId)
    (hreg : ∀ id e', reg id = some e' →
      ∃ e, s.objects id = some e ∧ e'.roll tid = p.enrolled.count id ∧
      ∀ t, t ≠ tid → e'.roll t = e.roll t) : Tidy ({ s with objects := reg }.setThread tid p) where
  fresh := fun id e' he' => by
    obtain ⟨e, he, -⟩ := hreg id e' he'
    exact h.fresh id e he
  started := fun t ht => by
    by_cases htt : t = tid
    · subst htt
      exact hstart (by simpa [State.setThread] using ht)
    · exact h.started t (by simpa [State.setThread, htt] using ht)
  named := fun t id hid => by
    by_cases htt : t = tid
    · subst htt
      exact hnamed id (by simpa [State.setThread] using hid)
    · exact h.named t id (by simpa [State.setThread, htt] using hid)
  roll := fun id e' t he' => by
    obtain ⟨e, he, hself, hother⟩ := hreg id e' he'
    by_cases htt : t = tid
    · subst htt
      simpa [State.setThread] using hself
    · simpa [State.setThread, htt, hother t htt] using h.roll id e t he

lemma setThread (h : Tidy s) (hreg : s.objects.SameRoll reg) {p : Phase}
    (hstart : p ≠ .running → tid < s.threadCount) (hnamed : ∀ id ∈ p.targets, id < s.nextId)
    (hp : p.enrolled = (s.threads tid).enrolled) :
    Tidy ({ s with objects := reg }.setThread tid p) := by
  refine h.move hstart hnamed fun id e' he' => ?_
  obtain ⟨e, he, hroll⟩ := hreg id e' he'
  exact ⟨e, he, by rw [hroll, h.roll id e tid he, hp], fun t _ => hroll t⟩

/-- The objects change, no list does, and threads may wake. -/
lemma objects (h : Tidy s) (hreg : s.objects.SameRoll reg) {threads : ℕ → Phase}
    (hthreads : ∀ t, threads t = s.threads t ∨ threads t = (s.threads t).wake) (k : ℕ) :
    Tidy { s with objects := reg, threads := threads, nextOp := k } where
  fresh := fun id e' he' => by
    obtain ⟨e, he, -⟩ := hreg id e' he'
    exact h.fresh id e he
  started := fun t ht => by
    refine h.started t fun hrun => ht ?_
    rcases hthreads t with htt | htt
    · exact htt.trans hrun
    · exact htt.trans (by rw [hrun]; rfl)
  named := fun t id hid => by
    refine h.named t id ?_
    rcases hthreads t with htt | htt
    · rwa [← htt]
    dsimp only at hid
    rw [htt] at hid
    cases hp : s.threads t <;> rw [hp] at hid <;> exact hid
  roll := fun id e' t he' => by
    obtain ⟨e, he, hroll⟩ := hreg id e' he'
    have henrolled : (threads t).enrolled = (s.threads t).enrolled := by
      rcases hthreads t with htt | htt
      · rw [htt]
      · rw [htt]
        cases s.threads t <;> rfl
    rw [hroll, h.roll id e t he, ← henrolled]

lemma modify (h : Tidy s) (id : ℕ) {f : Entry → Entry} (hf : ∀ e : Entry, e.Calm (f e)) :
    Tidy (s.modify id f) :=
  h.objects (s.objects.calm_modify id fun e _ => hf e).sameRoll (fun _ => .inl rfl) s.nextOp

lemma signal (h : Tidy s) (id : ℕ) (op : Signal) : Tidy (s.signal id op) := by
  rw [State.signal]
  split
  · exact h
  refine h.objects
    (fun _ _ => Registry.of_modify (R := fun e e' => ∀ tid, e'.roll tid = e.roll tid)
      (fun _ _ => rfl)
    fun e _ => op.roll_apply s.nextOp e) (fun t => ?_) _
  split
  · rw [wakeBlockedWaiters]
    split
    · exact .inr rfl
    · exact .inl rfl
  · exact .inl rfl

end Tidy

/-- A wait for one or any object that is not satisfied at once: its objects are there, and none is
signaled. -/
theorem Request.trySatisfy_eq_none {tid : ℕ} {request : Request} {reg : Registry}
    (hall : request.isAll = false) (h : (request.trySatisfy tid reg).2 = none) :
    (request.trySatisfy tid reg).1 = reg ∧
    ∀ id ∈ request.ids, ∃ e, reg id = some e ∧ e.signalState ≤ 0 := by
  cases request with
  | single id =>
    rw [trySatisfy] at h ⊢
    rcases trySatisfySingle_cases tid id reg
      with ⟨e, -, -, hr⟩ | ⟨e, -, -, -, -, hr⟩ | ⟨hreg, hnone⟩
    · rw [hr] at h
      cases h
    · rw [hr] at h
      cases h
    refine ⟨hreg, fun id' hid' => ?_⟩
    rw [mem_singleton.mp hid']
    exact hnone h
  | any ids =>
    rcases trySatisfyAny_cases tid 0 ids reg with ⟨-, -, -, -, -, hreg, hsome⟩ | ⟨hreg, hnone⟩
    · rw [show (trySatisfyAny tid 0 ids reg).2 = none from h] at hsome
      cases hsome
    · exact ⟨hreg, hnone h⟩
  | all ids => cases hall

namespace Tidy

variable {s s' : State} {tid : ℕ}

lemma tryObjects (h : Tidy s) (w : Wait) {next : Phase} (htid : tid < s.threadCount)
    (hidle : (s.threads tid).enrolled = []) (hnext : next.enrolled = [])
    (htargets : ∀ id ∈ next.targets, next = .inserting w ∧ w.request.isAll = false ∧
      id ∈ w.request.ids) :
    Tidy (s.tryObjects tid w next) := by
  refine h.setThread (calm_trySatisfy tid w.request s.objects).sameRoll (fun _ => htid)
    (fun id hid => ?_) ?_
  · split at hid
    · cases hid
    next hnone =>
    obtain ⟨-, hall, hmem⟩ := htargets id hid
    obtain ⟨e, he, -⟩ :=
      (Request.trySatisfy_eq_none hall (not_isSome_iff_eq_none.mp hnone)).2 id hmem
    exact h.fresh id e he
  rw [hidle]
  split
  · rfl
  · exact hnext

lemma create (h : Tidy s) (kind : Kind) (signal : ℤ) :
    Tidy { s with
      objects := Function.update s.objects s.nextId (some (new kind signal))
      nextId := s.nextId + 1 } where
  fresh := fun id e he => by
    by_cases hid : id = s.nextId
    · exact hid ▸ Nat.lt_succ_self _
    · exact Nat.lt_succ_of_lt (h.fresh id e (by simpa [hid] using he))
  started := h.started
  named := fun t id hid => Nat.lt_succ_of_lt (h.named t id hid)
  roll := fun id e t he => by
    by_cases hid : id = s.nextId
    · -- Nobody waits for an object that was not there.
      have hnot : id ∉ (s.threads t).enrolled := fun hmem =>
        absurd (h.named t id (Phase.enrolled_subset_targets _ hmem)) (by omega)
      rw [count_eq_zero.mpr hnot]
      obtain rfl : new kind signal = e := by simpa [hid] using he
      rfl
    · exact h.roll id e t (by simpa [hid] using he)

/-- The registry after the section that inserts the blocks: the blocks are in the lists, or nothing
has changed. -/
theorem inserted (h : Tidy s) (hidle : (s.threads tid).enrolled = []) (ids : List ℕ) :
    ((insertWaitBlocks tid ids 0 ids s.objects).2 ∧ (insertWaitBlocks tid ids 0 ids s.objects).1 =
        fun id => (s.objects id).map fun e => e.append (blocksFor tid id 0 ids)) ∨
      ((insertWaitBlocks tid ids 0 ids s.objects).2 = false ∧
        (insertWaitBlocks tid ids 0 ids s.objects).1 = s.objects) := by
  cases hr : (insertWaitBlocks tid ids 0 ids s.objects).2 with
  | true => exact .inl ⟨rfl, insertWaitBlocks_of_ok hr⟩
  | false =>
    refine .inr ⟨rfl, insertWaitBlocks_of_failed rfl (fun id => ?_) (fun _ _ => rfl) hr⟩
    cases he : s.objects id with
    | none => rfl
    | some e =>
      have hroll : e.roll tid = 0 := by simp [h.roll id e tid he, hidle]
      simp [dropBlocks_of_roll_zero hroll]

/-- The registry after the section that collects the result: the blocks of the thread are gone, and
the object whose block was satisfied first has the wait in its ledger. -/
theorem collected (h : Tidy s) {w : Wait} (hw : s.threads tid = .woken w) {id : ℕ} {e' : Entry}
    (he' : (collect tid w.request.ids s.objects).2.elim (collect tid w.request.ids s.objects).1
      (fun found =>
        (collect tid w.request.ids s.objects).1.modify found.1 (credit tid found.2.cause)) id =
        some e') :
    ∃ e, s.objects id = some e ∧
      ((∃ b, (collect tid w.request.ids s.objects).2 = some (id, b) ∧
          e' = (e.dropBlocks tid).credit tid b.cause) ∨
        ((∀ b, (collect tid w.request.ids s.objects).2 ≠ some (id, b)) ∧
          e' = e.dropBlocks tid)) := by
  rw [collect_fst (h.names (by rw [hw]; rfl))] at he'
  cases hr : (collect tid w.request.ids s.objects).2 with
  | none =>
    rw [hr] at he'
    obtain ⟨e, he, rfl⟩ := Option.map_eq_some_iff.mp he'
    exact ⟨e, he, .inr ⟨nofun, rfl⟩⟩
  | some found =>
    obtain ⟨id', b⟩ := found
    rw [hr] at he'
    dsimp only [Option.elim] at he'
    by_cases hid : id' = id
    · subst hid
      rw [Registry.modify_self, Option.map_map, Option.map_eq_some_iff] at he'
      obtain ⟨e, he, rfl⟩ := he'
      exact ⟨e, he, .inl ⟨b, rfl, rfl⟩⟩
    rw [Registry.modify_of_ne (Ne.symm hid)] at he'
    obtain ⟨e, he, rfl⟩ := Option.map_eq_some_iff.mp he'
    refine ⟨e, he, .inr ⟨fun b' hb' => hid ?_, rfl⟩⟩
    exact (Prod.mk.inj (some.inj hb')).1

lemma advance (h : Tidy s) {expired : Bool} (hs : s.advance tid expired = some s') : Tidy s' := by
  have hstart : ∀ {p}, s.threads tid = p → p ≠ .running →
      tid < s.threadCount := fun hp hne => h.started tid (hp ▸ hne)
  rw [State.advance] at hs
  split at hs
  · next w hw =>
    have hidle : (s.threads tid).enrolled = [] := by rw [hw]; rfl
    cases hs
    rcases h.inserted hidle w.request.ids with ⟨hok, hreg⟩ | ⟨hfail, hreg⟩
    · rw [hok, hreg]
      refine h.move (fun _ => hstart hw nofun)
        (fun id hid => h.named tid id (by rw [hw]; exact hid)) fun id e' he' => ?_
      obtain ⟨e, he, rfl⟩ := Option.map_eq_some_iff.mp he'
      have hroll :=
        fun t => e.roll_append t fun b (hb : b ∈ blocksFor tid id 0 w.request.ids) =>
          (of_mem_blocksFor hb).1
      refine ⟨e, he, ?_, fun t ht => ?_⟩
      · rw [hroll, if_pos rfl, h.roll id e tid he, hidle, length_blocksFor, count_nil, Nat.zero_add]
        rfl
      · rw [hroll, if_neg ht, Nat.add_zero]
    · rw [hfail, hreg]
      exact h.setThread (Registry.Calm.refl _).sameRoll (fun _ => hstart hw nofun) nofun hidle.symm
  · next w hw =>
    cases hs
    exact h.setThread (Registry.Calm.refl _).sameRoll (fun _ => hstart hw nofun)
      (fun id hid => h.named tid id (by rw [hw]; exact hid)) (by rw [hw]; rfl)
  · next w hw =>
    cases hs
    refine h.move (fun hne => absurd rfl hne) nofun fun id e' he' => ?_
    obtain ⟨e, he, hcase⟩ := h.collected hw he'
    have hroll : ∀ t, e'.roll t = (e.dropBlocks tid).roll t := by
      rcases hcase with ⟨-, -, rfl⟩ | ⟨-, rfl⟩
      · exact fun t => rfl
      · exact fun t => rfl
    refine ⟨e, he, ?_, fun t ht => ?_⟩
    · rw [hroll, roll_dropBlocks, if_pos rfl]
      rfl
    · rw [hroll, roll_dropBlocks, if_neg ht]
  · next w hw =>
    cases hs
    refine h.tryObjects w (hstart hw nofun) (by rw [hw]; rfl) ?_ ?_
    · split <;> rfl
    · split <;> exact nofun
  · next w hw =>
    cases hs
    exact h.setThread (Registry.Calm.refl _).sameRoll (fun _ => hstart hw nofun) nofun
      (by rw [hw]; rfl)
  · cases hs

end Tidy

theorem step_tidy {s s' : State} {ev : Event} (h : Tidy s) (hs : step s ev = some s') :
    Tidy s' := by
  cases ev with
  | create kind signal =>
    obtain ⟨-, rfl⟩ := of_guard hs
    exact h.create kind signal
  | destroy id =>
    cases hs
    refine h.objects (fun id' e' he' => ?_) (fun _ => .inl rfl) s.nextOp
    by_cases hid : id' = id
    · simp [hid] at he'
    · exact ⟨e', by simpa [hid] using he', fun _ => rfl⟩
  | resetEvent id =>
    cases hs
    exact h.modify id calm_resetEvent
  | acquireMutant id tid =>
    cases hs
    exact h.modify id (calm_acquireMutant tid)
  | setTimer id =>
    cases hs
    exact h.modify id calm_setTimer
  | signal id op =>
    cases hs
    exact h.signal id op
  | wait tid w =>
    obtain ⟨hw, rfl⟩ := of_guard hs
    exact h.tryObjects w hw.1 (by rw [hw.2]; rfl) w.enrolled_next fun id => w.of_mem_targets_next
  | advance tid expired => exact h.advance hs
  | timeout tid =>
    simp only [step] at hs
    split at hs
    · next w hw =>
      have hne : s.threads tid ≠ .running := by rw [hw]; nofun
      obtain ⟨-, rfl⟩ := of_guard hs
      refine h.setThread (Registry.Calm.refl _).sameRoll (fun _ => h.started tid hne) ?_
        (by rw [hw]; rfl)
      exact fun id hid => h.named tid id (by rw [hw]; exact hid)
    · next w hw =>
      have hne : s.threads tid ≠ .running := by rw [hw]; nofun
      cases hs
      exact h.setThread (Registry.Calm.refl _).sameRoll (fun _ => h.started tid hne) nofun
        (by rw [hw]; rfl)
    · cases hs

/-- The lists hold the blocks of the waits under way and no others. -/
theorem tidy_of_reachable (n : ℕ) (s : {s // ∃ evs, run step (boot n) evs = some s}) : Tidy s.1 :=
  s.2.elim fun _ => run_invariant (fun _ _ _ => step_tidy) (tidy_boot n)

/-- A thread waits for an event, and its block is in the list. -/
theorem tidy_of_reachable_of_waiter : ∃ s, run step (boot 1)
    [.create (.event .synchronizationEvent) 0, .wait 0 ⟨.single 1, .infinite⟩, .advance 0 false] =
      some s ∧ (s.objects 1).map (·.roll 0) = some 1 ∧ Tidy s := by
  obtain ⟨s, hrun, hroll⟩ : ∃ s, run step (boot 1) [.create (.event .synchronizationEvent) 0,
      .wait 0 ⟨.single 1, .infinite⟩, .advance 0 false] = some s ∧
        (s.objects 1).map (·.roll 0) = some 1 := exists_of_decide (by decide)
  exact ⟨s, hrun, hroll, tidy_of_reachable 1 ⟨s, _, hrun⟩⟩

end Astryx.Ke
