import Astryx.Ke.Dispatcher
import Astryx.Lib.FirstMatch

/-!
# What the sections of a wait do to the wait lists

One lemma for each section. A signal marks the first few blocks that are not satisfied, and is kept
only if no such block is left. Trying the objects takes signals and leaves the lists alone;
`insertWaitBlocks` adds one block for each time the wait names the object, or nothing if it fails;
`collect` removes every block of its thread.
-/

namespace Astryx.Ke

open List Option Registry Entry

/-! ### Marking blocks -/

variable {b : WaitBlock} {e : Entry} {op : Signal} {id tid key n : ℕ} {reg : Registry}
  {ids all : List ℕ}
  {l : List WaitBlock}

lemma mem_unsatisfied : b ∈ unsatisfied l ↔ b ∈ l ∧ b.satisfied = false := by
  simp [unsatisfied]

lemma unsatisfied_satisfyFirst (op n : ℕ) (l : List WaitBlock) :
    unsatisfied (satisfyFirst op n l) = (unsatisfied l).drop n := by
  fun_induction satisfyFirst op n l with
  | case1 => simp [unsatisfied]
  | case2 => rfl
  | case3 n b l hb ih => simpa [unsatisfied, hb] using ih
  | case4 n b l hb ih => simpa [unsatisfied, hb] using ih

lemma satisfyFirst_of_unsatisfied_nil (h : unsatisfied l = []) (op n : ℕ) :
    satisfyFirst op n l = l := by
  fun_induction satisfyFirst op n l with
  | case1 => rfl
  | case2 => rfl
  | case3 n b l hb ih =>
    rw [ih]
    simpa [unsatisfied, hb] using h
  | case4 n b l hb ih => simp [unsatisfied, hb] at h

/-- How many satisfied blocks of a kind there are: the old ones and those of the blocks that are
marked. -/
lemma countP_satisfyFirst (op n : ℕ) (l : List WaitBlock) (p : ℕ → ℕ → Bool) :
    (satisfyFirst op n l).countP (fun b => b.satisfied && p b.threadId b.cause) =
      l.countP (fun b => b.satisfied && p b.threadId b.cause) +
        ((unsatisfied l).take n).countP (fun b => p b.threadId op) := by
  fun_induction satisfyFirst op n l with
  | case1 => simp [unsatisfied]
  | case2 => simp
  | case3 n b l hb ih =>
    rw [countP_cons, countP_cons, ih, unsatisfied, unsatisfied, filter_cons_of_neg (by simp [hb])]
    exact Nat.add_right_comm ..
  | case4 n b l hb ih =>
    rw [countP_cons, countP_cons, ih, unsatisfied, unsatisfied, filter_cons_of_pos (by simp [hb]),
      take_succ_cons, countP_cons]
    simp only [hb, Bool.true_and, Bool.false_and, Bool.false_eq_true, if_false]
    omega

lemma map_threadId_satisfyFirst (op n : ℕ) (l : List WaitBlock) :
    (satisfyFirst op n l).map WaitBlock.threadId = l.map WaitBlock.threadId := by
  fun_induction satisfyFirst op n l <;> simp_all

/-! ### Signals -/

/-- A signal that does not come to the wait list changes nothing there. One that does marks blocks,
and stays only if it marks them all. -/
lemma Signal.apply_spec (op : Signal) (e : Entry) (k : ℕ) :
    match op.wakes e with
    | none => (op.apply k e).waitList = e.waitList ∧ (op.apply k e).signalState = e.signalState
    | some n => (op.apply k e).waitList = satisfyFirst k n e.waitList ∧
        (n < (unsatisfied e.waitList).length → (op.apply k e).signalState ≤ 0) := by
  have hall : (unsatisfied e.waitList).length ≤ e.waitList.length := length_filter_le _ _
  cases op with
  | setEvent =>
    rcases hk : e.kind with (_ | _) | _ | _ | _ <;> simp [wakes, apply, Ke.setEvent, hk]
    · omega
    intro hlen
    have hsome : unsatisfied e.waitList ≠ [] := ne_nil_of_length_pos (by omega)
    simp [hsome]
  | pulseEvent =>
    rcases hk : e.kind with (_ | _) | _ | _ | _ <;> simp [wakes, apply, Ke.pulseEvent, hk]
  | releaseSemaphore adjustment =>
    rcases hk : e.kind with _ | _ | limit | _
      <;> simp only [wakes, apply, Ke.releaseSemaphore, hk, and_self]
    by_cases hlimit : limit < newCount adjustment e
    · rw [if_pos hlimit, if_pos hlimit]
      exact ⟨rfl, rfl⟩
    rw [if_neg hlimit, if_neg hlimit]
    refine ⟨rfl, fun hlen => ?_⟩
    dsimp only
    omega
  | releaseMutant tid =>
    rcases hk : e.kind with _ | ⟨_ | owner, recursion, abandoned⟩ | _ | _ <;>
      simp only [wakes, apply, Ke.releaseMutant, hk, and_self]
    by_cases ho : owner = tid
    · by_cases hr : wrapU32 (recursion - 1) = 0
      · rw [if_pos ⟨ho, hr⟩, if_neg (not_not_intro ho), if_neg (not_not_intro hr)]
        cases hu : unsatisfied e.waitList with
        | nil =>
          exact ⟨(satisfyFirst_of_unsatisfied_nil hu k 1).symm, fun hlen => absurd hlen (by decide)⟩
        | cons b l => exact ⟨rfl, fun _ => Int.le_refl 0⟩
      · rw [if_neg fun h => hr h.2, if_neg (not_not_intro ho), if_pos hr]
        exact ⟨rfl, rfl⟩
    · rw [if_neg fun h => ho h.1, if_pos ho]
      exact ⟨rfl, rfl⟩
  | timer =>
    rcases hk : e.kind with _ | _ | _ | _ <;> simp [wakes, apply, signalTimer, hk]
    omega

theorem Signal.apply_of_wakes_none (h : op.wakes e = none) (k : ℕ) :
    (op.apply k e).waitList = e.waitList ∧ (op.apply k e).signalState = e.signalState := by
  have hspec := op.apply_spec e k
  rwa [h] at hspec

theorem Signal.apply_of_wakes (h : op.wakes e = some n) (k : ℕ) :
    (op.apply k e).waitList = satisfyFirst k n e.waitList ∧
    (n < (unsatisfied e.waitList).length → (op.apply k e).signalState ≤ 0) := by
  have hspec := op.apply_spec e k
  rwa [h] at hspec

/-! ### Trying the objects -/

@[simp] lemma Registry.modify_self (reg : Registry) (id : ℕ) (f : Entry → Entry) :
    reg.modify id f id = (reg id).map f := by
  simp [Registry.modify]

lemma Registry.modify_of_ne {id' : ℕ} (h : id' ≠ id) (reg : Registry) (f : Entry → Entry) :
    reg.modify id f id' = reg id' := by
  simp [Registry.modify, h]

lemma Registry.modify_cases (he : reg id = some e) {f : Entry → Entry} {id' : ℕ} {e' : Entry}
    (he' : reg.modify id f id' = some e') : id' = id ∧ e' = f e ∨ id' ≠ id ∧ reg id' = some e' := by
  rw [modify, he] at he'
  exact Transition.eq_some_of_update he'

/-- What holds between an object and itself, and between the one that changes and its new value,
holds between the objects before and after. -/
lemma Registry.of_modify {R : Entry → Entry → Prop} {f : Entry → Entry} {id' : ℕ} {e' : Entry}
    (hrefl : ∀ e, R e e) (hf : ∀ e, reg id = some e → R e (f e))
    (he' : reg.modify id f id' = some e') : ∃ e, reg id' = some e ∧ R e e' := by
  by_cases hid : id' = id
  · subst hid
    rw [modify_self, map_eq_some_iff] at he'
    obtain ⟨e, he, rfl⟩ := he'
    exact ⟨e, he, hf e he⟩
  · rw [modify_of_ne hid] at he'
    exact ⟨e', he', hrefl e'⟩

lemma Registry.modify_congr (he : reg id = some e) {f g : Entry → Entry}
    (h : f e = g e) : reg.modify id f = reg.modify id g := by
  simp [modify, he, h]

/-- A wait for one object takes its signal, or takes a mutant once more, or changes nothing. -/
theorem trySatisfySingle_cases (tid id : ℕ) (reg : Registry) :
    (∃ e, reg id = some e ∧ 0 < e.signalState ∧
      trySatisfySingle tid id reg = (reg.modify id (take tid), some (.satisfied 0))) ∨
    (∃ e recursion abandoned, reg id = some e ∧ e.kind = .mutant (some tid) recursion abandoned ∧
      trySatisfySingle tid id reg = (reg.modify id (acquireMutant tid), some (.satisfied 0))) ∨
    (trySatisfySingle tid id reg).1 = reg ∧ ((trySatisfySingle tid id reg).2 = none →
      ∃ e, reg id = some e ∧ e.signalState ≤ 0) := by
  cases he : reg id with
  | none =>
    simp only [trySatisfySingle, he]
    exact .inr (.inr ⟨trivial, nofun⟩)
  | some e =>
    simp only [trySatisfySingle, he]
    split
    · next owner recursion abandoned hk =>
      split
      · exact .inr (.inr ⟨rfl, nofun⟩)
      split
      · next hs => exact .inl ⟨e, rfl, hs, rfl⟩
      next hs =>
      split
      · next ho =>
        refine .inr (.inl ⟨e, recursion, abandoned, rfl, by rw [hk, ho], ?_⟩)
        rw [modify_congr he]
        simp [acquireMutant, hk, ho]
      · exact .inr (.inr ⟨rfl, fun _ => ⟨e, rfl, Int.not_lt.mp hs⟩⟩)
    split
    · next hs => exact .inl ⟨e, rfl, hs, rfl⟩
    · next hs => exact .inr (.inr ⟨rfl, fun _ => ⟨e, rfl, Int.not_lt.mp hs⟩⟩)

theorem trySatisfyAny_cases (tid key : ℕ) (ids : List ℕ) (reg : Registry) :
    (∃ id ∈ ids, ∃ e, reg id = some e ∧ 0 < e.signalState ∧
      (trySatisfyAny tid key ids reg).1 = reg.modify id (take tid) ∧
      (trySatisfyAny tid key ids reg).2.isSome) ∨
    (trySatisfyAny tid key ids reg).1 = reg ∧ ((trySatisfyAny tid key ids reg).2 = none →
      ∀ id ∈ ids, ∃ e, reg id = some e ∧ e.signalState ≤ 0) := by
  induction ids generalizing key with
  | nil => exact .inr ⟨rfl, nofun⟩
  | cons id ids ih =>
    cases he : reg id with
    | none =>
      simp only [trySatisfyAny, he]
      exact .inr ⟨trivial, nofun⟩
    | some e =>
      by_cases hs : 0 < e.signalState
      · simp only [trySatisfyAny, he, if_pos hs]
        exact .inl ⟨id, mem_cons_self, e, he, hs, rfl, rfl⟩
      simp only [trySatisfyAny, he, if_neg hs]
      rcases ih (key + 1) with ⟨id', hid', h⟩ | ⟨h1, h2⟩
      · exact .inl ⟨id', mem_cons_of_mem id hid', h⟩
      exact .inr ⟨h1, fun hnone => forall_mem_cons.mpr ⟨⟨e, he, Int.not_lt.mp hs⟩, h2 hnone⟩⟩

theorem obstacle_eq_none (h : obstacle reg ids = none) :
    ∀ id ∈ ids, ∃ e, reg id = some e ∧ 0 < e.signalState := by
  induction ids with
  | nil => exact nofun
  | cons id ids ih =>
    cases he : reg id with
    | none => simp [obstacle, he] at h
    | some e =>
      simp only [obstacle, he] at h
      split at h
      next hs => exact forall_mem_cons.mpr ⟨⟨e, he, hs⟩, ih h⟩
      · cases h

theorem consumeAll_apply (tid : ℕ) (ids : List ℕ) (reg : Registry) (id : ℕ) :
    consumeAll tid ids reg id = (reg id).map (consumeSignal tid)^[ids.count id] := by
  induction ids generalizing reg with
  | nil => simp [consumeAll]
  | cons id' ids ih =>
    rw [consumeAll, foldl_cons, ← consumeAll, ih]
    by_cases h : id' = id
    · subst h
      rw [modify_self, List.count_cons_self, Option.map_map]
      rfl
    · simp [modify_of_ne (Ne.symm h), h]

/-! ### Inserting blocks -/

/-- The blocks of a wait for the object, from index `key` on. -/
def blocksFor (tid id : ℕ) : ℕ → List ℕ → List WaitBlock
  | _, [] => []
  | key, id' :: ids =>
    if id' = id then ⟨tid, key, false, 0⟩ :: blocksFor tid id (key + 1) ids
    else blocksFor tid id (key + 1) ids

lemma length_blocksFor (tid id key : ℕ) (ids : List ℕ) :
    (blocksFor tid id key ids).length = ids.count id := by
  induction ids generalizing key with
  | nil => rfl
  | cons id' ids ih =>
    by_cases h : id' = id
    · subst h
      simp [blocksFor, ih]
    · simp [blocksFor, h, ih]

lemma of_mem_blocksFor (hb : b ∈ blocksFor tid id key ids) :
    b.threadId = tid ∧ b.satisfied = false := by
  induction ids generalizing key with
  | nil => cases hb
  | cons id' ids ih =>
    rw [blocksFor] at hb
    split at hb
    · rcases mem_cons.mp hb with rfl | hb
      · exact ⟨rfl, rfl⟩
      · exact ih hb
    · exact ih hb

/-- Blocks are added at the end. -/
def Entry.append (e : Entry) (l : List WaitBlock) : Entry := { e with waitList := e.waitList ++ l }

theorem insertWaitBlocks_of_ok (h : (insertWaitBlocks tid all key ids reg).2) :
    (insertWaitBlocks tid all key ids reg).1 = fun id =>
      (reg id).map fun e => e.append (blocksFor tid id key ids) := by
  induction ids generalizing key reg with
  | nil =>
    funext id
    cases he : reg id with
    | none => simp [insertWaitBlocks, he]
    | some e => simp [insertWaitBlocks, he, blocksFor, append]
  | cons id' ids ih =>
    cases he : reg id' with
    | none => simp [insertWaitBlocks, he] at h
    | some e =>
      simp only [insertWaitBlocks, he] at h ⊢
      rw [ih h]
      funext id
      by_cases hid : id' = id
      · subst hid
        simp [he, blocksFor, append, pushBlock]
      · rw [modify_of_ne (Ne.symm hid), blocksFor, if_neg hid]

lemma Entry.dropBlocks_dropBlocks (e : Entry) (tid : ℕ) :
    (e.dropBlocks tid).dropBlocks tid = e.dropBlocks tid := by
  simp [dropBlocks]

lemma foldl_dropBlocks_apply (tid : ℕ) (ids : List ℕ) (reg : Registry) (id : ℕ) :
    ids.foldl (fun reg id => reg.modify id (Entry.dropBlocks tid)) reg id =
      if id ∈ ids then (reg id).map (Entry.dropBlocks tid) else reg id := by
  induction ids generalizing reg with
  | nil => simp
  | cons id' ids ih =>
    rw [foldl_cons, ih]
    by_cases h : id = id'
    · subst h
      simp [Function.comp_def, dropBlocks_dropBlocks]
    · simp [modify_of_ne h, h]

/-- An insertion that fails leaves the registry as it was. The induction is on the objects still to
come: up to `key` the blocks inserted so far are all that has changed. -/
theorem insertWaitBlocks_of_failed {reg₀ : Registry} (hall : all.drop key = ids)
    (hdrop : ∀ id, (reg id).map (Entry.dropBlocks tid) = reg₀ id)
    (hsame : ∀ id, id ∉ all.take key → reg id = reg₀ id)
    (h : (insertWaitBlocks tid all key ids reg).2 = false) :
    (insertWaitBlocks tid all key ids reg).1 = reg₀ := by
  induction ids generalizing key reg with
  | nil => simp [insertWaitBlocks] at h
  | cons id' ids ih =>
    cases he : reg id' with
    | none =>
      simp only [insertWaitBlocks, he]
      funext id
      rw [foldl_dropBlocks_apply]
      split
      · exact hdrop id
      · next hid => exact hsame id hid
    | some e =>
      simp only [insertWaitBlocks, he] at h ⊢
      have hkey : all.take (key + 1) = all.take key ++ [id'] := by
        rw [take_add, hall]
        rfl
      refine ih ?_ (fun id => ?_) (fun id hid => ?_) h
      · rw [← drop_drop, hall]
        rfl
      · by_cases hid : id = id'
        · subst hid
          rw [modify_self, Option.map_map, ← hdrop id]
          congr 1
          funext e
          simp [Entry.dropBlocks, pushBlock]
        · rw [modify_of_ne hid, hdrop]
      · rw [hkey, mem_append, mem_singleton, not_or] at hid
        rw [modify_of_ne hid.2, hsame id hid.1]

/-! ### Collecting the result -/

/-- The blocks of a thread. -/
def Entry.roll (e : Entry) (tid : ℕ) : ℕ := e.waitList.countP fun b => b.threadId = tid

lemma Entry.dropBlocks_of_roll_zero (h : e.roll tid = 0) : e.dropBlocks tid = e := by
  rw [roll, countP_eq_zero] at h
  have : e.waitList.filter (fun b => b.threadId ≠ tid) = e.waitList :=
    filter_eq_self.mpr fun b hb => by simpa using h b hb
  rw [dropBlocks, this]

lemma Entry.dropBlocks_removeBlock (e : Entry) (tid : ℕ) :
    (e.removeBlock tid).dropBlocks tid = e.dropBlocks tid := by
  obtain ⟨-, -, waitList, -⟩ := e
  simp only [removeBlock, dropBlocks, Entry.mk.injEq, and_true, true_and]
  induction waitList with
  | nil => rfl
  | cons b l ih =>
    by_cases hb : b.threadId = tid
    · simp [hb]
    · simpa [hb] using ih

lemma Entry.roll_removeBlock (e : Entry) (tid : ℕ) :
    (e.removeBlock tid).roll tid = e.roll tid - 1 := by
  simp only [roll, removeBlock]
  induction e.waitList with
  | nil => rfl
  | cons b l ih =>
    by_cases hb : b.threadId = tid
    · simp [hb]
    · simpa [hb] using ih

lemma firstBlock_eq_none (he : reg id = some e) (h : firstBlock tid id reg = none) :
    e.roll tid = 0 := by
  simp only [firstBlock, he, bind_some, List.find?_eq_none] at h
  exact countP_eq_zero.mpr h

/-- The list names each object at least as often as the thread is on its roll. -/
def Names (tid : ℕ) (ids : List ℕ) (reg : Registry) : Prop :=
  ∀ id e, reg id = some e → e.roll tid ≤ ids.count id

lemma Names.tail (h : Names tid (id :: ids) reg) (hb : firstBlock tid id reg = none) :
    Names tid ids reg := by
  intro id' e he
  by_cases hid : id = id'
  · subst hid
    rw [firstBlock_eq_none he hb]
    exact Nat.zero_le _
  · have := h id' e he
    rwa [count_cons_of_ne hid] at this

lemma Names.removeBlock (h : Names tid (id :: ids) reg) :
    Names tid ids (reg.modify id (Entry.removeBlock tid)) := by
  intro id' e he
  by_cases hid : id = id'
  · subst hid
    rw [modify_self, map_eq_some_iff] at he
    obtain ⟨e₀, he0, rfl⟩ := he
    have := h id e₀ he0
    rw [List.count_cons_self] at this
    rw [roll_removeBlock]
    omega
  rw [modify_of_ne (Ne.symm hid)] at he
  have := h id' e he
  rwa [count_cons_of_ne hid] at this

theorem collect_fst (h : Names tid ids reg) :
    (collect tid ids reg).1 = fun id => (reg id).map (Entry.dropBlocks tid) := by
  induction ids generalizing reg with
  | nil =>
    funext id
    cases he : reg id with
    | none => simp [collect, he]
    | some e =>
      have hroll : e.roll tid = 0 := Nat.le_zero.mp (h id e he)
      simp [collect, he, dropBlocks_of_roll_zero hroll]
  | cons id' ids ih =>
    cases hb : firstBlock tid id' reg with
    | none =>
      simp only [collect, hb]
      exact ih (h.tail hb)
    | some b =>
      simp only [collect, hb]
      rw [ih h.removeBlock]
      funext id
      by_cases hid : id = id'
      · subst hid
        rw [modify_self, Option.map_map]
        congr 1
        funext e
        exact e.dropBlocks_removeBlock tid
      · rw [modify_of_ne hid]

theorem of_collect_eq_some (h : (collect tid ids reg).2 = some (id, b)) :
    ∃ e, reg id = some e ∧ b ∈ e.waitList ∧ b.threadId = tid ∧ b.satisfied := by
  induction ids generalizing reg with
  | nil => cases h
  | cons id' ids ih =>
    cases hb : firstBlock tid id' reg with
    | none =>
      simp only [collect, hb] at h
      exact ih h
    | some b' =>
      simp only [collect, hb] at h
      split at h
      · next hs =>
        obtain ⟨rfl, rfl⟩ := Prod.mk.inj (some.inj h)
        obtain ⟨e, he, hfind⟩ := bind_eq_some_iff.mp hb
        exact ⟨e, he, mem_of_find?_eq_some hfind, by simpa using List.find?_some hfind, hs⟩
      obtain ⟨e, he, hmem, hb'⟩ := ih h
      obtain ⟨e₀, he0, hsub⟩ := of_modify (R := fun e e' => e'.waitList ⊆ e.waitList)
        (fun _ => Subset.refl _)
        (fun _ _ _ => mem_of_mem_eraseP) he
      exact ⟨e₀, he0, hsub hmem, hb'⟩

/-- A thread that finds none of its blocks satisfied has none that is. -/
theorem of_collect_eq_none (hn : Names tid ids reg) (h : (collect tid ids reg).2 = none)
    (he : reg id = some e) (hb : b ∈ e.waitList) (ht : b.threadId = tid) : b.satisfied = false := by
  induction ids generalizing reg e with
  | nil =>
    have hzero : e.roll tid = 0 := Nat.le_zero.mp (hn id e he)
    exact absurd (decide_eq_true ht) (countP_eq_zero.mp hzero b hb)
  | cons id' ids ih =>
    cases hfirst : firstBlock tid id' reg with
    | none =>
      simp only [collect, hfirst] at h
      exact ih (hn.tail hfirst) h he hb
    | some b' =>
      simp only [collect, hfirst] at h
      split at h
      · cases h
      next hs =>
      by_cases hid : id = id'
      · subst hid
        obtain ⟨e', he', hfind⟩ := bind_eq_some_iff.mp hfirst
        obtain rfl := some.inj (he'.symm.trans he)
        by_cases hbb : b = b'
        · rw [hbb]
          simpa using hs
        · have hrest :=
            (mem_cons.mp ((FirstMatch.perm_cons_eraseP hfind).mem_iff.mp hb)).resolve_left hbb
          exact ih hn.removeBlock h (by rw [modify_self, he]; rfl) hrest
      · exact ih hn.removeBlock h ((modify_of_ne hid _ _).trans he) hb

end Astryx.Ke
