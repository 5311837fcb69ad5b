import Astryx.Ke.Roll

/-!
# No signal is lost or taken twice

What comes out of an object is what went into it. The count of a semaphore and the waits that have
taken from it add up to what it started with and what was released. A mutant belongs to the thread
that took it more often than it gave it back. A synchronization event lets at most one wait go for
each time it is set.

The waits that a signal has satisfied and that have not returned yet stand between the two sides;
they are the satisfied blocks. The books stay balanced as long as a wait returns with what was taken
on its behalf. A wait for any of several objects returns with one of them only, so that must be all
it was given: no signal may satisfy a second block of one wait.
-/

namespace Astryx.Ke

open Function List Option Entry Transition

variable {e : Entry} {k : ℕ}

/-! ### The books of one object -/

/-- The satisfied blocks of waits that have not returned, by thread and by the operation that
satisfied them. -/
def Entry.won (e : Entry) (p : ℕ → ℕ → Bool) : ℕ :=
  e.waitList.countP fun b => b.satisfied && p b.threadId b.cause

/-- The satisfied blocks of a thread. -/
def Entry.inFlight (e : Entry) (tid : ℕ) : ℕ := e.won fun t _ => t = tid

/-- A semaphore: its count and what waits have taken are what it started with and what was
released. -/
def Entry.Counted (e : Entry) : Prop :=
  0 ≤ e.signalState ∧
    e.ledger.initial + e.ledger.released = e.signalState + e.ledger.consumed + e.won fun _ _ => true

/-- A mutant: its owner is the thread that has taken it more often than released it, and by how much
is its recursion. -/
def Entry.OwnedBy (e : Entry) (owner : Option ℕ) (recursion : ℕ) : Prop :=
  ∀ tid r, 0 < r → (owner = some tid ∧ recursion = r ↔
    e.ledger.acquired tid + e.inFlight tid = e.ledger.surrendered tid + r)

/-- A synchronization event: no operation has made two waits return. -/
def Entry.OneEach (e : Entry) : Prop := ∀ op, e.ledger.returnedBy op ≤ 1

/-- The law of the kind. -/
def Entry.Conserved (e : Entry) : Prop :=
  match e.kind with
  | .semaphore _ => e.Counted
  | .mutant owner recursion _ => e.OwnedBy owner recursion
  | .event .synchronizationEvent => e.OneEach
  | _ => True

/-- Every object keeps its law. -/
def Conserved (s : State) : Prop := ∀ id e, s.objects id = some e → e.Conserved

/-- The signal of the operation is still there. -/
def Entry.standing (e : Entry) (op : ℕ) : ℕ :=
  if 0 < e.signalState ∧ e.ledger.source = op then 1 else 0

/-- The waits that have returned or will return because of the operation, and the one that may if
its signal is still there. -/
def Entry.share (e : Entry) (op : ℕ) : ℕ :=
  e.ledger.returnedBy op + e.won (fun _ cause => cause = op) + e.standing op

/-- The depth at which a thread has a mutant. -/
def holds (owner : Option ℕ) (recursion tid : ℕ) : ℕ := if owner = some tid then recursion else 0

/-- What every step keeps of a mutant. -/
structure Entry.Held (e : Entry) (owner : Option ℕ) (recursion : ℕ) : Prop where
  signaled : e.signalState = if owner = none then 1 else 0
  positive : owner ≠ none → 0 < recursion
  bounded : recursion < 2 ^ 32
  balance : ∀ tid, e.ledger.acquired tid + e.inFlight tid = e.ledger.surrendered tid +
    holds owner recursion tid

/-- What every step keeps of a synchronization event, before operation `k`. -/
def Entry.Shared (e : Entry) (k : ℕ) : Prop := ∀ op, e.share op ≤ 1 ∧ (k ≤ op → e.share op = 0)

/-- What is kept for each kind. -/
def Entry.Balanced (k : ℕ) (e : Entry) : Prop :=
  match e.kind with
  | .semaphore _ => e.Counted
  | .mutant owner recursion _ => e.Held owner recursion
  | .event .synchronizationEvent => e.Shared k
  | _ => True

lemma Entry.Held.ownedBy {owner : Option ℕ} {recursion : ℕ} (h : e.Held owner recursion) :
    e.OwnedBy owner recursion := by
  intro tid r hr
  have hb := h.balance tid
  rw [holds] at hb
  constructor
  · rintro ⟨rfl, rfl⟩
    rwa [if_pos rfl] at hb
  intro heq
  split at hb
  · next ho => exact ⟨ho, by omega⟩
  · omega

lemma Entry.Balanced.conserved (h : e.Balanced k) : e.Conserved := by
  rw [Balanced] at h
  rw [Conserved]
  split at h
  · exact h
  · exact h.ownedBy
  · intro op
    have hshare := (h op).1
    rw [share] at hshare
    omega
  · exact h

lemma Entry.Balanced.mono {k' : ℕ} (h : e.Balanced k) (hk : k ≤ k') : e.Balanced k' := by
  rw [Balanced] at h ⊢
  split at h
  · exact h
  · exact h
  · exact fun op => ⟨(h op).1, fun hop => (h op).2 (Nat.le_trans hk hop)⟩
  · exact h

lemma Entry.balanced_new {kind : Kind} {signal : ℤ} (hc : creatable kind signal)
    (hs : 0 ≤ signal) (k : ℕ) : (Entry.new kind signal).Balanced k := by
  rcases kind with (_ | _) | ⟨owner, recursion, abandoned⟩ | - | _
  · trivial
  · intro op
    simp only [creatable, decide_eq_true_eq] at hc
    simp [share, standing, won, new, hc]
  · simp only [creatable, decide_eq_true_eq] at hc
    obtain ⟨rfl, rfl, rfl, rfl⟩ := hc
    exact ⟨rfl, nofun, by decide, fun tid => rfl⟩
  · refine ⟨hs, ?_⟩
    simp [new, won]
  · trivial

lemma update_succ (f : ℕ → ℕ) (a x : ℕ) :
    update f a (f a + 1) x = f x + if a = x then 1 else 0 := by
  by_cases h : a = x
  · simp [← h]
  · rw [update_of_ne (Ne.symm h), if_neg h, Nat.add_zero]

/-- A wait takes the signal of an object that has one, and returns. -/
theorem Entry.Balanced.take (h : e.Balanced k) (hs : 0 < e.signalState) (tid : ℕ) :
    (e.take tid).Balanced k := by
  rcases e with ⟨(_ | _) | ⟨owner, recursion, abandoned⟩ | limit | _, _, _, _⟩
  · trivial
  · intro op
    have hop := h op
    simp only [share, standing, won, take, consumeSignal, credit, update_succ, Int.lt_irrefl,
      false_and, if_false] at hop hs ⊢
    simp only [hs, true_and] at hop
    omega
  · have hh : Held _ owner recursion := h
    have howner : owner = none := by
      by_contra hne
      have := hh.signaled
      rw [if_neg hne] at this
      omega
    subst howner
    refine ⟨rfl, fun _ => Nat.one_pos, by decide, fun t => ?_⟩
    have hb := hh.balance t
    simp only [holds, reduceCtorEq, if_false, Option.some.injEq, take, consumeSignal, credit,
      update_succ, inFlight, won]
      at hb ⊢
    omega
  · obtain ⟨hpos, hbal⟩ : Counted _ := h
    simp only [won] at hpos hbal hs
    constructor
    · simp only [take, consumeSignal, credit]
      omega
    · simp only [take, consumeSignal, credit, won]
      omega
  · trivial

lemma consumeSignal_consumeSignal (hk : ∀ limit, e.kind ≠ .semaphore limit) (tid : ℕ) :
    consumeSignal tid (consumeSignal tid e) = consumeSignal tid e := by
  rcases e with ⟨(_ | _) | _ | limit | _, _, _, _⟩
  · rfl
  · rfl
  · rfl
  · exact absurd rfl (hk limit)
  · rfl

/-- Taking a signal more often than once is the same as once, but for a semaphore. -/
lemma iterate_consumeSignal {n : ℕ} (hk : n = 1 ∨ ∀ limit, e.kind ≠ .semaphore limit) (hn : 0 < n)
    (tid : ℕ) : (consumeSignal tid)^[n] e = consumeSignal tid e := by
  rcases hk with rfl | hk
  · rfl
  induction n with
  | zero => exact absurd hn (Nat.lt_irrefl 0)
  | succ n ih =>
    rw [iterate_succ_apply']
    rcases Nat.eq_zero_or_pos n with rfl | hpos
    · rfl
    · rw [ih hpos, consumeSignal_consumeSignal hk]

lemma wrapU32_of_lt {x : ℕ} (hx : x < 2 ^ 32) : wrapU32 x = x := by
  rw [wrapU32]
  omega

lemma wrapU32_pred {x : ℕ} (hpos : 0 < x) (hx : x < 2 ^ 32) : wrapU32 (x - 1) = x - 1 := by
  rw [wrapU32]
  omega

/-- How often a thread has the mutant. -/
def Entry.depth (tid : ℕ) (e : Entry) : ℕ :=
  match e.kind with
  | .mutant owner recursion _ => holds owner recursion tid
  | _ => 0

/-- The recursion of a mutant that the thread owns can grow by one. -/
def Entry.Room (tid : ℕ) (e : Entry) : Prop := e.depth tid + 1 < 2 ^ 32

instance decidableRoom (tid : ℕ) (e : Entry) : Decidable (e.Room tid) :=
  inferInstanceAs (Decidable (e.depth tid + 1 < 2 ^ 32))

variable {tid : ℕ} {e' : Entry} {s : State}

lemma Entry.Balanced.acquireMutant (h : e.Balanced k) (hroom : e.Room tid) :
    (acquireMutant tid e).Balanced k := by
  rcases e with ⟨_ | ⟨_ | owner, recursion, abandoned⟩ | limit | _, signalState, _, _⟩
  · exact h
  · -- A mutant without an owner is signaled: this is what a wait does.
    have hh : Held _ none recursion := h
    have hs : signalState = 1 := hh.signaled
    exact h.take (by simp only [hs]; decide) tid
  · by_cases ho : owner = tid
    · subst ho
      have hh : Held _ (some owner) recursion := h
      have hlt : recursion + 1 < 2 ^ 32 := by simpa [Room, depth, holds] using hroom
      have hr : wrapU32 (recursion + 1) = recursion + 1 := wrapU32_of_lt hlt
      simp only [Ke.acquireMutant, if_true, Balanced, credit, hr]
      refine ⟨hh.signaled, fun _ => Nat.succ_pos _, hlt, fun t => ?_⟩
      have hb := hh.balance t
      simp only [holds, Option.some.injEq, update_succ, inFlight, won] at hb ⊢
      split_ifs at hb ⊢ <;> omega
    · simpa only [Ke.acquireMutant, if_neg ho] using h
  · exact h
  · exact h

lemma Entry.Balanced.resetEvent (h : e.Balanced k) : (resetEvent e).Balanced k := by
  rcases e with ⟨(_ | _) | _ | _ | _, _, _, _⟩
  · trivial
  · intro op
    have hop := h op
    simp only [share, standing, won, Ke.resetEvent, Int.lt_irrefl, false_and, if_false] at hop ⊢
    omega
  · exact h
  · exact h
  · exact h

lemma Entry.Balanced.setTimer (h : e.Balanced k) : (setTimer e).Balanced k := by
  rcases e with ⟨(_ | _) | _ | _ | _, _, _, _⟩ <;> exact h

/-! ### Signals -/

lemma wrapI32_of_lt {x : ℤ} (hpos : 0 ≤ x) (hx : x < 2 ^ 31) : wrapI32 x = x := by
  rw [wrapI32, Int.bmod]
  omega

/-- It is a semaphore. -/
def Entry.isSemaphore (e : Entry) : Bool :=
  match e.kind with
  | .semaphore _ => true
  | _ => false

/-- It is a synchronization event. -/
def Entry.isSynchronization (e : Entry) : Bool :=
  match e.kind with
  | .event .synchronizationEvent => true
  | _ => false

/-- The operation stays within the numbers it is made for: the count of a semaphore neither wraps
around nor falls below zero, and a pulse of a synchronization event finds at most one waiter. -/
def Signal.Legal (e : Entry) : Signal → Prop
  | pulseEvent => e.isSynchronization → (unsatisfied e.waitList).length ≤ 1
  | releaseSemaphore adjustment =>
    e.isSemaphore → 0 ≤ e.signalState + adjustment ∧ e.signalState + adjustment < 2 ^ 31
  | _ => True

instance decidableLegal (e : Entry) (op : Signal) : Decidable (op.Legal e) := by
  cases op <;> dsimp only [Signal.Legal] <;> infer_instance

/-- Operation `k` satisfies at most one block, and leaves a signal only if it satisfies none. -/
theorem Entry.Shared.signal {n : ℕ} (h : e.Shared k)
    (hn : ((unsatisfied e.waitList).take n).length ≤ 1) {signal : ℤ} {source : ℕ}
    (hsource : 0 < signal → source = k ∧ (unsatisfied e.waitList).take n = []) :
    Shared { e with
      signalState := signal
      waitList := satisfyFirst k n e.waitList
      ledger := { e.ledger with source := source } } (k + 1) := by
  intro op
  have hop := h op
  have hwon := countP_satisfyFirst k n e.waitList fun _ cause => cause = op
  simp only [share, standing, won] at hop ⊢
  rw [hwon]
  by_cases hk : op = k
  · subst hk
    have hlen : ((unsatisfied e.waitList).take n).countP (fun _ => decide (op = op)) =
        ((unsatisfied e.waitList).take n).length := by simp
    rw [hlen]
    refine ⟨?_, fun hlt => absurd hlt (by omega)⟩
    split
    · next hs =>
      rw [(hsource hs.1).2, length_nil]
      omega
    · omega
  have hnone : ((unsatisfied e.waitList).take n).countP (fun _ => decide (k = op)) = 0 := by
    simp [Ne.symm hk]
  have hsig : ¬ (0 < signal ∧ source = op) := fun hs => hk ((hs.2.symm.trans (hsource hs.1).1))
  rw [hnone, if_neg hsig]
  omega

section

variable (h : e.Balanced k)

include h

lemma Entry.Balanced.setEvent : (setEvent k e).Balanced (k + 1) := by
  rcases e with ⟨(_ | _) | _ | _ | _, _, _, _⟩
  · trivial
  · refine Shared.signal h ?_ fun hs => ?_
    · rw [length_take]
      omega
    split at hs
    · next hu => exact ⟨rfl, by simp [hu]⟩
    · exact absurd hs (Int.lt_irrefl 0)
  · exact h
  · exact h
  · exact h

lemma Entry.Balanced.pulseEvent (hl : Signal.Legal e .pulseEvent) :
    (pulseEvent k e).Balanced (k + 1) := by
  rcases e with ⟨(_ | _) | _ | _ | _, _, _, _⟩
  · trivial
  · refine Shared.signal h ?_ fun hs => ?_
    · rw [length_take]
      exact Nat.le_trans (Nat.min_le_right _ _) (hl rfl)
    · exact absurd hs (Int.lt_irrefl 0)
  · exact h
  · exact h
  · exact h

lemma Entry.Balanced.releaseSemaphore {adjustment : ℤ}
    (hl : Signal.Legal e (.releaseSemaphore adjustment)) :
    (releaseSemaphore k adjustment e).Balanced (k + 1) := by
  rcases e with ⟨(_ | _) | _ | limit | _, signalState, waitList, ledger⟩
  · exact h
  · exact h.mono (Nat.le_succ k)
  · exact h
  · have hnew : newCount adjustment ⟨.semaphore limit, signalState, waitList, ledger⟩ =
        signalState + adjustment :=
      wrapI32_of_lt (hl rfl).1 (hl rfl).2
    simp only [Ke.releaseSemaphore, hnew]
    split
    · exact h
    obtain ⟨-, hbal⟩ : Counted _ := h
    have hwon := countP_satisfyFirst k (signalState + adjustment).toNat waitList fun _ _ => true
    have hall : ((unsatisfied waitList).take (signalState + adjustment).toNat).countP
      (fun _ => true) =
        min (signalState + adjustment).toNat (unsatisfied waitList).length := by
      simp
    have hsum : 0 ≤ signalState + adjustment := (hl rfl).1
    constructor
    · dsimp only
      omega
    · simp only [won] at hbal ⊢
      omega
  · exact h

omit h in
/-- A release by the owner: what it gives up is held by nobody or by a waiter whose block is now
satisfied. -/
lemma Entry.Held.surrender {recursion : ℕ} (h : e.Held (some tid) recursion)
    (hledger : e'.ledger = e.ledger) {owner' : Option ℕ} {recursion' : ℕ}
    (hs : e'.signalState = if owner' = none then 1 else 0) (hpos : owner' ≠ none → 0 < recursion')
    (hlt : recursion' < 2 ^ 32) (hflow : ∀ t, e'.inFlight t + holds (some tid) recursion t =
      e.inFlight t + holds owner' recursion' t + if t = tid then 1 else 0) :
        (e'.surrender tid).Held owner' recursion' := by
  refine ⟨hs, hpos, hlt, fun t => ?_⟩
  have hb := h.balance t
  have hf := hflow t
  have hflight : (e'.surrender tid).inFlight t = e'.inFlight t := rfl
  simp only [Entry.surrender, hledger] at hflight ⊢
  rw [hflight, update_succ]
  split_ifs at hf ⊢ <;> omega

lemma Entry.Balanced.releaseMutant (tid : ℕ) : (releaseMutant k tid e).Balanced (k + 1) := by
  rcases e with ⟨(_ | _) | ⟨_ | owner, recursion, abandoned⟩ | limit | _, _, waitList, _⟩
  · exact h
  · exact h.mono (Nat.le_succ k)
  · exact h
  · have hh : Held _ (some owner) recursion := h
    have hpos : 0 < recursion := hh.positive nofun
    have hbound := hh.bounded
    have hr : wrapU32 (recursion - 1) = recursion - 1 := wrapU32_pred hpos hbound
    simp only [Ke.releaseMutant, hr]
    by_cases ho : owner = tid
    · subst ho
      rw [if_neg (not_not_intro rfl)]
      by_cases hz : recursion - 1 = 0
      · obtain rfl : recursion = 1 := by omega
        rw [if_neg (not_not_intro hz)]
        split
        · refine hh.surrender ?_ ?_ (fun hne => absurd rfl hne) (by decide) fun t => ?_
          · rfl
          · rfl
          simp [holds, eq_comm, inFlight, won]
        next b l hu =>
        refine hh.surrender ?_ ?_ (fun _ => Nat.one_pos) (by decide) fun t => ?_
        · rfl
        · rfl
        have hwon := countP_satisfyFirst k 1 waitList fun t' _ => t' = t
        simp only [inFlight, won, holds, Option.some.injEq]
        rw [hwon, show unsatisfied waitList = b :: l from hu]
        simp [countP_cons, eq_comm]
      rw [if_pos hz]
      refine hh.surrender ?_ ?_ (fun _ => by omega) (by omega) fun t => ?_
      · rfl
      · exact hh.signaled
      simp only [holds, Option.some.injEq, inFlight, won, eq_comm]
      split <;> omega
    · rw [if_pos ho]
      exact h
  · exact h
  · exact h

theorem Entry.Balanced.signal {op : Signal} (hl : op.Legal e) :
    (op.apply k e).Balanced (k + 1) := by
  cases op with
  | setEvent => exact h.setEvent
  | pulseEvent => exact h.pulseEvent hl
  | releaseSemaphore adjustment => exact h.releaseSemaphore hl
  | releaseMutant tid => exact h.releaseMutant tid
  | timer =>
    rcases e with ⟨(_ | _) | _ | _ | _, _, _, _⟩ <;> exact h.mono (Nat.le_succ k)

/-! ### Blocks come and go -/

omit h in
lemma won_append (e : Entry) {l : List WaitBlock} (hl : ∀ b ∈ l, b.satisfied = false)
    (p : ℕ → ℕ → Bool) : (e.append l).won p = e.won p := by
  rw [Entry.won, append, countP_append, ← Entry.won, countP_eq_zero.mpr, Nat.add_zero]
  intro b hb
  simp [hl b hb]

/-- What is in the books depends on the wait list through the satisfied blocks only. -/
lemma Entry.Balanced.of_won (hkind : e'.kind = e.kind) (hsignal : e'.signalState = e.signalState)
    (hledger : e'.ledger = e.ledger) (hwon : ∀ p, e'.won p = e.won p) : e'.Balanced k := by
  rcases e with ⟨(_ | _) | ⟨owner, recursion, abandoned⟩ | limit | _, _, _, _⟩
  · simp [Balanced, hkind]
  · simp only [Balanced, hkind, Shared, share, standing, hwon, hsignal, hledger] at h ⊢
    exact h
  · have hh : Held _ owner recursion := h
    simp only [Balanced, hkind]
    refine ⟨hsignal.trans hh.signaled, hh.positive, hh.bounded, fun tid => ?_⟩
    rw [hledger, inFlight, hwon]
    exact hh.balance tid
  · simp only [Balanced, hkind, Counted, hwon, hsignal, hledger] at h ⊢
    exact h
  · simp [Balanced, hkind]

end

/-- The satisfied blocks of a thread are all that its blocks mean to the books. -/
lemma won_eq_won_dropBlocks_add (e : Entry) (tid : ℕ) (p : ℕ → ℕ → Bool) :
    e.won p = (e.dropBlocks tid).won p +
      ((e.waitList.filter fun b => b.satisfied && b.threadId = tid).countP fun b =>
        p b.threadId b.cause) := by
  rw [Entry.won, countP_eq_countP_filter_add e.waitList _ fun b => b.threadId ≠ tid]
  congr 1
  rw [countP_filter, countP_filter]
  refine countP_congr fun b _ => ?_
  simp only [Bool.and_eq_true, decide_eq_true_eq, ne_eq, decide_not, Bool.not_not]
  constructor
  · rintro ⟨⟨hs, hp⟩, ht⟩
    exact ⟨hp, hs, ht⟩
  · rintro ⟨hp, hs, ht⟩
    exact ⟨⟨hs, hp⟩, ht⟩

lemma won_dropBlocks (h : e.inFlight tid = 0) (p : ℕ → ℕ → Bool) :
    (e.dropBlocks tid).won p = e.won p := by
  have hnone : (e.waitList.filter fun b => b.satisfied && b.threadId = tid) = [] :=
    filter_eq_nil_iff.mpr (countP_eq_zero.mp h)
  simp [won_eq_won_dropBlocks_add e tid p, hnone]

lemma won_dropBlocks_add (h : e.inFlight tid = 1) {b : WaitBlock} (hb : b ∈ e.waitList)
    (ht : b.threadId = tid) (hs : b.satisfied) (p : ℕ → ℕ → Bool) :
    e.won p = (e.dropBlocks tid).won p + if p tid b.cause then 1 else 0 := by
  have hmem : b ∈ e.waitList.filter fun b =>
      b.satisfied && b.threadId = tid := mem_filter.mpr ⟨hb, by simp [hs, ht]⟩
  have hlen : (e.waitList.filter fun b => b.satisfied && b.threadId = tid).length = 1 :=
    countP_eq_length_filter.symm.trans h
  obtain ⟨b', hb'⟩ := length_eq_one_iff.mp hlen
  rw [hb', mem_singleton] at hmem
  simp [won_eq_won_dropBlocks_add e tid p, hb', ← hmem, ht]

/-- A wait returns with the one signal that was taken on its behalf. -/
theorem Entry.Balanced.collect (h : e.Balanced k) (hone : e.inFlight tid = 1)
    {b : WaitBlock} (hb : b ∈ e.waitList) (ht : b.threadId = tid) (hs : b.satisfied) :
    ((e.dropBlocks tid).credit tid b.cause).Balanced k := by
  have hwon := won_dropBlocks_add hone hb ht hs
  rcases e with ⟨(_ | _) | ⟨owner, recursion, abandoned⟩ | limit | _, _, _, _⟩
  · trivial
  · intro op
    have hop := h op
    have hw := hwon fun _ cause => cause = op
    simp only [decide_eq_true_eq] at hw
    have hreturned : ∀ e : Entry, (e.credit tid b.cause).ledger.returnedBy op =
        e.ledger.returnedBy op + if b.cause = op then 1 else 0 := fun e => update_succ ..
    have hshare : ∀ e : Entry, ((e.dropBlocks tid).credit tid b.cause).share op =
      e.ledger.returnedBy op +
        (if b.cause = op then 1 else 0) + (e.dropBlocks tid).won (fun _ cause => cause = op) +
          e.standing op :=
      fun e => by rw [share, hreturned]; rfl
    rw [share, hw] at hop
    rw [hshare]
    omega
  · have hh : Held _ owner recursion := h
    refine ⟨hh.signaled, hh.positive, hh.bounded, fun t => ?_⟩
    have hbal := hh.balance t
    rw [inFlight, hwon] at hbal
    simp only [credit, update_succ, dropBlocks, inFlight, won, decide_eq_true_eq] at hbal ⊢
    omega
  · obtain ⟨hpos, hbal⟩ : Counted _ := h
    refine ⟨hpos, ?_⟩
    rw [hwon] at hbal
    simp only [credit, dropBlocks, won, if_true] at hbal ⊢
    omega
  · trivial

/-! ### All objects -/

/-- No semaphore is listed twice. -/
def Single (s : State) (ids : List ℕ) : Prop :=
  ∀ id ∈ ids, ids.count id ≤ 1 ∨ (id < s.nextId ∧ ∀ e ∈ s.objects id, e.isSemaphore = false)

/-- What trying the objects asks for: that a mutant can be taken once more, and that no semaphore is
asked twice. -/
def Tryable (s : State) (tid : ℕ) : Request → Prop
  | .single id => ∀ e ∈ s.objects id, e.Room tid
  | .any _ => True
  | .all ids => Single s ids

/-- A step keeps to what the objects can account for. A signal in particular satisfies no block of a
thread that already has a satisfied one. -/
def Fair (s : State) : Event → Prop
  | .create _ signal => 0 ≤ signal
  | .acquireMutant id tid => ∀ e ∈ s.objects id, e.Room tid
  | .wait tid w => Tryable s tid w.request
  | .signal id op =>
    ∀ e ∈ s.objects id, op.Legal e ∧ ∀ n ∈ op.wakes e,
      (((unsatisfied e.waitList).take n).map WaitBlock.threadId).Nodup ∧
        ∀ b ∈ (unsatisfied e.waitList).take n,
          ∀ id' < s.nextId, ∀ e' ∈ s.objects id', e'.inFlight b.threadId = 0
  | _ => True

instance decidableSingle (s : State) (ids : List ℕ) : Decidable (Single s ids) := by
  dsimp only [Single]
  infer_instance

instance decidableTryable (s : State) (tid : ℕ) (request : Request) :
    Decidable (Tryable s tid request) := by
  cases request <;> dsimp only [Tryable] <;> infer_instance

instance decidableFair (s : State) (ev : Event) : Decidable (Fair s ev) := by
  cases ev <;> dsimp only [Fair] <;> infer_instance

/-- The `WaitAll` that a thread keeps trying. -/
def Phase.repeating : Phase → Option Wait
  | trying w | dozing w | asleep w => some w
  | _ => none

/-- What holds in every state. -/
structure Settled (s : State) : Prop where
  tidy : Tidy s
  balanced : ∀ id e, s.objects id = some e → e.Balanced s.nextOp
  /-- No thread has two satisfied blocks. -/
  atMostOne : ∀ tid id e, s.objects id = some e → e.inFlight tid ≤ 1
  oneObject : ∀ tid id e id' e', s.objects id = some e → s.objects id' = some e' →
    0 < e.inFlight tid → 0 < e'.inFlight tid → id = id'
  single : ∀ tid, ∀ w ∈ (s.threads tid).repeating, Single s w.request.ids
  all : ∀ tid, ∀ w ∈ (s.threads tid).repeating, w.request.isAll = true

lemma settled_boot (n : ℕ) : Settled (boot n) where
  tidy := tidy_boot n
  balanced := fun _ _ he => by cases he
  atMostOne := fun _ _ _ he => by cases he
  oneObject := fun _ _ _ _ _ he => by cases he
  single := fun _ _ hw => by cases hw
  all := fun _ _ hw => by cases hw

lemma Settled.conserved (h : Settled s) :
    Conserved s := fun id e he => (h.balanced id e he).conserved

/-- A change of an object that satisfies no block and keeps its books. -/
structure Entry.Keeps (k : ℕ) (e e' : Entry) : Prop where
  balanced : e.Balanced k → e'.Balanced k
  inFlight : ∀ tid, e'.inFlight tid ≤ e.inFlight tid
  isSemaphore : e'.isSemaphore = e.isSemaphore

lemma Entry.Keeps.refl (k : ℕ) (e : Entry) : e.Keeps k e := ⟨id, fun _ => Nat.le_refl _, rfl⟩

lemma Entry.inFlight_of_waitList (h : e'.waitList = e.waitList) (tid : ℕ) :
    e'.inFlight tid = e.inFlight tid := by
  rw [inFlight, won, h]
  rfl

lemma isSemaphore_take (tid : ℕ) (e : Entry) : (e.take tid).isSemaphore = e.isSemaphore := by
  rcases e with ⟨(_ | _) | _ | _ | _, -, -, -⟩ <;> rfl

lemma Entry.Keeps.of_waitList (hbalanced : e.Balanced k → e'.Balanced k)
    (hlist : e'.waitList = e.waitList) (hsemaphore : e'.isSemaphore = e.isSemaphore) :
    e.Keeps k e' :=
  ⟨hbalanced, fun tid => Nat.le_of_eq (inFlight_of_waitList hlist tid), hsemaphore⟩

lemma keeps_take (hs : 0 < e.signalState) (k tid : ℕ) : e.Keeps k (e.take tid) :=
  .of_waitList (fun h => h.take hs tid) (calm_consumeSignal tid e).1 (isSemaphore_take tid e)

lemma keeps_acquireMutant (hroom : e.Room tid) (k : ℕ) : e.Keeps k (acquireMutant tid e) := by
  refine .of_waitList (fun h => h.acquireMutant hroom) (calm_acquireMutant tid e).1 ?_
  rcases e with ⟨_ | ⟨_ | -, -, -⟩ | _ | _, -, -, -⟩
  · rfl
  · rfl
  · rw [acquireMutant]
    dsimp only
    split <;> rfl
  · rfl
  · rfl

/-- Every object comes from one that was there. -/
def Registry.Keeps (k : ℕ) (reg reg' : Registry) : Prop :=
  ∀ id e', reg' id = some e' → ∃ e, reg id = some e ∧ e.Keeps k e'

lemma Registry.Keeps.refl (k : ℕ) (reg : Registry) :
    reg.Keeps k reg := fun _ e he => ⟨e, he, .refl k e⟩

lemma Registry.keeps_modify (reg : Registry) (id : ℕ) {f : Entry → Entry}
    (hf : ∀ e, reg id = some e → e.Keeps k (f e)) : Registry.Keeps k reg (reg.modify id f) :=
  fun _ _ => of_modify (.refl k) hf

lemma keeps_modify_take (he : s.objects k = some e) (hs : 0 < e.signalState) (op tid : ℕ) :
    s.objects.Keeps op (s.objects.modify k (take tid)) := by
  refine s.objects.keeps_modify k fun e' he' => ?_
  obtain rfl := some.inj (he.symm.trans he')
  exact keeps_take hs op tid

lemma keeps_trySatisfyAll {ids : List ℕ} (hids : Single s ids) (k tid : ℕ) :
    s.objects.Keeps k (trySatisfyAll tid ids s.objects).1 := by
  rw [trySatisfyAll]
  split
  · next hnone =>
    intro id e' he'
    simp only [creditAll, consumeAll_apply] at he'
    split at he'
    · next hid =>
      rw [Option.map_map, Option.map_eq_some_iff] at he'
      obtain ⟨e, he, rfl⟩ := he'
      obtain ⟨e₀, he0, hs⟩ := obstacle_eq_none hnone id hid
      obtain rfl := some.inj (he0.symm.trans he)
      have hpos : 0 < ids.count id := count_pos_iff.mpr hid
      have hk : ids.count id = 1 ∨ ∀ limit, e₀.kind ≠ .semaphore limit := by
        rcases hids id hid with hle | ⟨-, hnot⟩
        · exact .inl (by omega)
        refine .inr fun limit hk => ?_
        have := hnot e₀ he
        rw [Entry.isSemaphore, hk] at this
        cases this
      refine ⟨e₀, he, ?_⟩
      rw [comp_apply, iterate_consumeSignal hk hpos]
      have hledger : (consumeSignal tid e₀).ledger = e₀.ledger := by
        rw [consumeSignal]
        split <;> rfl
      rw [hledger]
      exact keeps_take hs k tid
    next hid =>
    rw [count_eq_zero.mpr hid] at he'
    obtain ⟨e, he, rfl⟩ := Option.map_eq_some_iff.mp he'
    exact ⟨e, he, .refl k e⟩
  · exact .refl k s.objects

lemma keeps_trySatisfy {request : Request} (h : Tryable s tid request) (k : ℕ) :
    s.objects.Keeps k (request.trySatisfy tid s.objects).1 := by
  cases request with
  | single id =>
    rw [Request.trySatisfy]
    rcases trySatisfySingle_cases tid id s.objects
      with ⟨e, he, hs, hr⟩ | ⟨e, -, -, he, -, hr⟩ | ⟨hr, -⟩
    · rw [hr]
      exact keeps_modify_take he hs k tid
    · rw [hr]
      exact s.objects.keeps_modify id fun e' he' => keeps_acquireMutant (h e' he') k
    · rw [hr]
      exact .refl k s.objects
  | any ids =>
    rw [Request.trySatisfy]
    rcases trySatisfyAny_cases tid 0 ids s.objects with ⟨id, -, e, he, hs, hr, -⟩ | ⟨hr, -⟩
    · rw [hr]
      exact keeps_modify_take he hs k tid
    · rw [hr]
      exact .refl k s.objects
  | all ids => exact keeps_trySatisfyAll h k tid

lemma Signal.isSemaphore_apply (op : Signal) (k : ℕ) (e : Entry) :
    (op.apply k e).isSemaphore = e.isSemaphore := by
  obtain ⟨kind, -, -, -⟩ := e
  cases op with
  | setEvent => rcases kind with (_ | _) | _ | _ | _ <;> rfl
  | pulseEvent | timer => rcases kind with _ | _ | _ | _ <;> rfl
  | releaseSemaphore adjustment =>
    rcases kind with _ | _ | - | _
    · rfl
    · rfl
    · simp only [apply, Ke.releaseSemaphore]
      split <;> rfl
    · rfl
  | releaseMutant tid =>
    rcases kind with _ | ⟨_ | -, -, -⟩ | _ | _
    · rfl
    · rfl
    · simp only [apply, Ke.releaseMutant]
      split
      · rfl
      split
      · rfl
      · split <;> rfl
    · rfl
    · rfl

lemma Phase.mem_repeating_of_wake {threads : ℕ → Phase} {c : Bool} {w : Wait}
    (h : w ∈ ((if c then wakeBlockedWaiters e threads else threads) tid).repeating) :
    w ∈ (threads tid).repeating := by
  split at h
  · rw [wakeBlockedWaiters] at h
    split at h
    · cases hp : threads tid <;> rw [hp] at h <;> exact h
    · exact h
  · exact h

namespace Settled

variable {s s' : State} {tid : ℕ} (h : Settled s)

include h

/-- A step that satisfies no block: the objects keep their books, and every wait that is being
repeated still may be. -/
lemma keep (htidy : Tidy s') (hobjects : s.objects.Keeps s.nextOp s'.objects)
    (hid : s'.nextId = s.nextId) (hop : s'.nextOp = s.nextOp)
    (hrep : ∀ tid, ∀ w ∈ (s'.threads tid).repeating, Single s w.request.ids ∧ w.request.isAll) :
    Settled s' where
  tidy := htidy
  balanced := fun id e' he' => by
    obtain ⟨e, he, hk⟩ := hobjects id e' he'
    rw [hop]
    exact hk.balanced (h.balanced id e he)
  atMostOne := fun tid id e' he' => by
    obtain ⟨e, he, hk⟩ := hobjects id e' he'
    exact Nat.le_trans (hk.inFlight tid) (h.atMostOne tid id e he)
  oneObject := fun tid id₁ e₁ id₂ e₂ he1 he2 h1 h2 => by
    obtain ⟨e₁', he₁', hk1⟩ := hobjects id₁ e₁ he1
    obtain ⟨e₂', he₂', hk2⟩ := hobjects id₂ e₂ he2
    exact h.oneObject tid id₁ e₁' id₂ e₂' he₁' he₂' (Nat.lt_of_lt_of_le h1 (hk1.inFlight tid))
      (Nat.lt_of_lt_of_le h2 (hk2.inFlight tid))
  single := fun tid w hw id hmem => by
    rcases (hrep tid w hw).1 id hmem with hle | ⟨hlt, hnot⟩
    · exact .inl hle
    refine .inr ⟨hid ▸ hlt, fun e' he' => ?_⟩
    obtain ⟨e, he, hk⟩ := hobjects id e' he'
    exact hk.isSemaphore.trans (hnot e he)
  all := fun tid w hw => (hrep tid w hw).2

lemma move {reg : Registry} {p : Phase} (htidy : Tidy ({ s with objects := reg }.setThread tid p))
    (hobjects : s.objects.Keeps s.nextOp reg)
    (hp : ∀ w ∈ p.repeating, Single s w.request.ids ∧ w.request.isAll) :
    Settled ({ s with objects := reg }.setThread tid p) := by
  refine h.keep htidy hobjects rfl rfl fun t w hw => ?_
  by_cases ht : t = tid
  · subst ht
    exact hp w (by simpa [State.setThread] using hw)
  · have hw : w ∈ (s.threads t).repeating := by simpa [State.setThread, ht] using hw
    exact ⟨h.single t w hw, h.all t w hw⟩

lemma modify (id : ℕ) {f : Entry → Entry} (htidy : Tidy (s.modify id f))
    (hf : ∀ e, s.objects id = some e → e.Keeps s.nextOp (f e)) : Settled (s.modify id f) :=
  h.keep htidy (s.objects.keeps_modify id hf) rfl rfl fun t w hw => ⟨h.single t w hw, h.all t w hw⟩

omit h in
/-- A signal satisfies no block of a thread, or the only one the thread then has. -/
lemma inFlight_signal {id : ℕ} {op : Signal} (htidy : Tidy s)
    (hok : Fair s (.signal id op)) {e : Entry} (he : s.objects id = some e) (tid : ℕ) :
    (op.apply s.nextOp e).inFlight tid = e.inFlight tid ∨
      ((op.apply s.nextOp e).inFlight tid ≤ 1 ∧
        ∀ id' e', s.objects id' = some e' → e'.inFlight tid = 0) := by
  cases hwakes : op.wakes e with
  | none => exact .inl (inFlight_of_waitList (op.apply_of_wakes_none hwakes s.nextOp).1 tid)
  | some n =>
    obtain ⟨hnodup, hfree⟩ := (hok e he).2 n hwakes
    have hflight : (op.apply s.nextOp e).inFlight tid =
        e.inFlight tid + ((unsatisfied e.waitList).take n).countP fun b => b.threadId = tid := by
      rw [Entry.inFlight, Entry.won, (op.apply_of_wakes hwakes s.nextOp).1]
      exact countP_satisfyFirst s.nextOp n e.waitList fun t _ => t = tid
    by_cases hchosen : ∃ b ∈ (unsatisfied e.waitList).take n, b.threadId = tid
    · obtain ⟨b, hb, rfl⟩ := hchosen
      have hzero : ∀ id' e', s.objects id' = some e' →
          e'.inFlight b.threadId = 0 := fun id' e' he' =>
        hfree b hb id' (htidy.fresh id' e' he') e' he'
      have hcount := nodup_iff_count_le_one.mp hnodup b.threadId
      rw [List.count, countP_map] at hcount
      refine .inr ⟨?_, hzero⟩
      rw [hflight, hzero id e he, Nat.zero_add]
      exact hcount
    refine .inl ?_
    rw [hflight, countP_eq_zero.mpr, Nat.add_zero]
    exact fun b hb ht => hchosen ⟨b, hb, of_decide_eq_true ht⟩

theorem signal {id : ℕ} {op : Signal} (hok : Fair s (.signal id op)) :
    Settled (s.signal id op) := by
  have htidy := h.tidy.signal id op
  rw [State.signal] at htidy ⊢
  cases he : s.objects id with
  | none => simpa only [he] using h
  | some e =>
    simp only [he] at htidy ⊢
    have hflight := inFlight_signal h.tidy hok he
    -- A thread with a block satisfied elsewhere had no block satisfied here.
    have hother : ∀ t id' e', id' ≠ id → s.objects id' = some e' →
      0 < (op.apply s.nextOp e).inFlight t →
        e'.inFlight t = 0 := by
      intro t id' e' hne he' hpos
      rcases hflight t with heq | ⟨-, hzero⟩
      · by_contra hpos'
        exact hne (h.oneObject t id' e' id e he' he (Nat.pos_of_ne_zero hpos') (heq ▸ hpos))
      · exact hzero id' e' he'
    refine ⟨htidy, fun id' e' he' => ?_, fun t id' e' he' => ?_,
      fun t id₁ e₁ id₂ e₂ he1 he2 h1 h2 => ?_,
      fun t w hw id' hid' => ?_, fun t w hw => ?_⟩
    · rcases Registry.modify_cases he he' with ⟨rfl, rfl⟩ | ⟨-, he'⟩
      · exact (h.balanced id' e he).signal (hok e he).1
      · exact (h.balanced id' e' he').mono (Nat.le_succ _)
    · rcases Registry.modify_cases he he' with ⟨rfl, rfl⟩ | ⟨-, he'⟩
      · rcases hflight t with heq | ⟨hle, -⟩
        · exact heq ▸ h.atMostOne t id' e he
        · exact hle
      · exact h.atMostOne t id' e' he'
    · rcases Registry.modify_cases he he1 with ⟨hid1, rfl⟩ | ⟨hne1, hold1⟩
      · rcases Registry.modify_cases he he2 with ⟨hid2, -⟩ | ⟨hne2, hold2⟩
        · omega
        · rw [hother t id₂ e₂ hne2 hold2 h1] at h2
          exact absurd h2 (Nat.lt_irrefl 0)
      rcases Registry.modify_cases he he2 with ⟨-, rfl⟩ | ⟨-, hold2⟩
      · rw [hother t id₁ e₁ hne1 hold1 h2] at h1
        exact absurd h1 (Nat.lt_irrefl 0)
      · exact h.oneObject t id₁ e₁ id₂ e₂ hold1 hold2 h1 h2
    · rcases h.single t w (Phase.mem_repeating_of_wake hw) id' hid' with hle | ⟨hlt, hnot⟩
      · exact .inl hle
      refine .inr ⟨hlt, fun e' he' => ?_⟩
      rcases Registry.modify_cases he he' with ⟨rfl, rfl⟩ | ⟨-, he'⟩
      · exact (op.isSemaphore_apply s.nextOp e).trans (hnot e he)
      · exact hnot e' he'
    · exact h.all t w (Phase.mem_repeating_of_wake hw)

lemma create {kind : Kind} {signal : ℤ} (hc : creatable kind signal)
    (hok : Fair s (.create kind signal)) :
    Settled { s with
      objects := update s.objects s.nextId (some (Entry.new kind signal))
      nextId := s.nextId + 1 } := by
  refine ⟨h.tidy.create kind signal, fun id e he => ?_, fun t id e he => ?_,
    fun t id₁ e₁ id₂ e₂ he1 he2 h1 h2 => ?_, fun t w hw id hid => ?_, h.all⟩
  · rcases eq_some_of_update he with ⟨-, rfl⟩ | ⟨-, hold⟩
    · exact balanced_new hc hok _
    · exact h.balanced id e hold
  · rcases eq_some_of_update he with ⟨-, rfl⟩ | ⟨-, hold⟩
    · exact Nat.zero_le 1
    · exact h.atMostOne t id e hold
  · rcases eq_some_of_update he1 with ⟨-, rfl⟩ | ⟨-, hold1⟩
    · exact absurd h1 (Nat.lt_irrefl 0)
    rcases eq_some_of_update he2 with ⟨-, rfl⟩ | ⟨-, hold2⟩
    · exact absurd h2 (Nat.lt_irrefl 0)
    · exact h.oneObject t id₁ e₁ id₂ e₂ hold1 hold2 h1 h2
  rcases h.single t w hw id hid with hle | ⟨hlt, hnot⟩
  · exact .inl hle
  refine .inr ⟨Nat.lt_succ_of_lt hlt, fun e he => ?_⟩
  rcases eq_some_of_update he with ⟨hnew, -⟩ | ⟨-, hold⟩
  · exact absurd hlt (by omega)
  · exact hnot e hold

lemma tryObjects {w : Wait} (hok : Tryable s tid w.request) {next : Phase}
    (htidy : Tidy (s.tryObjects tid w next))
    (hnext : ∀ w' ∈ next.repeating, Single s w'.request.ids ∧ w'.request.isAll) :
    Settled (s.tryObjects tid w next) := by
  refine h.move htidy (keeps_trySatisfy hok _) fun w' hw' => ?_
  split at hw'
  · cases hw'
  · exact hnext w' hw'

/-- The blocks of the thread go, and the wait is in the books of the object it returns with. -/
lemma keeps_collect {w : Wait} (hw : s.threads tid = .woken w) :
    s.objects.Keeps s.nextOp
      ((collect tid w.request.ids s.objects).2.elim (collect tid w.request.ids s.objects).1
      fun found =>
        (collect tid w.request.ids s.objects).1.modify found.1
          (Entry.credit tid found.2.cause)) := by
  intro id e' he'
  have hflight : ∀ (e : Entry) t, (e.dropBlocks tid).inFlight t ≤ e.inFlight t := fun e t => by
    have := won_eq_won_dropBlocks_add e tid fun t' _ => t' = t
    exact Nat.le_of_add_right_le (Nat.le_of_eq this.symm)
  obtain ⟨e, he, ⟨b, hfound, rfl⟩ | ⟨hnot, rfl⟩⟩ := h.tidy.collected hw he'
  · obtain ⟨e₀, he0, hb, ht, hs⟩ := of_collect_eq_some hfound
    obtain rfl := some.inj (he0.symm.trans he)
    have hpos : 0 < e₀.inFlight tid := countP_pos_iff.mpr ⟨b, hb, by simp [hs, ht]⟩
    have hone : e₀.inFlight tid = 1 := Nat.le_antisymm (h.atMostOne tid id e₀ he) hpos
    exact ⟨e₀, he, fun hbal => hbal.collect hone hb ht hs, hflight e₀, rfl⟩
  -- The block that was found, if any, is in another list, so none of those here is satisfied.
  have hzero : e.inFlight tid = 0 := by
    cases hr : (collect tid w.request.ids s.objects).2 with
    | none =>
      refine countP_eq_zero.mpr fun b hb hsat => ?_
      obtain ⟨hs, ht⟩ := Bool.and_eq_true_iff.mp hsat
      rw [of_collect_eq_none (h.tidy.names (by rw [hw]; rfl)) hr he hb (of_decide_eq_true ht)] at hs
      cases hs
    | some found =>
      obtain ⟨id', b⟩ := found
      obtain ⟨e', he', hb, ht, hs⟩ := of_collect_eq_some hr
      have hpos : 0 < e'.inFlight tid := countP_pos_iff.mpr ⟨b, hb, by simp [hs, ht]⟩
      by_contra hne
      obtain rfl := h.oneObject tid id e id' e' he he' (by omega) hpos
      exact hnot b hr
  exact ⟨e, he, fun hbal => hbal.of_won rfl rfl rfl (won_dropBlocks hzero), hflight e, rfl⟩

lemma advance {expired : Bool} (hs : s.advance tid expired = some s') : Settled s' := by
  have htidy := h.tidy.advance hs
  have hrep : ∀ {p}, s.threads tid = p →
      ∀ w ∈ p.repeating, Single s w.request.ids ∧ w.request.isAll :=
    fun hp w hw => ⟨h.single tid w (hp ▸ hw), h.all tid w (hp ▸ hw)⟩
  rw [State.advance] at hs
  split at hs
  · next w hw =>
    have hidle : (s.threads tid).enrolled = [] := by rw [hw]; rfl
    cases hs
    rcases h.tidy.inserted hidle w.request.ids with ⟨hok, hreg⟩ | ⟨hfail, hreg⟩
    · rw [hok, hreg] at htidy ⊢
      refine h.move htidy (fun id e' he' => ?_) (by rintro _ ⟨⟩)
      obtain ⟨e, he, rfl⟩ := Option.map_eq_some_iff.mp he'
      have hwon :=
        fun p => won_append e (fun b (hb : b ∈ blocksFor tid id 0 w.request.ids) =>
          (of_mem_blocksFor hb).2) p
      exact ⟨e, he, fun hbal => hbal.of_won rfl rfl rfl hwon, fun t => Nat.le_of_eq (hwon _), rfl⟩
    · rw [hfail, hreg] at htidy ⊢
      exact h.move htidy (.refl _ _) (by rintro _ ⟨⟩)
  · cases hs
    exact h.move htidy (.refl _ _) (by rintro _ ⟨⟩)
  · next w hw =>
    cases hs
    exact h.move htidy (h.keeps_collect hw) (by rintro _ ⟨⟩)
  · next w hw =>
    obtain ⟨hsingle, hall⟩ := hrep hw w rfl
    cases hs
    refine h.tryObjects ?_ htidy fun w' hw' => ?_
    · cases hr : w.request with
      | single id => rw [hr] at hall; cases hall
      | any ids => trivial
      | all ids => rw [hr] at hsingle; exact hsingle
    split at hw'
    · cases hw'
    · obtain rfl := some.inj hw'
      exact ⟨hsingle, hall⟩
  · next w hw =>
    cases hs
    refine h.move htidy (.refl _ _) fun w' hw' => ?_
    obtain rfl := some.inj hw'
    exact hrep hw w rfl
  · cases hs

end Settled

lemma Wait.of_mem_repeating_next (w : Wait) {w' : Wait} (h : w' ∈ w.next.repeating) :
    w' = w ∧ w.request.isAll := by
  rw [next] at h
  split at h
  · cases h
  split at h
  · next ha => exact ⟨(some.inj h).symm, ha⟩
  · cases h

theorem step_settled {s' : State} {ev : Event} (h : Settled s) (hok : Fair s ev)
    (hs : step s ev = some s') : Settled s' := by
  have htidy := step_tidy h.tidy hs
  cases ev with
  | create kind signal =>
    obtain ⟨hc, rfl⟩ := of_guard hs
    exact h.create hc hok
  | destroy id =>
    cases hs
    refine h.keep htidy (fun id' e' he' => ?_) rfl rfl fun t w hw => ⟨h.single t w hw, h.all t w hw⟩
    by_cases hid : id' = id
    · simp [hid] at he'
    · exact ⟨e', by simpa [hid] using he', .refl _ e'⟩
  | resetEvent id =>
    cases hs
    refine h.modify id htidy fun e _ =>
      .of_waitList (fun h => h.resetEvent) (calm_resetEvent e).1 ?_
    rcases e with ⟨_ | _ | _ | _, -, -, -⟩ <;> rfl
  | acquireMutant id tid =>
    cases hs
    exact h.modify id htidy fun e he => keeps_acquireMutant (hok e he) _
  | setTimer id =>
    cases hs
    refine h.modify id htidy fun e _ => .of_waitList (fun h => h.setTimer) (calm_setTimer e).1 ?_
    rcases e with ⟨_ | _ | _ | _, -, -, -⟩ <;> rfl
  | signal id op =>
    cases hs
    exact h.signal hok
  | wait tid w =>
    obtain ⟨-, rfl⟩ := of_guard hs
    refine h.tryObjects hok htidy fun w' hw' => ?_
    obtain ⟨rfl, hall⟩ := w.of_mem_repeating_next hw'
    refine ⟨?_, hall⟩
    have hok' : Tryable s tid w'.request := hok
    cases hr : w'.request with
    | single id => rw [hr] at hall; cases hall
    | any ids => rw [hr] at hall; cases hall
    | all ids => rw [hr] at hok'; exact hok'
  | advance tid expired => exact h.advance hs
  | timeout tid =>
    simp only [step] at hs
    split at hs
    · obtain ⟨-, rfl⟩ := of_guard hs
      exact h.move htidy (.refl _ _) (by rintro _ ⟨⟩)
    · next w hw =>
      cases hs
      refine h.move htidy (.refl _ _) fun w' hw' => ?_
      obtain rfl := some.inj hw'
      exact ⟨h.single tid w (by rw [hw]; rfl), h.all tid w (by rw [hw]; rfl)⟩
    · cases hs

theorem conserved_of_guarded {n : ℕ} {evs : List Event} {s : State}
    (hg : Guarded step Fair (boot n) evs) (hs : run step (boot n) evs = some s) : Conserved s := by
  have hsettled : Settled s := run_guarded (fun _ _ _ => step_settled) (settled_boot n) hg hs
  exact hsettled.conserved

/-- Thread `0` waits for any of two new semaphores and is `Blocked`. -/
def waitForAny : List Event :=
  [.create (.semaphore 1) 0, .create (.semaphore 1) 0, .wait 0 ⟨.any [1, 2], .infinite⟩,
    .advance 0 false, .advance 0 false]

theorem conserved_of_guarded_semaphores : ∃ s,
    run step (boot 1)
      (waitForAny ++ [.signal 1 (.releaseSemaphore 1), .advance 0 false,
        .signal 2 (.releaseSemaphore 1)]) = some s ∧
    s.threads 0 = .running ∧ Conserved s := by
  have hg : Guarded step Fair (boot 1)
      (waitForAny ++ [.signal 1 (.releaseSemaphore 1), .advance 0 false,
        .signal 2 (.releaseSemaphore 1)]) := by
    decide
  exact ⟨_, rfl, rfl, conserved_of_guarded hg rfl⟩

/-- Both semaphores are released before the thread runs. Its wait returns with the first, and the
second has lost its count to nobody. -/
theorem not_conserved_of_two_releases : ∃ s e,
    run step (boot 1)
      (waitForAny ++ [.signal 1 (.releaseSemaphore 1), .signal 2 (.releaseSemaphore 1),
        .advance 0 false]) = some s ∧
    s.threads 0 = .running ∧ s.objects 2 = some e ∧ e.waitList = [] ∧ ¬ Conserved s := by
  refine ⟨_, _, rfl, rfl, rfl, rfl, fun h => ?_⟩
  have hcounted : Entry.Counted _ := h 2 _ rfl
  exact absurd hcounted.2 (by decide)

end Astryx.Ke
