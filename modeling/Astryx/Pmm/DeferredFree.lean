import Astryx.Pmm.Ledger

/-!
# A deferred free happens once

A free request is a thing that is somewhere: with an agent, in the pending bit of the pin word, or
in a slot of the ring. Every atomic access of `dma_pin.rs` and `free_page` moves it, clears the bit
with it, or drops it because the ring is full (`Inv.advance` collects what such an access must
satisfy). At most one is under way at a time, so none is ever merged with another or finds the bit
already clear.

The pin word is 32 bits wide and its count has 31 of them: the pins held at one time have to be
fewer than `2 ^ 31`, or the count runs into the pending bit. Frame 0 is no frame to the ring, where
0 marks an empty slot.

## Main results

* `ledgerRun_freesOnce` — a request is cleared once or dropped by a full ring, under every
  interleaving
* `ledgerRun_losesFree` — `2 ^ 31` pins, and a deferred free of frame 0
-/

namespace Astryx.Pmm

open Transition List Slots Agent LedgerSystem

/-! ## The word -/

variable {w : ℕ}

lemma pinCountOf_pinWord (h : pinCountOf w + 1 < 2 ^ 31) :
    pinCountOf (pinWord w) = pinCountOf w + 1 := by
  rw [pinCountOf] at h
  rw [pinCountOf, pinWord, pinCountOf]
  omega

lemma freePending_pinWord (h : pinCountOf w + 1 < 2 ^ 31) :
    freePending (pinWord w) = freePending w := by
  rw [freePending, freePending, pinWord, decide_eq_decide]
  rw [pinCountOf] at h
  omega

lemma pinCountOf_unpinWord (h : pinCountOf w ≠ 0) :
    pinCountOf (unpinWord w).1 + 1 = pinCountOf w := by
  have hlt : pinCountOf w < 2 ^ 31 := Nat.mod_lt _ (by decide)
  rw [unpinWord]
  rw [if_neg h]
  dsimp only
  split
  · rw [pinCountOf]
    omega
  · rw [pinCountOf]
    split <;> omega

lemma unpinWord_lt (h : pinCountOf w ≠ 0) : (unpinWord w).1 < 2 ^ 32 := by
  have hlt : pinCountOf w < 2 ^ 31 := Nat.mod_lt _ (by decide)
  rw [unpinWord]
  rw [if_neg h]
  dsimp only
  split
  · decide
  · split <;> omega

/-- The pending bit survives an unpin that is not the last. The last one clears it, and reports
it. -/
lemma freePending_unpinWord (h : pinCountOf w ≠ 0) :
    (freePending (unpinWord w).1 → 0 < pinCountOf (unpinWord w).1) ∧
      (freePending (unpinWord w).1).toNat + (if (unpinWord w).2 = .freeDue then 1 else 0) =
        (freePending w).toNat ∧
      (unpinWord w).2 ≠ .underflow := by
  have hcount := pinCountOf_unpinWord h
  have hlt : pinCountOf w < 2 ^ 31 := Nat.mod_lt _ (by decide)
  by_cases hlast : pinCountOf w - 1 = 0
  · have hword : unpinWord w = (0, if freePending w then .freeDue else .noFree) := by
      rw [unpinWord]
      simp [h, hlast]
    rw [hword]
    cases freePending w <;> simp [freePending]
  have hword : unpinWord w =
      ((if freePending w then 2 ^ 31 else 0) + (pinCountOf w - 1), .noFree) := by
    rw [unpinWord]
    simp [h, hlast]
  rw [hword] at hcount ⊢
  refine ⟨fun _ => by omega, ?_, by simp⟩
  have hbit : freePending ((if freePending w then 2 ^ 31 else 0) + (pinCountOf w - 1)) =
      freePending w := by
    cases hp : freePending w
    · simp only [Bool.false_eq_true, if_false, freePending, decide_eq_false_iff_not]
      omega
    · simp only [if_true, freePending, decide_eq_true_eq]
      omega
  rw [hbit]
  simp

/-- What each choice of `mark_free_pending_if_pinned` says about the value it was made on. -/
lemma markChoice_cases (cur : ℕ) :
    (markChoice cur = .notPinned ∧ pinCountOf cur = 0) ∨
    (markChoice cur = .alreadyPending ∧ freePending cur) ∨
    (markChoice cur = .mark (markWord cur) ∧ 0 < pinCountOf cur ∧ freePending cur = false) := by
  rw [markChoice]
  split
  next hzero => exact .inl ⟨rfl, hzero⟩
  next hzero =>
    split
    next hp => exact .inr (.inl ⟨rfl, hp⟩)
    next hp => exact .inr (.inr ⟨rfl, Nat.pos_of_ne_zero hzero, Bool.eq_false_iff.mpr hp⟩)

lemma mark_word {cur : ℕ} (hlt : cur < 2 ^ 32) (hp : freePending cur = false) :
    markWord cur < 2 ^ 32 ∧ pinCountOf (markWord cur) = pinCountOf cur ∧
    freePending (markWord cur) := by
  rw [freePending, decide_eq_false_iff_not] at hp
  refine ⟨?_, ?_, ?_⟩
  · rw [markWord]
    omega
  · rw [markWord, pinCountOf, pinCountOf]
    omega
  · rw [markWord, freePending, decide_eq_true_eq]
    omega

/-! ## The invariant -/

/-- What an agent may rely on: a value loaded by a release counts the pin it releases; a value
loaded by a free has no pending bit, and if it had no pin there is none now; the lock is only taken
for a frame without pins. -/
def Agent.Ok (word : ℕ) : Agent → Prop
  | .unpinTry _ cur => pinCountOf cur ≠ 0
  | .markTry _ cur =>
    cur < 2 ^ 32 ∧ freePending cur = false ∧ (pinCountOf cur = 0 → pinCountOf word = 0)
  | .freeLocked _ => pinCountOf word = 0
  | _ => True

variable {a : Agent} {w' phys : ℕ} {s : LedgerSystem}

lemma Agent.Ok.mono (h : a.Ok w) (hw : pinCountOf w = 0 → pinCountOf w' = 0) : a.Ok w' := by
  cases a with
  | markTry resume cur => exact ⟨h.1, h.2.1, fun hc => hw (h.2.2 hc)⟩
  | freeLocked resume => exact hw h
  | unpinTry canFreeNow cur => exact h
  | _ => trivial

lemma Agent.Ok.of_not_carries (h : a.Ok w) (hc : a.carries = 0) : a.Ok w' := by
  cases a with
  | markTry resume cur => cases hc
  | freeLocked resume => cases hc
  | unpinTry canFreeNow cur => exact h
  | _ => trivial

/-- What holds in every state. -/
structure LedgerSystem.Inv (phys : ℕ) (s : LedgerSystem) : Prop where
  ringLength : s.ring.length = deferredCap
  wordLt : s.word < 2 ^ 32
  count : pinCountOf s.word = s.held + total unpins s.agents
  pending : freePending s.word = true → 0 < pinCountOf s.word
  /-- Every request is cleared, dropped or under way. -/
  conserved : s.requests = s.clears + s.leaks + s.inFlight phys
  single : s.inFlight phys ≤ 1
  /-- While one is under way the frame is not handed out again. -/
  used : 0 < s.inFlight phys → s.bit = true ∧ s.requested = true
  owned : s.owned = true → s.inFlight phys = 0 ∧ s.bit = true
  agents : ∀ a ∈ s.agents, a.Ok s.word

namespace LedgerSystem.Inv

variable {phys : ℕ} {s : LedgerSystem} (h : s.Inv phys)
include h

variable {a : Agent}

section

variable (ha : a ∈ s.agents) (hc : a.carries = 1)

include ha hc

/-- An agent with a free to carry out is the only place where there is one. -/
lemma parked_of_carries : parked phys s.word s.ring = 0 := by
  have hle : a.carries ≤ total carries s.agents := le_total ha
  have hsingle := h.single
  rw [inFlight] at hsingle
  omega

lemma not_pending_of_carries : freePending s.word = false := by
  have hparked := h.parked_of_carries ha hc
  rw [parked] at hparked
  cases hp : freePending s.word
  · rfl
  · rw [hp, Bool.toNat_true] at hparked
    omega

lemma bit_of_carries : s.bit := by
  have hle : a.carries ≤ total carries s.agents := le_total ha
  refine (h.used ?_).1
  rw [inFlight]
  omega

end

/-- An agent that still has to release its pin is counted in the word. -/
lemma pinned_of_unpins (ha : a ∈ s.agents) (hu : a.unpins = 1) : pinCountOf s.word ≠ 0 := by
  have hle : a.unpins ≤ total unpins s.agents := le_total ha
  have hcount := h.count
  omega

variable {a' : Agent} {i : ℕ}

/-- **One atomic access.** The agent at `i` goes from `a` to `a'` and leaves `t`: the pin it
releases leaves the count, and its request stays under way, clears the bit, or is dropped. -/
theorem advance {t : LedgerSystem} (hi : s.agents[i]? = some a)
    (hheld : t.held = s.held) (howned : t.owned = s.owned) (hrequested : t.requested = s.requested)
    (hrequests : t.requests = s.requests) (hring : t.ring.length = s.ring.length)
    (hword : t.word < 2 ^ 32)
    (hcount : pinCountOf t.word + a.unpins = pinCountOf s.word + a'.unpins)
    (hpending : freePending t.word → 0 < pinCountOf t.word) (hclears : s.clears ≤ t.clears)
    (hleaks : s.leaks ≤ t.leaks)
    (hmoved : parked phys t.word t.ring + a'.carries + t.clears + t.leaks =
      parked phys s.word s.ring + a.carries + s.clears + s.leaks)
    (hbit : t.bit = s.bit ∨ s.clears < t.clears)
    (hzero : pinCountOf s.word = 0 → pinCountOf t.word = 0) (hok : a'.Ok t.word) :
    LedgerSystem.Inv phys { t with agents := s.agents.set i a' } := by
  have hunpins := total_set (f := unpins) (b := a') hi
  have hcarries := total_set (f := carries) (b := a') hi
  have hflight : inFlight phys { t with agents := s.agents.set i a' }
      = parked phys t.word t.ring + total carries (s.agents.set i a') := rfl
  have hold : s.inFlight phys = parked phys s.word s.ring + total carries s.agents := rfl
  have hcons := h.conserved
  have hsingle := h.single
  refine ⟨hring.trans h.ringLength, hword, ?_, hpending, ?_, ?_, ?_, ?_, ?_⟩
  · have := h.count
    show pinCountOf t.word = t.held + total unpins (s.agents.set i a')
    omega
  · show t.requests = t.clears + t.leaks + _
    omega
  · omega
  · intro hpos
    have hbefore : 0 < s.inFlight phys := by omega
    obtain ⟨hb, hr⟩ := h.used hbefore
    refine ⟨?_, hrequested.trans hr⟩
    rcases hbit with hsame | hlt
    · exact hsame.trans hb
    · omega
  · intro ho
    obtain ⟨hnone, hb⟩ := h.owned (howned.symm.trans ho)
    refine ⟨by omega, ?_⟩
    rcases hbit with hsame | hlt
    · exact hsame.trans hb
    · omega
  intro b hb
  rcases mem_set hb with rfl | hb
  · exact hok
  · exact (h.agents b hb).mono hzero

lemma advance_quiet (hi : s.agents[i]? = some a) (hunpins : a.unpins = a'.unpins)
    (hcarries : a'.carries = a.carries) (hok : a'.Ok s.word) :
    LedgerSystem.Inv phys { s with agents := s.agents.set i a' } :=
  h.advance hi rfl rfl rfl rfl rfl h.wordLt (by omega) h.pending le_rfl le_rfl (by omega)
    (.inl rfl) id hok

end LedgerSystem.Inv

/-! ## The steps -/

lemma resumed_facts (resume : Option ℕ) (word : ℕ) :
    (resumed resume).unpins = 0 ∧ (resumed resume).carries = 0 ∧ (resumed resume).Ok word := by
  cases resume <;> exact ⟨rfl, rfl, trivial⟩

lemma afterUnpin_facts (canFreeNow : Bool) {r : UnpinResult} (hr : r ≠ .underflow) (word : ℕ) :
    (afterUnpin canFreeNow r).unpins = 0 ∧
      (afterUnpin canFreeNow r).carries = (if r = .freeDue then 1 else 0) ∧
      (afterUnpin canFreeNow r).Ok word := by
  cases r with
  | noFree => exact ⟨rfl, rfl, trivial⟩
  | freeDue => cases canFreeNow <;> exact ⟨rfl, rfl, trivial⟩
  | underflow => exact absurd rfl hr

/-- The system after an access of the agent at `i`. -/
def LedgerSystem.after (s : LedgerSystem) (i : ℕ) (r : LedgerSystem × Agent) : LedgerSystem :=
  { r.1 with agents := s.agents.set i r.2 }

section Step

variable {ctx : PmmState} {phys : ℕ} {s s' : LedgerSystem} {spurious : Bool} {i cur : ℕ}
  {resume : Option ℕ} {a : Agent}

section

variable (h : s.Inv phys)

include h

lemma unpinTry_inv {canFreeNow : Bool} (hi : s.agents[i]? = some (.unpinTry canFreeNow cur)) :
    (s.after i (agentStep ctx phys s spurious (.unpinTry canFreeNow cur))).Inv phys := by
  have hmem := mem_of_getElem? hi
  have hcur : pinCountOf cur ≠ 0 := h.agents _ hmem
  rw [agentStep, if_neg hcur]
  by_cases hcas : s.word = cur ∧ spurious = false
  · rw [if_pos hcas]
    obtain ⟨rfl, -⟩ := hcas
    have hcount := pinCountOf_unpinWord hcur
    obtain ⟨hpending, hmoved, hr⟩ := freePending_unpinWord hcur
    obtain ⟨hu, hc, hok⟩ := afterUnpin_facts canFreeNow hr (unpinWord s.word).1
    refine h.advance hi rfl rfl rfl rfl rfl (unpinWord_lt hcur) ?_ hpending le_rfl le_rfl ?_
      (.inl rfl) ((absurd · hcur)) hok
    · rw [hu]
      exact hcount
    rw [hc]
    show parked phys (unpinWord s.word).1 s.ring + _ + s.clears + s.leaks =
      parked phys s.word s.ring + 0 + s.clears + s.leaks
    rw [parked, parked]
    omega
  · rw [if_neg hcas]
    exact h.advance_quiet hi rfl rfl (h.pinned_of_unpins hmem rfl)

lemma mark_inv {new : ℕ} (hi : s.agents[i]? = some (.markTry resume cur)) (hnew : new < 2 ^ 32)
    (hcount : pinCountOf new = pinCountOf s.word) (hpos : 0 < pinCountOf new)
    (hpending : freePending new) (hclean : freePending s.word = false) :
    LedgerSystem.Inv phys { s with word := new, agents := s.agents.set i (.resumed resume) } := by
  obtain ⟨hu, hc, hok⟩ := resumed_facts resume new
  refine h.advance (t := { s with word := new }) hi rfl rfl rfl rfl rfl hnew ?_
    (fun _ => hpos) le_rfl
    le_rfl ?_ (.inl rfl) hcount.trans hok
  · rw [hu]
    exact hcount
  rw [hc]
  show parked phys new s.ring + 0 + s.clears + s.leaks = parked phys s.word s.ring + 1 +
    s.clears + s.leaks
  rw [parked, parked, hpending, hclean, Bool.toNat_true, Bool.toNat_false]
  omega

lemma markTry_inv (hi : s.agents[i]? = some (.markTry resume cur)) :
    (s.after i (agentStep ctx phys s spurious (.markTry resume cur))).Inv phys := by
  have hmem := mem_of_getElem? hi
  obtain ⟨hlt, hclean, hzero⟩ : cur < 2 ^ 32 ∧ freePending cur = false ∧
    (pinCountOf cur = 0 → pinCountOf s.word = 0) := h.agents _ hmem
  rw [agentStep]
  obtain ⟨heq, hcur⟩ | ⟨-, hp⟩ | ⟨heq, hpos, -⟩ := markChoice_cases cur
  · rw [heq]
    exact h.advance_quiet hi rfl rfl (hzero hcur)
  · rw [hclean] at hp
    cases hp
  rw [heq]
  dsimp only
  by_cases hcas : s.word = cur ∧ spurious = false
  · rw [if_pos hcas]
    obtain ⟨rfl, -⟩ := hcas
    obtain ⟨hnew, hcount, hpending⟩ := mark_word hlt hclean
    exact mark_inv h hi hnew hcount (hcount.symm ▸ hpos) hpending hclean
  · rw [if_neg hcas]
    exact h.advance_quiet hi rfl rfl ⟨h.wordLt, h.not_pending_of_carries hmem rfl, id⟩

lemma freeLocked_inv (hi : s.agents[i]? = some (.freeLocked resume)) :
    (s.after i (agentStep ctx phys s spurious (.freeLocked resume))).Inv phys := by
  obtain ⟨hu, hc, hok⟩ := resumed_facts resume s.word
  rw [agentStep, if_pos (h.bit_of_carries (mem_of_getElem? hi) rfl)]
  refine h.advance hi rfl rfl rfl rfl rfl h.wordLt ?_ h.pending (Nat.le_succ _) le_rfl ?_
    (.inr (Nat.lt_succ_self _)) id hok
  · rw [hu]
    rfl
  rw [hc]
  show parked phys s.word s.ring + 0 + (s.clears + 1) + s.leaks = parked phys s.word s.ring + 1 +
    s.clears + s.leaks
  omega

/-- A slot of the ring is rewritten: what it held leaves the count, what it gets enters it. -/
lemma parked_set {j v : ℕ} (hj : j < deferredCap) :
    parked phys s.word (s.ring.set j v) + (ofFrame phys (s.ring.getD j 0)).toNat
      = parked phys s.word s.ring + (ofFrame phys v).toNat := by
  have hget : s.ring[j]? = some (s.ring.getD j 0) := by
    have hlt : j < s.ring.length := by
      rw [h.ringLength]
      exact hj
    simp [hlt]
  have htotal := total_set (f := fun v => (ofFrame phys v).toNat) (b := v) hget
  rw [parked, parked]
  omega

lemma push_inv (hphys : phys ≠ 0) {start k : ℕ} (hi : s.agents[i]? = some (.push start k)) :
    (s.after i (agentStep ctx phys s spurious (.push start k))).Inv phys := by
  rw [agentStep]
  split
  · refine h.advance hi rfl rfl rfl rfl rfl h.wordLt rfl h.pending le_rfl (Nat.le_succ _) ?_
      (.inl rfl) id trivial
    show parked phys s.word s.ring + 0 + s.clears + (s.leaks + 1) = parked phys s.word s.ring + 1 +
      s.clears + s.leaks
    omega
  split
  next hempty =>
    have hslot : Word.add start k % deferredCap < deferredCap := Nat.mod_lt _ (by decide)
    have hparked := parked_set (v := phys) h hslot
    have hpushed : ofFrame phys phys := by simp [ofFrame, hphys]
    have hzero : ofFrame phys 0 = false := by simp [ofFrame]
    rw [hempty, hpushed, hzero, Bool.toNat_true, Bool.toNat_false] at hparked
    refine h.advance hi rfl rfl rfl rfl (length_set ..) h.wordLt rfl h.pending le_rfl le_rfl ?_
      (.inl rfl) id trivial
    show parked phys s.word (s.ring.set (Word.add start k % deferredCap) phys) + 0 +
      s.clears + s.leaks
      = parked phys s.word s.ring + 1 + s.clears + s.leaks
    omega
  · exact h.advance_quiet hi rfl rfl trivial

lemma drainSwap_inv {slot : ℕ} (hi : s.agents[i]? = some (.drainSwap slot)) :
    (s.after i (agentStep ctx phys s spurious (.drainSwap slot))).Inv phys := by
  have hzero : ofFrame phys 0 = false := by simp [ofFrame]
  have hparked : parked phys s.word (s.ring.set slot 0) + (ofFrame phys (s.ring.getD slot 0)).toNat
      = parked phys s.word s.ring := by
    by_cases hslot : slot < deferredCap
    · rw [parked_set h hslot, hzero, Bool.toNat_false, add_zero]
    have hout : s.ring.length ≤ slot := by
      rw [h.ringLength]
      exact not_lt.mp hslot
    rw [set_eq_of_length_le hout, getD_eq_default _ _ hout, hzero, Bool.toNat_false, add_zero]
  rw [agentStep]
  split
  next hof =>
    rw [hof, Bool.toNat_true] at hparked
    refine h.advance hi rfl rfl rfl rfl (length_set ..) h.wordLt rfl h.pending le_rfl le_rfl ?_
      (.inl rfl) id trivial
    show parked phys s.word (s.ring.set slot 0) + 1 + s.clears + s.leaks =
      parked phys s.word s.ring + 0 + s.clears + s.leaks
    omega
  next hof =>
    rw [Bool.eq_false_iff.mpr hof, Bool.toNat_false] at hparked
    refine h.advance hi rfl rfl rfl rfl (length_set ..) h.wordLt rfl h.pending le_rfl le_rfl ?_
      (.inl rfl) id trivial
    show parked phys s.word (s.ring.set slot 0) + 0 + s.clears + s.leaks =
      parked phys s.word s.ring + 0 + s.clears + s.leaks
    omega

/-- Every atomic access of every agent keeps the invariant, on a frame that `free_page` does not
refuse. -/
lemma agentStep_inv (hphys : phys ≠ 0) (haccept : ctx.refusesFree phys = false)
    (hi : s.agents[i]? = some a) : (s.after i (agentStep ctx phys s spurious a)).Inv phys := by
  have hmem := mem_of_getElem? hi
  cases a with
  | done => exact h.advance_quiet hi rfl rfl trivial
  | unpinLoad canFreeNow => exact h.advance_quiet hi rfl rfl (h.pinned_of_unpins hmem rfl)
  | unpinTry canFreeNow cur => exact unpinTry_inv h hi
  | freeCheck resume =>
    rw [agentStep, haccept]
    exact h.advance_quiet hi rfl rfl trivial
  | markLoad resume =>
    exact h.advance_quiet hi rfl rfl ⟨h.wordLt, h.not_pending_of_carries hmem rfl, id⟩
  | markTry resume cur => exact markTry_inv h hi
  | freeLocked resume => exact freeLocked_inv h hi
  | pushStart =>
    rw [agentStep, if_neg hphys]
    exact h.advance hi rfl rfl rfl rfl rfl h.wordLt rfl h.pending le_rfl le_rfl rfl
      (.inl rfl) id trivial
  | push start k => exact push_inv h hphys hi
  | drainLoad slot =>
    rw [agentStep]
    split
    · exact h.advance_quiet hi rfl rfl trivial
    split
    · exact h.advance_quiet hi rfl rfl trivial
    · exact h.advance_quiet hi rfl rfl trivial
  | drainSwap slot => exact drainSwap_inv h hi

lemma spawn_inv {held : ℕ} (hheld : held + a.unpins = s.held) (hcarries : a.carries = 0)
    (hok : a.Ok s.word) :
    LedgerSystem.Inv phys { s with held := held, agents := s.agents ++ [a] } := by
  have hflight : inFlight phys { s with held := held, agents := s.agents ++ [a] } =
      s.inFlight phys := by
    show _ + total carries (s.agents ++ [a]) = _
    rw [total_concat, hcarries]
    rfl
  refine ⟨h.ringLength, h.wordLt, ?_, h.pending, ?_, ?_, ?_, ?_, ?_⟩
  · have := h.count
    show pinCountOf s.word = held + total unpins (s.agents ++ [a])
    rw [total_concat]
    omega
  · rw [hflight]
    exact h.conserved
  · rw [hflight]
    exact h.single
  · rw [hflight]
    exact h.used
  · rw [hflight]
    exact h.owned
  · exact forall_mem_append.mpr ⟨h.agents, forall_mem_singleton.mpr hok⟩

lemma free_inv (ho : s.owned) :
    LedgerSystem.Inv phys { s with
        agents := s.agents ++ [.freeCheck none]
        owned := false
        requested := true
        requests := s.requests + 1 } := by
  obtain ⟨hnone, hbit⟩ := h.owned ho
  have hcons := h.conserved
  have hflight : parked phys s.word s.ring + total carries (s.agents ++ [.freeCheck none]) = 1 := by
    rw [total_concat, ← add_assoc]
    show s.inFlight phys + 1 = 1
    rw [hnone]
  refine ⟨h.ringLength, h.wordLt, ?_, h.pending, ?_, ?_, ?_, ?_, ?_⟩
  · rw [total_concat]
    exact h.count
  · show s.requests + 1 = s.clears + s.leaks +
      (parked phys s.word s.ring + total carries (s.agents ++ [.freeCheck none]))
    omega
  · exact hflight.le
  · exact fun _ => ⟨hbit, rfl⟩
  · exact nofun
  · exact forall_mem_append.mpr ⟨h.agents, forall_mem_singleton.mpr trivial⟩

end

/-- The pins taken after this one still fit the count. -/
def FewPins (s : LedgerSystem) : LedgerOp → Prop
  | .pin => pinCountOf s.word + 1 < 2 ^ 31
  | _ => True

lemma pin_inv (h : s.Inv phys) (hfew : pinCountOf s.word + 1 < 2 ^ 31) (hr : s.requested = false) :
    LedgerSystem.Inv phys { s with word := pinWord s.word, held := s.held + 1 } := by
  have hnone : s.inFlight phys = 0 := by
    by_contra hpos
    rw [(h.used (Nat.pos_of_ne_zero hpos)).2] at hr
    cases hr
  have hflight : parked phys (pinWord s.word) s.ring = parked phys s.word s.ring := by
    rw [parked, parked, freePending_pinWord hfew]
  have hsame : inFlight phys { s with word := pinWord s.word, held := s.held + 1 } =
      s.inFlight phys :=
    congrArg (· + total carries s.agents) hflight
  refine ⟨h.ringLength, Nat.mod_lt _ (by decide), ?_, fun _ => ?_, ?_, ?_, ?_, ?_, ?_⟩
  · have := h.count
    show pinCountOf (pinWord s.word) = s.held + 1 + total unpins s.agents
    rw [pinCountOf_pinWord hfew]
    omega
  · rw [pinCountOf_pinWord hfew]
    exact Nat.succ_pos _
  · rw [hsame]
    exact h.conserved
  · rw [hsame]
    exact h.single
  · rw [hsame]
    exact h.used
  · rw [hsame]
    exact h.owned
  intro a ha
  refine (h.agents a ha).of_not_carries ?_
  have hle : a.carries ≤ total carries s.agents := le_total ha
  rw [inFlight] at hnone
  omega

variable {op : LedgerOp}

lemma ledgerStep_inv (hphys : phys ≠ 0) (haccept : ctx.refusesFree phys = false) (h : s.Inv phys)
    (hfew : FewPins s op) (hstep : ledgerStep ctx phys s op = some s') : s'.Inv phys := by
  cases op with
  | pin =>
    obtain ⟨hr, rfl⟩ := of_guard_not hstep
    exact pin_inv h hfew (Bool.eq_false_iff.mpr hr)
  | unpin canFreeNow =>
    obtain ⟨hheld, rfl⟩ := of_guard_not hstep
    exact spawn_inv h (Nat.sub_add_cancel (Nat.pos_of_ne_zero hheld)) rfl trivial
  | free =>
    obtain ⟨ho, rfl⟩ := of_guard hstep
    exact free_inv h ho
  | drain =>
    cases hstep
    exact spawn_inv h rfl rfl trivial
  | alloc =>
    obtain ⟨hbit, rfl⟩ := of_guard_not hstep
    have hnone : s.inFlight phys = 0 := by
      by_contra hpos
      exact hbit (h.used (Nat.pos_of_ne_zero hpos)).1
    refine ⟨h.ringLength, h.wordLt, h.count, h.pending, h.conserved, h.single, fun hpos => ?_,
      fun _ => ?_, h.agents⟩
    · exact absurd hnone (Nat.pos_iff_ne_zero.mp hpos)
    · exact ⟨hnone, rfl⟩
  | other slot value =>
    obtain ⟨hother, rfl⟩ := of_guard_not hstep
    obtain ⟨hold, hnew⟩ := not_or.mp hother
    have hparked : parked phys s.word (s.ring.set slot value) = parked phys s.word s.ring := by
      by_cases hslot : slot < deferredCap
      · have hset := parked_set (v := value) h hslot
        rw [Bool.eq_false_iff.mpr hold, Bool.eq_false_iff.mpr hnew] at hset
        exact hset
      · rw [set_eq_of_length_le (by rw [h.ringLength]; exact not_lt.mp hslot)]
    have hsame : inFlight phys { s with ring := s.ring.set slot value } = s.inFlight phys :=
      congrArg (· + total carries s.agents) hparked
    refine ⟨(length_set ..).trans h.ringLength, h.wordLt, h.count, h.pending, ?_, ?_, ?_,
      ?_, h.agents⟩
    · rw [hsame]
      exact h.conserved
    · rw [hsame]
      exact h.single
    · rw [hsame]
      exact h.used
    · rw [hsame]
      exact h.owned
  | advance agent spurious =>
    rw [ledgerStep] at hstep
    split at hstep
    · cases hstep
    next a hi =>
      cases hstep
      exact agentStep_inv h hphys haccept hi

/-- Only the access under `PMM_LOCK` touches the bit. -/
lemma agentStep_bit (h : (agentStep ctx phys s spurious a).1.bit ≠ s.bit) :
    ∃ resume, a = .freeLocked resume := by
  cases a with
  | freeLocked resume => exact ⟨resume, rfl⟩
  | markTry resume cur =>
    rw [agentStep] at h
    obtain ⟨heq, -⟩ | ⟨heq, -⟩ | ⟨heq, -⟩ :=
      markChoice_cases cur <;> rw [heq] at h <;> dsimp only at h
    · exact absurd rfl h
    · exact absurd rfl h
    · split at h <;> exact absurd rfl h
  | _ =>
    rw [agentStep] at h
    repeat' split at h
    all_goals exact absurd rfl h

lemma pinCountOf_of_clear (h : s.Inv phys) (hstep : ledgerStep ctx phys s op = some s')
    (hbit : s.bit) (hbit' : s'.bit = false) : pinCountOf s.word = 0 := by
  have hne : s'.bit ≠ s.bit := by
    rw [hbit, hbit']
    decide
  cases op with
  | advance agent spurious =>
    rw [ledgerStep] at hstep
    split at hstep
    · cases hstep
    next a hi =>
      cases hstep
      obtain ⟨resume, rfl⟩ := agentStep_bit hne
      exact h.agents _ (mem_of_getElem? hi)
  | pin | unpin _ | free | other _ _ =>
    rw [ledgerStep] at hstep
    split at hstep <;> cases hstep
    exact absurd rfl hne
  | drain =>
    cases hstep
    exact absurd rfl hne
  | alloc =>
    rw [ledgerStep, if_pos hbit] at hstep
    cases hstep

end Step

/-! ## Runs -/

lemma start_inv (bit : Bool) {ring : List ℕ} (cursor : ℕ) (hlength : ring.length = deferredCap)
    (hother : ∀ v ∈ ring, ofFrame phys v = false) :
    (LedgerSystem.start bit ring cursor).Inv phys := by
  have hring : total (fun v => (ofFrame phys v).toNat) ring = 0 :=
    total_eq_zero fun v hv => by simp [hother v hv]
  have hflight : (LedgerSystem.start bit ring cursor).inFlight phys = 0 := by
    show (freePending 0).toNat + total _ ring + 0 = 0
    rw [hring]
    rfl
  refine ⟨hlength, Nat.two_pow_pos 32, rfl, fun hp => ?_, ?_, ?_, ?_, ?_, ?_⟩
  · exact absurd hp (by decide : ¬ freePending 0)
  · rw [hflight]
    rfl
  · rw [hflight]
    exact Nat.zero_le 1
  · intro hpos
    rw [hflight] at hpos
    cases hpos
  · intro ho
    exact ⟨hflight, ho⟩
  · intro a ha
    cases ha

/-- No agent is at work, no pin is held, and the ring has no entry of the frame. -/
def LedgerSystem.Quiet (phys : ℕ) (s : LedgerSystem) : Prop :=
  (∀ a ∈ s.agents, a = .done) ∧ s.held = 0 ∧ ∀ v ∈ s.ring, ofFrame phys v = false

instance LedgerSystem.decidableQuiet (phys : ℕ) (s : LedgerSystem) : Decidable (s.Quiet phys) :=
  inferInstanceAs (Decidable (_ ∧ _ ∧ _))

lemma LedgerSystem.Inv.inFlight_of_quiet (h : s.Inv phys) (hq : s.Quiet phys) :
    s.inFlight phys = 0 := by
  obtain ⟨hdone, hheld, hring⟩ := hq
  have hunpins : total unpins s.agents = 0 := total_eq_zero fun a ha => by rw [hdone a ha]; rfl
  have hcarries : total carries s.agents = 0 := total_eq_zero fun a ha => by rw [hdone a ha]; rfl
  have hslots : total (fun v => (ofFrame phys v).toNat) s.ring = 0 :=
    total_eq_zero fun v hv => by simp [hring v hv]
  have hpending : freePending s.word = false := by
    refine Bool.eq_false_iff.mpr fun hp => ?_
    have hpos := h.pending hp
    rw [h.count, hheld, hunpins] at hpos
    cases hpos
  rw [inFlight, parked, hpending, hslots, hcarries]
  rfl

/-- Under every interleaving in which the pins held at one time fit their 31 bits: the bit is
cleared only at pin count zero; every free request is cleared once, dropped by a full ring, or still
under way, at most one at a time, so that once all is quiet there are as many clearings and drops as
requests; and the pending bit stands only over a count that is not zero. -/
theorem ledgerRun_freesOnce (ctx : PmmState) (phys : ℕ) (hphys : phys ≠ 0)
    (haccept : ctx.refusesFree phys = false) (bit : Bool) {ring : List ℕ} (cursor : ℕ)
    (hlength : ring.length = deferredCap) (hother : ∀ v ∈ ring, ofFrame phys v = false)
    {ops : List LedgerOp} {s : LedgerSystem}
    (hrun : run (ledgerStep ctx phys) (.start bit ring cursor) ops = some s)
    (hfew : Guarded (ledgerStep ctx phys) FewPins (.start bit ring cursor) ops) :
    (∀ op s', ledgerStep ctx phys s op = some s' → s.bit = true → s'.bit = false →
      pinCountOf s.word = 0) ∧
      s.requests = s.clears + s.leaks + s.inFlight phys ∧
      s.inFlight phys ≤ 1 ∧
      (s.Quiet phys → s.requests = s.clears + s.leaks) ∧
      (freePending s.word = true → 0 < pinCountOf s.word) := by
  have h : s.Inv phys := run_guarded (fun _ _ _ => ledgerStep_inv hphys haccept)
    (start_inv bit cursor hlength hother) hfew hrun
  refine ⟨fun op s' => pinCountOf_of_clear h, h.conserved, h.single, fun hq => ?_, h.pending⟩
  rw [h.conserved, h.inFlight_of_quiet hq, add_zero]

instance FewPins.decidable (s : LedgerSystem) (op : LedgerOp) : Decidable (FewPins s op) := by
  cases op <;> dsimp only [FewPins] <;> infer_instance

/-- A pinned frame is freed, an interrupt handler releases the pin and leaves the free to the ring,
and a sweep carries it out. -/
def irqRelease : List LedgerOp :=
  [.pin, .free, .advance 0 false, .advance 0 false, .advance 0 false, .unpin false,
    .advance 1 false,
    .advance 1 true, .advance 1 false, .advance 1 false, .advance 1 false, .drain, .advance 2 false,
      .advance 2 false,
    .advance 2 false, .advance 2 false, .advance 2 false, .advance 2 false]

theorem ledgerRun_freesOnce_of_irqRelease :
    ∃ s, run (ledgerStep (init loneFrame) 0x2000000)
      (.start true (List.replicate deferredCap 0) 0) irqRelease = some s ∧
      s.clears = 1 ∧ s.requests = s.clears + s.leaks + s.inFlight 0x2000000 := by
  obtain ⟨s, hrun, hs⟩ :
    ∃ s, run (ledgerStep (init loneFrame) 0x2000000) (.start true (List.replicate deferredCap 0) 0)
      irqRelease = some s ∧ s.clears = 1 := exists_of_decide (by decide +kernel)
  have hother : ∀ v ∈ List.replicate deferredCap 0, ofFrame 0x2000000 v = false := by
    intro v hv
    rw [eq_of_mem_replicate hv]
    rfl
  have hfacts := ledgerRun_freesOnce (init loneFrame) 0x2000000 (by decide)
    (by decide +kernel) true 0
    length_replicate hother hrun (by decide +kernel)
  exact ⟨s, hrun, hs, hfacts.2.1⟩

lemma run_pins (ctx : PmmState) (phys n : ℕ) (hr : s.requested = false) (hw : s.word + n < 2 ^ 32) :
    ∃ s', run (ledgerStep ctx phys) s (List.replicate n .pin) = some s' ∧ s'.word = s.word + n := by
  induction n generalizing s with
  | zero => exact ⟨s, rfl, rfl⟩
  | succ n ih =>
    have hpin : pinWord s.word = s.word + 1 := Nat.mod_eq_of_lt (by omega)
    obtain ⟨s', hrun, hword⟩ :=
      ih (s := { s with word := pinWord s.word, held := s.held + 1 }) hr (by
      show pinWord s.word + n < 2 ^ 32
      omega)
    have hstep : ledgerStep ctx phys s .pin =
        some { s with word := pinWord s.word, held := s.held + 1 } :=
      if_neg (Bool.eq_false_iff.mp hr)
    refine ⟨s', ?_, ?_⟩
    · rw [replicate_succ, run_cons, hstep]
      exact hrun
    rw [hword]
    show pinWord s.word + n = s.word + (n + 1)
    omega

/-- `2 ^ 31` pins carry into the pending bit. A free of frame 0 that an interrupt handler defers is
lost: the request is not under way, the bit is still set and the ring did not overflow. -/
theorem ledgerRun_losesFree :
    (∃ s, run (ledgerStep (init loneFrame) 0x2000000) (.start true (List.replicate deferredCap 0) 0)
        (List.replicate (2 ^ 31) .pin) = some s ∧ freePending s.word = true ∧
        pinCountOf s.word = 0) ∧
      ∃ s, run (ledgerStep (init loneFrame) 0) (.start true (List.replicate deferredCap 0) 0)
        (irqRelease.take 10)
        = some s ∧ s.Quiet 0 ∧ s.bit = true ∧ s.requests = 1 ∧ s.clears = 0 ∧ s.leaks = 0 := by
  refine ⟨?_, ⟨_, rfl, ?_⟩⟩
  · obtain ⟨s, hrun, hword⟩ := run_pins (init loneFrame) 0x2000000 (2 ^ 31)
      (s := .start true (List.replicate deferredCap 0) 0) rfl (by
        decide)
    have hword' : s.word = 2 ^ 31 := by
      rw [hword]
      exact zero_add _
    refine ⟨s, hrun, ?_, ?_⟩
    · rw [hword']
      decide
    · rw [hword']
      decide
  · decide +kernel

end Astryx.Pmm
