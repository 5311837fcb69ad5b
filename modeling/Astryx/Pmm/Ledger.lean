import Astryx.Lib.Slots
import Astryx.Lib.Transition
import Astryx.Pmm.State

/-!
# The pin ledger of one frame, step by step

The last unpin of a frame, the free request of its owner and the sweep of the deferred ring meet on
one packed word and on the slots of the ring. Here every agent runs through its own steps, one
atomic access at a time: a load, a compare-exchange that may fail for no reason, a test-and-clear
under the allocator's lock. The interleaving is part of the run.

The frame has the address `phys`. What `free_page` consults besides the pin word, the span of the
kernel image and the reference counts, comes from a state of the allocator that does not change.
Other frames use the same ring; their traffic is one more kind of step.

Four numbers and two flags are not part of the source: the pins whose release has not begun, whether
the frame is allocated with its free still to come, whether that free has been asked for since the
last allocation, and how many requests, clearings and overflows there have been. A run is one in
which every release belongs to an earlier pin, an allocation is freed at most once, and nobody pins
the frame between the request and the next allocation.
-/

namespace Astryx.Pmm

/-- Whether `free_page` refuses the frame before it looks at the pins. -/
def PmmState.refusesFree (ctx : PmmState) (phys : ℕ) : Bool :=
  maxPages ≤ phys / pageSize ∨ ctx.isKernelStaticPhys phys = true ∨ 0 < ctx.pteShareCount phys

/-- Where an agent is. A free that `drain_deferred` carries out returns to the slot after the one it
emptied. -/
inductive Agent where
  | done
  /-- `unpin_ledger` before its load. -/
  | unpinLoad (canFreeNow : Bool)
  /-- `unpin_ledger` with a loaded value. -/
  | unpinTry (canFreeNow : Bool) (cur : ℕ)
  /-- `free_page` before its checks. -/
  | freeCheck (resume : Option ℕ)
  /-- `mark_free_pending_if_pinned` before its load. -/
  | markLoad (resume : Option ℕ)
  /-- `mark_free_pending_if_pinned` with a loaded value. -/
  | markTry (resume : Option ℕ) (cur : ℕ)
  /-- `free_page` before it takes `PMM_LOCK`. -/
  | freeLocked (resume : Option ℕ)
  /-- `push_deferred` on entry. -/
  | pushStart
  /-- `push_deferred` at its attempt `i`. -/
  | push (start i : ℕ)
  /-- `drain_deferred` before its look at a slot. -/
  | drainLoad (slot : ℕ)
  /-- `drain_deferred` before its swap of a slot. -/
  | drainSwap (slot : ℕ)
  deriving DecidableEq, Repr

/-- Where `free_page` returns to. -/
def Agent.resumed : Option ℕ → Agent
  | none => .done
  | some slot => .drainLoad slot

/-- What `unpin` does with the result of `unpin_ledger`. -/
def Agent.afterUnpin (canFreeNow : Bool) : UnpinResult → Agent
  | .freeDue => if canFreeNow then .freeCheck none else .pushStart
  | .noFree => .done
  | .underflow => .done

/-- A non-empty slot with an address in the frame. -/
def ofFrame (phys value : ℕ) : Bool := value ≠ 0 ∧ value / pageSize = phys / pageSize

/-- The word and the bit of the frame, the ring, the agents, and what a run is judged by. -/
structure LedgerSystem where
  word : ℕ
  bit : Bool
  ring : List ℕ
  cursor : ℕ
  agents : List Agent
  held : ℕ
  owned : Bool
  requested : Bool
  requests : ℕ
  clears : ℕ
  leaks : ℕ
  deriving DecidableEq, Repr

/-- The frame is unpinned; if its bit is set it is allocated. -/
def LedgerSystem.start (bit : Bool) (ring : List ℕ) (cursor : ℕ) : LedgerSystem where
  word := 0
  bit := bit
  ring := ring
  cursor := cursor
  agents := []
  held := 0
  owned := bit
  requested := false
  requests := 0
  clears := 0
  leaks := 0

/-- One atomic access of an agent: what it leaves of the shared state, and where the agent is
afterwards. A compare-exchange may fail although the value is the expected one. -/
def agentStep (ctx : PmmState) (phys : ℕ) (s : LedgerSystem) (spurious : Bool) :
    Agent → LedgerSystem × Agent
  | .done => (s, .done)
  | .unpinLoad canFreeNow => (s, .unpinTry canFreeNow s.word)
  | .unpinTry canFreeNow cur =>
    if pinCountOf cur = 0 then (s, .afterUnpin canFreeNow .underflow)
    else if s.word = cur ∧ spurious = false then
      ({ s with word := (unpinWord cur).1 }, .afterUnpin canFreeNow (unpinWord cur).2)
    else (s, .unpinTry canFreeNow s.word)
  | .freeCheck resume =>
    if ctx.refusesFree phys then (s, .resumed resume) else (s, .markLoad resume)
  | .markLoad resume => (s, .markTry resume s.word)
  | .markTry resume cur =>
    match markChoice cur with
    | .notPinned => (s, .freeLocked resume)
    | .alreadyPending => (s, .resumed resume)
    | .mark new =>
      if s.word = cur ∧ spurious = false then ({ s with word := new }, .resumed resume)
      else (s, .markTry resume s.word)
  | .freeLocked resume =>
    if s.bit then ({ s with bit := false, clears := s.clears + 1 }, .resumed resume)
      else (s, .resumed resume)
  | .pushStart =>
    if phys = 0 then (s, .done) else ({ s with cursor := Word.add s.cursor 1 }, .push s.cursor 0)
  | .push start i =>
    if deferredCap ≤ i then ({ s with leaks := s.leaks + 1 }, .done)
    else if s.ring.getD (Word.add start i % deferredCap) 0 = 0 then
      ({ s with ring := s.ring.set (Word.add start i % deferredCap) phys }, .done)
    else (s, .push start (i + 1))
  | .drainLoad slot =>
    if deferredCap ≤ slot then (s, .done)
    else if s.ring.getD slot 0 = 0 then (s, .drainLoad (slot + 1))
    else (s, .drainSwap slot)
  | .drainSwap slot =>
    ({ s with ring := s.ring.set slot 0 },
      if ofFrame phys (s.ring.getD slot 0) then .freeCheck (some (slot + 1))
        else .drainLoad (slot + 1))

/-- What can happen next. -/
inductive LedgerOp where
  | pin
  | unpin (canFreeNow : Bool)
  | free
  | drain
  | alloc
  /-- Another frame's push or drain. -/
  | other (slot value : ℕ)
  | advance (agent : ℕ) (spurious : Bool)
  deriving DecidableEq, Repr

/-- One access of an agent, or a new request. -/
def ledgerStep (ctx : PmmState) (phys : ℕ) (s : LedgerSystem) : LedgerOp → Option LedgerSystem
  | .pin => if s.requested then none else some { s with word := pinWord s.word, held := s.held + 1 }
  | .unpin canFreeNow =>
    if s.held = 0 then none
    else some { s with held := s.held - 1, agents := s.agents ++ [.unpinLoad canFreeNow] }
  | .free =>
    if s.owned then
      some { s with
        agents := s.agents ++ [.freeCheck none]
        owned := false
        requested := true
        requests := s.requests + 1 }
    else none
  | .drain => some { s with agents := s.agents ++ [.drainLoad 0] }
  | .alloc => if s.bit then none else some { s with bit := true, owned := true, requested := false }
  | .other slot value =>
    if ofFrame phys (s.ring.getD slot 0) ∨ ofFrame phys value then none
    else some { s with ring := s.ring.set slot value }
  | .advance agent spurious =>
    match s.agents[agent]? with
    | none => none
    | some a =>
      let (s', a') := agentStep ctx phys s spurious a
      some { s' with agents := s.agents.set agent a' }

/-! ## Where a free request is -/

/-- The agent carries a free that is due. -/
def Agent.carries : Agent → ℕ
  | .freeCheck _ | .markLoad _ | .markTry _ _ | .freeLocked _ | .pushStart | .push _ _ => 1
  | _ => 0

/-- The agent gives a pin back. -/
def Agent.unpins : Agent → ℕ
  | .unpinLoad _ | .unpinTry _ _ => 1
  | _ => 0

/-- The frees that wait in the word or in the ring. -/
def parked (phys word : ℕ) (ring : List ℕ) : ℕ :=
  (freePending word).toNat + Slots.total (fun v => (ofFrame phys v).toNat) ring

/-- The free requests that have neither cleared the bit nor been dropped by a full ring. -/
def LedgerSystem.inFlight (phys : ℕ) (s : LedgerSystem) : ℕ :=
  parked phys s.word s.ring + Slots.total Agent.carries s.agents

end Astryx.Pmm
