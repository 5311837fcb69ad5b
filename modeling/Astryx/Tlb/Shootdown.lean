import Astryx.Tlb.ActiveMask

/-!
# TLB shootdowns

The protocol of `mm/tlb.rs`. Each CPU has one slot for a request and one flag that asks it to drop
its whole TLB. A sender publishes its range in the slot of every CPU that runs on the page table,
interrupts them, and polls the slots. A CPU that serves its slot first takes the request (`pending`
1 to 0), then reads the range and invalidates it, then drops its TLB if its flag is up; it does so
in the interrupt, and while it waits as a sender itself. A sender that has polled often enough
withdraws its requests, raises the flags of the CPUs that have not answered, and returns `false`.
The timer interrupt drops the TLB and then lowers the flag.

A step is one access to a slot, a flag or the TLB. A CPU has a stack of activations, of which the
topmost one moves: its calls of `shootdown_range`, and the interrupts that came on top of them, at
any time. Page tables and active masks are fixed. A translation is stamped with the number of calls
begun when it was cached, so that it was cached before a call began exactly if its stamp is not
above the number of the call; and a slot remembers the call that published there last.
-/

namespace Astryx.Shootdown

open Function

/-! ## Translations -/

/-- `PAGE_SIZE` -/
def pageSize : ℕ := 4096

/-- `FULL_FLUSH_PAGES_THRESHOLD` -/
def fullFlushPagesThreshold : ℕ := 32

/-- A translation of a page that a CPU has cached. -/
structure Translation where
  cr3 : ℕ
  page : ℕ
  /-- The number of calls begun when it was cached. -/
  born : ℕ
  deriving DecidableEq

/-- One instruction on a TLB. -/
inductive TlbOp
  | invlpg (page : ℕ)
  /-- CR3 is reloaded. -/
  | flush
  deriving DecidableEq

/-- What the instruction leaves. -/
def TlbOp.apply (tlb : List Translation) : TlbOp → List Translation
  | invlpg page => tlb.filter fun e => e.page ≠ page
  | flush => []

/-- `local_invlpg_range`, as the instructions it executes. The upper bound is rounded up with
wrapping. -/
def localInvlpgRange (lo hi : ℕ) : List TlbOp :=
  let first := lo / pageSize
  let last := (hi + (pageSize - 1)) % 2 ^ 64 / pageSize
  if fullFlushPagesThreshold < last - first then [.flush]
  else (List.range (last - first)).map fun i => .invlpg (first + i)

/-- The page has an address of the range. -/
def InRange (lo hi page : ℕ) : Prop := ∃ a, lo ≤ a ∧ a < hi ∧ a / pageSize = page

/-! ## Activations -/

/-- How often an acknowledgement is waited for. -/
def ackBound : ℕ := 10000000

/-- The fields of a slot in the order in which they are stored. -/
inductive Field
  | cr3
  | lo
  | hi
  | pending
  deriving DecidableEq

/-- Where a call of `shootdown_range` is. -/
inductive Pc
  | invalidate (ops : List TlbOp)
  /-- About to store a field of the slot of the first CPU that is left. -/
  | publish (done todo : List ℕ) (field : Field)
  /-- About to look at the slots that are left; those in `still` were pending in this round. -/
  | poll (left still : List ℕ) (iters : ℕ)
  /-- About to withdraw the requests that are left. -/
  | clear (left remaining : List ℕ)
  /-- About to raise the flags of the CPUs that are left. -/
  | post (left : List ℕ)
  | ret (clean : Bool)
  deriving DecidableEq

/-- A shootdown under way. -/
structure Call where
  cpu : ℕ
  cr3 : ℕ
  lo : ℕ
  hi : ℕ
  pc : Pc
  deriving DecidableEq

/-- Where `service_incoming_shootdown_and_drain` is. After it has taken a request it remembers which
call's it was. -/
inductive Service
  | claim
  | readCr3 (request : ℕ)
  | readLo (request cr3 : ℕ)
  | readHi (request cr3 lo : ℕ)
  | invalidate (request : ℕ) (op : TlbOp) (ops : List TlbOp)
  | drain
  | flush
  deriving DecidableEq

/-- Where `on_cpu_tick` is. After it has flushed it remembers how many calls had begun. -/
inductive Tick
  | flush
  | clear (since : ℕ)
  deriving DecidableEq

/-- What a CPU is doing. -/
inductive Frame
  | call (id : ℕ)
  | service (pc : Service)
  | tick (pc : Tick)
  deriving DecidableEq

/-! ## The machine -/

/-- CPUs with the page tables they run on, and active masks that name exactly them. -/
structure Machine where
  ncpus : ℕ
  cr3 : ℕ → ℕ
  active : Tlb.ActiveCpus
  online : ncpus ≤ Tlb.maxCpus
  exact : ∀ c i, Tlb.Active active c i ↔ i < ncpus ∧ cr3 i = c

/-- The CPUs a call interrupts, in the order of their bits. -/
def Machine.targets (m : Machine) (self cr3 : ℕ) : List ℕ :=
  (List.range Tlb.maxCpus).filter fun i => (Tlb.shootdownTargets m.active self cr3).getLsbD i

/-- `ShootdownSlot` -/
structure Slot where
  cr3 : ℕ
  lo : ℕ
  hi : ℕ
  pending : Bool
  /-- The call that published here last. -/
  owner : ℕ

/-- The slots, the TLBs and what each CPU is doing. -/
structure State where
  slots : ℕ → Slot
  /-- `FORCE_FLUSH_PENDING` -/
  force : ℕ → Bool
  tlb : ℕ → List Translation
  /-- What each CPU is doing, the topmost activation first. -/
  stack : ℕ → List Frame
  calls : ℕ → Option Call
  /-- The number of calls begun. -/
  begun : ℕ

/-- Nothing cached and nothing under way. -/
def boot : State :=
  ⟨fun _ => ⟨0, 0, 0, false, 0⟩, fun _ => false, fun _ => [], fun _ => [], fun _ => none, 0⟩

namespace State

/-- A slot changes. -/
def setSlot (s : State) (b : ℕ) (slot : Slot) : State := { s with slots := update s.slots b slot }

/-- A mark of `FORCE_FLUSH_PENDING` changes. -/
def setForce (s : State) (b : ℕ) (v : Bool) : State := { s with force := update s.force b v }

/-- A TLB changes. -/
def setTlb (s : State) (b : ℕ) (tlb : List Translation) : State :=
  { s with tlb := update s.tlb b tlb }

/-- What a CPU is doing changes. -/
def setStack (s : State) (b : ℕ) (stack : List Frame) : State :=
  { s with stack := update s.stack b stack }

/-- A shootdown goes on. -/
def setPc (s : State) (id : ℕ) (c : Call) (pc : Pc) : State :=
  { s with calls := update s.calls id (some { c with pc := pc }) }

end State

/-- The next step of a call on a CPU, with the activations below it. -/
def callStep (m : Machine) (s : State) (cpu id : ℕ) (c : Call) (rest : List Frame) : State :=
  match c.pc with
  | .invalidate (op :: ops) =>
    (s.setTlb c.cpu (op.apply (s.tlb c.cpu))).setPc id c (.invalidate ops)
  | .invalidate [] =>
    s.setPc id c
      (if m.targets c.cpu c.cr3 = [] then .ret true else .publish [] (m.targets c.cpu c.cr3) .cr3)
  | .publish done [] _ => s.setPc id c (.poll done [] 0)
  | .publish done (b :: todo) .cr3 =>
    (s.setSlot b { s.slots b with cr3 := c.cr3 }).setPc id c (.publish done (b :: todo) .lo)
  | .publish done (b :: todo) .lo =>
    (s.setSlot b { s.slots b with lo := c.lo }).setPc id c (.publish done (b :: todo) .hi)
  | .publish done (b :: todo) .hi =>
    (s.setSlot b { s.slots b with hi := c.hi }).setPc id c (.publish done (b :: todo) .pending)
  | .publish done (b :: todo) .pending =>
    (s.setSlot b { s.slots b with pending := true, owner := id }).setPc id c
      (.publish (done ++ [b]) todo .cr3)
  | .poll (b :: left) still iters =>
    s.setPc id c (.poll left (if (s.slots b).pending then still ++ [b] else still) iters)
  | .poll [] [] _ => s.setPc id c (.ret true)
  | .poll [] (b :: still) iters =>
    -- the sender serves its own slot before the next round
    (s.setStack cpu (.service .claim :: .call id :: rest)).setPc id c
      (if iters + 1 < ackBound then .poll (b :: still) [] (iters + 1)
        else .clear (b :: still) (b :: still))
  | .clear (b :: left) remaining =>
    (s.setSlot b { s.slots b with pending := false }).setPc id c (.clear left remaining)
  | .clear [] remaining => s.setPc id c (.post remaining)
  | .post (b :: left) => (s.setForce b true).setPc id c (.post left)
  | .post [] => s.setPc id c (.ret false)
  | .ret _ => s.setStack cpu rest

/-- After one more instruction. -/
def Service.rest (request : ℕ) : List TlbOp → Service
  | [] => drain
  | op :: ops => invalidate request op ops

/-- One access of the handler. -/
def serviceStep (m : Machine) (s : State) (cpu : ℕ) (pc : Service) (rest : List Frame) : State :=
  match pc with
  | .claim =>
    if (s.slots cpu).pending then
      (s.setSlot cpu { s.slots cpu with pending := false }).setStack cpu
        (.service (.readCr3 (s.slots cpu).owner) :: rest)
    else s.setStack cpu (.service .drain :: rest)
  | .readCr3 request => s.setStack cpu (.service (.readLo request (s.slots cpu).cr3) :: rest)
  | .readLo request cr3 => s.setStack cpu (.service (.readHi request cr3 (s.slots cpu).lo) :: rest)
  | .readHi request cr3 lo =>
    s.setStack cpu (.service
      (if m.cr3 cpu = cr3 then Service.rest request (localInvlpgRange lo (s.slots cpu).hi)
        else .drain) :: rest)
  | .invalidate request op ops =>
    (s.setTlb cpu (op.apply (s.tlb cpu))).setStack cpu (.service (Service.rest request ops) :: rest)
  | .drain =>
    if s.force cpu then (s.setForce cpu false).setStack cpu (.service .flush :: rest)
      else s.setStack cpu rest
  | .flush => (s.setTlb cpu []).setStack cpu rest

/-- One access of the tick. -/
def tickStep (s : State) (cpu : ℕ) (pc : Tick) (rest : List Frame) : State :=
  match pc with
  | .flush => (s.setTlb cpu []).setStack cpu (.tick (.clear s.begun) :: rest)
  | .clear _ => (s.setForce cpu false).setStack cpu rest

/-- What may happen next. -/
inductive Event
  /-- A CPU caches a translation of a page. -/
  | cache (cpu page : ℕ)
  | begin (cpu cr3 lo hi : ℕ)
  /-- A CPU starts to serve its slot, in the interrupt or where it waits for a lock. -/
  | serve (cpu : ℕ)
  | tick (cpu : ℕ)
  | advance (cpu : ℕ)
  deriving DecidableEq

/-- The CPU is there. -/
def Machine.on (m : Machine) (cpu : ℕ) (next : Option State) : Option State :=
  if cpu < m.ncpus then next else none

/-- One event. -/
def step (m : Machine) (s : State) : Event → Option State
  | .cache cpu page => m.on cpu <| some (s.setTlb cpu (⟨m.cr3 cpu, page, s.begun⟩ :: s.tlb cpu))
  | .begin cpu cr3 lo hi => m.on cpu <| some
    { s with
      calls := update s.calls s.begun
        (some ⟨cpu, cr3, lo, hi, .invalidate (localInvlpgRange lo hi)⟩)
      stack := update s.stack cpu (.call s.begun :: s.stack cpu)
      begun := s.begun + 1 }
  | .serve cpu => m.on cpu <| some (s.setStack cpu (.service .claim :: s.stack cpu))
  | .tick cpu => m.on cpu <| some (s.setStack cpu (.tick .flush :: s.stack cpu))
  | .advance cpu => m.on cpu <|
    match s.stack cpu with
    | [] => none
    | .call id :: rest => (s.calls id).map fun c => callStep m s cpu id c rest
    | .service pc :: rest => some (serviceStep m s cpu pc rest)
    | .tick pc :: rest => some (tickStep s cpu pc rest)

/-! ## What a shootdown is for -/

/-- The translation is one that the call is to remove, and was cached before it began. -/
def Stale (id : ℕ) (c : Call) (e : Translation) : Prop :=
  e.cr3 = c.cr3 ∧ InRange c.lo c.hi e.page ∧ e.born ≤ id

/-- The CPU holds no translation that the call is to remove. -/
def Clean (s : State) (id : ℕ) (c : Call) (b : ℕ) : Prop := ∀ e ∈ s.tlb b, ¬ Stale id c e

/-- When a call has returned `true`, no other CPU on its page table holds a translation it was to
remove; when it has returned `false`, every CPU that holds one has its flag up or has lowered it and
is about to flush. -/
def Shot (m : Machine) (s : State) : Prop :=
  ∀ id c, s.calls id = some c →
    (c.pc = .ret true → ∀ b < m.ncpus, b ≠ c.cpu → m.cr3 b = c.cr3 → Clean s id c b) ∧
    (c.pc = .ret false →
      ∀ b < m.ncpus, ¬ Clean s id c b → s.force b = true ∨ .service .flush ∈ s.stack b)

/-! ## When it is met -/

/-- The call has begun to publish in the slot and has neither seen its request taken nor withdrawn
it. -/
def Pc.uses (b : ℕ) : Pc → Bool
  | publish done todo field => b ∈ done ∨ field ≠ .cr3 ∧ todo.head? = some b
  | poll left still _ => b ∈ left ∨ b ∈ still
  | clear left _ => b ∈ left
  | _ => false

/-- The activation has taken the request of the call and has not finished its invalidation. -/
def Frame.serves (id : ℕ) : Frame → Bool
  | service (.readCr3 request) => request = id
  | service (.readLo request _) => request = id
  | service (.readHi request _ _) => request = id
  | service (.invalidate request _ _) => request = id
  | _ => false

/-- The activation is a timer interrupt that flushed before the call began, and has not lowered the
flag. -/
def Frame.flushedBefore (id : ℕ) : Frame → Bool
  | tick (.clear since) => since ≤ id
  | _ => false

/-- What a step of a call must not meet: a slot that another call uses, a request that is taken but
not served, a timer interrupt that flushed before the call began and is about to lower the flag. -/
def Pc.Orderly (s : State) (id : ℕ) : Pc → Prop
  | publish _ (b :: _) .cr3 => ∀ k < s.begun, ∀ d ∈ s.calls k, d.pc.uses b = false
  | poll (b :: _) _ _ => (s.slots b).pending = false → ∀ f ∈ s.stack b, f.serves id = false
  | post (b :: _) => ∀ f ∈ s.stack b, f.flushedBefore id = false
  | _ => True

/-- The topmost activation, if it is a call, meets nothing of this. -/
def Frame.Orderly (s : State) : List Frame → Prop
  | call id :: _ => ∀ c ∈ s.calls id, c.pc.Orderly s id
  | _ => True

/-- The range does not wrap, and the access is in order. -/
def Orderly (s : State) : Event → Prop
  | .begin _ _ _ hi => hi + (pageSize - 1) < 2 ^ 64
  | .advance cpu => Frame.Orderly s (s.stack cpu)
  | _ => True

instance instDecidablePcOrderly (s : State) (id : ℕ) (pc : Pc) : Decidable (pc.Orderly s id) := by
  unfold Pc.Orderly
  split <;> infer_instance

instance instDecidableFrameOrderly (s : State) (l : List Frame) :
    Decidable (Frame.Orderly s l) := by
  unfold Frame.Orderly
  split <;> infer_instance

instance instDecidableOrderly (s : State) (e : Event) : Decidable (Orderly s e) := by
  cases e <;> dsimp only [Orderly] <;> infer_instance

end Astryx.Shootdown
