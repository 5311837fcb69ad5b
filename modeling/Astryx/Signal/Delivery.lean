import Astryx.Kernel.PageTable
import Astryx.Paging.State

/-!
# Where signal delivery stores

`signal.rs`. To run a handler the kernel builds a frame below the interrupted stack pointer, which
user code chooses. Before it stores it has `is_user_writable_range` walk every page of the frame.
For a 4 KiB leaf the permissions are checked. For a larger leaf they are not, any present one is
accepted, and no address is compared with `USER_VA_LIMIT`: a stack pointer into the kernel's own 2
MiB or 1 GiB pages, or with bits above the 48 that the walk looks at, passes.

What is stored, and what the functions do to the signal masks and the saved registers, is left out.
-/

namespace Astryx.Signal

open List

/-- The entries of the page tables, by the physical address of the table. -/
abbrev Tables := ℕ → ℕ → ℕ

section Walk

variable (tables : Tables) (cr3 va : ℕ)

/-- The leaf that a walk ends in, with its level: 1 for 4 KiB, 2 for 2 MiB, 3 for 1 GiB. -/
def leafAt : Option (ℕ × ℕ) :=
  let pml4e := tables cr3 (pml4Idx va)
  let pdpte := tables (pml4e &&& addrMask) (pdptIdx va)
  let pde := tables (pdpte &&& addrMask) (pdIdx va)
  let pte := tables (pde &&& addrMask) (ptIdx va)
  if !isPresent pml4e || !isPresent pdpte then none
  else if pdpte &&& pageHuge ≠ 0 then some (3, pdpte)
  else if !isPresent pde then none
  else if pde &&& pageHuge ≠ 0 then some (2, pde)
  else if !isPresent pte then none
  else some (1, pte)

/-- The leaf of a 4 KiB page. -/
def lookupPteIn : Option ℕ :=
  match leafAt tables cr3 va with
  | some (1, pte) => some pte
  | _ => none

/-- The physical address, through leaves of all sizes. -/
def virtToPhysIn : Option ℕ :=
  (leafAt tables cr3 va).map fun
    | (3, pdpte) => (pdpte &&& 0x000FFFFFC0000000) ||| (va &&& 0x3FFFFFFF)
    | (2, pde) => (pde &&& hugeMask) ||| (va &&& 0x1FFFFF)
    | (_, pte) => (pte &&& addrMask) ||| (va &&& 0xFFF)

/-- Present, user and writable. -/
def userWritable (pte : ℕ) : Bool :=
  isPresent pte && pte &&& pageUser ≠ 0 && pte &&& pageWritable ≠ 0

/-- What the loop of `is_user_writable_range` asks of one page. -/
def accepts : Bool :=
  match lookupPteIn tables cr3 va with
  | some pte => userWritable pte
  | none => (virtToPhysIn tables cr3 va).isSome

/-- Both sums are checked: that of the end, and the one that takes the loop to the next page. -/
def isUserWritableRange (base len : ℕ) : Bool :=
  base + len < 2 ^ 64 && (range ((base + len + 4095) / 4096 - base / 4096)).all fun i =>
    accepts tables cr3 (4096 * (base / 4096 + i)) && 4096 * (base / 4096 + i) + 4096 < 2 ^ 64

end Walk

/-! ## The frame -/

/-- The size of `SignalFrame`. -/
def sigframeSize : ℕ := 176

/-- `UCONTEXT_SIZE` -/
def ucontextSize : ℕ := 424

/-- `XSAVE_AREA_SIZE` -/
def xsaveAreaSize : ℕ := 1024

/-- Where the state of the FPU goes. -/
def fpstateVa (rsp : ℕ) : ℕ := Word.clearLow 6 (Word.sub rsp xsaveAreaSize)

/-- The stack pointer of the handler. -/
def newRsp (rsp payload : ℕ) : ℕ := Word.sub (Word.clearLow 4 (Word.sub (fpstateVa rsp) payload)) 8

/-- What a delivery amounts to: nothing, the end of the process (from the interrupt handler:
`false`), or the handler, after stores to spans of addresses. -/
inductive Delivery where
  | quiet
  | killed
  | delivered (stores : List (ℕ × ℕ))

/-- A handler asks for a `siginfo_t` behind the frame: with a `ucontext_t` before it, alone, or not
at all. -/
inductive Info where
  | full
  | alone
  | absent

/-- Where the records go, and their sizes. -/
def Info.spans : Info → List (ℕ × ℕ)
  | .full => [(sigframeSize, ucontextSize), (sigframeSize + ucontextSize, 128)]
  | .alone => [(sigframeSize, 128)]
  | .absent => []

/-- The bytes above the new stack pointer. -/
def Info.payload : Info → ℕ
  | .full => sigframeSize + ucontextSize + 128
  | .alone => sigframeSize + 128
  | .absent => sigframeSize

section Frame

variable (tables : Tables) (cr3 area rsp : ℕ) (info : Info)

/-- The bytes that the frame takes; `fpu_save` stores `area` of the bytes reserved for it. -/
def frameSpans : List (ℕ × ℕ) :=
  let base := newRsp rsp info.payload
  (base, sigframeSize) :: (fpstateVa rsp, area) :: info.spans.map fun s => (Word.add base s.1, s.2)

/-- All pages of the frame pass the check. -/
def frameAccepted : Bool :=
  let base := newRsp rsp info.payload
  isUserWritableRange tables cr3 base (Word.sub rsp base)

/-- The frame is stored if it is accepted. -/
def buildFrame : Delivery :=
  if frameAccepted tables cr3 rsp info then .delivered (frameSpans area rsp info) else .killed

end Frame

/-! ## The two paths -/

/-- What a process does about a signal. -/
inductive SigAction where
  | default
  | ignore
  | handler (addr restorer : ℕ)

/-- What the kernel does about a signal. -/
inductive SigDefault where
  | terminate
  | ignore
  | coreDump
  | stop
  | cont
  deriving DecidableEq

/-- By the number of the signal. -/
def defaultAction (sig : ℕ) : SigDefault :=
  if sig ∈ [17, 28, 18] then .ignore
  else if sig ∈ [19, 20] then .stop
  else if sig ∈ [3, 4, 6, 8, 7, 11, 5] then .coreDump
  else .terminate

/-- The signals of a process. -/
structure SignalState where
  hint : ℕ
  pending : ℕ
  blocked : ℕ
  actions : ℕ → SigAction
  actionFlags : ℕ → ℕ

/-- The first pending signal that is not blocked. -/
def SignalState.dequeue (s : SignalState) : Option ℕ :=
  (range 64).find? fun sig => s.pending.testBit sig && !s.blocked.testBit sig

/-- The handler wants `siginfo`. -/
def SignalState.wantSiginfo (s : SignalState) (sig : ℕ) : Bool := s.actionFlags sig &&& 4 ≠ 0

section Paths

variable (tables : Tables) (cr3 area rsp : ℕ) (s : SignalState)

/-- The signal whose handler a return from a system call runs. -/
def signalCheckOnSyscallReturn : Delivery :=
  if s.hint = 0 then .quiet
  else match s.dequeue with
  | none => .quiet
  | some sig =>
    if sig = 9 then .killed
    else match s.actions sig with
    | .ignore => .quiet
    | .default =>
      if defaultAction sig = .terminate ∨ defaultAction sig = .coreDump then .killed else .quiet
    | .handler _ _ => buildFrame tables cr3 area rsp (if s.wantSiginfo sig then .full else .absent)

/-- The signal of a fault, from the interrupt. -/
def deliverFaultSignalFromIsr (signo : ℕ) : Delivery :=
  match s.actions signo with
  | .handler _ _ => buildFrame tables cr3 area rsp (if s.wantSiginfo signo then .full else .alone)
  | _ => .killed

end Paths

/-! ## What the check is worth -/

section

variable {tables : Tables} {cr3 area rsp a : ℕ} {info : Info}

/-- A byte that a delivery may store to. -/
def UserByte (tables : Tables) (cr3 a : ℕ) : Prop :=
  a < userVaLimit ∧ ∃ l, leafAt tables cr3 a = some l ∧ userWritable l.2

/-- Every byte stored is one of user memory. -/
def Delivery.Confined (tables : Tables) (cr3 : ℕ) : Delivery → Prop
  | .delivered stores => ∀ s ∈ stores, ∀ a, s.1 ≤ a → a < s.1 + s.2 → UserByte tables cr3 a
  | _ => True

/-- The stack pointer puts the end of the frame below the limit, and no large leaf under the frame
is closed to the user. -/
def FrameOk (tables : Tables) (cr3 area rsp : ℕ) (info : Info) : Prop :=
  fpstateVa rsp + area ≤ userVaLimit ∧
    ∀ s ∈ frameSpans area rsp info, ∀ a, s.1 ≤ a → a < s.1 + s.2 →
      ∀ l, leafAt tables cr3 a = some l → l.1 ≠ 1 → userWritable l.2

lemma leafAt_page (tables : Tables) (cr3 a : ℕ) :
    leafAt tables cr3 (4096 * (a / 4096)) = leafAt tables cr3 a := by
  have h1 : pml4Idx (4096 * (a / 4096)) = pml4Idx a := by rw [pml4Idx, pml4Idx]; omega
  have h2 : pdptIdx (4096 * (a / 4096)) = pdptIdx a := by rw [pdptIdx, pdptIdx]; omega
  have h3 : pdIdx (4096 * (a / 4096)) = pdIdx a := by rw [pdIdx, pdIdx]; omega
  have h4 : ptIdx (4096 * (a / 4096)) = ptIdx a := by rw [ptIdx, ptIdx]; omega
  rw [leafAt, leafAt, h1, h2, h3, h4]

/-- An accepted page has a leaf, which is checked if it is small. -/
lemma leafAt_of_accepts (h : accepts tables cr3 a) :
    ∃ l, leafAt tables cr3 a = some l ∧ (l.1 = 1 → userWritable l.2) := by
  rw [accepts, lookupPteIn, virtToPhysIn] at h
  rcases hl : leafAt tables cr3 a with _ | ⟨level, pte⟩
  · simp [hl] at h
  refine ⟨_, rfl, fun hone => ?_⟩
  obtain rfl : level = 1 := hone
  rw [hl] at h
  exact h

lemma accepts_of_range {base len : ℕ} (h : isUserWritableRange tables cr3 base len) (hlo : base ≤ a)
    (hhi : a < base + len) : accepts tables cr3 (4096 * (a / 4096)) := by
  rw [isUserWritableRange, Bool.and_eq_true, all_eq_true] at h
  have hi : a / 4096 - base / 4096 < (base + len + 4095) / 4096 - base / 4096 := by omega
  have hpage := (Bool.and_eq_true _ _).mp (h.2 _ (mem_range.mpr hi))
  rw [show base / 4096 + (a / 4096 - base / 4096) = a / 4096 by omega] at hpage
  exact hpage.1

/-- Where the parts of a frame lie: the range that was checked does not wrap. -/
lemma frame_layout (hrsp : rsp < 2 ^ 64) (h : frameAccepted tables cr3 rsp info) :
    newRsp rsp info.payload + info.payload ≤ fpstateVa rsp ∧
      fpstateVa rsp + xsaveAreaSize ≤
        newRsp rsp info.payload + Word.sub rsp (newRsp rsp info.payload) ∧
      newRsp rsp info.payload + Word.sub rsp (newRsp rsp info.payload) < 2 ^ 64 ∧
      fpstateVa rsp < newRsp rsp info.payload + info.payload + 64 ∧ fpstateVa rsp % 64 = 0 := by
  rw [frameAccepted, isUserWritableRange, Bool.and_eq_true, decide_eq_true_eq] at h
  have hpay : info.payload ≤ 728 := by cases info <;> decide
  have hrange := h.1
  simp only [newRsp, fpstateVa, xsaveAreaSize, Word.clearLow_eq (show 6 ≤ 64 by decide),
    Word.clearLow_eq (show 4 ≤ 64 by decide), Word.sub] at hrange ⊢
  omega

lemma frame_inside (hrsp : rsp < 2 ^ 64) (h : frameAccepted tables cr3 rsp info) {s : ℕ × ℕ}
    (hs : s ∈ frameSpans area rsp info) :
    newRsp rsp info.payload ≤ s.1 ∧ s.1 + s.2 ≤ fpstateVa rsp + area := by
  obtain ⟨hbelow, htop, hrange, -⟩ := frame_layout hrsp h
  have hpay : sigframeSize ≤ info.payload := by cases info <;> decide
  rcases mem_cons.mp hs with rfl | hs
  · omega
  rcases mem_cons.mp hs with rfl | hs
  · omega
  obtain ⟨part, hpart, rfl⟩ := mem_map.mp hs
  have hfits : ∀ part ∈ info.spans, part.1 + part.2 ≤ info.payload := by cases info <;> decide
  have hfits := hfits part hpart
  rw [Word.add_eq (by omega)]
  omega

/-- The end of the frame decides whether it is below the limit. -/
lemma frame_below_iff (hrsp : rsp < 2 ^ 64) (h : frameAccepted tables cr3 rsp info) :
    fpstateVa rsp + area ≤ userVaLimit ↔
      ∀ s ∈ frameSpans area rsp info, ∀ a, s.1 ≤ a → a < s.1 + s.2 → a < userVaLimit := by
  refine ⟨fun hend s hs a _ hhi => (hhi.trans_le (frame_inside hrsp h hs).2).trans_le hend, ?_⟩
  intro hall
  have hlast : ∀ s ∈ frameSpans area rsp info, 0 < s.2 → s.1 + s.2 ≤ userVaLimit := by
    intro s hs hpos
    have hlt := hall s hs (s.1 + s.2 - 1) (by omega) (by omega)
    omega
  obtain ⟨hbelow, htop, hrange, hclose, hmod⟩ := frame_layout hrsp h
  rcases Nat.eq_zero_or_pos area with rfl | hpos
  · -- the limit and the start of the area are multiples of 64
    obtain ⟨part, hpart, hend, hpos⟩ : ∃ part ∈ (0, sigframeSize) :: info.spans,
        part.1 + part.2 = info.payload ∧ 0 < part.2 := by cases info <;> decide
    have hstart : Word.add (newRsp rsp info.payload) part.1 = newRsp rsp info.payload + part.1 :=
      Word.add_eq (by omega)
    have hle : newRsp rsp info.payload + part.1 + part.2 ≤ userVaLimit := by
      rcases mem_cons.mp hpart with rfl | hpart
      · simpa using hlast (newRsp rsp info.payload, sigframeSize) mem_cons_self hpos
      · rw [← hstart]
        exact hlast _ (mem_cons_of_mem _ (mem_cons_of_mem _ (mem_map_of_mem hpart))) hpos
    rw [userVaLimit] at hle ⊢
    omega
  · exact hlast (fpstateVa rsp, area) (by simp [frameSpans]) hpos

lemma buildFrame_confined_iff (hrsp : rsp < 2 ^ 64) (harea : area ≤ xsaveAreaSize) :
    (buildFrame tables cr3 area rsp info).Confined tables cr3 ↔
      (frameAccepted tables cr3 rsp info → FrameOk tables cr3 area rsp info) := by
  rw [buildFrame]
  split
  · next hacc =>
    rw [forall_prop_of_true hacc, FrameOk, frame_below_iff hrsp hacc]
    simp only [Delivery.Confined, UserByte, forall_and]
    refine and_congr_right fun _ => forall₂_congr fun s hs => forall₃_congr fun a hlo hhi => ?_
    have hin := frame_inside hrsp hacc hs
    have htop := (frame_layout hrsp hacc).2.1
    obtain ⟨l, hl, hsmall⟩ :=
      leafAt_of_accepts (accepts_of_range hacc (hin.1.trans hlo) (by omega : a < _))
    rw [leafAt_page] at hl
    constructor
    · rintro ⟨l', hl', huser⟩ l'' hl'' -
      rwa [Option.some.inj (hl''.symm.trans hl')]
    intro hlarge
    refine ⟨l, hl, ?_⟩
    by_cases hone : l.1 = 1
    · exact hsmall hone
    · exact hlarge l hl hone
  · next hacc => exact iff_of_true trivial (absurd · hacc)

end

/-- A handler is installed, and a frame for it that the check lets pass is one that it should. -/
def DeliverOk (tables : Tables) (cr3 area rsp : ℕ) (info : Info) : SigAction → Prop
  | .handler _ _ => frameAccepted tables cr3 rsp info → FrameOk tables cr3 area rsp info
  | _ => True

theorem signal_confined_iff (tables : Tables) (cr3 : ℕ) {area rsp : ℕ} (hrsp : rsp < 2 ^ 64)
    (harea : area ≤ xsaveAreaSize) (s : SignalState) (signo : ℕ) :
    ((signalCheckOnSyscallReturn tables cr3 area rsp s).Confined tables cr3 ↔
      ∀ sig, s.hint ≠ 0 → s.dequeue = some sig → sig ≠ 9 →
        DeliverOk tables cr3 area rsp (if s.wantSiginfo sig then .full else .absent)
        (s.actions sig)) ∧
    ((deliverFaultSignalFromIsr tables cr3 area rsp s signo).Confined tables cr3 ↔
      DeliverOk tables cr3 area rsp (if s.wantSiginfo signo then .full else .alone)
      (s.actions signo)) := by
  constructor
  · rw [signalCheckOnSyscallReturn]
    by_cases hhint : s.hint = 0
    · simp [hhint, Delivery.Confined]
    cases hd : s.dequeue with
    | none => simp [hhint, Delivery.Confined]
    | some sig =>
      by_cases hkill : sig = 9
      · simp [hhint, hkill, Delivery.Confined]
      refine Iff.trans ?_
        ⟨fun h sig' _ he _ => by cases he; exact h, fun h => h sig hhint rfl hkill⟩
      rw [if_neg hhint]
      dsimp only
      rw [if_neg hkill]
      cases s.actions sig with
      | handler addr restorer => exact buildFrame_confined_iff hrsp harea
      | ignore => exact .rfl
      | default => exact iff_of_true (by dsimp only; split <;> trivial) trivial
  rw [deliverFaultSignalFromIsr]
  cases s.actions signo with
  | handler addr restorer => exact buildFrame_confined_iff hrsp harea
  | default => exact .rfl
  | ignore => exact .rfl

/-- A root with one entry. Below it lies a 1 GiB leaf or the tables of one user page. -/
def oneLeaf (i pdpte : ℕ) : Tables := fun table j =>
  if table = 0x1000 ∧ j = i then 0x2007
  else if table = 0x2000 ∧ j = 0 then pdpte
  else if table = 0x3000 ∧ j = 0 then 0x4007
  else if table = 0x4000 ∧ j = 5 then 0x9007
  else 0

/-- One pending signal with a handler. -/
def handled : SignalState := ⟨1, 2 ^ 10, 0, fun _ => .handler 0x400000 0, fun _ => 0⟩

theorem signal_confined_of_userPage :
    (signalCheckOnSyscallReturn (oneLeaf 0 0x3007) 0x1000 512 0x6000 handled).Confined
      (oneLeaf 0 0x3007) 0x1000 := by
  apply (@signal_confined_iff (oneLeaf 0 0x3007) 0x1000 512 0x6000 (by decide)
    (by decide) handled 11).1.mpr
  intro sig _ _ _ _
  refine ⟨by decide, fun s hs a hlo hhi l hl hlarge => ?_⟩
  have hspans : frameSpans 512 0x6000 .absent = [(0x5B48, 176), (0x5C00, 512)] := by decide
  have hspan : s = (0x5B48, 176) ∨ s = (0x5C00, 512) := by
    simpa [SignalState.wantSiginfo, handled, hspans] using hs
  have hpage : a / 4096 = 5 := by rcases hspan with rfl | rfl <;> dsimp only at hlo hhi <;> omega
  have hleaf : leafAt (oneLeaf 0 0x3007) 0x1000 a = some (1, 0x9007) := by
    rw [← leafAt_page, hpage]
    decide
  cases hleaf.symm.trans hl
  exact absurd rfl hlarge

/-- With the stack pointer in a 1 GiB page of the kernel the frame is stored over the kernel, on
both paths. -/
theorem signal_stores_to_kernel :
    let tables := oneLeaf 256 0x83
    ¬ (signalCheckOnSyscallReturn tables 0x1000 512 0xFFFF800000010000 handled).Confined
      tables 0x1000 ∧
      ¬ (deliverFaultSignalFromIsr tables 0x1000 512 0xFFFF800000010000 handled 11).Confined tables
        0x1000 := by
  constructor
  · intro h
    exact absurd (h _ mem_cons_self 0xFFFF80000000FB48 (by decide) (by decide)).1 (by decide)
  · intro h
    exact absurd (h _ mem_cons_self 0xFFFF80000000FAC8 (by decide) (by decide)).1 (by decide)

end Astryx.Signal
