import Astryx.Lib.Extents
import Astryx.Lib.Word

/-!
# The address space of a process

`mm/vma.rs`: a `VmSpace` keeps its virtual memory areas in a vector sorted by base address.

Addresses are `u64` and the kernel is built without overflow checks, so every sum and difference the
source writes with `+` and `-` is `Word.add` and `Word.sub` here unless the guards around it make
the exact operation the same one.

The page-table work that some of these functions start (`unmap_and_free_range_in`) is returned as
the range to be swept; the page tables themselves are modelled elsewhere.
-/

namespace Astryx

/-! ## Areas -/

/-- `PROT_READ` -/
def protRead : ℕ := 1

/-- `PROT_WRITE` -/
def protWrite : ℕ := 2

/-- `PROT_EXEC` -/
def protExec : ℕ := 4

/-- `MAP_SHARED` -/
def mapShared : ℕ := 1

/-- `MAP_PRIVATE` -/
def mapPrivate : ℕ := 2

/-- `MAP_FIXED` -/
def mapFixed : ℕ := 0x10

/-- `MAP_ANONYMOUS` -/
def mapAnonymous : ℕ := 0x20

/-- `MAP_STACK` -/
def mapStack : ℕ := 0x20000

/-- `MAP_FIXED_NOREPLACE` -/
def mapFixedNoreplace : ℕ := 0x100000

/-- What backs an area's pages. -/
inductive VmBacking where
  | anonymous
  | file (mountIdx inode offset elfLoadDelta : ℕ)
  | device (physBase : ℕ)
  deriving DecidableEq, Repr

/-- The labels the modelled operations give to areas; `heap` is the one that is looked up again. -/
inductive AreaName where
  | heap | shm | fb0 | driStub | mmap | mmapFile
  deriving DecidableEq, Repr

/-- One contiguous region of an address space. -/
structure VmArea where
  base : ℕ
  length : ℕ
  prot : ℕ
  flags : ℕ
  backing : VmBacking
  name : AreaName
  deriving DecidableEq, Repr

/-- `VmArea::end`. -/
def VmArea.endAddr (a : VmArea) : ℕ := Word.add a.base a.length

/-- The area and the range have an address in common. -/
def VmArea.overlaps (a : VmArea) (base length : ℕ) : Bool :=
  a.base < Word.add base length ∧ base < a.endAddr

/-- The backing of a piece that starts `delta` bytes into the area. -/
def VmBacking.advance (delta : ℕ) : VmBacking → VmBacking
  | .file mountIdx inode offset elfLoadDelta =>
    .file mountIdx inode (Word.add offset delta) elfLoadDelta
  | b => b

/-- `matches!(backing, VmBacking::Device { .. })`. -/
def VmBacking.isDevice : VmBacking → Bool
  | .device _ => true
  | _ => false

/-- The next multiple of a page. -/
def pageAlignUp (addr : ℕ) : ℕ := Word.alignUp 12 addr

/-- The page an address is in. -/
def pageAlignDown (addr : ℕ) : ℕ := Word.clearLow 12 addr

lemma pageAlignUp_eq (x : ℕ) : pageAlignUp x = (x + 4095) % 2 ^ 64 / 4096 * 4096 :=
  Word.alignUp_eq (by decide) x

lemma pageAlignDown_eq (x : ℕ) : pageAlignDown x = x % 2 ^ 64 / 4096 * 4096 :=
  Word.clearLow_eq (by decide) x

lemma pageAlignUp_mod (x : ℕ) : pageAlignUp x % 4096 = 0 := by
  rw [pageAlignUp_eq]
  omega

lemma pageAlignUp_lt (x : ℕ) : pageAlignUp x < 2 ^ 64 := by
  rw [pageAlignUp_eq]
  omega

lemma pageAlignDown_mod (x : ℕ) : pageAlignDown x % 4096 = 0 := by
  rw [pageAlignDown_eq]
  omega

lemma pageAlignUp_idem (x : ℕ) : pageAlignUp (pageAlignUp x) = pageAlignUp x := by
  rw [pageAlignUp_eq, pageAlignUp_eq]
  omega

/-- A process address space: the fields of `VmSpace` that placement and the area list depend on. -/
structure VmSpace where
  cr3 : ℕ
  areas : List VmArea
  mmapHint : ℕ
  stackAslrBase : ℕ
  brk : ℕ
  brkStart : ℕ
  deriving DecidableEq, Repr

/-- `MMAP_BASE` -/
def mmapBase : ℕ := 0x7F0000000000

/-- `HEAP_BASE` -/
def heapBase : ℕ := 0x4000000000

/-- `STACK_ASLR_MIN` -/
def stackAslrMin : ℕ := mmapBase

/-- `STACK_ASLR_MAX` -/
def stackAslrMax : ℕ := 0x7F4000000000

/-- `aslr_page_offset(bits)` on the random word `r`. -/
def aslrPageOffset (bits r : ℕ) : ℕ := r &&& ((2 ^ bits - 1) * 2 ^ 12)

/-- `VmSpace::new_user`, given the fresh root table and the two random words it draws. -/
def VmSpace.newUser (newPml4 hintDraw stackDraw : ℕ) : VmSpace where
  cr3 := newPml4
  areas := []
  mmapHint := mmapBase - aslrPageOffset 20 hintDraw
  stackAslrBase := min (stackAslrMin + aslrPageOffset 26 stackDraw) (stackAslrMax - 0x1000)
  brk := heapBase
  brkStart := heapBase

/-! ## Editing the area list -/

/-- `VmSpace::insert_vma`: `none` is the `Overlap` error. -/
def VmSpace.insertVma (vs : VmSpace) (vma : VmArea) : Option VmSpace :=
  if vs.areas.any (·.overlaps vma.base vma.length) then none
  else some { vs with areas := Extents.place VmArea.base vma vs.areas }

/-- What `remove_range(base, length)` leaves of one area. The loop of the source replaces the area
by these pieces and continues after them. -/
def carve (base length : ℕ) (vma : VmArea) : List VmArea :=
  let rangeEnd := Word.add base length
  if !vma.overlaps base length then [vma]
  else if vma.base ≥ base ∧ vma.endAddr ≤ rangeEnd then []
  else if vma.base < base ∧ vma.endAddr > rangeEnd then
    -- the range punches a hole: a left piece, and a right piece further into the backing
    [{ vma with length := Word.sub base vma.base },
     { vma with
        base := rangeEnd, length := Word.sub vma.endAddr rangeEnd,
        backing := vma.backing.advance (Word.sub rangeEnd vma.base) }]
  else if vma.base < base then [{ vma with length := Word.sub base vma.base }]
  else
    let leftDelta := Word.sub rangeEnd vma.base
    [{ vma with
        base := rangeEnd, length := Word.sub vma.length leftDelta,
        backing := vma.backing.advance leftDelta }]

/-- A range is cut out of all areas. -/
def VmSpace.removeRange (vs : VmSpace) (base length : ℕ) : VmSpace :=
  { vs with areas := vs.areas.flatMap (carve base length) }

/-! ## In-flight teardowns -/

/-- One slot of the teardown table; a free slot has `cr3 = 0`. -/
structure TeardownSlot where
  cr3 : ℕ
  lo : ℕ
  hi : ℕ
  deriving DecidableEq, Repr

/-- `TEARDOWN_SLOTS` -/
def teardownSlots : ℕ := 64

/-- The ranges that are being torn down. -/
abbrev Teardowns := List TeardownSlot

/-- No range is being torn down. -/
def Teardowns.empty : Teardowns := List.replicate teardownSlots ⟨0, 0, 0⟩

/-- `teardown_publish`: the table with the range recorded and the slot it took, or `none` for
`TEARDOWN_NO_SLOT`. -/
def teardownPublish (tds : Teardowns) (cr3 lo hi : ℕ) : Teardowns × Option ℕ :=
  if cr3 = 0 ∨ hi ≤ lo then (tds, none)
  else match tds.findIdx? (·.cr3 = 0) with
    | some i => (tds.set i ⟨cr3, lo, hi⟩, some i)
    | none => (tds, none)

/-- A teardown is over. -/
def teardownRetire (tds : Teardowns) : Option ℕ → Teardowns
  | some slot => tds.set slot ⟨0, 0, 0⟩
  | none => tds

/-- A slot of `cr3` whose range meets `[lo, hi)`. -/
def TeardownSlot.meets (cr3 lo hi : ℕ) (t : TeardownSlot) : Bool :=
  t.cr3 = cr3 ∧ lo < t.hi ∧ hi > t.lo

/-- `teardown_conflict`: the lowest base among the reservations of `cr3` meeting `[lo, hi)`. The
fast path on `TEARDOWN_LIVE = 0` answers `none` when no slot is published, as the scan does. -/
def teardownConflict (tds : Teardowns) (cr3 lo hi : ℕ) : Option ℕ :=
  if cr3 = 0 ∨ cr3 = 2 ^ 64 - 1 then none
  else ((tds.filter (·.meets cr3 lo hi)).map TeardownSlot.lo).min?

/-- The reservations of an address space: `0` marks a free slot, and `u64::MAX` one that is not
published yet. -/
def Teardowns.inFlight (tds : Teardowns) (cr3 : ℕ) : List TeardownSlot :=
  tds.filter fun t => t.cr3 = cr3 ∧ cr3 ≠ 0 ∧ cr3 ≠ 2 ^ 64 - 1

/-! ## Placement -/

/-- Lowest base `find_free_range_below` hands out. -/
def mmapFloor : ℕ := 0x1000

/-- The descending sweep of `find_free_range_below` over the areas from the highest down. -/
def sweepDown (size : ℕ) : List VmArea → ℕ → Option ℕ
  | [], ceiling =>
    if ceiling > mmapFloor ∧ ceiling - mmapFloor ≥ size then some (ceiling - size) else none
  | vma :: rest, ceiling =>
    if vma.base ≥ ceiling then sweepDown size rest ceiling
    else
      let gapBot := max (min vma.endAddr ceiling) mmapFloor
      if ceiling ≥ gapBot ∧ ceiling - gapBot ≥ size then some (ceiling - size)
      else sweepDown size rest (min vma.base ceiling)

variable {c size : ℕ} {vs : VmSpace} {tds : Teardowns}

/-- A range is placed right below the ceiling or right below an area. -/
lemma sweepDown_top {l : List VmArea} {ceiling : ℕ} (h : sweepDown size l ceiling = some c) :
    c + size ≤ ceiling ∧ (c + size = ceiling ∨ ∃ a ∈ l, c + size = a.base) := by
  induction l generalizing ceiling with
  | nil =>
    rw [sweepDown] at h
    split_ifs at h with hroom
    cases h
    omega
  | cons a l ih =>
    rw [sweepDown] at h
    dsimp only at h
    split_ifs at h with hskip hroom
    · exact (ih h).imp_right (.imp_right fun ⟨b, hb, heq⟩ => ⟨b, .tail a hb, heq⟩)
    · cases h
      omega
    obtain ⟨hle, htop⟩ := ih h
    refine ⟨by omega, .inr ?_⟩
    rcases htop with heq | ⟨b, hb, heq⟩
    · exact ⟨a, .head l, by omega⟩
    · exact ⟨b, .tail a hb, heq⟩

/-- The highest gap below a ceiling. -/
def VmSpace.findFreeRangeBelow (vs : VmSpace) (size startCeiling : ℕ) : Option ℕ :=
  sweepDown (pageAlignUp size) vs.areas.reverse (min startCeiling mmapBase)

/-- The retry loop of `find_free_range`, `n` attempts left. -/
def findFreeRangeLoop (tds : Teardowns) (vs : VmSpace) (size : ℕ) : ℕ → ℕ → Option ℕ
  | 0, _ => none
  | n + 1, ceiling =>
    match vs.findFreeRangeBelow size ceiling with
    | none => none
    | some cand =>
      match teardownConflict tds vs.cr3 cand (Word.satAdd cand size) with
      | none => some cand
      | some tLo => findFreeRangeLoop tds vs size n tLo

lemma teardownConflict_mem {cr3 lo hi b : ℕ} (h : teardownConflict tds cr3 lo hi = some b) :
    ∃ t ∈ tds.inFlight cr3, lo < t.hi ∧ t.lo < hi ∧ t.lo = b := by
  rw [teardownConflict] at h
  split_ifs at h with hcr3
  obtain ⟨t, ht, rfl⟩ := List.mem_map.mp (List.min?_mem h)
  obtain ⟨ht, hmeets⟩ := List.mem_filter.mp ht
  obtain ⟨htc, hlo, hhi⟩ := of_decide_eq_true hmeets
  exact ⟨t, List.mem_filter.mpr ⟨ht, decide_eq_true ⟨htc, not_or.mp hcr3⟩⟩, hlo, hhi, rfl⟩

/-- The loop ends with a range that the sweep finds below its ceiling or below a reservation. -/
lemma findFreeRangeLoop_below {n ceiling : ℕ}
    (h : findFreeRangeLoop tds vs size n ceiling = some c) :
    ∃ top, vs.findFreeRangeBelow size top = some c ∧ (top = ceiling ∨ ∃ t ∈ tds, t.lo = top) := by
  induction n generalizing ceiling with
  | zero => cases h
  | succ n ih =>
    rw [findFreeRangeLoop] at h
    split at h
    · cases h
    rename_i cand hcand
    split at h
    · cases h
      exact ⟨ceiling, hcand, .inl rfl⟩
    next hconf =>
      obtain ⟨t, ht, -, -, rfl⟩ := teardownConflict_mem hconf
      obtain ⟨top, hbelow, htop⟩ := ih h
      exact ⟨top, hbelow, .inr (htop.elim (fun heq => ⟨t, (List.mem_filter.mp ht).1, heq.symm⟩) id)⟩

/-- The highest gap that no teardown is in. -/
def VmSpace.findFreeRange (vs : VmSpace) (tds : Teardowns) (size : ℕ) : Option ℕ :=
  findFreeRangeLoop tds vs (pageAlignUp size) (teardownSlots + 1) mmapBase

/-- The kernel's choice lies below `MMAP_BASE`, whatever the areas are. -/
lemma findFreeRange_le (h : vs.findFreeRange tds size = some c) :
    c + pageAlignUp size ≤ mmapBase := by
  obtain ⟨top, hbelow, -⟩ := findFreeRangeLoop_below h
  rw [VmSpace.findFreeRangeBelow, pageAlignUp_idem] at hbelow
  exact (sweepDown_top hbelow).1.trans (min_le_right _ _)

/-- `STACK_ASLR_BITS` -/
def stackAslrBits : ℕ := 16

/-- `STACK_PLACE_RETRIES` -/
def stackPlaceRetries : ℕ := 16

/-- The `i`-th candidate of `find_free_stack_range` for the random word `r`. -/
def VmSpace.stackCandidate (vs : VmSpace) (size r : ℕ) : ℕ :=
  let raw := Word.satAdd vs.stackAslrBase (aslrPageOffset stackAslrBits r)
  max (min raw (stackAslrMax - size)) stackAslrMin

/-- The retry loop of `find_free_stack_range` over the random words it draws. -/
def findFreeStackRangeLoop (tds : Teardowns) (vs : VmSpace) (size : ℕ) : List ℕ → Option ℕ
  | [] => vs.findFreeRange tds size
  | r :: rs =>
    let candidate := vs.stackCandidate size r
    if vs.areas.any (·.overlaps candidate size) ||
        (teardownConflict tds vs.cr3 candidate (Word.satAdd candidate size)).isSome then
      findFreeStackRangeLoop tds vs size rs
    else some candidate

/-- `VmSpace::find_free_stack_range`; `draws` is the stream of random words, of which it uses 16. -/
def VmSpace.findFreeStackRange (vs : VmSpace) (tds : Teardowns) (size : ℕ)
    (draws : ℕ → ℕ) : Option ℕ :=
  let size := pageAlignUp size
  if size = 0 ∨ size > stackAslrMax - stackAslrMin then none
  else findFreeStackRangeLoop tds vs size ((List.range stackPlaceRetries).map draws)

lemma findFreeStackRange_le {draws : ℕ → ℕ}
    (h : vs.findFreeStackRange tds size draws = some c) : c + pageAlignUp size ≤ stackAslrMax := by
  rw [VmSpace.findFreeStackRange] at h
  split_ifs at h with hsize
  generalize (List.range stackPlaceRetries).map draws = rs at h
  induction rs with
  | nil =>
    have := findFreeRange_le h
    rw [pageAlignUp_idem] at this
    simp only [mmapBase, stackAslrMax] at this ⊢
    omega
  | cons r rs ih =>
    rw [findFreeStackRangeLoop] at h
    split_ifs at h
    · exact ih h
    cases h
    rw [VmSpace.stackCandidate]
    omega

/-- The hint follows placements downwards. -/
def VmSpace.noteMmapPlacement (vs : VmSpace) (base : ℕ) (isFixed isStackAlloc : Bool) : VmSpace :=
  if !isFixed ∧ !isStackAlloc ∧ base < vs.mmapHint then { vs with mmapHint := base } else vs

/-! ## The program break -/

/-- `VmSpace::adjust_brk`, with the range whose pages it unmaps when shrinking. The returned break
is the `brk` field of the result. -/
def VmSpace.adjustBrk (vs : VmSpace) (newBrk : ℕ) : VmSpace × Option (ℕ × ℕ) :=
  let newBrk := pageAlignUp newBrk
  let resize : VmArea → VmArea := fun h => { h with length := Word.sub newBrk h.base }
  let isHeap : VmArea → Bool := fun v => v.name = .heap
  if newBrk < vs.brkStart then (vs, none)
  else if newBrk = vs.brk then (vs, none)
  else if newBrk > vs.brk then
    match vs.areas.find? isHeap with
    | some _ =>
      ({ vs with areas := FirstMatch.updateFirst isHeap resize vs.areas, brk := newBrk }, none)
    | none =>
      let heapVma : VmArea :=
        { base := vs.brkStart, length := Word.sub newBrk vs.brkStart
          prot := protRead ||| protWrite, flags := mapPrivate ||| mapAnonymous
          backing := .anonymous, name := .heap }
      -- the error of `insert_vma` is ignored
      ({ (vs.insertVma heapVma).getD vs with brk := newBrk }, none)
  else
    let areas :=
      if (vs.areas.find? isHeap).isSome then
        if newBrk ≤ vs.brkStart then vs.areas.filter (fun v => !isHeap v)
        else FirstMatch.updateFirst isHeap resize vs.areas
      else vs.areas
    ({ vs with areas := areas, brk := newBrk }, some (newBrk, Word.sub vs.brk newBrk))

end Astryx
