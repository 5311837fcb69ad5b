import Astryx.Lib.Transition
import Astryx.Vma.Syscalls

/-!
# The layout of an address space

The area list of a `VmSpace` is meant to be sorted and overlap-free: `find_free_range` walks it from
the top assuming so, and `find_vma` returns the first area that contains an address. Seven code
paths edit it. Two of them (`insert_vma` and the placement searches) check what they do; the others
rely on their arguments.

`AreasWellFormed` is the intended invariant. `AreaOp.Safe` says, for each operation and the state it
is called in, what the code itself does not check:

* the rounded length of `mmap` is not zero and a fixed range does not pass the end of the `u64`
  range;
* a range passed to `munmap` or `mprotect` does not wrap, or no area is in its way if it does;
* moving the break does not push the first `[heap]` area below its base or into another area;
* a hinted `shmat` target is free and does not wrap.
-/

namespace Astryx

open List Option VmArea Word VmSpace MmapCall Transition

variable {base length : ℕ} {a : VmArea} {areas : List VmArea} {c : MmapCall} {vs : VmSpace}

open Extents FirstMatch

/-! ## The invariant -/

/-- The area list as the rest of the kernel assumes it. -/
structure AreasWellFormed (areas : List VmArea) : Prop where
  /-- Strictly ascending by base. -/
  ascending : areas.Pairwise fun a b => a.base < b.base
  /-- Every area has a positive length. -/
  length_pos : ∀ a ∈ areas, 0 < a.length
  /-- Lengths are whole pages. -/
  length_pages : ∀ a ∈ areas, a.length % 4096 = 0
  /-- Bases are page-aligned. -/
  base_pages : ∀ a ∈ areas, a.base % 4096 = 0
  /-- No end address overflows. -/
  no_overflow : ∀ a ∈ areas, a.base + a.length < 2 ^ 64
  /-- No two areas overlap. -/
  disjoint : areas.Pairwise fun a b =>
    a.base + a.length ≤ b.base ∨ b.base + b.length ≤ a.base

/-- One area on its own: page-aligned and inside the `u64` range. -/
structure VmArea.Sound (a : VmArea) : Prop where
  length_pages : a.length % 4096 = 0
  base_pages : a.base % 4096 = 0
  no_overflow : a.base + a.length < 2 ^ 64

/-- The end of an area, without wrap. -/
def VmArea.top (a : VmArea) : ℕ := a.base + a.length

lemma VmArea.Sound.endAddr_eq (h : a.Sound) : a.endAddr = a.top := add_eq h.no_overflow

/-- The invariant in the form the editing lemmas work with. -/
lemma areasWellFormed_iff : AreasWellFormed areas ↔ Laid VmArea.base top areas ∧
    ∀ a ∈ areas, a.Sound := by
  constructor
  · intro h
    refine ⟨⟨fun a ha => ?_, ?_⟩, fun a ha => ?_⟩
    · have := h.length_pos a ha
      simp only [top]
      omega
    · -- of two disjoint areas the one with the lower base ends first
      refine (h.ascending.and h.disjoint).imp_of_mem fun {a b} _ hb hab => ?_
      simp only [top]
      omega
    · exact ⟨h.length_pages a ha, h.base_pages a ha, h.no_overflow a ha⟩
  rintro ⟨hl, hs⟩
  have hpos : ∀ a ∈ areas, 0 < a.length := fun a ha => by
    have := hl.pos a ha
    simp only [top] at this
    omega
  refine ⟨hl.asc.imp_of_mem fun {a b} ha _ hab => ?_, hpos, fun a ha => (hs a ha).length_pages,
    fun a ha => (hs a ha).base_pages, fun a ha => (hs a ha).no_overflow,
    hl.asc.imp fun {a b} hab => .inl hab⟩
  have := hpos a ha
  simp only [top] at hab
  omega

/-! ## Inserting and carving areas -/

/-- For sound areas and ranges that do not wrap, `overlaps` is intersection of intervals. -/
lemma VmArea.Sound.overlaps_iff (h : a.Sound) (hr : base + length < 2 ^ 64) :
    a.overlaps base length ↔ a.base < base + length ∧ base < a.top := by
  simp [overlaps, h.endAddr_eq, add_eq hr]

variable {x : VmArea} {size n evictsLeft newBrk : ℕ} {m : Mm} {name : AreaName}
  {backing : VmBacking}

lemma AreasWellFormed.place (h : AreasWellFormed areas) (hx : x.Sound) (hpos : 0 < x.length)
    (hfree : ∀ a ∈ areas, a.top ≤ x.base ∨ x.top ≤ a.base) :
    AreasWellFormed (place VmArea.base x areas) := by
  obtain ⟨hl, hs⟩ := areasWellFormed_iff.mp h
  refine areasWellFormed_iff.mpr ⟨hl.place (by simp only [top]; omega) hfree, fun a ha => ?_⟩
  rcases mem_place.mp ha with rfl | ha
  · exact hx
  · exact hs a ha

variable {vs' : VmSpace} {b : VmArea} {l : List VmArea}
  {prot ceiling cr3 lo hi addr candidate shmaddr : ℕ} {tds : Teardowns}
    {step : Phase3Step} {m' : Mm}

lemma insertVma_wellFormed (h : AreasWellFormed vs.areas) (hx : x.Sound) (hpos : 0 < x.length)
    (hins : vs.insertVma x = some vs') : AreasWellFormed vs'.areas := by
  obtain ⟨hfree, rfl⟩ := of_guard_not hins
  refine h.place hx hpos fun a ha => ?_
  have hno : ¬ a.overlaps x.base x.length := fun ho => hfree (any_eq_true.mpr ⟨a, ha, ho⟩)
  rw [((areasWellFormed_iff.mp h).2 a ha).overlaps_iff hx.no_overflow] at hno
  simp only [top] at hno ⊢
  omega

/-- What a carving or retagging function does to one area: sound, nonempty pieces of it in order. -/
structure Pieces (a : VmArea) (l : List VmArea) : Prop where
  laid : Laid VmArea.base top l
  sound : ∀ b ∈ l, b.Sound
  inside : ∀ b ∈ l, a.base ≤ b.base ∧ b.top ≤ a.top

lemma AreasWellFormed.flatMap (h : AreasWellFormed areas) {f : VmArea → List VmArea}
    (hf : ∀ a ∈ areas, Pieces a (f a)) : AreasWellFormed (areas.flatMap f) := by
  obtain ⟨hl, -⟩ := areasWellFormed_iff.mp h
  refine areasWellFormed_iff.mpr ⟨hl.flatMap fun a ha => ⟨(hf a ha).laid, (hf a ha).inside⟩, ?_⟩
  intro b hb
  obtain ⟨a, ha, hba⟩ := mem_flatMap.mp hb
  exact (hf a ha).sound b hba

lemma Pieces.nil (a : VmArea) : Pieces a [] := ⟨laid_nil, by simp, by simp⟩

lemma Pieces.single (hs : b.Sound) (hpos : 0 < b.length) (hin : a.base ≤ b.base ∧ b.top ≤ a.top) :
    Pieces a [b] := by
  refine ⟨laid_cons.mpr ⟨?_, by simp, laid_nil⟩, by simpa using hs, by simpa using hin⟩
  simp only [top]
  omega

/-- A piece in front of pieces of what is left of the area above it. -/
lemma Pieces.cons {r : VmArea} (hs : b.Sound) (hpos : 0 < b.length)
    (hb : a.base ≤ b.base) (hr : b.top ≤ r.base) (hra : r.top ≤ a.top) (hbr : r.base ≤ r.top)
    (hl : Pieces r l) : Pieces a (b :: l) := by
  have hbt : b.base < b.top := by simp only [top]; omega
  refine ⟨laid_cons.mpr ⟨hbt, fun c hc => ?_, hl.laid⟩, forall_mem_cons.mpr ⟨hs, hl.sound⟩,
    forall_mem_cons.mpr ⟨⟨hb, by omega⟩, fun c hc => ?_⟩⟩
  · have := hl.inside c hc
    omega
  · have := hl.inside c hc
    omega

lemma carve_pieces (ha : a.Sound) (hpos : 0 < a.length) (hb : base % 4096 = 0)
    (hlen : length % 4096 = 0) (hr : base + length < 2 ^ 64) : Pieces a (carve base length a) := by
  have hov := ha.overlaps_iff hr
  have hend := ha.endAddr_eq
  have hrange := add_eq hr
  obtain ⟨hal, hab, han⟩ := ha
  simp only [top] at hov hend
  unfold carve
  simp only [hrange, hend]
  split
  · exact .single ⟨hal, hab, han⟩ hpos ⟨le_rfl, le_rfl⟩
  rename_i hyes
  rw [Bool.not_eq_true', Bool.not_eq_false, hov] at hyes
  split
  · exact .nil a
  split
  next h =>
    have hleft : Word.sub base a.base = base - a.base := sub_eq (by omega) (by omega)
    have hright : Word.sub (a.base + a.length) (base + length) = a.base +
        a.length - (base + length) := sub_eq han (by omega)
    rw [hleft, hright]
    refine .cons ⟨?_, hab, ?_⟩ ?_ le_rfl ?_ ?_ ?_ (.single ⟨?_, ?_, ?_⟩ ?_ ⟨le_rfl, le_rfl⟩)
    all_goals simp only [top]; omega
  split
  · have hleft : Word.sub base a.base = base - a.base := sub_eq (by omega) (by omega)
    refine .single ⟨?_, hab, ?_⟩ ?_ ⟨le_rfl, ?_⟩
    all_goals simp only [top]; omega
  have hdelta : Word.sub (base + length) a.base = base + length - a.base := sub_eq hr (by omega)
  have hlen' : Word.sub a.length (base + length - a.base) = a.length - (base + length - a.base) :=
    sub_eq (by omega) (by omega)
  rw [hdelta, hlen']
  refine .single ⟨?_, ?_, ?_⟩ ?_ ⟨?_, ?_⟩
  all_goals simp only [top]; omega

/-- A range that meets no area leaves the list as it is, whether or not it wraps. -/
lemma carve_of_not_overlaps (h : ¬ a.overlaps base length) : carve base length a = [a] := by
  simp [carve, h]

lemma removeRange_wellFormed (h : AreasWellFormed vs.areas) (hb : base % 4096 = 0)
    (hlen : length % 4096 = 0)
    (hr : base + length < 2 ^ 64 ∨ ∀ a ∈ vs.areas, ¬ a.overlaps base length) :
    AreasWellFormed (vs.removeRange base length).areas := by
  have hs := (areasWellFormed_iff.mp h).2
  refine h.flatMap fun a ha => ?_
  rcases hr with hr | hno
  · exact carve_pieces (hs a ha) (h.length_pos a ha) hb hlen hr
  · rw [carve_of_not_overlaps (hno a ha)]
    exact .single (hs a ha) (h.length_pos a ha) ⟨le_rfl, le_rfl⟩

lemma retag_pieces (ha : a.Sound) (hpos : 0 < a.length) {rangeEnd : ℕ} (hb : base % 4096 = 0)
    (he : rangeEnd % 4096 = 0) (hr : base < rangeEnd ∨ ¬ (a.base < rangeEnd ∧ base < a.top)) :
    Pieces a (retag base rangeEnd prot a) := by
  have hend := ha.endAddr_eq
  obtain ⟨hal, hab, han⟩ := ha
  simp only [top] at hend hr
  unfold retag
  simp only [hend]
  split
  · exact .single ⟨hal, hab, han⟩ hpos ⟨le_rfl, le_rfl⟩
  split
  · exact .single ⟨hal, hab, han⟩ hpos ⟨le_rfl, le_rfl⟩
  have hmid : Word.sub (min (a.base + a.length) rangeEnd) (max a.base base) =
      min (a.base + a.length) rangeEnd - max a.base base := sub_eq (by omega) (by omega)
  -- the right piece, if there is one, lies in what is left above the middle piece
  have htail : Pieces
      { a with
        base := min (a.base + a.length) rangeEnd
        length := a.base + a.length - min (a.base + a.length) rangeEnd }
      (if a.base + a.length > rangeEnd then
        [{ a with
            base := rangeEnd
            length := Word.sub (a.base + a.length) rangeEnd
            backing := a.backing.advance (Word.sub rangeEnd a.base) }] else []) := by
    split
    · have hright : Word.sub (a.base + a.length) rangeEnd = a.base + a.length - rangeEnd :=
        sub_eq han (by omega)
      refine .single ⟨?_, he, ?_⟩ ?_ ⟨?_, ?_⟩
      all_goals simp only [top]; omega
    · exact .nil _
  split
  · have hleft : Word.sub base a.base = base - a.base := sub_eq (by omega) (by omega)
    refine .cons (r := { a with base := base, length := a.base + a.length - base })
      ⟨?_, hab, ?_⟩ ?_ le_rfl ?_ ?_ ?_ (.cons ⟨?_, ?_, ?_⟩ ?_ ?_ ?_ ?_ ?_ htail)
    all_goals simp only [top]; omega
  · refine .cons ⟨?_, ?_, ?_⟩ ?_ ?_ ?_ ?_ ?_ htail
    all_goals simp only [top]; omega

/-! ## Placement stays aligned and inside the user range -/

lemma aslrPageOffset_mod (bits r : ℕ) : aslrPageOffset bits r % 4096 = 0 := by
  have h : (2 ^ bits - 1) * 2 ^ 12 % 2 ^ 12 = 0 := Nat.mul_mod_left _ _
  rw [aslrPageOffset, show 4096 = 2 ^ 12 by rfl, Nat.and_mod_two_pow, h, Nat.and_zero]

/-- The state between two operations. -/
structure Mm.Inv (m : Mm) : Prop where
  areas : AreasWellFormed m.space.areas
  stackBase : m.space.stackAslrBase % 4096 = 0
  brkStart : m.space.brkStart % 4096 = 0
  brk : m.space.brkStart ≤ m.space.brk
  tds : ∀ t ∈ m.tds, t.lo % 4096 = 0

lemma findFreeRangeLoop_pages (hm : m.Inv) {c : ℕ} (hceil : ceiling % 4096 = 0)
    (h : findFreeRangeLoop m.tds m.space size n ceiling = some c) : c % 4096 = 0 := by
  obtain ⟨top, hbelow, htop⟩ := findFreeRangeLoop_below h
  have hpages : top % 4096 = 0 := by
    rcases htop with rfl | ⟨t, ht, rfl⟩
    · exact hceil
    · exact hm.tds t ht
  have hsize := pageAlignUp_mod size
  rcases (sweepDown_top hbelow).2 with heq | ⟨a, ha, heq⟩
  · simp only [mmapBase] at heq
    omega
  · have hbase := hm.areas.base_pages a (mem_reverse.mp ha)
    omega

lemma findFreeStackRange_pages (hm : m.Inv) {c : ℕ} {draws : ℕ → ℕ}
    (h : m.space.findFreeStackRange m.tds size draws = some c) : c % 4096 = 0 := by
  rw [findFreeStackRange] at h
  split_ifs at h with hsize
  generalize (List.range stackPlaceRetries).map draws = rs at h
  induction rs with
  | nil => exact findFreeRangeLoop_pages hm (by decide) h
  | cons r rs ih =>
    rw [findFreeStackRangeLoop] at h
    split_ifs at h
    · exact ih h
    cases h
    rw [stackCandidate]
    have hbase := hm.stackBase
    have hoff := aslrPageOffset_mod stackAslrBits r
    have hpages := pageAlignUp_mod size
    simp only [Word.satAdd, stackAslrMax, stackAslrMin, mmapBase] at hsize ⊢
    omega

lemma pick_spec (hm : m.Inv) {k b : ℕ} (h : c.pick k m = some b) :
    b % 4096 = 0 ∧ b + c.roundedLength < 2 ^ 64 := by
  refine ⟨?_, (pick_le h).trans_lt (by decide)⟩
  rw [pick] at h
  split at h
  · exact findFreeStackRange_pages hm h
  · exact findFreeRangeLoop_pages hm (by decide) h

/-! ## One operation -/

lemma teardownPublish_mem {t : TeardownSlot} (h : t ∈ (teardownPublish tds cr3 lo hi).1) :
    t ∈ tds ∨ t = ⟨cr3, lo, hi⟩ := by
  unfold teardownPublish at h
  split at h
  · exact .inl h
  split at h
  · exact mem_or_eq_of_mem_set h
  · exact .inl h

lemma Mm.Inv.beginTeardown (hm : m.Inv) (hb : base % 4096 = 0) (hlen : length % 4096 = 0)
    (hr : base + length < 2 ^ 64 ∨ ∀ a ∈ m.space.areas, ¬ a.overlaps base length) :
    (m.beginTeardown base length).1.Inv := by
  refine ⟨removeRange_wellFormed hm.areas hb hlen hr, hm.stackBase, hm.brkStart, hm.brk, ?_⟩
  intro t ht
  rcases teardownPublish_mem ht with ht | rfl
  · exact hm.tds t ht
  · exact hb

lemma Mm.Inv.endTeardown (hm : m.Inv) (slot : Option ℕ) : (m.endTeardown slot).Inv := by
  refine ⟨hm.areas, hm.stackBase, hm.brkStart, hm.brk, fun t ht => ?_⟩
  cases slot with
  | none => exact hm.tds t ht
  | some i =>
    rcases mem_or_eq_of_mem_set ht with ht | rfl
    · exact hm.tds t ht
    · rfl

lemma Mm.Inv.withAreas (hm : m.Inv) (h : AreasWellFormed areas) :
    Mm.Inv { m with space := { m.space with areas } } :=
  ⟨h, hm.stackBase, hm.brkStart, hm.brk, hm.tds⟩

lemma insertVma_eq_some (h : vs.insertVma x = some vs') : vs' = { vs with areas := vs'.areas } := by
  unfold insertVma at h
  split at h
  · cases h
  · cases h
    rfl

lemma Mm.Inv.insertVma (hm : m.Inv) (hx : x.Sound)
    (hpos : 0 < x.length) (h : m.space.insertVma x = some vs) : Mm.Inv { m with space := vs } := by
  have hwf := insertVma_wellFormed hm.areas hx hpos h
  rw [insertVma_eq_some h]
  exact hm.withAreas hwf

lemma Mm.Inv.noteMmapPlacement (hm : Mm.Inv { m with space := vs })
    (base : ℕ) (f s : Bool) : Mm.Inv { m with space := vs.noteMmapPlacement base f s } := by
  unfold VmSpace.noteMmapPlacement
  split
  · exact ⟨hm.areas, hm.stackBase, hm.brkStart, hm.brk, hm.tds⟩
  · exact hm

/-- A range of `c.roundedLength` bytes from `base` that may be mapped. -/
structure MmapCall.Fits (c : MmapCall) (base : ℕ) : Prop where
  aligned : base % 4096 = 0
  nonempty : 0 < c.roundedLength
  bounded : base + c.roundedLength < 2 ^ 64

lemma MmapCall.Fits.newArea (h : c.Fits base) (backing : VmBacking) (name : AreaName) :
    (c.newArea base backing name).Sound :=
  ⟨pageAlignUp_mod _, h.aligned, h.bounded⟩

section

variable (hm : m.Inv) (hfit : c.Fits base)

include hm hfit

lemma mmapAttempt_inv (h : c.mmapAttempt backing name evictsLeft base m = some (m', step)) :
    m'.Inv := by
  rcases mmapAttempt_cases h with ⟨rfl, -⟩ | ⟨space, -, hins, rfl, -⟩ | ⟨-, rfl, -⟩
  · exact hm
  · exact (hm.insertVma (hfit.newArea backing name) hfit.nonempty hins).noteMmapPlacement ..
  · exact hm.beginTeardown hfit.aligned (pageAlignUp_mod _) (.inl hfit.bounded)

/-- A critical section of phase 3 started at a base that fits keeps the invariant, and ends at a
base that fits. -/
lemma mmapPhase3_inv {left : ℕ} {base' : ℕ}
    (h : c.mmapPhase3 backing name evictsLeft left base m = (m', base', step)) :
    m'.Inv ∧ c.Fits base' := by
  obtain ⟨hbase, hstep⟩ := mmapPhase3_cases h
  have hfit' : c.Fits base' := by
    rcases hbase with rfl | ⟨k, hk⟩
    · exact hfit
    · exact ⟨(pick_spec hm hk).1, hfit.nonempty, (pick_spec hm hk).2⟩
  refine ⟨?_, hfit'⟩
  rcases hstep with ⟨rfl, -⟩ | hatt
  · exact hm
  · exact mmapAttempt_inv hm hfit' hatt

lemma mmapCommit_inv : (c.mmapCommit backing name evictsLeft base m).1.Inv := by
  induction evictsLeft generalizing base m with
  | zero =>
    unfold mmapCommit
    split <;> rename_i h <;> exact (mmapPhase3_inv hm hfit h).1
  | succ n ih =>
    unfold mmapCommit
    split
    next h => exact (mmapPhase3_inv hm hfit h).1
    next h => exact (mmapPhase3_inv hm hfit h).1
    next h => exact (mmapPhase3_inv hm hfit h).1
    next slot h =>
      obtain ⟨hm', hfit'⟩ := mmapPhase3_inv hm hfit h
      exact ih (hm'.endTeardown slot) hfit'

end

/-- What `sys_mmap` does not check about its arguments. -/
def MmapCall.Safe (c : MmapCall) : Prop :=
  c.length ≠ 0 → c.roundedLength ≠ 0 ∧
    (c.isFixed → pageAlignDown c.addrHint + c.roundedLength < 2 ^ 64)

lemma chooseBase_fits (hm : m.Inv) (hlen : c.length ≠ 0) (hsafe : c.Safe)
    (h : c.chooseBase m = .ok base) : c.Fits base := by
  obtain ⟨hne, hfixed⟩ := hsafe hlen
  have hpos : 0 < c.roundedLength := Nat.pos_of_ne_zero hne
  unfold chooseBase at h
  split at h
  next hf =>
    dsimp only at h
    split at h
    · cases h
    split at h
    · cases h
    · cases h
      exact ⟨pageAlignDown_mod _, hpos, hfixed hf⟩
  · split at h
    next b hb =>
      cases h
      exact ⟨(pick_spec hm hb).1, hpos, (pick_spec hm hb).2⟩
    · cases h

lemma sysMmap_inv (hm : m.Inv) (hsafe : c.Safe) : (sysMmap c m).1.Inv := by
  unfold sysMmap
  split
  · exact hm
  rename_i hlen
  split
  · exact hm
  rename_i base backing name h1
  have hfit := chooseBase_fits hm hlen hsafe (mmapPhase1_ok h1)
  split
  · have hm' := hm.beginTeardown hfit.aligned (pageAlignUp_mod c.length) (.inl hfit.bounded)
    exact mmapCommit_inv (hm'.endTeardown _) hfit
  · exact mmapCommit_inv hm hfit

/-- What `sys_munmap` does not check: that its range does not wrap, or meets no area when it
does. -/
def MunmapSafe (addr length : ℕ) (vs : VmSpace) : Prop :=
  length ≠ 0 → addr % 4096 = 0 →
    addr + pageAlignUp length < 2 ^ 64 ∨ ∀ a ∈ vs.areas, ¬ a.overlaps addr (pageAlignUp length)

lemma sysMunmap_inv (hm : m.Inv) (hsafe : MunmapSafe addr length m.space) :
    (sysMunmap addr length m).1.Inv := by
  unfold sysMunmap
  split
  · exact hm
  next h =>
    have hr := hsafe (by omega) (by omega)
    exact (hm.beginTeardown (by omega) (pageAlignUp_mod length) hr).endTeardown _

/-- What `sys_mprotect` does not check: that its range does not wrap, or meets no area when it
does. -/
def MprotectSafe (addr len : ℕ) (vs : VmSpace) : Prop :=
  len ≠ 0 → addr % 4096 = 0 →
    pageAlignDown addr < pageAlignUp (Word.add addr len) ∨
      ∀ a ∈ vs.areas, ¬ (a.base < pageAlignUp (Word.add addr len) ∧
        pageAlignDown addr < a.base + a.length)

lemma sysMprotect_inv {len : ℕ} (hm : m.Inv)
    (hsafe : MprotectSafe addr len m.space) : (sysMprotect addr len prot m).1.Inv := by
  have hs := (areasWellFormed_iff.mp hm.areas).2
  unfold sysMprotect
  split
  · exact hm
  rename_i hlen
  split
  · exact hm
  have hr := hsafe hlen (by omega)
  refine hm.withAreas (hm.areas.flatMap fun a ha => ?_)
  refine retag_pieces (hs a ha) (hm.areas.length_pos a ha) (pageAlignDown_mod _)
    (pageAlignUp_mod _) ?_
  exact hr.imp_right fun h => h a ha

/-- Resizing the first `[heap]` area to end at `newBrk`. -/
lemma resizeHeap_wellFormed (h : AreasWellFormed areas) (hbrk : newBrk < 2 ^ 64)
    (hpage : newBrk % 4096 = 0) {heap : VmArea}
    (hfind : areas.find? (fun v => v.name = .heap) = some heap) (hlt : heap.base < newBrk)
    (hfree : ∀ a ∈ areas, heap.base < a.base → newBrk ≤ a.base) :
    AreasWellFormed (updateFirst (fun v => v.name = .heap)
      (fun v => { v with length := Word.sub newBrk v.base }) areas) := by
  obtain ⟨hl, hs⟩ := areasWellFormed_iff.mp h
  have hlen : Word.sub newBrk heap.base = newBrk - heap.base := sub_eq hbrk (by omega)
  have hheap := hs heap (mem_of_find?_eq_some hfind)
  refine areasWellFormed_iff.mpr ⟨hl.updateFirst hfind rfl ?_ fun a ha hba => ?_, ?_⟩
  · simp only [top, hlen]
    omega
  · have := hfree a ha hba
    simp only [top, hlen]
    omega
  obtain ⟨pre, post, rfl, hu, -⟩ := split_of_find?
    (fun v => { v with length := Word.sub newBrk v.base }) hfind
  rw [hu]
  intro a ha
  rcases mem_append.mp ha with ha | ha
  · exact hs a (by simp [ha])
  rcases mem_cons.mp ha with rfl | ha
  · have := hheap.base_pages
    refine ⟨?_, hheap.base_pages, ?_⟩ <;> simp only [hlen] <;> omega
  · exact hs a (by simp [ha])

/-- What `adjust_brk` does not check: the new break lies above the first `[heap]` area's base and no
other area lies between them. Breaks at or below the heap start drop the heap and need nothing. -/
def BrkSafe (newBrk : ℕ) (vs : VmSpace) : Prop :=
  pageAlignUp newBrk ≤ vs.brkStart ∨ pageAlignUp newBrk = vs.brk ∨
    ∀ heap, vs.areas.find? (fun v => v.name = .heap) = some heap →
      heap.base < pageAlignUp newBrk ∧
        ∀ a ∈ vs.areas, heap.base < a.base → pageAlignUp newBrk ≤ a.base

lemma adjustBrk_wellFormed (hm : m.Inv) (hsafe : BrkSafe newBrk m.space) :
    AreasWellFormed (m.space.adjustBrk newBrk).1.areas := by
  have hpage := pageAlignUp_mod newBrk
  have hlt := pageAlignUp_lt newBrk
  unfold BrkSafe at hsafe
  unfold adjustBrk
  generalize pageAlignUp newBrk = nb at hpage hlt hsafe ⊢
  dsimp only
  have hgrow := hm.brk
  split
  · exact hm.areas
  split
  · exact hm.areas
  have hresize : nb > m.space.brkStart → ∀ heap,
      m.space.areas.find? (fun v => v.name = .heap) = some heap →
      AreasWellFormed (updateFirst (fun v => v.name = .heap)
        (fun v => { v with length := Word.sub nb v.base }) m.space.areas) := by
    intro hgt heap hfind
    obtain ⟨hb, hfree⟩ := (hsafe.resolve_left (by omega)).resolve_left (by omega) heap hfind
    exact resizeHeap_wellFormed hm.areas hlt hpage hfind hb hfree
  split
  · split
    next heap hfind => exact hresize (by omega) heap hfind
    · -- no heap yet: the new area goes through `insert_vma`, whose failure changes nothing
      have hlen : Word.sub nb m.space.brkStart = nb - m.space.brkStart := sub_eq hlt (by omega)
      have hstart := hm.brkStart
      cases hins : m.space.insertVma _ with
      | none => exact hm.areas
      | some vs =>
        change AreasWellFormed vs.areas
        refine insertVma_wellFormed hm.areas ⟨?_, hstart, ?_⟩ ?_ hins <;> simp only [hlen] <;> omega
  split
  next hsome =>
    split
    · obtain ⟨hl, hs⟩ := areasWellFormed_iff.mp hm.areas
      exact areasWellFormed_iff.mpr
        ⟨hl.sublist filter_sublist, fun a ha => hs a (mem_filter.mp ha).1⟩
    · obtain ⟨heap, hfind⟩ := isSome_iff_exists.mp hsome
      exact hresize (by omega) heap hfind
  · exact hm.areas

lemma adjustBrk_frame (newBrk : ℕ) (h : vs.brkStart ≤ vs.brk) :
    (vs.adjustBrk newBrk).1.stackAslrBase = vs.stackAslrBase ∧
      (vs.adjustBrk newBrk).1.brkStart = vs.brkStart ∧
      vs.brkStart ≤ (vs.adjustBrk newBrk).1.brk := by
  unfold adjustBrk
  dsimp only
  split
  · exact ⟨rfl, rfl, h⟩
  split
  · exact ⟨rfl, rfl, h⟩
  split
  · split
    · exact ⟨rfl, rfl, by dsimp only; omega⟩
    cases hins : vs.insertVma _ with
    | none => exact ⟨rfl, rfl, by dsimp only [Option.getD]; omega⟩
    | some vs' =>
      have := insertVma_eq_some hins
      rw [this]
      exact ⟨rfl, rfl, by dsimp only [Option.getD]; omega⟩
  · exact ⟨rfl, rfl, by dsimp only; omega⟩

lemma sysBrk_inv (hm : m.Inv) (hsafe : BrkSafe newBrk m.space) : (sysBrk newBrk m).1.Inv := by
  unfold sysBrk
  split
  · exact hm
  obtain ⟨hstack, hstart, hbrk⟩ := adjustBrk_frame newBrk hm.brk
  refine ⟨adjustBrk_wellFormed hm hsafe, ?_, ?_, ?_, hm.tds⟩
  · simpa only [hstack] using hm.stackBase
  · simpa only [hstart] using hm.brkStart
  · simpa only [hstart] using hbrk

/-- `pick_vaddr` returns `0` or a page-aligned address whose range is free. -/
lemma pickVaddrFrom_spec (h : AreasWellFormed areas) (hsize : size % 4096 = 0)
    (hc : candidate % 4096 = 0) (hne : pickVaddrFrom areas size n candidate ≠ 0) :
    pickVaddrFrom areas size n candidate % 4096 = 0 ∧
      pickVaddrFrom areas size n candidate + size < 2 ^ 64 ∧
      ∀ a ∈ areas, a.top ≤ pickVaddrFrom areas size n candidate ∨
        pickVaddrFrom areas size n candidate + size ≤ a.base := by
  induction n generalizing candidate with
  | zero => exact absurd rfl hne
  | succ n ih =>
    unfold pickVaddrFrom at hne ⊢
    split
    next hwin =>
      rw [if_pos hwin] at hne
      split
      next hconf =>
        rw [if_pos hconf] at hne
        exact ih (by omega) hne
      next hfree =>
        simp only [shmHintEnd] at hwin
        refine ⟨hc, by omega, fun a ha => ?_⟩
        have hno : ¬ (candidate < a.endAddr ∧ candidate + size > a.base) := fun hx =>
          hfree (any_eq_true.mpr ⟨a, ha, decide_eq_true hx⟩)
        rw [((areasWellFormed_iff.mp h).2 a ha).endAddr_eq] at hno
        omega
    next hwin =>
      rw [if_neg hwin] at hne
      exact absurd rfl hne

/-- A picked range lies in the window `pick_vaddr` searches. -/
lemma pickVaddrFrom_lt (hne : pickVaddrFrom areas size n candidate ≠ 0) :
    pickVaddrFrom areas size n candidate + size < shmHintEnd := by
  induction n generalizing candidate with
  | zero => exact absurd rfl hne
  | succ n ih =>
    rw [pickVaddrFrom] at hne ⊢
    split_ifs at hne ⊢ with hwin hconf
    · exact ih hne
    · exact hwin
    · exact absurd rfl hne

/-- What `shmat` does not check about a hinted target: that its range is free and does not wrap. -/
def ShmatSafe (seg : ShmExtent) (shmaddr : ℕ) (vs : VmSpace) : Prop :=
  shmaddr ≠ 0 → pageAlignDown shmaddr ≠ 0 →
    pageAlignDown shmaddr + seg.size < 2 ^ 64 ∧
      ∀ a ∈ vs.areas, a.base + a.length ≤ pageAlignDown shmaddr ∨
        pageAlignDown shmaddr + seg.size ≤ a.base

lemma shmat_inv {seg : ShmExtent} (hm : m.Inv) (hsafe : ShmatSafe seg shmaddr m.space) :
    (shmat seg shmaddr m).1.Inv := by
  unfold shmat
  dsimp only
  split
  · exact hm
  rename_i hne
  have hspec : shmTarget m.space.areas seg.size shmaddr % 4096 = 0 ∧
      shmTarget m.space.areas seg.size shmaddr + seg.size < 2 ^ 64 ∧
      ∀ a ∈ m.space.areas, a.top ≤ shmTarget m.space.areas seg.size shmaddr ∨
        shmTarget m.space.areas seg.size shmaddr + seg.size ≤ a.base := by
    unfold shmTarget at hne ⊢
    split
    next hhint =>
      rw [if_pos hhint] at hne
      exact ⟨pageAlignDown_mod _, hsafe hhint hne⟩
    next hhint =>
      rw [if_neg hhint] at hne
      exact pickVaddrFrom_spec hm.areas seg.size_pages (by decide) hne
  obtain ⟨hpage, hbound, hfree⟩ := hspec
  exact hm.withAreas (hm.areas.place ⟨seg.size_pages, hpage, hbound⟩ seg.size_pos hfree)

lemma shmdt_inv (hm : m.Inv) : (shmdt shmaddr m).1.Inv := by
  obtain ⟨hl, hs⟩ := areasWellFormed_iff.mp hm.areas
  unfold shmdt
  split
  · exact hm.withAreas
      (areasWellFormed_iff.mpr ⟨hl.sublist eraseP_sublist, fun a ha => hs a (mem_of_mem_eraseP ha)⟩)
  · exact hm

/-! ## Runs -/

/-- An operation that edits the area list, with its user-supplied arguments. -/
inductive AreaOp where
  | mmap (c : MmapCall)
  | munmap (addr length : ℕ)
  | mprotect (addr len prot : ℕ)
  | brk (newBrk : ℕ)
  | shmat (seg : ShmExtent) (shmaddr : ℕ)
  | shmdt (shmaddr : ℕ)

/-- The state after one operation; every operation returns, with or without an error code. -/
def areaStep (m : Mm) : AreaOp → Option Mm
  | .mmap c => some (sysMmap c m).1
  | .munmap addr length => some (sysMunmap addr length m).1
  | .mprotect addr len prot => some (sysMprotect addr len prot m).1
  | .brk newBrk => some (sysBrk newBrk m).1
  | .shmat seg shmaddr => some (shmat seg shmaddr m).1
  | .shmdt shmaddr => some (shmdt shmaddr m).1

/-- What the code leaves to the caller, for each operation in the state it is called in. -/
def AreaOp.Safe (m : Mm) : AreaOp → Prop
  | .mmap c => c.Safe
  | .munmap addr length => MunmapSafe addr length m.space
  | .mprotect addr len _ => MprotectSafe addr len m.space
  | .brk newBrk => BrkSafe newBrk m.space
  | .shmat seg shmaddr => ShmatSafe seg shmaddr m.space
  | .shmdt _ => True

/-- A fresh user address space with nothing being torn down. -/
def Mm.newUser (newPml4 hintDraw stackDraw : ℕ) : Mm :=
  { space := .newUser newPml4 hintDraw stackDraw, tds := .empty }

lemma newUser_inv (newPml4 hintDraw stackDraw : ℕ) :
    (Mm.newUser newPml4 hintDraw stackDraw).Inv := by
  refine ⟨areasWellFormed_iff.mpr ⟨laid_nil, by simp [Mm.newUser, newUser]⟩, ?_,
    show heapBase % 4096 = 0 by decide, le_rfl, fun t ht => ?_⟩
  · have := aslrPageOffset_mod 26 stackDraw
    simp only [Mm.newUser, newUser, stackAslrMin, stackAslrMax, mmapBase]
    omega
  · rw [eq_of_mem_replicate ht]
    rfl

lemma areaStep_inv (m : Mm) (op : AreaOp) (m' : Mm) (hm : m.Inv) (hsafe : op.Safe m)
    (h : areaStep m op = some m') : m'.Inv := by
  cases op with
  | mmap c =>
    cases h
    exact sysMmap_inv hm hsafe
  | munmap addr length =>
    cases h
    exact sysMunmap_inv hm hsafe
  | mprotect addr len prot =>
    cases h
    exact sysMprotect_inv hm hsafe
  | brk newBrk =>
    cases h
    exact sysBrk_inv hm hsafe
  | shmat seg shmaddr =>
    cases h
    exact shmat_inv hm hsafe
  | shmdt shmaddr =>
    cases h
    exact shmdt_inv hm

/-- **Layout.** From an empty address space, through any sequence of operations that are each safe
in the state they are called in, the area list is well formed in every state reached. -/
theorem areaRun_wellFormed (newPml4 hintDraw stackDraw : ℕ) {ops : List AreaOp}
    (hsafe : Guarded areaStep (fun m op => op.Safe m) (Mm.newUser newPml4 hintDraw stackDraw) ops)
    {n : ℕ} {m : Mm}
    (hrun : run areaStep (Mm.newUser newPml4 hintDraw stackDraw) (ops.take n) = some m) :
    AreasWellFormed m.space.areas :=
  (run_guarded areaStep_inv (newUser_inv newPml4 hintDraw stackDraw)
    (guarded_take hsafe n) hrun).areas

/-- A call for anonymous memory. -/
def anonCall (addrHint length flags : ℕ) : MmapCall :=
  { addrHint, length, prot := protRead ||| protWrite, flags := mapPrivate ||| mapAnonymous ||| flags
    fd := 2 ^ 64 - 1, offset := 0, files := fun _ => none, framebuffer := none
    draws := fun _ _ => 0 }

/-- A mapping, a break and a partial unmap, each of them safe. -/
theorem areaRun_wellFormed_of_three :
    ∃ m, run areaStep (Mm.newUser 0x1000 0 0)
        (([.mmap (anonCall 0 0x3000 0), .brk 0x4000001000, .munmap 0x7EFFFFFFE000 0x1000] :
          List AreaOp).take 3) = some m ∧ AreasWellFormed m.space.areas ∧
            m.space.areas.length = 3 := by
  have hsafe : Guarded areaStep (fun m op => op.Safe m) (Mm.newUser 0x1000 0 0)
      [.mmap (anonCall 0 0x3000 0), .brk 0x4000001000, .munmap 0x7EFFFFFFE000 0x1000] := by
    refine ⟨show MmapCall.Safe _ by rw [MmapCall.Safe]; decide, fun _ h => ?_⟩
    cases h
    refine ⟨.inr (.inr (by decide)), fun _ h => ?_⟩
    cases h
    exact ⟨fun _ _ => .inl (by decide), fun _ _ => trivial⟩
  exact ⟨_, rfl, areaRun_wellFormed 0x1000 0 0 hsafe (n := 3) rfl, by decide⟩

/-- The break grows over a mapping that lies in its way: a fixed page two pages above the heap
start, a heap of one page, then a break three pages up. -/
theorem brk_overruns_mapping :
    ∃ m, run areaStep (Mm.newUser 0x1000 0 0)
        [.mmap (anonCall 0x4000002000 0x1000 mapFixed), .brk 0x4000001000, .brk 0x4000003000] =
          some m ∧ ¬ AreasWellFormed m.space.areas :=
  ⟨_, rfl, fun h => absurd h.disjoint (by decide)⟩

end Astryx
