import Astryx.Vma.Reservations

/-!
# Placement is highest-fit

`find_free_range` sweeps the areas once, from the top, and puts the range at the top of the first
gap that is large enough. If a teardown still reserves a part of it, the sweep starts again below
the lowest reservation in the way. Nothing that is skipped would have been free, and every retry
leaves one more reservation above the ceiling, so that the bounded number of retries is enough.

## Main results

* `sweepDown_highest` — the sweep finds the highest range that meets no area
* `findFreeRange_highest` — the search finds the highest range that meets no area and no
  reservation, or there is none
-/

namespace Astryx

open List VmSpace

/-- The highest number with the property, or none if there is none. -/
def Highest (P : ℕ → Prop) : Option ℕ → Prop
  | some c => P c ∧ ∀ b, P b → b ≤ c
  | none => ∀ b, ¬P b

lemma Highest.congr {P Q : ℕ → Prop} {o : Option ℕ} (h : Highest P o) (hiff : ∀ b, P b ↔ Q b) :
    Highest Q o := by
  rwa [show Q = P from funext fun b => propext (hiff b).symm]

/-- The range lies between the floor and the ceiling, and meets none of the areas. -/
def FitsBelow (size : ℕ) (l : List VmArea) (ceiling b : ℕ) : Prop :=
  mmapFloor ≤ b ∧ b + size ≤ ceiling ∧ ∀ a ∈ l, b + size ≤ a.base ∨ a.top ≤ b

variable {size : ℕ}

theorem sweepDown_highest (hsize : 0 < size) {l : List VmArea}
    (hl : ∀ a ∈ l, a.endAddr = a.top ∧ a.base < a.top)
    (hdesc : l.Pairwise fun a b => b.top ≤ a.base) (ceiling : ℕ) :
    Highest (FitsBelow size l ceiling) (sweepDown size l ceiling) := by
  induction l generalizing ceiling with
  | nil =>
    rw [sweepDown]
    split_ifs with hroom
    · exact ⟨⟨by omega, by omega, by simp⟩, fun b hb => Nat.le_sub_of_add_le hb.2.1⟩
    · rintro b ⟨hfloor, htop, -⟩
      omega
  | cons a l ih =>
    obtain ⟨hbelow, hdesc⟩ := pairwise_cons.mp hdesc
    obtain ⟨⟨hend, hpos⟩, hl⟩ := forall_mem_cons.mp hl
    rw [sweepDown]
    dsimp only
    split_ifs with hskip hroom
    · refine (ih hl hdesc ceiling).congr fun b => ⟨?_, ?_⟩
      · rintro ⟨hfloor, htop, hrest⟩
        exact ⟨hfloor, htop, forall_mem_cons.mpr ⟨.inl (by omega), hrest⟩⟩
      · rintro ⟨hfloor, htop, hall⟩
        exact ⟨hfloor, htop, (forall_mem_cons.mp hall).2⟩
    · refine ⟨⟨by omega, by omega, forall_mem_cons.mpr ⟨.inr (by omega), fun b hb => .inr ?_⟩⟩,
        fun b hb => ?_⟩
      · have := hbelow b hb
        omega
      · exact Nat.le_sub_of_add_le hb.2.1
    -- a range above the area would lie in the gap, which is too small
    refine (ih hl hdesc _).congr fun b => ⟨?_, ?_⟩
    · rintro ⟨hfloor, htop, hrest⟩
      exact ⟨hfloor, by omega, forall_mem_cons.mpr ⟨.inl (by omega), hrest⟩⟩
    · rintro ⟨hfloor, htop, hall⟩
      obtain ⟨ha, hrest⟩ := forall_mem_cons.mp hall
      exact ⟨hfloor, by omega, hrest⟩

variable {vs : VmSpace} {tds : Teardowns}

/-- The range lies in the window of `mmap` and meets no area and no reservation of the address
space. -/
structure VmSpace.Free (vs : VmSpace) (tds : Teardowns) (size b : ℕ) : Prop where
  floor : mmapFloor ≤ b
  ceiling : b + size ≤ mmapBase
  areas : ∀ a ∈ vs.areas, b + size ≤ a.base ∨ a.base + a.length ≤ b
  reserved : ∀ t ∈ tds.inFlight vs.cr3, b + size ≤ t.lo ∨ t.hi ≤ b

lemma findFreeRangeBelow_highest (hareas : AreasWellFormed vs.areas) (hsize : 0 < pageAlignUp size)
    (ceiling : ℕ) :
    Highest (FitsBelow (pageAlignUp size) vs.areas (min ceiling mmapBase))
    (vs.findFreeRangeBelow size ceiling) := by
  obtain ⟨hlaid, hsound⟩ := areasWellFormed_iff.mp hareas
  refine (sweepDown_highest hsize (fun a ha => ?_)
    (pairwise_reverse.mpr hlaid.asc) _).congr fun b => ?_
  · rw [mem_reverse] at ha
    exact ⟨(hsound a ha).endAddr_eq, hlaid.pos a ha⟩
  · simp [FitsBelow]

/-- The retry loop, with more attempts left than reservations below the ceiling. -/
lemma findFreeRangeLoop_highest (hareas : AreasWellFormed vs.areas) (hsize : 0 < size)
    (hpages : pageAlignUp size = size) {n ceiling : ℕ} {left : List TeardownSlot}
    (hleft : ∀ t ∈ tds.inFlight vs.cr3, t.lo < ceiling → t ∈ left) (hn : left.length < n) :
    Highest (fun b => vs.Free tds size b ∧ b + size ≤ ceiling)
    (findFreeRangeLoop tds vs size n ceiling) := by
  induction n generalizing ceiling left with
  | zero => exact absurd hn (Nat.not_lt_zero _)
  | succ n ih =>
    have hbelow := findFreeRangeBelow_highest hareas (hsize.trans_eq hpages.symm) ceiling
    rw [hpages] at hbelow
    have hfits : ∀ b, vs.Free tds size b → b + size ≤ ceiling →
        FitsBelow size vs.areas (min ceiling mmapBase) b :=
      fun b hb htop => ⟨hb.floor, le_min htop hb.ceiling, hb.areas⟩
    rw [findFreeRangeLoop]
    cases hcand : vs.findFreeRangeBelow size ceiling with
    | none =>
      rw [hcand] at hbelow
      exact fun b hb => hbelow b (hfits b hb.1 hb.2)
    | some cand =>
      rw [hcand] at hbelow
      obtain ⟨⟨hfloor, htop, hclear⟩, hmax⟩ := hbelow
      obtain ⟨hceiling, hbase⟩ := Nat.le_min.mp htop
      dsimp only
      rw [Word.satAdd_eq (hbase.trans_lt (by decide))]
      cases hconf : teardownConflict tds vs.cr3 cand (cand + size) with
      | none =>
        refine ⟨⟨⟨hfloor, hbase, hclear, fun t ht => ?_⟩, hceiling⟩, fun b hb =>
          hmax b (hfits b hb.1 hb.2)⟩
        obtain ⟨ht, hcr3⟩ := mem_filter.mp ht
        obtain ⟨htc, hcr3⟩ := of_decide_eq_true hcr3
        have := not_meets_of_teardownConflict hcr3 hconf ht htc
        omega
      | some tLo =>
        obtain ⟨t, ht, hlo, hhi, rfl⟩ := teardownConflict_mem hconf
        -- the reservation stays above the ceiling from now on
        have hrest : ∀ t' ∈ tds.inFlight vs.cr3, t'.lo < t.lo → t' ∈ left.erase t := by
          intro t' ht' hlt
          have hne : t' ≠ t := by
            rintro rfl
            exact absurd hlt (lt_irrefl _)
          exact (mem_erase_of_ne hne).mpr (hleft t' ht' (by omega))
        have hmem : t ∈ left := hleft t ht (by omega)
        refine (ih hrest ?_).congr fun b =>
          and_congr_right fun hfree => ⟨fun h => by omega, fun h => ?_⟩
        · have := length_pos_of_mem hmem
          rw [length_erase_of_mem hmem]
          omega
        have := hmax b (hfits b hfree h)
        have := hfree.reserved t ht
        omega

/-- **Placement is sound, highest-fit and complete.** For a sorted, overlap-free list of areas and
at most as many reservations of the address space as the table has slots, the search returns the
highest base at which the rounded size meets neither, and nothing only if there is no such base. -/
theorem findFreeRange_highest (vs : VmSpace) (tds : Teardowns) (size : ℕ)
    (hareas : AreasWellFormed vs.areas) (hreserved : (tds.inFlight vs.cr3).length ≤ teardownSlots)
    (hpos : 0 < size) (hsize : size < 2 ^ 47) :
    Highest (vs.Free tds (pageAlignUp size)) (vs.findFreeRange tds size) := by
  have hrounded : 0 < pageAlignUp size := by
    rw [pageAlignUp_eq]
    omega
  refine (findFreeRangeLoop_highest hareas hrounded (pageAlignUp_idem size) (fun t ht _ => ht)
    (Nat.lt_succ_of_le hreserved)).congr fun b => ?_
  exact ⟨And.left, fun h => ⟨h, h.ceiling⟩⟩

/-- The page below `MMAP_BASE` is mapped. -/
def topPageMapped : VmSpace :=
  { VmSpace.newUser 0x1000 0 0 with
    areas := [⟨mmapBase - 0x1000, 0x1000, protRead, mapPrivate, .anonymous, .mmap⟩] }

/-- A teardown is going on in the two pages below it. -/
def tearingDown : Teardowns := [⟨0x1000, mmapBase - 0x3000, mmapBase - 0x1000⟩]

theorem findFreeRange_highest_of_teardown :
    Highest (topPageMapped.Free tearingDown (pageAlignUp 0x800)) (some (mmapBase - 0x4000)) := by
  have hareas : AreasWellFormed topPageMapped.areas := by constructor <;> decide +kernel
  exact findFreeRange_highest topPageMapped tearingDown 0x800 hareas (by decide +kernel)
    (by decide) (by decide)

end Astryx
