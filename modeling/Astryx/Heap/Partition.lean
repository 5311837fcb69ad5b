import Astryx.Heap.Blocks

/-!
# The kernel heap partitions its memory

`alloc` and `dealloc` edit the row of blocks behind the allocator's state: an allocation replaces a
free block by a used one and perhaps a free rest, a deallocation frees a block and joins it with its
free neighbours. The row has no two free neighbours, so the list it is read from is ascending with
gaps, and the blocks tile the heap at all times.

## Main results

* `alloc_spec`, `dealloc_spec` — what the two operations do to the row; neither meets a corrupt list
* `heapRun_partition` — free list and live allocations partition the heap after every run
-/

namespace Astryx.Heap

open List Block HeapState Transition

variable {A C : List Block} {h : HeapState}

open Tiling (Tiles tiles_append)

/-! ## Allocation -/

variable {blocks A' C' : List Block} {mem' : ℕ → ℕ} {lo hi next : ℕ} {j : Block}

lemma Represents.length_le (hrep : Represents h blocks) : blocks.length ≤ maxWalkIters := by
  have := hrep.row.length_mul_le fun b _ => b.big
  rw [maxWalkIters, minBlockSize]
  omega

variable {b : Block} {mem : ℕ → ℕ}

/-- A block is cut out of the row, with what stands before and behind it. -/
lemma Represents.split (hrep : Represents h (A ++ b :: C)) :
    Row h.heapStart A b.start ∧ Row b.stop C (h.heapStart + heapSize) ∧
      Stored h.mem A (firstFree (b :: C) 0) ∧ b.Ok h.mem (firstFree C 0) ∧ Stored h.mem C 0 := by
  obtain ⟨mid, hA, hb, -, hC⟩ := tiles_append.mp hrep.row
  obtain ⟨hsA, hok, hsC⟩ := stored_append.mp hrep.stored
  exact ⟨hb ▸ hA, by rw [stop, hb]; exact hC, hsA, hok, hsC⟩

lemma Represents.bounds (hrep : Represents h (A ++ b :: C)) :
    physOff + 0x800000 ≤ b.start ∧ b.start + b.size ≤ physOff + 0x40000000 ∧ b.size ≤ heapSize := by
  have hmem := hrep.row.mem (mem_append_right A mem_cons_self)
  have hlo := hrep.range.lo
  have hhi := hrep.range.hi
  omega

/-- The part of the row before an address does not see writes behind it. -/
lemma stored_before (hs : Stored mem A next) (hr : Row lo A hi)
    (hmem : ∀ w, w < hi → mem' w = mem w) : Stored mem' A next :=
  hs.congr fun _ hc w _ hw => hmem w (lt_of_lt_of_le hw (hr.mem hc).2)

/-- Nor does the part behind it see writes before it. -/
lemma stored_behind (hs : Stored mem C next) (hr : Row lo C hi)
    (hmem : ∀ w, lo ≤ w → mem' w = mem w) : Stored mem' C next :=
  hs.congr fun _ hc w hw _ => hmem w ((hr.mem hc).1.trans hw)

section Alloc

variable {h k : HeapState} {A C R : List Block} {b u : Block} {l : Live}

/-- The row once the block `b` is off the list, its rest `R` is on it, and `u` is handed out. -/
lemma handOut_represents (hrep : Represents h (A ++ b :: C)) (hb : b.isFree)
    (hstart : u.start = b.start) (hl : u.data = some l) (hR : Row u.stop R b.stop)
    (hfree : ∀ r ∈ R, r.isFree) (hkstart : k.heapStart = h.heapStart) (hkinit : k.initialized)
    (hkalloc : k.allocatedBytes = h.allocatedBytes)
    (hkhead : k.head = firstFree A (firstFree (R ++ C) 0))
    (hkA : Stored k.mem A (firstFree (R ++ C) 0)) (hkR : Stored k.mem R (firstFree C 0))
    (hkC : ∀ w, b.stop ≤ w → k.mem w = h.mem w) :
    Represents (k.handOut b.start u.size l.ptr) (A ++ u :: (R ++ C)) := by
  obtain ⟨hrowA, hrowC, -, -, hsC⟩ := hrep.split
  obtain ⟨hlo, hhi, -⟩ := hrep.bounds
  obtain ⟨hptr, -, hend⟩ := u.inside l hl
  have hused : ¬u.isFree := not_isFree_iff.mpr ⟨l, hl⟩
  have hle : u.stop ≤ b.stop := hR.le
  rw [stop] at hle
  rw [physOff] at hlo hhi
  have hsub : Word.sub l.ptr allocHeaderSize = l.ptr - 16 := by
    rw [allocHeaderSize]
    exact Word.sub_eq (by rw [stop] at hle; omega) (by omega)
  have hmem : ∀ w, w < u.start ∨ u.stop ≤ w → (k.handOut b.start u.size l.ptr).mem w = k.mem w := by
    intro w hw
    rw [stop] at hw
    exact storePair_mem_of_ne (by omega) (by omega) ..
  have hfirst : firstFree (u :: (R ++ C)) 0 = firstFree (R ++ C) 0 := by
    rw [firstFree, if_neg hused]
  have hrow : Row h.heapStart (A ++ u :: (R ++ C)) (h.heapStart + heapSize) := by
    refine tiles_append.mpr ⟨b.start, hrowA, hstart, lt_of_lt_of_le (by decide) u.big, ?_⟩
    rw [← hstart]
    exact tiles_append.mpr ⟨b.stop, hR, hrowC⟩
  have hbytes : usedBytes (A ++ u :: (R ++ C)) = usedBytes (A ++ b :: C) + u.size := by
    have hzero : usedBytes R = 0 := by
      clear hR hkR hkA hkhead hrow hfirst
      induction R with
      | nil => rfl
      | cons r R ih =>
        rw [usedBytes, if_pos (hfree r mem_cons_self), ih fun c hc => hfree c (by simp [hc])]
    simp only [usedBytes_append, usedBytes, hused, hb, hzero, if_true, if_false, Bool.false_eq_true]
    omega
  refine ⟨hkstart ▸ hrep.range, hkstart ▸ hrow, ?_, hkhead.trans ?_, hkinit, ?_⟩
  · refine stored_append.mpr ⟨?_, ?_, stored_append.mpr ⟨?_, ?_⟩⟩
    · rw [hfirst]
      exact stored_before hkA (hstart ▸ hrowA) fun w hw => hmem w (.inl hw)
    · rw [ok_used hl]
      show (k.storePair (Word.sub l.ptr allocHeaderSize) b.start u.size).mem
        (l.ptr - 16) = u.start ∧
        (k.storePair (Word.sub l.ptr allocHeaderSize) b.start u.size).mem (l.ptr - 8) = u.size
      rw [hsub, show l.ptr - 8 = l.ptr - 16 + 8 by omega]
      simp [hstart]
    · exact stored_behind hkR hR fun w hw => hmem w (.inr hw)
    · refine stored_behind hsC hrowC fun w hw => ?_
      rw [hmem w (.inr (hR.le.trans hw)), hkC w hw]
  · rw [← hfirst]
    exact firstFree_append.symm
  rw [hbytes, ← hrep.allocated, ← hkalloc]
  refine Word.add_eq ?_
  have hall := usedBytes_le hrow
  have hheap := hrep.range.hi
  rw [hbytes, ← hrep.allocated, ← hkalloc] at hall
  rw [physOff] at hheap
  omega

/-- A block that fits is taken whole or split, and the row is represented again. -/
lemma takeBlock_spec {layout : Layout} (hrep : Represents h (A ++ b :: C)) (hfit : Fits layout b) :
    ∃ (u : Block) (R : List Block) (h' : HeapState),
      u.data = some ⟨dataStart b.start layout, layout.size⟩ ∧
      R.length ≤ 1 ∧ (∀ r ∈ R, r.isFree) ∧
      h.takeBlock layout (lastFree 0 A) b.start = .ok (h', dataStart b.start layout) ∧
      Represents h' (A ++ u :: (R ++ C)) := by
  obtain ⟨hb, hneeded⟩ := hfit
  obtain ⟨hrowA, -, hsA, hok, -⟩ := hrep.split
  obtain ⟨hlo, hhi, hsize⟩ := hrep.bounds
  have hbig := b.big
  have haligned := b.aligned
  obtain ⟨hdata, hdata8, hend, hneeded8⟩ := totalNeeded_spec hlo (by omega) (hneeded.trans hsize)
  obtain ⟨hmemsize, hmemnext⟩ := (ok_free hb).mp hok
  have hpos : 0 < h.heapStart := by
    have := hrep.range.lo
    omega
  have hwithin : Within h C := hrep.within fun c hc => mem_append_right A (by simp [hc])
  have hvalid := validateBlockPtr_firstFree hrep.range hwithin
  have hfirst : firstFree (b :: C) 0 = b.start := by rw [firstFree, if_pos hb]
  rw [hfirst] at hsA
  have hhead : h.head = firstFree A b.start := by
    rw [hrep.head, firstFree_append, hfirst]
  by_cases hsplit : minBlockSize + 16 ≤ b.size - totalNeeded b.start layout
  · -- the rest becomes a free block behind the one that is taken
    let u : Block :=
      ⟨b.start, totalNeeded b.start layout, some ⟨dataStart b.start layout, layout.size⟩,
      ⟨haligned.1, hneeded8⟩, by omega, by rintro l ⟨⟩; exact ⟨hdata, hdata8, hend⟩⟩
    let r : Block :=
      ⟨b.start + totalNeeded b.start layout, b.size - totalNeeded b.start layout, none,
      by omega, by omega, by rintro _ ⟨⟩⟩
    have hr : r.isFree := rfl
    have hadd : Word.add b.start (totalNeeded b.start layout) = r.start :=
      Word.add_eq (by rw [physOff] at hhi; omega)
    let g := h.storePair r.start r.size (firstFree C 0)
    have hg : ∀ w, w < r.start ∨ b.stop ≤ w → g.mem w = h.mem w := by
      intro w hw
      rw [stop] at hw
      have : r.start + 16 ≤ b.start + b.size := by
        show b.start + totalNeeded b.start layout + 16 ≤ b.start + b.size
        omega
      exact storePair_mem_of_ne (by omega) (by omega) ..
    have hcarve : h.carve layout (lastFree 0 A) b.start =
        (g.setNext (lastFree 0 A) r.start, u.size) := by
      rw [HeapState.carve, hmemsize, hmemnext]
      simp only [hadd]
      exact if_pos hsplit
    have hgA : Stored g.mem A b.start := stored_before hsA hrowA fun w hw => hg w (.inl (by
      show w < b.start + _
      omega))
    have hghead : g.head = firstFree A b.start := hhead
    have hout : ∀ w, b.start ≤ w → (g.setNext (lastFree 0 A) r.start).mem w = g.mem w := fun w hw =>
      setNext_mem_of_outside hrowA (.inr hw)
    refine ⟨u, [r], (g.setNext (lastFree 0 A) r.start).handOut b.start u.size
      (dataStart b.start layout), rfl,
      Nat.le_refl 1, by simpa using hr, ?_, ?_⟩
    · rw [takeBlock, hmemnext, hvalid, hcarve]
      rfl
    refine handOut_represents (l := ⟨dataStart b.start layout, layout.size⟩) hrep hb rfl rfl
      ⟨rfl, ?_, ?_⟩ (by simpa using hr) (by simp [g]; rfl)
      (by simp [g]; exact hrep.initialized) (by simp [g]; rfl) ?_ ?_ ⟨?_, trivial⟩ ?_
    · show 0 < b.size - totalNeeded b.start layout
      omega
    · show b.start + totalNeeded b.start layout + (b.size - totalNeeded b.start layout) = b.stop
      rw [stop]
      omega
    · exact setNext_head hrowA hpos hghead r.start
    · exact hgA.setNext hrowA hpos r.start
    · rw [ok_free hr, hout _ (by show b.start ≤ b.start + _; omega),
        hout _ (by show b.start ≤ b.start + _ + 8; omega)]
      exact ⟨storePair_mem_fst .., storePair_mem_snd ..⟩
    · intro w hw
      rw [hout w (by rw [stop] at hw; omega), hg w (.inr hw)]
  let u : Block := ⟨b.start, b.size, some ⟨dataStart b.start layout, layout.size⟩, haligned, hbig,
    by rintro l ⟨⟩; exact ⟨hdata, hdata8, hend.trans (by omega)⟩⟩
  have hcarve : h.carve layout (lastFree 0 A) b.start =
      (h.setNext (lastFree 0 A) (firstFree C 0), u.size) := by
    rw [HeapState.carve, hmemsize, hmemnext]
    exact if_neg hsplit
  refine ⟨u, [], (h.setNext (lastFree 0 A) (firstFree C 0)).handOut b.start u.size
    (dataStart b.start layout), rfl,
    Nat.zero_le 1, by simp, ?_, ?_⟩
  · rw [takeBlock, hmemnext, hvalid, hcarve]
    rfl
  refine handOut_represents (l := ⟨dataStart b.start layout, layout.size⟩) hrep hb rfl rfl rfl
    (by simp) (by simp) (by simp [hrep.initialized]) (by simp) ?_ ?_ trivial ?_
  · exact setNext_head hrowA hpos hhead _
  · exact hsA.setNext hrowA hpos _
  · intro w hw
    exact setNext_mem_of_outside hrowA (.inr (by rw [stop] at hw; omega))

/-- `alloc` finds no room and changes nothing, or replaces a free block by a used one and perhaps a
free rest. -/
theorem alloc_spec {blocks : List Block} (hrep : Represents h blocks) (layout : Layout) :
    h.alloc layout = .ok (h, 0) ∨
      ∃ A b C u R h' l, blocks = A ++ b :: C ∧ b.isFree ∧ u.data = some l ∧
        l.size = layout.size ∧ l.ptr ≠ 0 ∧
        R.length ≤ 1 ∧ (∀ r ∈ R, r.isFree) ∧ h.alloc layout = .ok (h', l.ptr) ∧
        Represents h' (A ++ u :: (R ++ C)) := by
  have hwithin : Within h blocks := hrep.within fun _ => id
  have hvalid := validateBlockPtr_firstFree hrep.range hwithin
  rcases findFit_spec layout hrep.range 0 maxWalkIters hrep.stored hwithin hrep.length_le with
    ⟨-, hwalk⟩ | ⟨A, b, C, rfl, hfit, hwalk⟩
  · left
    rw [HeapState.alloc, if_pos hrep.initialized, hrep.head, hvalid]
    simp only [bind, Except.bind, hwalk]
  right
  obtain ⟨u, R, h', hu, hlen, hfree, htake, hrep'⟩ := takeBlock_spec hrep hfit
  have hptr := (u.inside _ hu).1
  refine ⟨A, b, C, u, R, h', _, rfl, hfit.1, hu, rfl, by omega, hlen, hfree, ?_, hrep'⟩
  rw [HeapState.alloc, if_pos hrep.initialized, hrep.head, hvalid]
  simp only [bind, Except.bind, hwalk]
  exact htake

end Alloc

/-! ## Deallocation -/

/-- The block, free. -/
def Block.free (b : Block) : Block := ⟨b.start, b.size, none, b.aligned, b.big, nofun⟩

/-- Two neighbours as one free block. -/
def Block.join (x y : Block) : Block :=
  ⟨x.start, x.size + y.size,
    none, by have := x.aligned; have := y.aligned; omega, by have := x.big; omega, nofun⟩

lemma Block.isFree_free (b : Block) : b.free.isFree := rfl

lemma Block.isFree_join (x y : Block) : (x.join y).isFree := rfl

section Dealloc

variable {h : HeapState} {A C : List Block} {b x y : Block} {l : Live}

lemma link_represents (hrep : Represents h (A ++ b :: C)) (hl : b.data = some l) :
    Represents (((h.uncount b.size).storePair b.start b.size (firstFree C 0)).setNext
      (lastFree 0 A) b.start)
      (A ++ b.free :: C) := by
  obtain ⟨hrowA, hrowC, hsA, -, hsC⟩ := hrep.split
  have hused : ¬b.isFree := not_isFree_iff.mpr ⟨l, hl⟩
  have hbig := b.big
  have hpos : 0 < h.heapStart := by
    have := hrep.range.lo
    omega
  let g := (h.uncount b.size).storePair b.start b.size (firstFree C 0)
  have hg : ∀ w, w < b.start ∨ b.stop ≤ w → g.mem w = h.mem w := by
    intro w hw
    rw [stop] at hw
    exact storePair_mem_of_ne (by omega) (by omega) ..
  have hfirst : firstFree (b :: C) 0 = firstFree C 0 := by rw [firstFree, if_neg hused]
  have hfirst' : firstFree (b.free :: C) 0 = b.start := if_pos b.isFree_free
  rw [hfirst] at hsA
  have hgA : Stored g.mem A (firstFree C 0) := stored_before hsA hrowA fun w hw => hg w (.inl hw)
  have hghead : g.head = firstFree A (firstFree C 0) := by
    rw [← hfirst, ← firstFree_append]
    exact hrep.head
  have hout : ∀ w, b.start ≤ w → (g.setNext (lastFree 0 A) b.start).mem w = g.mem w := fun w hw =>
    setNext_mem_of_outside hrowA (.inr hw)
  refine ⟨?_, ?_, stored_append.mpr ⟨?_, ?_, ?_⟩, ?_, ?_, ?_⟩
  · rw [setNext_heapStart]
    exact hrep.range
  · rw [setNext_heapStart]
    exact tiles_append.mpr ⟨b.start, hrowA, rfl, lt_of_lt_of_le (by decide) b.big, hrowC⟩
  · exact hgA.setNext hrowA hpos b.start
  · show (g.setNext (lastFree 0 A) b.start).mem b.start = b.size ∧
      (g.setNext (lastFree 0 A) b.start).mem (b.start + 8) = firstFree C 0
    rw [hout _ le_rfl, hout _ (by omega)]
    exact ⟨storePair_mem_fst .., storePair_mem_snd ..⟩
  · refine stored_behind hsC hrowC fun w hw => ?_
    rw [hout w (by rw [stop] at hw; omega), hg w (.inr hw)]
  · rw [firstFree_append, hfirst']
    exact setNext_head hrowA hpos hghead b.start
  · rw [setNext_initialized]
    exact hrep.initialized
  rw [setNext_allocatedBytes]
  show h.allocatedBytes - b.size = _
  rw [hrep.allocated]
  simp only [usedBytes_append, usedBytes, hused, b.isFree_free, if_true, if_false,
    Bool.false_eq_true]
  omega

/-- A free block takes over the free block behind it. -/
lemma absorb_represents (hrep : Represents h (A ++ x :: y :: C)) (hx : x.isFree) (hy : y.isFree) :
    Represents (h.absorb x.start y.start) (A ++ x.join y :: C) := by
  obtain ⟨hrowA, hrowyC, hsA, hokx, hoky, hsC⟩ := hrep.split
  obtain ⟨-, -, hrowC⟩ := hrowyC
  obtain ⟨hlo, hhi, -⟩ := hrep.bounds
  have hxbig := x.big
  have hbound := hrep.row.mem (mem_append_right A (mem_cons_of_mem x mem_cons_self))
  have hheap := hrep.range.hi
  rw [ok_free hx] at hokx
  rw [ok_free hy] at hoky
  rw [physOff] at hlo hhi hheap
  have hadd : Word.add x.size y.size = x.size + y.size := Word.add_eq (by omega)
  have hmem : ∀ w, w < x.start ∨ x.start + 16 ≤ w →
      (h.absorb x.start y.start).mem w = h.mem w := fun w hw =>
    storePair_mem_of_ne (by omega) (by omega) ..
  have hfirst : firstFree (x.join y :: C) 0 = firstFree (x :: y :: C) 0 := by
    rw [firstFree, if_pos (x.isFree_join y), firstFree, if_pos hx]
    rfl
  have hstop : (x.join y).stop = x.stop + y.size := (add_assoc ..).symm
  refine ⟨hrep.range, ?_, stored_append.mpr ⟨?_, ?_, ?_⟩, ?_, hrep.initialized, ?_⟩
  · refine tiles_append.mpr ⟨x.start, hrowA, rfl, Nat.add_pos_left (by omega) _, ?_⟩
    show Row (x.join y).stop C _
    rw [hstop]
    exact hrowC
  · rw [hfirst]
    exact stored_before hsA hrowA fun w hw => hmem w (.inl hw)
  · show (h.storePair x.start (Word.add (h.mem x.start) (h.mem y.start))
      (h.mem (y.start + 8))).mem x.start =
        x.size + y.size ∧
      (h.storePair x.start (Word.add (h.mem x.start) (h.mem y.start)) (h.mem (y.start + 8))).mem
        (x.start + 8) = _
    rw [storePair_mem_fst, storePair_mem_snd, hokx.1, hoky.1, hoky.2, hadd]
    exact ⟨rfl, rfl⟩
  · refine stored_behind hsC hrowC fun w hw => hmem w (.inr ?_)
    rw [stop] at hw
    omega
  · rw [firstFree_append, hfirst, ← firstFree_append]
    exact hrep.head
  show h.allocatedBytes = _
  rw [hrep.allocated]
  simp [usedBytes_append, usedBytes, hx, hy, x.isFree_join y]

variable {lo hi : ℕ} {j : Block}

/-- The row behind an address begins with a free block exactly if the first free block behind it is
there. -/
lemma firstFree_eq_iff (hr : Row lo C hi) (hlo : 0 < lo) :
    firstFree C 0 = lo ↔ ∃ c C', C = c :: C' ∧ c.isFree := by
  cases C with
  | nil =>
    simp only [firstFree, nil_eq, reduceCtorEq, false_and, exists_false, iff_false]
    omega
  | cons c C =>
    obtain ⟨hc, hpos, hC⟩ := hr
    by_cases hfree : c.isFree
    · rw [firstFree, if_pos hfree]
      exact ⟨fun _ => ⟨c, C, rfl, hfree⟩, fun _ => hc⟩
    rw [firstFree, if_neg hfree]
    constructor
    · intro h
      rcases firstFree_cases C 0 with h0 | ⟨d, hd, -, h0⟩
      · omega
      · have := (hC.mem hd).1
        omega
    rintro ⟨d, C', heq, hd⟩
    cases heq
    exact absurd hd hfree

/-- The row in front of an address ends with a free block exactly if the last free block in front of
it ends there. -/
lemma lastFree_stop_iff {next : ℕ} (hr : Row lo A hi) (hlo : 0 < lo) (hhi : hi < 2 ^ 64)
    (hs : Stored h.mem A next) :
    (lastFree 0 A ≠ 0 ∧ Word.add (lastFree 0 A) (h.mem (lastFree 0 A)) = hi) ↔
    ∃ A' a, A = A' ++ [a] ∧ a.isFree := by
  rcases last_free_cases A with hA | ⟨A₁, a, A₂, rfl, ha, hA2⟩
  · rw [lastFree_of_used hA]
    refine ⟨fun h => absurd rfl h.1, ?_⟩
    rintro ⟨A', a, rfl, ha⟩
    exact absurd ha (hA a (by simp))
  have hok := (stored_append.mp hs).2.1
  rw [ok_free ha] at hok
  have hbound := hr.mem (mem_append_right A₁ mem_cons_self)
  obtain ⟨mid, -, hmid, -, hrow2⟩ := tiles_append.mp hr
  rw [lastFree_cons_append ha hA2, hok.1, Word.add_eq (by omega)]
  cases A₂ with
  | nil =>
    have hend : mid + a.size = hi := hrow2
    exact ⟨fun _ => ⟨A₁, a, rfl, ha⟩, fun _ => ⟨by omega, by omega⟩⟩
  | cons c A₂ =>
    have hc := hrow2.2.1
    have hle := hrow2.2.2.le
    refine ⟨fun h => absurd h.2 (by omega), ?_⟩
    rintro ⟨A', d, heq, hd⟩
    -- the last block is one of those behind the last free one
    have hmem : d ∈ c :: A₂ := by
      have hlast := congrArg List.getLast? heq
      rw [List.getLast?_append_cons, List.getLast?_append_cons, List.getLast?_singleton,
        List.getLast?_cons_cons] at hlast
      exact mem_of_getLast? hlast
    exact absurd hd (hA2 d hmem)

/-- `A'` is `A` without the free block it ends with, if it does. -/
def CutLast (A A' : List Block) : Prop :=
  (A = A' ∧ ¬∃ A'' a, A = A'' ++ [a] ∧ a.isFree) ∨ ∃ a, A = A' ++ [a] ∧ a.isFree

/-- `C'` is `C` without the free block it begins with, if it does. -/
def CutHead (C C' : List Block) : Prop :=
  (C = C' ∧ ¬∃ c C'', C = c :: C'' ∧ c.isFree) ∨ ∃ c, C = c :: C' ∧ c.isFree

lemma absorbNext_spec (hrep : Represents h (A ++ j :: C)) (hj : j.isFree) :
    ∃ j' C', CutHead C C' ∧ j'.isFree ∧ j'.start = j.start ∧
      Represents (if firstFree C 0 ≠ 0 ∧ Word.add j.start j.size = firstFree C 0
        then h.absorb j.start (firstFree C 0) else h) (A ++ j' :: C') := by
  obtain ⟨-, hrowC, -⟩ := hrep.split
  obtain ⟨hlo, hhi, -⟩ := hrep.bounds
  rw [physOff] at hlo hhi
  have hpos : 0 < j.stop := by rw [stop]; omega
  have hadd : Word.add j.start j.size = j.stop := Word.add_eq (by omega)
  by_cases hnext : ∃ c C', C = c :: C' ∧ c.isFree
  · have heq := (firstFree_eq_iff hrowC hpos).mpr hnext
    obtain ⟨c, C', rfl, hc⟩ := hnext
    have hstart : firstFree (c :: C') 0 = c.start := if_pos hc
    refine ⟨j.join c, C', .inr ⟨c, rfl, hc⟩, j.isFree_join c, rfl, ?_⟩
    rw [if_pos ⟨by omega, hadd.trans heq.symm⟩, hstart]
    exact absorb_represents hrep hj hc
  refine ⟨j, C, .inl ⟨rfl, hnext⟩, hj, rfl, ?_⟩
  rw [if_neg]
  · exact hrep
  · rintro ⟨-, heq⟩
    exact hnext ((firstFree_eq_iff hrowC hpos).mp (heq.symm.trans hadd))

lemma absorbPrev_spec (hrep : Represents h (A ++ j :: C)) (hj : j.isFree) :
    ∃ A' j', CutLast A A' ∧ j'.isFree ∧
      Represents (if lastFree 0 A ≠ 0 ∧ Word.add (lastFree 0 A) (h.mem (lastFree 0 A)) = j.start
        then h.absorb (lastFree 0 A) j.start else h) (A' ++ j' :: C) := by
  obtain ⟨hrowA, -, hsA, -⟩ := hrep.split
  obtain ⟨hlo, hhi, -⟩ := hrep.bounds
  have hbase := hrep.range.lo
  rw [physOff] at hlo hhi hbase
  have hiff := lastFree_stop_iff hrowA (by omega) (by omega) hsA
  by_cases hprev : ∃ A' a, A = A' ++ [a] ∧ a.isFree
  · rw [if_pos (hiff.mpr hprev)]
    obtain ⟨A', a, rfl, ha⟩ := hprev
    refine ⟨A', a.join j, .inr ⟨a, rfl, ha⟩, a.isFree_join j, ?_⟩
    rw [append_assoc, singleton_append] at hrep
    rw [lastFree_cons_append ha (by simp)]
    exact absorb_represents hrep ha hj
  · rw [if_neg (hprev ∘ hiff.mp)]
    exact ⟨A, j, .inl ⟨rfl, hprev⟩, hj, hrep⟩

/-- `dealloc` of a block in use frees it and joins it with its free neighbours. -/
theorem dealloc_spec (hrep : Represents h (A ++ b :: C)) (hl : b.data = some l) :
    ∃ A' j C' h', CutLast A A' ∧ CutHead C C' ∧ j.isFree ∧ h.dealloc l.ptr = .ok h' ∧
      Represents h' (A' ++ j :: C') := by
  obtain ⟨hrowA, hrowC, -, hok, -⟩ := hrep.split
  obtain ⟨hptr, -, -⟩ := b.inside l hl
  have hused : ¬b.isFree := not_isFree_iff.mpr ⟨l, hl⟩
  rw [ok_used hl] at hok
  have hmem := hrep.row.mem (mem_append_right A mem_cons_self)
  have hwithin : Within h (A ++ b :: C) := hrep.within fun _ => id
  have hlen := hrep.length_le
  have hslot : (h.uncount b.size).findSlot b.start maxWalkIters 0 (h.uncount b.size).head =
      .ok (lastFree 0 A, firstFree C 0) := by
    rw [show (h.uncount b.size).head = firstFree (A ++ b :: C) 0
      from hrep.head, show firstFree C 0 = firstFree (b :: C) 0 by rw [firstFree, if_neg hused]]
    refine findSlot_spec (h := h.uncount b.size) hrep.range 0 maxWalkIters hrep.stored hwithin ?_ ?_
      (le_trans ?_ hlen)
    · intro c hc
      have := (hrowA.mem hc).2
      have := c.big
      omega
    · exact forall_mem_cons.mpr ⟨le_rfl, fun c hc => (Nat.le_add_right _ _).trans (hrowC.mem hc).1⟩
    · rw [length_append]
      omega
  obtain ⟨j, C', hC', hj, hjstart, hrep2⟩ := absorbNext_spec (link_represents hrep hl) b.isFree_free
  obtain ⟨A', j', hA', hj', hrep3⟩ := absorbPrev_spec hrep2 hj
  rw [hjstart] at hrep3
  refine ⟨A', j', C', _, hA', hC', hj', ?_, hrep3⟩
  rw [HeapState.dealloc, if_neg (by simp [hrep.initialized]; omega)]
  simp only [allocHeaderSize, show l.ptr - 16 + 8 = l.ptr - 8 by omega, hok.1, hok.2,
    validateBlockPtr_start hrep.range hmem.1 hmem.2, bind, Except.bind]
  rw [insertFreeBlock]
  have hvalid : (h.uncount b.size).validateBlockPtr (h.uncount b.size).head = .ok () := by
    rw [show (h.uncount b.size).head = firstFree (A ++ b :: C) 0 from hrep.head]
    exact validateBlockPtr_firstFree hrep.range hwithin
  simp only [hvalid, hslot, bind, Except.bind]
  rfl

end Dealloc

/-! ## No two free neighbours -/

/-- No two free blocks are neighbours. -/
def Apart (blocks : List Block) : Prop := blocks.IsChain fun a b => ¬(a.isFree ∧ b.isFree)

lemma apart_middle :
    Apart (A ++ j :: C) ↔ Apart A ∧ Apart C ∧ (∀ a ∈ A.getLast?, ¬(a.isFree ∧ j.isFree)) ∧
      ∀ c ∈ C.head?, ¬(j.isFree ∧ c.isFree) := by
  rw [Apart, isChain_append, isChain_cons, List.head?_cons]
  simp only [Option.mem_some_iff, forall_eq', Apart]
  tauto

theorem Apart.alloc {R : List Block} {u : Block} (h : Apart (A ++ b :: C)) (hb : b.isFree)
    (hu : ¬u.isFree) (hR : R.length ≤ 1) : Apart (A ++ u :: (R ++ C)) := by
  obtain ⟨hA, hC, -, hhead⟩ := apart_middle.mp h
  refine apart_middle.mpr ⟨hA, ?_, fun _ _ ha => hu ha.2, fun _ _ hc => hu hc.1⟩
  match R, hR with
  | [], _ => exact hC
  | [r], _ =>
    -- what follows a free block is in use, so it may follow its rest as well
    exact isChain_cons.mpr ⟨fun c hc hrc => hhead c hc ⟨hb, hrc.2⟩, hC⟩

lemma CutLast.apart (h : CutLast A A') (hA : Apart A) :
    Apart A' ∧ ∀ a ∈ A'.getLast?, ¬a.isFree := by
  rcases h with ⟨rfl, hnot⟩ | ⟨a, rfl, ha⟩
  · refine ⟨hA, fun a ha hfree => hnot ?_⟩
    obtain ⟨A'', rfl⟩ := List.getLast?_eq_some_iff.mp ha
    exact ⟨A'', a, rfl, hfree⟩
  · obtain ⟨hA', -, hlast, -⟩ := apart_middle.mp hA
    exact ⟨hA', fun c hc hfree => hlast c hc ⟨hfree, ha⟩⟩

lemma CutHead.apart (h : CutHead C C') (hC : Apart C) : Apart C' ∧ ∀ c ∈ C'.head?, ¬c.isFree := by
  rcases h with ⟨rfl, hnot⟩ | ⟨c, rfl, hc⟩
  · refine ⟨hC, fun c hc hfree => hnot ?_⟩
    obtain ⟨C'', rfl⟩ := List.head?_eq_some_iff.mp hc
    exact ⟨c, C'', rfl, hfree⟩
  · obtain ⟨hhead, hC'⟩ := isChain_cons.mp hC
    exact ⟨hC', fun d hd hfree => hhead d hd ⟨hc, hfree⟩⟩

theorem Apart.dealloc (h : Apart (A ++ b :: C)) (hA : CutLast A A') (hC : CutHead C C') :
    Apart (A' ++ j :: C') := by
  obtain ⟨hapA, hapC, -, -⟩ := apart_middle.mp h
  obtain ⟨hA', hlast⟩ := hA.apart hapA
  obtain ⟨hC', hhead⟩ := hC.apart hapC
  exact apart_middle.mpr ⟨hA', hC', fun a ha hfree => hlast a ha hfree.1, fun c hc hfree =>
    hhead c hc hfree.2⟩

/-! ## The free list and the live allocations -/

section Read

variable {h : HeapState} {blocks : List Block}

/-- The list read from memory is the free blocks of the row. -/
lemma freeList_go_eq (hr : InRange h.heapStart) (iters : ℕ) (hs : Stored h.mem blocks 0)
    (hw : Within h blocks) (hiters : blocks.length ≤ iters) :
    freeList.go h iters (firstFree blocks 0) = (blocks.filter (·.isFree)).map fun b =>
      (b.start, b.size) := by
  induction blocks generalizing iters with
  | nil => cases iters <;> simp [freeList.go, firstFree]
  | cons b blocks ih =>
    by_cases hb : b.isFree
    · cases iters with
      | zero => simp at hiters
      | succ iters =>
        obtain ⟨hsize, hnext⟩ := (ok_free hb).mp hs.1
        simp [firstFree, hb, freeList.go, hw.start_ne_zero, hr, hsize, hnext,
          ih iters hs.2 hw.tail (Nat.le_of_succ_le_succ hiters)]
    · rw [firstFree, if_neg hb, filter_cons_of_neg hb]
      exact ih iters hs.2 hw.tail (Nat.le_of_succ_le hiters)

lemma Represents.freeList_eq (hrep : Represents h blocks) :
    h.freeList = (blocks.filter (·.isFree)).map fun b => (b.start, b.size) := by
  rw [freeList, hrep.head]
  exact freeList_go_eq hrep.range maxWalkIters hrep.stored (hrep.within fun _ => id) hrep.length_le

/-- The free blocks of a row without free neighbours have gaps between them. -/
lemma Apart.free_asc {lo hi : ℕ} (ha : Apart blocks) (hr : Row lo blocks hi) :
    (blocks.filter (·.isFree)).Pairwise fun a b => a.start + a.size < b.start := by
  induction blocks generalizing lo with
  | nil => exact List.Pairwise.nil
  | cons b blocks ih =>
    obtain ⟨hhead, ha'⟩ := isChain_cons.mp ha
    obtain ⟨hstart, -, hr'⟩ := hr
    by_cases hb : b.isFree
    · rw [filter_cons_of_pos hb]
      refine pairwise_cons.mpr ⟨fun c hc => ?_, ih ha' hr'⟩
      obtain ⟨hc, hfree⟩ := mem_filter.mp hc
      cases blocks with
      | nil => cases hc
      | cons d blocks =>
        obtain ⟨-, hpos, hrest⟩ := hr'
        rcases mem_cons.mp hc with rfl | hc
        · exact absurd ⟨hb, hfree⟩ (hhead c rfl)
        · have := (hrest.mem hc).1
          omega
    · rw [filter_cons_of_neg hb]
      exact ih ha' hr'

/-- The block that the header names. -/
def HeapState.extent (h : HeapState) (l : Live) : ℕ × ℕ := (h.mem (l.ptr - 16), h.mem (l.ptr - 8))

lemma extents_eq {next : ℕ} (hs : Stored h.mem blocks next) :
    (blocks.filterMap (·.data)).map h.extent = (blocks.filter fun b => !b.isFree).map fun b =>
      (b.start, b.size) := by
  induction blocks with
  | nil => rfl
  | cons b blocks ih =>
    cases hd : b.data with
    | none =>
      have hb : b.isFree := isFree_iff.mpr hd
      rw [filterMap_cons_none hd, filter_cons_of_neg (by simp [hb])]
      exact ih hs.2
    | some l =>
      have hb : ¬b.isFree := not_isFree_iff.mpr ⟨l, hd⟩
      obtain ⟨hstart, hsize⟩ := (ok_used hd).mp hs.1
      rw [filterMap_cons_some hd, filter_cons_of_pos (by simpa using hb), map_cons, map_cons,
        ih hs.2, extent, hstart, hsize]

lemma usedBytes_eq : usedBytes blocks = ((blocks.filter fun b => !b.isFree).map (·.size)).sum := by
  induction blocks with
  | nil => rfl
  | cons b blocks ih =>
    by_cases hb : b.isFree
    · rw [usedBytes, if_pos hb, filter_cons_of_neg (by simp [hb]), ih, zero_add]
    · rw [usedBytes, if_neg hb, filter_cons_of_pos (by simpa using hb), map_cons, sum_cons, ih]

end Read

/-! ## Runs -/

/-- The state stands for a row without free neighbours whose used blocks are the live
allocations. -/
structure HeapSystem.Inv (s : HeapSystem) (blocks : List Block) : Prop where
  rep : Represents s.heap blocks
  apart : Apart blocks
  live : s.live.Perm (blocks.filterMap (·.data))

lemma init_inv (hrange : InRange h.heapStart) :
    ∃ blocks, HeapSystem.Inv ⟨h.init h.heapStart heapSize, []⟩ blocks := by
  let b : Block := ⟨h.heapStart, heapSize, none, ⟨hrange.aligned, by decide⟩, by decide, nofun⟩
  have hpos : 0 < heapSize := by decide
  refine ⟨[b], ⟨hrange, ⟨rfl, hpos, rfl⟩, ⟨(ok_free rfl).mpr ?_, trivial⟩, rfl, rfl, rfl⟩,
    isChain_singleton b, List.Perm.nil⟩
  exact ⟨storePair_mem_fst .., storePair_mem_snd ..⟩

lemma heapPhysStart_aligned (kernelEndVa : ℕ) : heapPhysStart kernelEndVa % 8 = 0 := by
  rw [heapPhysStart, Nat.max_def]
  split
  · rfl
  · rw [Word.clearLow_eq (by decide)]
    omega

lemma boot_inv {kernelEndVa : ℕ} (hboot : boot mem kernelEndVa = some h) :
    ∃ blocks, HeapSystem.Inv ⟨h, []⟩ blocks := by
  rw [boot] at hboot
  obtain ⟨hphys, rfl⟩ := of_guard hboot
  have hmin : 0x800000 ≤ heapPhysStart kernelEndVa := le_max_right ..
  have haligned := heapPhysStart_aligned kernelEndVa
  have hrange : InRange (heapPhysStart kernelEndVa + physOff) := by
    refine ⟨by omega, by omega, ?_⟩
    rw [physOff]
    omega
  exact init_inv hrange

section Steps

variable {s : HeapSystem} {blocks : List Block} {l : Live}

/-- A live allocation is the user of one block of the row. -/
lemma HeapSystem.Inv.split_live (hi : s.Inv blocks) (hl : l ∈ s.live) :
    ∃ A b C, blocks = A ++ b :: C ∧ b.data = some l := by
  obtain ⟨b, hb, hdata⟩ := mem_filterMap.mp (hi.live.mem_iff.mp hl)
  obtain ⟨A, C, rfl⟩ := append_of_mem hb
  exact ⟨A, b, C, rfl, hdata⟩

theorem HeapSystem.Inv.alloc (hi : s.Inv blocks) (layout : Layout) :
    ∃ h ptr, s.heap.alloc layout = .ok (h, ptr) ∧
      ∃ blocks', HeapSystem.Inv ⟨h, if ptr = 0 then s.live else ⟨ptr, layout.size⟩ :: s.live⟩
        blocks' := by
  rcases alloc_spec hi.rep layout with hnone |
    ⟨A, b, C, u, R, h', l, rfl, hb, hu, hsize, hptr, hR, hfree, halloc, hrep⟩
  · exact ⟨s.heap, 0, hnone, blocks, hi⟩
  refine ⟨h', l.ptr, halloc, A ++ u :: (R ++ C), hrep,
    hi.apart.alloc hb (not_isFree_iff.mpr ⟨l, hu⟩) hR, ?_⟩
  have hRdata : R.filterMap (·.data) = [] :=
    filterMap_eq_nil_iff.mpr fun r hr => isFree_iff.mp (hfree r hr)
  have hlive := hi.live
  rw [filterMap_append, filterMap_cons_none (isFree_iff.mp hb)] at hlive
  rw [if_neg hptr, ← hsize, filterMap_append, filterMap_cons_some hu, filterMap_append,
    hRdata, nil_append]
  exact (hlive.cons l).trans perm_middle.symm

lemma CutLast.filterMap_data {A A' : List Block} (h : CutLast A A') :
    A.filterMap (·.data) = A'.filterMap (·.data) := by
  rcases h with ⟨rfl, -⟩ | ⟨a, rfl, ha⟩
  · rfl
  · simp [filterMap_cons_none (isFree_iff.mp ha)]

lemma CutHead.filterMap_data {C C' : List Block} (h : CutHead C C') :
    C.filterMap (·.data) = C'.filterMap (·.data) := by
  rcases h with ⟨rfl, -⟩ | ⟨c, rfl, hc⟩
  · rfl
  · rw [filterMap_cons_none (isFree_iff.mp hc)]

theorem HeapSystem.Inv.dealloc (hi : s.Inv blocks) {live : List Live}
    (hlive : s.live.Perm (l :: live)) :
    ∃ h, s.heap.dealloc l.ptr = .ok h ∧ ∃ blocks', HeapSystem.Inv ⟨h, live⟩ blocks' := by
  obtain ⟨A, b, C, rfl, hb⟩ := hi.split_live (hlive.mem_iff.mpr mem_cons_self)
  obtain ⟨A', j, C', h', hA, hC, hj, hdealloc, hrep⟩ := dealloc_spec hi.rep hb
  refine ⟨h', hdealloc, A' ++ j :: C', hrep, hi.apart.dealloc hA hC, ?_⟩
  have hperm := hlive.symm.trans hi.live
  rw [filterMap_append, filterMap_cons_some hb] at hperm
  rw [filterMap_append, filterMap_cons_none (isFree_iff.mp hj), ← hA.filterMap_data,
    ← hC.filterMap_data]
  exact (hperm.trans perm_middle).cons_inv

/-- A user's store to its own memory does not touch what the allocator keeps. -/
lemma HeapSystem.Inv.write (hi : s.Inv blocks) (hl : l ∈ s.live) {addr : ℕ} (hlo : l.ptr ≤ addr)
    (hhi : addr < l.ptr + l.size) (v : ℕ) :
    HeapSystem.Inv { s with heap := s.heap.store addr v } blocks := by
  obtain ⟨A, b, C, rfl, hb⟩ := hi.split_live hl
  obtain ⟨hrowA, hrowC, hsA, hok, hsC⟩ := hi.rep.split
  obtain ⟨hptr, -, hend⟩ := b.inside l hb
  have hmem : ∀ w, w ≠ addr → (s.heap.store addr v).mem w = s.heap.mem w := fun w hw =>
    store_mem_of_ne hw v
  refine ⟨⟨hi.rep.range, hi.rep.row, stored_append.mpr ⟨?_, ?_, ?_⟩, hi.rep.head,
    hi.rep.initialized,
    hi.rep.allocated⟩, hi.apart, hi.live⟩
  · exact stored_before hsA hrowA fun w hw => hmem w (by omega)
  · rw [ok_used hb] at hok ⊢
    rw [hmem _ (by omega), hmem _ (by omega)]
    exact hok
  refine stored_behind hsC hrowC fun w hw => hmem w ?_
  rw [stop] at hw
  omega

lemma heapStep_inv {s' : HeapSystem} {op : HeapOp} (hi : s.Inv blocks)
    (h : heapStep s op = some s') :
    ∃ blocks', s'.Inv blocks' := by
  cases op with
  | alloc layout =>
    obtain ⟨h', ptr, halloc, hinv⟩ := hi.alloc layout
    rw [heapStep, halloc] at h
    cases h
    exact hinv
  | dealloc ptr =>
    obtain ⟨hany, h⟩ := Option.ite_none_right_eq_some.mp h
    obtain ⟨x, hx, hxptr⟩ := any_eq_true.mp hany
    obtain ⟨l, l₁, l₂, -, hl, hlive, herase⟩ :=
      exists_of_eraseP (p := fun l : Live => l.ptr == ptr) hx hxptr
    obtain ⟨h', hdealloc, hinv⟩ := hi.dealloc (hlive ▸ perm_middle : s.live.Perm (l :: (l₁ ++ l₂)))
    rw [beq_iff_eq] at hl
    rw [← hl, hdealloc] at h
    cases h
    rw [hl, herase]
    exact hinv
  | write ptr addr v =>
    obtain ⟨hany, h⟩ := Option.ite_none_right_eq_some.mp h
    obtain ⟨l, hl, hok⟩ := any_eq_true.mp hany
    simp only [Bool.and_eq_true, decide_eq_true_eq] at hok
    cases h
    exact ⟨blocks, hi.write hl hok.2.1 hok.2.2.1 v⟩

end Steps

/-- The representation invariant of the heap, read from its memory. -/
structure HeapSystem.Partitioned (s : HeapSystem) : Prop where
  /-- The free list ascends, and no two free blocks are adjacent. -/
  ascending : s.heap.freeList.Pairwise fun a b => a.1 + a.2 < b.1
  /-- Each address of the heap is in one free block or the block of one live allocation, and no
  other address is. -/
  partition : ∀ a, (s.heap.freeList ++ s.live.map s.heap.extent).countP
    (fun e => decide (e.1 ≤ a ∧ a < e.1 + e.2)) =
    if s.heap.heapStart ≤ a ∧ a < s.heap.heapStart + heapSize then 1 else 0
  allocated : s.heap.allocatedBytes = ((s.live.map s.heap.extent).map (·.2)).sum
  /-- When everything is freed the list is the single block of `init`. -/
  reset : s.live = [] → s.heap.freeList = [(s.heap.heapStart, heapSize)]
  /-- No operation meets a corrupt list. -/
  alloc_ok : ∀ layout, ∃ r, s.heap.alloc layout = .ok r
  dealloc_ok : ∀ l ∈ s.live, ∃ h, s.heap.dealloc l.ptr = .ok h

lemma HeapSystem.Inv.partitioned {s : HeapSystem} (hi : s.Inv blocks) : s.Partitioned where
  ascending := by
    rw [hi.rep.freeList_eq, pairwise_map]
    exact hi.apart.free_asc hi.rep.row
  partition a := by
    have hlive : (s.live.map s.heap.extent).Perm
        ((blocks.filter fun b => !b.isFree).map fun b => (b.start, b.size)) := by
      rw [← extents_eq hi.rep.stored]
      exact hi.live.map _
    rw [countP_append, hlive.countP_eq, hi.rep.freeList_eq, countP_map, countP_map,
      ← hi.rep.row.countP_eq a]
    exact (countP_eq_countP_filter_add ..).symm
  allocated := by
    have hlive := (hi.live.map s.heap.extent).map (·.2)
    rw [extents_eq hi.rep.stored, map_map] at hlive
    rw [map_map, hlive.sum_nat, hi.rep.allocated, usedBytes_eq, map_map]
    rfl
  reset hnil := by
    have hfree : ∀ b ∈ blocks, b.isFree := fun b hb => isFree_iff.mpr
      (filterMap_eq_nil_iff.mp (nil_perm.mp (hnil ▸ hi.live)) b hb)
    have hrow := hi.rep.row
    have hapart := hi.apart
    rw [hi.rep.freeList_eq]
    match blocks, hfree, hrow, hapart with
    | [], _, hrow, _ =>
      have : s.heap.heapStart = s.heap.heapStart + heapSize := hrow
      rw [heapSize] at this
      omega
    | [b], hfree, hrow, _ =>
      obtain ⟨hstart, -, hsize⟩ := hrow
      simp [filter_cons_of_pos (hfree b mem_cons_self), hstart, add_left_cancel hsize]
    | b :: c :: _, hfree, _, hapart =>
      exact absurd ⟨hfree b (by simp), hfree c (by simp)⟩ (isChain_cons_cons.mp hapart).1
  alloc_ok layout := by
    obtain ⟨h, ptr, hok, -⟩ := hi.alloc layout
    exact ⟨(h, ptr), hok⟩
  dealloc_ok l hl := by
    obtain ⟨h, hok, -⟩ := hi.dealloc (perm_cons_erase hl)
    exact ⟨h, hok⟩

/-- **The heap is partitioned** after every sequence of allocations of any layout and deallocations
of live pointers, with their users' stores in between. -/
theorem heapRun_partition {mem : ℕ → ℕ} {kernelEndVa : ℕ} {h : HeapState}
    (hboot : boot mem kernelEndVa = some h) {ops : List HeapOp} {s : HeapSystem}
    (hrun : run heapStep ⟨h, []⟩ ops = some s) : s.Partitioned := by
  have hinv : ∃ blocks, s.Inv blocks :=
    run_invariant (I := fun s => ∃ blocks, HeapSystem.Inv s blocks)
      (fun _ _ _ ⟨_, hi⟩ hstep => heapStep_inv hi hstep) (boot_inv hboot) hrun
  obtain ⟨blocks, hi⟩ := hinv
  exact hi.partitioned

/-- Two allocations, the first with a large alignment, a store to the second, and the first
freed. -/
def smallRun : List HeapOp :=
  [.alloc ⟨100, 12, by decide⟩, .alloc ⟨24, 3, by decide⟩,
    .write 0xFFFF800000801078 0xFFFF800000801080 7,
    .dealloc 0xFFFF800000801000]

theorem heapRun_partition_of_smallRun :
    ∃ h s, boot (fun _ => 0) 0xFFFF800000400000 = some h ∧ run heapStep ⟨h, []⟩ smallRun = some s ∧
      s.live = [⟨0xFFFF800000801078, 24⟩] ∧ s.Partitioned := by
  have hlive : ((boot (fun _ => 0) 0xFFFF800000400000).bind fun h =>
      (run heapStep ⟨h, []⟩ smallRun).map (·.live)) = some [⟨0xFFFF800000801078, 24⟩] := by
    decide +kernel
  obtain ⟨h, hboot, hmap⟩ := Option.bind_eq_some_iff.mp hlive
  obtain ⟨s, hrun, hs⟩ := Option.map_eq_some_iff.mp hmap
  exact ⟨h, s, hboot, hrun, hs, heapRun_partition hboot hrun⟩

end Astryx.Heap
