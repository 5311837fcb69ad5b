import Astryx.Heap.State
import Astryx.Lib.Tiling

/-!
# The heap as a row of blocks

Seen from above the heap is a row of blocks that tile it, some free and some in use. `Stored` says
how memory represents such a row: a free block holds its size and the address of the next free one,
a block in use holds its extent in front of the pointer its user has. It is a predicate of a part of
the row and the address of the first free block behind that part, so that a part is edited on its
own.

`Represents` ties the allocator's state to a row. The walks of the allocator are walks along the row
(`findFit_spec`, `findSlot_spec`), and its writes stay inside the blocks they edit.
-/

namespace Astryx.Heap

open List

/-- A block of the heap, free or handed out as `data`. -/
structure Block where
  start : ℕ
  size : ℕ
  data : Option Live
  aligned : start % 8 = 0 ∧ size % 8 = 0
  big : 16 ≤ size
  /-- The header and the user's memory lie inside the block. -/
  inside : ∀ l, data = some l → start + 16 ≤ l.ptr ∧ l.ptr % 8 = 0 ∧ l.ptr + l.size ≤ start + size

namespace Block

/-- Nobody has the block. -/
def isFree (b : Block) : Bool := b.data.isNone

/-- The end of a block. -/
def stop (b : Block) : ℕ := b.start + b.size

variable {b : Block} {next : ℕ} {mem : ℕ → ℕ}

lemma isFree_iff : b.isFree ↔ b.data = none := Option.isNone_iff_eq_none

lemma not_isFree_iff : ¬b.isFree ↔ ∃ l, b.data = some l := by
  rw [isFree_iff]
  exact Option.ne_none_iff_exists'

/-- The words of the block that the allocator uses, with the address of the next free block. -/
def Ok (mem : ℕ → ℕ) (b : Block) (next : ℕ) : Prop :=
  match b.data with
  | none => mem b.start = b.size ∧ mem (b.start + 8) = next
  | some l => mem (l.ptr - 16) = b.start ∧ mem (l.ptr - 8) = b.size

lemma ok_free (hb : b.isFree) : b.Ok mem next ↔ mem b.start = b.size ∧
    mem (b.start + 8) = next := by
  rw [Ok, isFree_iff.mp hb]

lemma ok_used {l : Live} (hb : b.data = some l) :
    b.Ok mem next ↔ mem (l.ptr - 16) = b.start ∧ mem (l.ptr - 8) = b.size := by
  rw [Ok, hb]

/-- The words of a block lie inside it. -/
lemma Ok.congr {mem' : ℕ → ℕ} (h : b.Ok mem next)
    (hmem : ∀ w, b.start ≤ w → w < b.stop → mem' w = mem w) : b.Ok mem' next := by
  have hbig := b.big
  cases hd : b.data with
  | none =>
    have hb : b.isFree := isFree_iff.mpr hd
    rw [ok_free hb] at h ⊢
    rw [hmem b.start le_rfl (by rw [stop]; omega),
      hmem (b.start + 8) (by omega) (by rw [stop]; omega)]
    exact h
  | some l =>
    obtain ⟨hlo, -, hhi⟩ := b.inside l hd
    rw [ok_used hd] at h ⊢
    rw [hmem (l.ptr - 16) (by omega) (by rw [stop]; omega),
      hmem (l.ptr - 8) (by omega) (by rw [stop]; omega)]
    exact h

end Block

/-- The first free block of a part of the row, `next` if it has none. -/
def firstFree : List Block → ℕ → ℕ
  | [], next => next
  | b :: bs, next => if b.isFree then b.start else firstFree bs next

/-- The last free block of a part of the row, `prev` if it has none. -/
def lastFree : ℕ → List Block → ℕ
  | prev, [] => prev
  | prev, b :: bs => lastFree (if b.isFree then b.start else prev) bs

/-- Memory represents the part of the row in front of the free block `next`. -/
def Stored (mem : ℕ → ℕ) : List Block → ℕ → Prop
  | [], _ => True
  | b :: bs, next => b.Ok mem (firstFree bs next) ∧ Stored mem bs next

section Row

variable {mem mem' : ℕ → ℕ} {A B : List Block} {prev next : ℕ}

lemma firstFree_append : firstFree (A ++ B) next = firstFree A (firstFree B next) := by
  induction A with
  | nil => rfl
  | cons b A ih => simp only [cons_append, firstFree, ih]

lemma lastFree_append : lastFree prev (A ++ B) = lastFree (lastFree prev A) B := by
  induction A generalizing prev with
  | nil => rfl
  | cons b A ih => simp only [cons_append, lastFree, ih]

lemma stored_append : Stored mem (A ++ B) next ↔ Stored mem A (firstFree B next) ∧
    Stored mem B next := by
  induction A with
  | nil => simp [Stored]
  | cons b A ih => simp only [cons_append, Stored, ih, firstFree_append, and_assoc]

lemma Stored.congr (h : Stored mem A next)
    (hmem : ∀ b ∈ A, ∀ w, b.start ≤ w → w < b.stop → mem' w = mem w) : Stored mem' A next := by
  induction A with
  | nil => trivial
  | cons b A ih =>
    exact ⟨h.1.congr (hmem b mem_cons_self), ih h.2 fun c hc => hmem c (by simp [hc])⟩

/-- A part without free blocks does not link to what follows. -/
lemma firstFree_of_used (hA : ∀ b ∈ A, ¬b.isFree) : firstFree A next = next := by
  induction A with
  | nil => rfl
  | cons b A ih =>
    rw [firstFree, if_neg (hA b mem_cons_self)]
    exact ih fun c hc => hA c (by simp [hc])

lemma lastFree_of_used (hA : ∀ b ∈ A, ¬b.isFree) : lastFree prev A = prev := by
  induction A with
  | nil => rfl
  | cons b A ih =>
    rw [lastFree, if_neg (hA b mem_cons_self)]
    exact ih fun c hc => hA c (by simp [hc])

lemma Stored.of_used (h : Stored mem A next) (hA : ∀ b ∈ A, ¬b.isFree) (next' : ℕ) :
    Stored mem A next' := by
  induction A with
  | nil => trivial
  | cons b A ih =>
    refine ⟨?_, ih h.2 fun c hc => hA c (by simp [hc])⟩
    obtain ⟨l, hl⟩ := Block.not_isFree_iff.mp (hA b mem_cons_self)
    have hok := h.1
    rw [Block.ok_used hl] at hok ⊢
    exact hok

lemma last_free_cases (A : List Block) :
    (∀ b ∈ A, ¬b.isFree) ∨ ∃ A₁ a A₂, A = A₁ ++ a :: A₂ ∧ a.isFree ∧ ∀ b ∈ A₂, ¬b.isFree := by
  induction A with
  | nil => exact .inl (by simp)
  | cons b A ih =>
    rcases ih with hA | ⟨A₁, a, A₂, rfl, ha, hA2⟩
    · by_cases hb : b.isFree
      · exact .inr ⟨[], b, A, rfl, hb, hA⟩
      · exact .inl (forall_mem_cons.mpr ⟨hb, hA⟩)
    · exact .inr ⟨b :: A₁, a, A₂, rfl, ha, hA2⟩

end Row

/-! ## Editing the links -/

open Tiling (Tiles)

/-- The blocks fill a range. -/
abbrev Row (lo : ℕ) (A : List Block) (hi : ℕ) : Prop := Tiles Block.start Block.size lo A hi

namespace HeapState

variable {h : HeapState} {prev next : ℕ}

@[simp] lemma store_mem_self (a v : ℕ) : (h.store a v).mem a = v := Function.update_self ..

variable {a w : ℕ}

lemma store_mem_of_ne (hw : w ≠ a) (v : ℕ) :
    (h.store a v).mem w = h.mem w := Function.update_of_ne hw ..

@[simp] lemma storePair_mem_fst (a v v' : ℕ) : (h.storePair a v v').mem a = v := by
  rw [storePair, store_mem_of_ne (by omega), store_mem_self]

@[simp] lemma storePair_mem_snd (a v v' : ℕ) : (h.storePair a v v').mem (a + 8) = v' :=
  store_mem_self ..

lemma storePair_mem_of_ne (hw : w ≠ a) (hw' : w ≠ a + 8) (v v' : ℕ) :
    (h.storePair a v v').mem w = h.mem w := by
  rw [storePair, store_mem_of_ne hw', store_mem_of_ne hw]

@[simp] lemma setNext_zero : h.setNext 0 next = { h with head := next } := if_pos rfl

lemma setNext_of_ne (hp : prev ≠ 0) : h.setNext prev next = h.store (prev + 8) next := if_neg hp

@[simp] lemma setNext_heapStart : (h.setNext prev next).heapStart = h.heapStart := by
  rw [setNext]
  split <;> rfl

@[simp] lemma setNext_initialized : (h.setNext prev next).initialized = h.initialized := by
  rw [setNext]
  split <;> rfl

@[simp] lemma setNext_allocatedBytes : (h.setNext prev next).allocatedBytes = h.allocatedBytes := by
  rw [setNext]
  split <;> rfl

end HeapState

section Links

variable {h : HeapState} {A : List Block} {lo hi next : ℕ} {a : Block} {A₁ A₂ : List Block}

lemma firstFree_cons_append (ha : a.isFree) :
    firstFree (A₁ ++ a :: A₂) next = firstFree A₁ a.start := by
  rw [firstFree_append, firstFree, if_pos ha]

lemma lastFree_cons_append {prev : ℕ} (ha : a.isFree)
    (hA2 : ∀ b ∈ A₂, ¬b.isFree) : lastFree prev (A₁ ++ a :: A₂) = a.start := by
  rw [lastFree_append, lastFree, if_pos ha, lastFree_of_used hA2]

/-- Linking the last free block of a part to another successor writes inside the part only. -/
lemma setNext_mem_of_outside (hr : Row lo A hi) {w : ℕ} (hw : w < lo ∨ hi ≤ w) :
    (h.setNext (lastFree 0 A) next).mem w = h.mem w := by
  rcases last_free_cases A with hA | ⟨A₁, a, A₂, rfl, ha, hA2⟩
  · simp [lastFree_of_used hA]
  rw [lastFree_cons_append ha hA2]
  have hbound := hr.mem (mem_append_right A₁ mem_cons_self)
  have hbig := a.big
  rw [HeapState.setNext]
  split
  · rfl
  · exact HeapState.store_mem_of_ne (by omega) _

/-- After that the part is stored in front of the new successor. -/
theorem Stored.setNext (hs : Stored h.mem A next) (hr : Row lo A hi) (hlo : 0 < lo) (next' : ℕ) :
    Stored (h.setNext (lastFree 0 A) next').mem A next' := by
  rcases last_free_cases A with hA | ⟨A₁, a, A₂, rfl, ha, hA2⟩
  · rw [lastFree_of_used hA, HeapState.setNext_zero]
    exact hs.of_used hA next'
  have hasc := pairwise_append.mp hr.asc
  have hasc2 := (pairwise_cons.mp hasc.2.1).1
  have hbig := a.big
  have hpos : a.start ≠ 0 := by
    have := (hr.mem (mem_append_right A₁ mem_cons_self)).1
    omega
  rw [lastFree_cons_append ha hA2, HeapState.setNext_of_ne hpos]
  rw [stored_append, Stored] at hs ⊢
  obtain ⟨hs1, hok, hs2⟩ := hs
  have hne : ∀ w, w ≠ a.start + 8 → (h.store (a.start + 8) next').mem w = h.mem w := fun w hw =>
    HeapState.store_mem_of_ne hw _
  refine ⟨?_, ?_, ?_⟩
  · rw [firstFree, if_pos ha] at hs1 ⊢
    refine hs1.congr fun b hb w _ hw => hne w ?_
    have := hasc.2.2 b hb a mem_cons_self
    rw [Block.stop] at hw
    omega
  · rw [Block.ok_free ha] at hok ⊢
    rw [firstFree_of_used hA2, HeapState.store_mem_self, hne a.start (by omega)]
    exact ⟨hok.1, rfl⟩
  refine (hs2.of_used hA2 next').congr fun b hb w hw _ => hne w ?_
  have := hasc2 b hb
  omega

lemma setNext_head (hr : Row lo A hi) (hlo : 0 < lo) (hhead : h.head = firstFree A next)
    (next' : ℕ) :
    (h.setNext (lastFree 0 A) next').head = firstFree A next' := by
  rcases last_free_cases A with hA | ⟨A₁, a, A₂, rfl, ha, hA2⟩
  · simp [lastFree_of_used hA, firstFree_of_used hA]
  have hpos : a.start ≠ 0 := by
    have := (hr.mem (mem_append_right A₁ mem_cons_self)).1
    omega
  rw [lastFree_cons_append ha hA2, HeapState.setNext_of_ne hpos, firstFree_cons_append ha]
  rw [firstFree_cons_append ha] at hhead
  exact hhead

end Links

/-! ## The row behind the allocator's state -/

/-- The bytes of the blocks in use. -/
def usedBytes : List Block → ℕ
  | [] => 0
  | b :: bs => (if b.isFree then 0 else b.size) + usedBytes bs

/-- The addresses that `heap::init` can choose for the heap. -/
structure InRange (start : ℕ) : Prop where
  lo : physOff + 0x800000 ≤ start
  hi : start + heapSize ≤ physOff + 0x40000000
  aligned : start % 8 = 0

/-- The allocator's state stands for the row. -/
structure Represents (h : HeapState) (blocks : List Block) : Prop where
  range : InRange h.heapStart
  row : Row h.heapStart blocks (h.heapStart + heapSize)
  stored : Stored h.mem blocks 0
  head : h.head = firstFree blocks 0
  initialized : h.initialized = true
  allocated : h.allocatedBytes = usedBytes blocks

lemma usedBytes_append (A B : List Block) : usedBytes (A ++ B) = usedBytes A + usedBytes B := by
  induction A with
  | nil => simp [usedBytes]
  | cons b A ih =>
    rw [cons_append, usedBytes, ih, usedBytes]
    omega

variable {A : List Block} {h : HeapState}

lemma usedBytes_le {lo hi : ℕ} (hr : Row lo A hi) : lo + usedBytes A ≤ hi := by
  induction A generalizing lo with
  | nil => exact hr.le
  | cons b A ih =>
    have := ih hr.2.2
    rw [usedBytes]
    split <;> omega

/-- The blocks are in the heap. -/
def Within (h : HeapState) (A : List Block) : Prop :=
  ∀ b ∈ A, h.heapStart ≤ b.start ∧ b.stop ≤ h.heapStart + heapSize

lemma Represents.within {blocks : List Block} (hrep : Represents h blocks) (hA : A ⊆ blocks) :
    Within h A := fun _ hb => hrep.row.mem (hA hb)

lemma validateBlockPtr_start (hr : InRange h.heapStart) {b : Block} (hlo : h.heapStart ≤ b.start)
    (hhi : b.stop ≤ h.heapStart + heapSize) : h.validateBlockPtr b.start = .ok () := by
  obtain ⟨hr, -, -⟩ := hr
  have hbig := b.big
  rw [Block.stop] at hhi
  rw [HeapState.validateBlockPtr, if_neg (by rw [physOff] at hr; omega),
    if_neg (by simp [b.aligned.1]),
    if_neg (by rw [physOff] at hr; omega), if_neg (by rw [minBlockSize]; omega)]

lemma validateBlockPtr_firstFree (hr : InRange h.heapStart)
    (hA : Within h A) : h.validateBlockPtr (firstFree A 0) = .ok () := by
  induction A with
  | nil => rfl
  | cons b A ih =>
    rw [firstFree]
    split
    · obtain ⟨hlo, hhi⟩ := hA b mem_cons_self
      exact validateBlockPtr_start hr hlo hhi
    · exact ih fun c hc => hA c (by simp [hc])

/-! ## The walks -/

section Walks

variable {h : HeapState}

/-- The block is free and large enough. -/
def Fits (layout : Layout) (b : Block) : Prop := b.isFree ∧ totalNeeded b.start layout ≤ b.size

variable {b : Block}

lemma Within.tail {A : List Block} (h' : Within h (b :: A)) : Within h A := fun c hc =>
  h' c (mem_cons_of_mem b hc)

lemma Within.start_ne_zero (hr : InRange h.heapStart) {A : List Block} (h' : Within h (b :: A)) :
    b.start ≠ 0 := by
  have hlo := hr.lo
  have := (h' b mem_cons_self).1
  omega

/-- The walk of `alloc` finds the first block of the row that fits. -/
theorem findFit_spec (layout : Layout) (hr : InRange h.heapStart) {B : List Block} (prev iters : ℕ)
    (hs : Stored h.mem B 0) (hB : Within h B) (hiters : B.length ≤ iters) :
    ((∀ b ∈ B, ¬Fits layout b) ∧ h.findFit layout iters prev (firstFree B 0) = .ok none) ∨
      ∃ B₁ b B₂, B = B₁ ++ b :: B₂ ∧ Fits layout b ∧
        h.findFit layout iters prev (firstFree B 0) = .ok (some (lastFree prev B₁, b.start)) := by
  induction B generalizing prev iters with
  | nil =>
    left
    refine ⟨by simp, ?_⟩
    cases iters <;> simp [HeapState.findFit, firstFree]
  | cons b B ih =>
    by_cases hb : b.isFree
    · cases iters with
      | zero => simp at hiters
      | succ iters =>
        have hok := (Block.ok_free hb).mp hs.1
        have hne := hB.start_ne_zero hr
        rw [firstFree, if_pos hb, HeapState.findFit, if_neg hne, hok.1, hok.2]
        by_cases hfit : totalNeeded b.start layout ≤ b.size
        · right
          exact ⟨[], b, B, rfl, ⟨hb, hfit⟩, if_pos hfit⟩
        rw [if_neg hfit]
        simp only [validateBlockPtr_firstFree hr hB.tail, bind, Except.bind]
        rcases ih b.start iters hs.2 hB.tail (Nat.le_of_succ_le_succ hiters) with
          ⟨hnone, hw⟩ | ⟨B₁, c, B₂, rfl, hc, hw⟩
        · left
          exact ⟨forall_mem_cons.mpr ⟨fun h => hfit h.2, hnone⟩, hw⟩
        right
        refine ⟨b :: B₁, c, B₂, rfl, hc, ?_⟩
        rw [lastFree, if_pos hb]
        exact hw
    rw [firstFree, if_neg hb]
    rcases ih prev iters hs.2 hB.tail (Nat.le_of_succ_le hiters) with
      ⟨hnone, hw⟩ | ⟨B₁, c, B₂, rfl, hc, hw⟩
    · left
      exact ⟨forall_mem_cons.mpr ⟨fun h => hb h.1, hnone⟩, hw⟩
    right
    refine ⟨b :: B₁, c, B₂, rfl, hc, ?_⟩
    rw [lastFree, if_neg hb]
    exact hw

lemma firstFree_cases (B : List Block) (next : ℕ) :
    firstFree B next = next ∨ ∃ b ∈ B, b.isFree ∧ firstFree B next = b.start := by
  induction B with
  | nil => exact .inl rfl
  | cons b B ih =>
    rw [firstFree]
    split
    · exact .inr ⟨b, mem_cons_self, ‹_›, rfl⟩
    rcases ih with h | ⟨c, hc, hfree, h⟩
    · exact .inl h
    · exact .inr ⟨c, mem_cons_of_mem b hc, hfree, h⟩

/-- The walk of `insert_free_block` stops at the part of the row behind `addr`. -/
theorem findSlot_spec (hr : InRange h.heapStart) {B₁ B₂ : List Block} {addr : ℕ} (prev iters : ℕ)
    (hs : Stored h.mem (B₁ ++ B₂) 0) (hB : Within h (B₁ ++ B₂)) (hlt : ∀ b ∈ B₁, b.start < addr)
    (hge : ∀ b ∈ B₂, addr ≤ b.start) (hiters : B₁.length ≤ iters) :
    h.findSlot addr iters prev (firstFree (B₁ ++ B₂) 0) =
      .ok (lastFree prev B₁, firstFree B₂ 0) := by
  induction B₁ generalizing prev iters with
  | nil =>
    have hstop : firstFree B₂ 0 = 0 ∨ addr ≤ firstFree B₂ 0 := by
      rcases firstFree_cases B₂ 0 with h0 | ⟨b, hb, -, h0⟩
      · exact .inl h0
      · exact .inr (h0 ▸ hge b hb)
    cases iters <;> exact if_pos hstop
  | cons b B₁ ih =>
    rw [cons_append] at hs hB ⊢
    have hlt' := fun c hc => hlt c (mem_cons_of_mem b hc)
    by_cases hb : b.isFree
    · cases iters with
      | zero => simp at hiters
      | succ iters =>
        have hok := (Block.ok_free hb).mp hs.1
        have hgo : ¬(b.start = 0 ∨ addr ≤ b.start) := by
          rintro (h0 | hle)
          · exact hB.start_ne_zero hr h0
          · exact not_le.mpr (hlt b mem_cons_self) hle
        rw [firstFree, if_pos hb, HeapState.findSlot, if_neg hgo, hok.2, lastFree, if_pos hb]
        simp only [validateBlockPtr_firstFree hr hB.tail, bind, Except.bind]
        exact ih b.start iters hs.2 hB.tail hlt' (Nat.le_of_succ_le_succ hiters)
    · rw [firstFree, if_neg hb, lastFree, if_neg hb]
      exact ih prev iters hs.2 hB.tail hlt' (Nat.le_of_succ_le hiters)

end Walks

/-! ## What fits -/

lemma Layout.alignBits_le (layout : Layout) : layout.alignBits ≤ 63 := by
  have hvalid := layout.valid
  refine Nat.max_le.mpr ⟨?_, by decide⟩
  by_contra hk
  have := Nat.pow_le_pow_right (n := 2) (by decide) (not_le.mp hk)
  omega

variable {x : ℕ}

/-- With an alignment of at most `2 ^ 46` nothing wraps; with a larger one the rounded address wraps
to 0. -/
lemma dataStart_cases (hlo : physOff + 0x800000 ≤ x) (hhi : x ≤ physOff + 0x40000000)
    (layout : Layout) :
    (x + 16 ≤ dataStart x layout ∧ dataStart x layout < x + 16 + 2 ^ 46 ∧
      dataStart x layout % 8 = 0) ∨
      dataStart x layout = 0 := by
  have hk3 : 3 ≤ layout.alignBits := le_max_right ..
  have hk63 := layout.alignBits_le
  have hpos : 0 < 2 ^ layout.alignBits := Nat.two_pow_pos _
  rw [physOff] at hlo hhi
  rw [dataStart, allocHeaderSize, Word.alignUp_eq (by omega), Word.add_eq (by omega)]
  by_cases hk : layout.alignBits ≤ 46
  · left
    have hle : 2 ^ layout.alignBits ≤ 2 ^ 46 := Nat.pow_le_pow_right (by decide) hk
    rw [Nat.mod_eq_of_lt (by omega)]
    have hdiv := Nat.div_mul_le_self (x + 16 + (2 ^ layout.alignBits - 1)) (2 ^ layout.alignBits)
    have hlt := Nat.lt_div_mul_add (a := x + 16 + (2 ^ layout.alignBits - 1)) hpos
    refine ⟨by omega, by omega, ?_⟩
    have hdvd : 2 ^ 3 ∣ 2 ^ layout.alignBits := Nat.pow_dvd_pow 2 hk3
    exact Nat.mod_eq_zero_of_dvd (hdvd.mul_left _)
  right
  have hge : 2 ^ 47 ≤ 2 ^ layout.alignBits := Nat.pow_le_pow_right (by decide) (by omega)
  have hmod : (x + 16 + (2 ^ layout.alignBits - 1)) % 2 ^ 64 < 2 ^ layout.alignBits := by
    omega
  rw [Nat.div_eq_of_lt hmod, zero_mul]

/-- What is taken of a block covers the header and the user's memory, and keeps the next block
aligned. A layout whose rounded address wraps needs more than the heap has. -/
theorem totalNeeded_spec (hlo : physOff + 0x800000 ≤ x) (hhi : x ≤ physOff + 0x40000000)
    {layout : Layout} (hfit : totalNeeded x layout ≤ heapSize) :
    x + 16 ≤ dataStart x layout ∧ dataStart x layout % 8 = 0 ∧
      dataStart x layout + layout.size ≤ x + totalNeeded x layout ∧
      totalNeeded x layout % 8 = 0 := by
  have hvalid : layout.size ≤ 2 ^ 63 := (Nat.le_add_right _ _).trans layout.valid
  have hcases := dataStart_cases hlo hhi layout
  rw [physOff] at hlo hhi
  rw [totalNeeded, Word.alignUp_eq (by decide)] at hfit ⊢
  generalize dataStart x layout = d at *
  rcases hcases with ⟨hd, hd', hd8⟩ | rfl
  · have hsub : Word.sub (Word.add d layout.size) x = d + layout.size - x := by
      rw [Word.sub, Word.add]
      omega
    refine ⟨hd, hd8, ?_, ?_⟩ <;> omega
  have hsub : Word.sub (Word.add 0 layout.size) x = layout.size + (2 ^ 64 - x) := by
    rw [Word.sub, Word.add]
    omega
  rw [hsub, heapSize] at hfit
  omega

end Astryx.Heap
