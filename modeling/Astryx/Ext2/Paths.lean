import Astryx.Ext2.Trees

/-!
# Logical blocks and cells

`block_path` leads a logical block to a cell of full length. Every cell stands for a range of
logical blocks, and `Geometry.firstBlock` is the first of them; for a cell of full length it is the
only one. So different logical blocks have different cells.
-/

namespace Astryx.Ext2

open PointerForest

/-- The first logical block below a list of words, counted from the first one of a block of a
height. -/
def offsetIn (fanout : ℕ) : List ℕ → ℕ → ℕ
  | [], _ => 0
  | i :: is, h => i * fanout ^ (h - 1) + offsetIn fanout is (h - 1)

lemma offsetIn_lt {fanout h : ℕ} {is : List ℕ} (hpos : 0 < fanout) (hlen : is.length ≤ h)
    (hslots : ∀ i ∈ is, i < fanout) : offsetIn fanout is h < fanout ^ h := by
  induction is generalizing h with
  | nil => exact Nat.pow_pos hpos
  | cons i is ih =>
    obtain ⟨h, rfl⟩ : ∃ k, h = k + 1 := Nat.exists_eq_add_one_of_ne_zero (Nat.ne_zero_of_lt hlen)
    have hi := hslots i List.mem_cons_self
    have hrest := ih (Nat.le_of_succ_le_succ hlen) fun j hj => hslots j (by simp [hj])
    calc offsetIn fanout (i :: is) (h + 1) < i * fanout ^ h + fanout ^ h :=
      Nat.add_lt_add_left hrest _
      _ = (i + 1) * fanout ^ h := by rw [add_mul, one_mul]
      _ ≤ fanout * fanout ^ h := Nat.mul_le_mul_right _ hi
      _ = fanout ^ (h + 1) := by rw [pow_succ, mul_comm]

namespace Geometry

variable {l : Geometry}

/-- The first file block under a cell. -/
def firstBlock (l : Geometry) (slot : ℕ) (is : List ℕ) : ℕ :=
  l.slotStart slot + offsetIn l.ptrsPerBlock is (slotHeight slot)

lemma blockSize_eq_ptrs : l.blockSize = 4 * l.ptrsPerBlock := by
  rw [ptrsPerBlock, l.blockSize_eq]
  omega

lemma le_ptrsPerBlock : 256 ≤ l.ptrsPerBlock := by
  have hpow : 1 ≤ 2 ^ l.logBlockSize := Nat.one_le_two_pow
  rw [ptrsPerBlock, l.blockSize_eq]
  omega

lemma ptrsPerBlock_pos : 0 < l.ptrsPerBlock := lt_of_lt_of_le (by decide) le_ptrsPerBlock

lemma blockSize_pos : 0 < l.blockSize := by
  have hpos : 0 < l.ptrsPerBlock := ptrsPerBlock_pos
  rw [blockSize_eq_ptrs]
  omega

lemma div_blockSize_lt {pos : ℕ} (hpos : pos < 2 ^ 32) :
    pos / l.blockSize < l.slotStart 14 + l.slotSpan 14 := by
  have hge : 1024 ≤ l.blockSize := by
    have hptrs : 256 ≤ l.ptrsPerBlock := le_ptrsPerBlock
    rw [blockSize_eq_ptrs]
    omega
  calc pos / l.blockSize ≤ pos / 1024 := Nat.div_le_div_left hge (by decide)
    _ < 256 ^ 3 := by omega
    _ ≤ l.ptrsPerBlock ^ 3 := Nat.pow_le_pow_left le_ptrsPerBlock 3
    _ ≤ l.slotStart 14 + l.slotSpan 14 := Nat.le_add_left _ _

lemma blockPath_spec {idx : ℕ} (hidx : idx < l.slotStart 14 + l.slotSpan 14) (n : ℕ) :
    (l.blockPath idx).1 < 15 ∧ l.IsCell (n, (l.blockPath idx).1) (l.blockPath idx).2 ∧
      (l.blockPath idx).2.length = slotHeight (l.blockPath idx).1 ∧
      l.firstBlock (l.blockPath idx).1 (l.blockPath idx).2 = idx := by
  have hptrs : 0 < l.ptrsPerBlock := ptrsPerBlock_pos
  have hcell : ∀ slot is, is.length = slotHeight slot → (∀ i ∈ is, i < l.ptrsPerBlock) →
      l.IsCell (n, slot) is :=
    fun slot is hlen hslots => ⟨hlen.le, hslots⟩
  rw [blockPath]
  dsimp only
  split
  next h =>
    have hzero : slotHeight idx = 0 := by
      rw [slotHeight]
      omega
    refine ⟨lt_trans h (by decide), hcell idx [] hzero.symm (by simp), hzero.symm, ?_⟩
    rw [firstBlock, slotStart, if_pos h.le]
    rfl
  split
  next h1 h2 =>
    refine ⟨by norm_num only, hcell 12 [idx - 12] rfl (by simpa using h2), rfl, ?_⟩
    rw [firstBlock, slotStart, if_pos (Nat.le_refl 12)]
    simp only [offsetIn, slotHeight, Nat.reduceSub, pow_zero, mul_one, add_zero]
    omega
  split
  next h1 h2 h3 =>
    have hdiv := Nat.div_lt_of_lt_mul h3
    generalize hx : idx - 12 - l.ptrsPerBlock = x at hdiv
    refine ⟨by norm_num only, hcell 13 [_, _] rfl (by simp [hdiv, Nat.mod_lt _ hptrs]), rfl, ?_⟩
    have hsum := Nat.div_add_mod' x l.ptrsPerBlock
    rw [firstBlock, slotStart, if_neg (by norm_num only), if_pos rfl]
    simp only [offsetIn, slotHeight, Nat.reduceSub, pow_one, pow_zero, mul_one, add_zero]
    omega
  next h1 h2 h3 =>
    generalize hx : idx - 12 - l.ptrsPerBlock - l.ptrsPerBlock * l.ptrsPerBlock = x
    have hlt : x < l.ptrsPerBlock * l.ptrsPerBlock * l.ptrsPerBlock := by
      have hspan : l.slotSpan 14 = l.ptrsPerBlock * l.ptrsPerBlock * l.ptrsPerBlock := by
        rw [slotSpan, slotHeight, pow_succ, pow_two]
      have hstart : l.slotStart 14 = 12 + l.ptrsPerBlock + l.ptrsPerBlock * l.ptrsPerBlock := rfl
      omega
    have hdiv := Nat.div_lt_of_lt_mul hlt
    have hmod : x % (l.ptrsPerBlock * l.ptrsPerBlock) < l.ptrsPerBlock * l.ptrsPerBlock :=
      Nat.mod_lt _ (Nat.mul_pos hptrs hptrs)
    have hdiv' := Nat.div_lt_of_lt_mul hmod
    refine ⟨by norm_num only,
      hcell 14 [_, _, _] rfl (by simp [hdiv, hdiv', Nat.mod_lt _ hptrs]), rfl, ?_⟩
    have hsum := Nat.div_add_mod' x (l.ptrsPerBlock * l.ptrsPerBlock)
    have hsum' := Nat.div_add_mod' (x % (l.ptrsPerBlock * l.ptrsPerBlock)) l.ptrsPerBlock
    rw [firstBlock, slotStart, if_neg (by norm_num only), if_neg (by norm_num only)]
    simp only [offsetIn, slotHeight, Nat.reduceSub, pow_two, pow_one, pow_zero, mul_one, add_zero]
    omega

lemma blockPath_inj {idx idx' : ℕ} (hidx : idx < l.slotStart 14 + l.slotSpan 14)
    (hidx' : idx' < l.slotStart 14 + l.slotSpan 14) (heq : l.blockPath idx = l.blockPath idx') :
    idx = idx' := by
  obtain ⟨-, -, -, hfirst⟩ := blockPath_spec hidx 0
  obtain ⟨-, -, -, hfirst'⟩ := blockPath_spec hidx' 0
  rw [heq] at hfirst
  omega

end Geometry

end Astryx.Ext2
