import Mathlib

/-!
# Bits and words in an array of bytes

An array of bytes is a function from offsets. Bit `i` of it is bit `i % 8` of byte `i / 8`, counted
from the least significant one; setting and clearing a bit rewrites that byte with `|` and `& !`.
Word `i` is the 32-bit number in the bytes from `4 * i` on, least significant byte first.
-/

namespace Bytes

open Function

/-- The byte with one bit. -/
def mask (k : ℕ) : UInt8 := 1 <<< UInt8.ofNat k

variable (b : ℕ → UInt8)

/-- A bit of a bitmap. -/
def bit (i : ℕ) : Bool := (b (i / 8)).toBitVec.getLsbD (i % 8)

/-- A bit is set. -/
def setBit (i : ℕ) : ℕ → UInt8 := update b (i / 8) (b (i / 8) ||| mask (i % 8))

/-- A bit is cleared. -/
def clearBit (i : ℕ) : ℕ → UInt8 :=
  update b (i / 8) (b (i / 8) &&& ~~~ mask (i % 8))

lemma getLsbD_mask : ∀ k < 8, ∀ m < 8, (mask k).toBitVec.getLsbD m = decide (m = k) := by decide

lemma getLsbD_not_mask : ∀ k < 8, ∀ m < 8, (~~~ mask k).toBitVec.getLsbD m = !decide (m = k) := by
  decide

/-- Two bits of one byte are the same bit or differ in their place. -/
lemma eq_iff_of_div_eq {i j : ℕ} (h : j / 8 = i / 8) : j % 8 = i % 8 ↔ j = i := by omega

@[simp] lemma bit_setBit (i j : ℕ) : bit (setBit b i) j = (decide (j = i) || bit b j) := by
  rw [bit, setBit]
  by_cases h : j / 8 = i / 8
  · rw [h, update_self, UInt8.toBitVec_or, BitVec.getLsbD_or,
      getLsbD_mask _ (Nat.mod_lt _ (by decide)) _ (Nat.mod_lt _ (by decide)),
        decide_eq_decide.mpr (eq_iff_of_div_eq h),
      Bool.or_comm, bit, h]
  · have hne : j ≠ i := fun heq => h (heq ▸ rfl)
    simp [h, hne, bit]

@[simp] lemma bit_clearBit (i j : ℕ) : bit (clearBit b i) j = (!decide (j = i) && bit b j) := by
  rw [bit, clearBit]
  by_cases h : j / 8 = i / 8
  · rw [h, update_self, UInt8.toBitVec_and, BitVec.getLsbD_and,
      getLsbD_not_mask _ (Nat.mod_lt _ (by decide)) _ (Nat.mod_lt _ (by decide)),
      decide_eq_decide.mpr (eq_iff_of_div_eq h), Bool.and_comm, bit, h]
  · have hne : j ≠ i := fun heq => h (heq ▸ rfl)
    simp [h, hne, bit]

/-! ## Words -/

/-- `u32::from_le_bytes` of four bytes. -/
def word (i : ℕ) : ℕ :=
  (b (4 * i)).toNat + 256 *
    ((b (4 * i + 1)).toNat + 256 * ((b (4 * i + 2)).toNat + 256 * (b (4 * i + 3)).toNat))

/-- Four bytes are overwritten with `to_le_bytes`. -/
def setWord (i v : ℕ) : ℕ → UInt8 :=
  fun k => if k / 4 = i then UInt8.ofNat (v / 256 ^ (k % 4)) else b k

lemma word_setWord {v : ℕ} (hv : v < 2 ^ 32) (i j : ℕ) :
    word (setWord b i v) j = if j = i then v else word b j := by
  have hbyte : ∀ k < 4, (setWord b i v (4 * j + k)).toNat =
      if j = i then v / 256 ^ k % 256 else (b (4 * j + k)).toNat := by
    intro k hk
    have hdiv : (4 * j + k) / 4 = j := by omega
    have hmod : (4 * j + k) % 4 = k := by omega
    rw [setWord, hdiv, hmod]
    split
    · exact UInt8.toNat_ofNat'
    · rfl
  have h0 := hbyte 0 (by decide)
  rw [add_zero] at h0
  rw [word, h0, hbyte 1 (by decide), hbyte 2 (by decide), hbyte 3 (by decide)]
  split
  · norm_num only
    omega
  · rfl

/-! ## Ranges -/

/-- Bytes are replaced from an offset on. -/
def overwrite (off : ℕ) (data : List UInt8) : ℕ → UInt8 := fun k =>
  if off ≤ k ∧ k < off + data.length then data.getD (k - off) 0 else b k

/-- Bytes from an offset on. -/
def slice (off n : ℕ) : List UInt8 := (List.range n).map fun k => b (off + k)

@[simp] lemma length_slice (off n : ℕ) : (slice b off n).length = n := by
  simp [slice]

lemma slice_add (off m n : ℕ) : slice b off (m + n) = slice b off m ++ slice b (off + m) n := by
  rw [slice, List.range_add, List.map_append, List.map_map]
  congr 1
  refine List.map_congr_left fun k _ => ?_
  rw [comp_apply, add_assoc]

variable {b}

lemma slice_congr {b' : ℕ → UInt8} {off off' n : ℕ} (h : ∀ k < n, b (off + k) = b' (off' + k)) :
    slice b off n = slice b' off' n :=
  List.map_congr_left fun k hk => h k (List.mem_range.mp hk)

lemma slice_eq_iff {b' : ℕ → UInt8} {off n : ℕ} :
    slice b off n = slice b' off n ↔ ∀ p, off ≤ p → p < off + n → b p = b' p := by
  simp only [slice, List.map_inj_left, List.mem_range]
  constructor
  · intro h p hp hlt
    have hk := h (p - off) (by omega)
    rwa [Nat.add_sub_cancel' hp] at hk
  · exact fun h k hk => h (off + k) (by omega) (by omega)

end Bytes
