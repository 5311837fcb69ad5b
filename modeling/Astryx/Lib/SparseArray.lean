import Astryx.Lib.Bytes

/-!
# Sparse arrays of bytes

What a regular file is for: an array of bytes with a length, that is zero wherever nothing was
written. It is written and cut or extended at any place, and read up to its length.
-/

/-- An array that is 0 past its end. -/
structure SparseArray where
  length : ℕ
  byte : ℕ → UInt8
  zero_past : ∀ k, length ≤ k → byte k = 0

namespace SparseArray

/-- Writing past the end extends the array, with zeros up to what is written. Writing nothing
changes nothing. -/
def write (a : SparseArray) (off : ℕ) (data : List UInt8) : SparseArray where
  length := if data = [] then a.length else max a.length (off + data.length)
  byte := Bytes.overwrite a.byte off data
  zero_past k hk := by
    have hlong : a.length ≤ k ∧ ¬ (off ≤ k ∧ k < off + data.length) := by
      split at hk
      next hnil =>
        rw [hnil, List.length_nil]
        omega
      · omega
    rw [Bytes.overwrite, if_neg hlong.2]
    exact a.zero_past k hlong.1

/-- A new length. -/
def truncate (a : SparseArray) (size : ℕ) : SparseArray where
  length := size
  byte k := if k < size then a.byte k else 0
  zero_past _ hk := if_neg (Nat.not_lt.mpr hk)

/-- Bytes up to the end. -/
def read (a : SparseArray) (off len : ℕ) : List UInt8 :=
  Bytes.slice a.byte off (min len (a.length - off))

end SparseArray
