import Astryx.Kernel.Translation
import Astryx.Lib.Rows

/-!
# Counting the leaves of a page table

`walk_resident_pages` descends the user half of a table, `PML4[0..256]`, and adds up the present
leaves. A leaf that maps an address below 4 GiB to the same physical address belongs to the kernel's
identity map and is passed over. `clone_for_fork` adds up leaves on the same walk by another rule,
so the walk is written once, for any weight of a leaf.

The helpers of `mm/vmm.rs` edit one leaf at a time. `storeLeaf_walk` says by how much the count
moves when one is rewritten, and `walkCreate_walk` that the tables created on the way hold nothing.
-/

namespace Astryx

open Function Finset

/-- The end of the identity map. -/
def identityWindowTop : ℕ := 0x100000000

/-- The leaf is one of the identity map. -/
def isIdentityMapPhys (va phys : ℕ) : Bool := va < identityWindowTop ∧ phys = va

/-- How much a 4 KiB leaf and a 2 MiB leaf count, by their address and entry. -/
structure LeafWeight where
  leaf : ℕ → ℕ → ℕ
  huge : ℕ → ℕ → ℕ

namespace LeafWeight

variable (w : LeafWeight)

/-- The weight of a lowest table. -/
def pt (va : ℕ) (pt : ℕ → ℕ) : ℕ := ∑ l ∈ range 512, w.leaf (va + l * 2 ^ 12) (pt l)

/-- The weight of an entry of the third level. -/
def pd (va : ℕ) : PdEntry → ℕ
  | .absent => 0
  | .huge pte => w.huge va pte
  | .table _ t => w.pt va t

/-- The weight of an entry of the second level. -/
def pdpt (va : ℕ) : PdptEntry → ℕ
  | .absent => 0
  | .table _ t => ∑ k ∈ range 512, w.pd (va + k * 2 ^ 21) (t k)

/-- The weight of an entry of the top level. -/
def pml4 (va : ℕ) : Pml4Entry → ℕ
  | .absent => 0
  | .table _ t => ∑ j ∈ range 512, w.pdpt (va + j * 2 ^ 30) (t j)

/-- The weight of the user half. -/
def walk (root : Root) : ℕ := ∑ i ∈ range 256, w.pml4 (i * 2 ^ 39) (root i)

end LeafWeight

/-- What `walk_resident_pages` counts. -/
def residentWeight : LeafWeight where
  leaf va pte := if isPresent pte ∧ ¬ isIdentityMapPhys va (pte &&& addrMask) then 1 else 0
  huge va pte := if isIdentityMapPhys va (pte &&& hugeMask) then 0 else 512

/-- The pages that a walk of the user half counts. -/
def walkResidentPages (root : Root) : ℕ := residentWeight.walk root

/-- The page an address is in. -/
def pageOf (va : ℕ) : ℕ := va / 4096 * 4096

/-- The address of the 2 MiB region of a user address, as the walk composes it. -/
def pdBase (va : ℕ) : ℕ := pml4Idx va * 2 ^ 39 + pdptIdx va * 2 ^ 30 + pdIdx va * 2 ^ 21

lemma pdBase_add {va : ℕ} (h : va < 2 ^ 47) : pdBase va + ptIdx va * 2 ^ 12 = pageOf va := by
  rw [pdBase, pml4Idx, pdptIdx, pdIdx, ptIdx, pageOf]
  omega

namespace Machine

variable {u : Bool} {m m' : Machine} {va : ℕ} {pt : ℕ → ℕ} (w : LeafWeight)

/-! ## Rewriting an entry -/

lemma walk_eq (m : Machine) :
    w.walk m.root = ∑ n ∈ range (256 * 512 * 512), w.pd (n * 2 ^ 21) (m.pdAt (n * 2 ^ 21)) := by
  rw [Rows.sum_mul, Rows.sum_mul]
  refine sum_congr rfl fun i hi => ?_
  have hi := mem_range.mp hi
  have hpath : ∀ j < 512, ∀ k < 512, pml4Idx (((i * 512 + j) * 512 + k) * 2 ^ 21) = i ∧
      pdptIdx (((i * 512 + j) * 512 + k) * 2 ^ 21) = j ∧
        pdIdx (((i * 512 + j) * 512 + k) * 2 ^ 21) = k := by
    intro j hj k hk
    simp only [pml4Idx, pdptIdx, pdIdx]
    omega
  cases hroot : m.root i with
  | absent =>
    refine (sum_eq_zero fun j hj => sum_eq_zero fun k hk => ?_).symm
    rw [pdAt, (hpath j (mem_range.mp hj) k (mem_range.mp hk)).1, hroot]
    rfl
  | table u pdpt =>
    refine sum_congr rfl fun j hj => ?_
    cases hpdpt : pdpt j with
    | absent =>
      refine (sum_eq_zero fun k hk => ?_).symm
      obtain ⟨h1, h2, -⟩ := hpath j (mem_range.mp hj) k (mem_range.mp hk)
      have hat : m.pdAt (((i * 512 + j) * 512 + k) * 2 ^ 21) = .absent := by
        simp only [pdAt, h1, hroot, h2, hpdpt]
      rw [hat]
      rfl
    | table u' pd =>
      refine sum_congr rfl fun k hk => ?_
      obtain ⟨h1, h2, h3⟩ := hpath j (mem_range.mp hj) k (mem_range.mp hk)
      have hat : m.pdAt (((i * 512 + j) * 512 + k) * 2 ^ 21) = pd k := by
        simp only [pdAt, h1, hroot, h2, hpdpt, h3]
      rw [hat]
      exact congrArg (w.pd · (pd k)) (by omega)

section

variable (hva : va < 2 ^ 47)

include hva

lemma pdBase_eq : pdBase va = dirOf va * 2 ^ 21 := by
  simp only [pdBase, dirOf, pml4Idx, pdptIdx, pdIdx]
  omega

lemma dirOf_lt : dirOf va < 256 * 512 * 512 := by
  rw [dirOf]
  omega

omit hva in
lemma pdAt_dirOf (m : Machine) (va : ℕ) : m.pdAt (dirOf va * 2 ^ 21) = m.pdAt va := by
  refine pdAt_of_dirOf ?_
  simp only [dirOf]
  omega

lemma setPd_walk {e : PdEntry}
    (hset : ∀ va', m'.pdAt va' = if dirOf va' = dirOf va then e else m.pdAt va') :
    w.walk m'.root + w.pd (pdBase va) (m.pdAt va) = w.walk m.root + w.pd (pdBase va) e := by
  have hrow := Rows.sum_update (fun n => w.pd (n * 2 ^ 21)) (fun n => m.pdAt (n * 2 ^ 21))
    (dirOf_lt hva) e
  have hnew : ∑ n ∈ range (256 * 512 * 512), w.pd (n * 2 ^ 21) (m'.pdAt (n * 2 ^ 21)) =
      ∑ n ∈ range (256 * 512 * 512), w.pd (n * 2 ^ 21)
        (update (fun n => m.pdAt (n * 2 ^ 21)) (dirOf va) e n) := by
    refine sum_congr rfl fun n hn => ?_
    have hn := mem_range.mp hn
    have hdir : dirOf (n * 2 ^ 21) = n := by
      rw [dirOf]
      omega
    rw [hset, hdir, update_apply]
  rw [walk_eq, walk_eq, pdBase_eq hva, hnew, ← pdAt_dirOf m va]
  exact hrow

/-- What the directory entry on a walk weighs is part of the whole. -/
lemma pd_le_walk : w.pd (pdBase va) (m.pdAt va) ≤ w.walk m.root := by
  rw [walk_eq, pdBase_eq hva, ← pdAt_dirOf m va]
  exact single_le_sum (f := fun n => w.pd (n * 2 ^ 21) (m.pdAt (n * 2 ^ 21)))
    (fun _ _ => Nat.zero_le _)
    (mem_range.mpr (dirOf_lt hva))

theorem storeLeaf_walk (htable : m.pdAt va = .table u pt) (pte : ℕ) :
    w.walk (m.storeLeaf va pte).root + w.leaf (pageOf va) (m.readPte va) = w.walk m.root +
      w.leaf (pageOf va) pte := by
  have hset := setPd_walk w hva (storeLeaf_spec htable pte).2
  have hrow := Rows.sum_update (fun l => w.leaf (pdBase va + l * 2 ^ 12)) pt
    (Nat.mod_lt (va / 2 ^ 12) (by decide : 0 < 512)) pte
  have hread : m.readPte va = pt (ptIdx va) := by rw [readPte, htable]
  rw [hread, ← pdBase_add hva]
  rw [htable] at hset
  simp only [LeafWeight.pd, LeafWeight.pt] at hset
  simp only [ptIdx] at *
  omega

end

lemma pdAt_storeLeaf (htable : m.pdAt va = .table u pt) (pte : ℕ) :
    (m.storeLeaf va pte).pdAt va = .table u (update pt (ptIdx va) pte) := by
  simp [(storeLeaf_spec htable pte).2]

lemma readPte_storeLeaf (htable : m.pdAt va = .table u pt) (pte : ℕ) :
    (m.storeLeaf va pte).readPte va = pte := by
  rw [readPte, pdAt_storeLeaf htable]
  exact update_self ..

lemma readPte_storeLeaf_of_ne {va' : ℕ} (hva : va < 2 ^ 47) (hva' : va' < 2 ^ 47)
    (hne : pageOf va' ≠ pageOf va) (pte : ℕ) :
    (m.storeLeaf va pte).readPte va' = m.readPte va' := by
  cases htable : m.pdAt va with
  | table u pt =>
    rw [readPte, (storeLeaf_spec htable pte).2, readPte]
    by_cases hdir : dirOf va' = dirOf va
    · have hidx : ptIdx va' ≠ ptIdx va := by
        simp only [dirOf, pageOf, ptIdx] at *
        omega
      rw [if_pos hdir, pdAt_of_dirOf hdir, htable]
      exact update_of_ne hidx ..
    · rw [if_neg hdir]
  | absent => rw [storeLeaf, htable]
  | huge => rw [storeLeaf, htable]; rfl

/-! ## Creating the tables on the way -/

/-- A helper that created tables: the count is the same, the entry of `va` reads the same. -/
structure Created (va : ℕ) (m m' : Machine) : Prop where
  walk : ∀ w : LeafWeight, (∀ va, w.leaf va 0 = 0) → w.walk m'.root = w.walk m.root
  read : m'.readPte va = m.readPte va
  count : m'.count = m.count

/-- The three calls of `get_or_create_entry`: nothing is counted that was not, and if they succeed
there is a page table on the walk. -/
lemma walkCreate_created (hva : va < 2 ^ 47) (user : Bool) (hnot : ∀ pte, m.pdAt va ≠ .huge pte) :
    Created va m (m.walkCreate va user).1 ∧
      ((m.walkCreate va user).2 → ∃ v pt, (m.walkCreate va user).1.pdAt va = .table v pt) := by
  rcases heq : m.walkCreate va user with ⟨m', _ | _⟩
  · obtain ⟨hcount, hsame⟩ : _ ∧ m'.pdAt = m.pdAt := walkCreate_spec heq
    refine ⟨⟨fun w _ => ?_, by rw [readPte, hsame, readPte], hcount⟩, nofun⟩
    rw [walk_eq, hsame, ← walk_eq]
  obtain ⟨hcount, v, hopen⟩ := walkCreate_spec heq
  have hat : m'.pdAt va = .table v (m.pdAt va).leaves := (hopen va).trans (if_pos rfl)
  refine ⟨⟨fun w hw => ?_, ?_, hcount⟩, fun _ => ⟨v, _, hat⟩⟩
  · have hweight : w.pd (pdBase va) (.table v (m.pdAt va).leaves) = w.pd (pdBase va)
        (m.pdAt va) := by
      cases hpd : m.pdAt va with
      | absent =>
        show w.pt (pdBase va) (fun _ => 0) = 0
        exact sum_eq_zero fun _ _ => hw _
      | huge pte => exact absurd hpd (hnot pte)
      | table u pt => rfl
    have hwalk := setPd_walk w hva hopen
    rw [hweight] at hwalk
    exact add_right_cancel hwalk
  rw [readPte, hat, readPte]
  cases hpd : m.pdAt va with
  | absent => rfl
  | huge pte => exact absurd hpd (hnot pte)
  | table u pt => rfl

end Machine

end Astryx
