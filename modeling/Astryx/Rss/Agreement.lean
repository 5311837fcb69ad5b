import Astryx.Rss.Counter

/-!
# The counter and the walk

A counter follows its page table as long as every write is judged by the rule the walk goes by.
There are three ways in which it is not. A present leaf that is overwritten by a present leaf is not
judged at all, so a leaf that enters or leaves the identity map that way is missed (`map_page_in`,
`write_pte`, both copy-on-write installs). A write at an address inside a page is judged by that
address, the walk judges by the page. A fork off a user address space counts the identity leaves
too. (A child that finds the 256 slots taken is not attached: it has no counter to drift.)

`RssOk` rules out just these, step by step.

## Main results

* `rssRun_agrees` — under `RssOk` every counter equals the walk
* `overwrite_drifts` — mapping a page of the identity map over another page
-/

namespace Astryx

open Transition Function List Option RssSystem ForkWalk RssTable Machine

/-! ## The slot table -/

namespace RssTable

variable {t : RssTable} {cr3 cr3' idx : ℕ}

/-- The address space has a counter, which stands at `n`. -/
def Tracked (t : RssTable) (cr3 : ℕ) (n : ℤ) : Prop :=
  ∃ idx, t.find cr3 = some idx ∧ idx < rssSlots ∧ t.pages.getD idx 0 = n

lemma mem_probes (h : idx ∈ probes cr3) : idx < rssSlots := by
  obtain ⟨-, -, rfl⟩ := mem_map.mp h
  exact Nat.mod_lt _ (by decide)

variable {keys l : List ℕ} {n : ℤ}

lemma getD_set_self {α : Type} {l : List α} (h : idx < l.length) (x d : α) :
    (l.set idx x).getD idx d = x := by
  simp [h]

lemma getD_set_of_ne {α : Type} {l : List α} {j : ℕ} (h : j ≠ idx) (x d : α) :
    (l.set j x).getD idx d = l.getD idx d := by
  rw [getD_eq_getElem?_getD, List.getElem?_set_ne h, ← getD_eq_getElem?_getD]

lemma findIn_spec (h : findIn keys cr3 l = some idx) : idx ∈ l ∧ keys.getD idx 0 = cr3 := by
  induction l with
  | nil => cases h
  | cons x l ih =>
    obtain ⟨-, h⟩ := Option.ite_none_left_eq_some.mp h
    split at h
    next hkey =>
      cases h
      exact ⟨mem_cons_self, hkey⟩
    · obtain ⟨hmem, hkey⟩ := ih h
      exact ⟨mem_cons_of_mem x hmem, hkey⟩

lemma find_key (h : t.find cr3 = some idx) : t.keys.getD idx 0 = cr3 := (findIn_spec h).2

lemma account_keys (t : RssTable) (cr3 : ℕ) (d : ℤ) : (t.account cr3 d).keys = t.keys := by
  rw [account]
  split
  · rfl
  · split <;> rfl

lemma account_length (t : RssTable) (cr3 : ℕ) (d : ℤ) :
    (t.account cr3 d).pages.length = t.pages.length := by
  rw [account]
  split
  · rfl
  split
  · exact length_set ..
  · rfl

lemma account_zero (t : RssTable) (cr3 : ℕ) : t.account cr3 0 = t := if_pos (.inr rfl)

lemma account_find (t : RssTable) (cr3 cr3' : ℕ) (d : ℤ) :
    (t.account cr3 d).find cr3' = t.find cr3' := by
  rw [find, find, account_keys]

lemma addI64_eq {a b : ℤ} (hlo : 0 ≤ a + b) (hhi : a + b < 2 ^ 63) : addI64 a b = a + b := by
  rw [addI64, Int.bmod]
  omega

lemma Tracked.account {d r : ℤ} (h : t.Tracked cr3 n) (hlen : t.pages.length = rssSlots)
    (hcr3 : cr3 ≠ 0) (hsum : addI64 n d = r) (hzero : d = 0 → n = r) :
    (t.account cr3 d).Tracked cr3 r := by
  obtain ⟨idx, hfind, hidx, rfl⟩ := h
  refine ⟨idx, (account_find ..).trans hfind, hidx, ?_⟩
  by_cases hd : d = 0
  · rw [hd, account_zero, hzero hd]
  rw [RssTable.account, if_neg (not_or.mpr ⟨hcr3, hd⟩), hfind]
  exact (getD_set_self (hlen ▸ hidx) ..).trans hsum

lemma Tracked.account_of_ne {d : ℤ} (h : t.Tracked cr3' n) (hne : cr3' ≠ cr3) :
    (t.account cr3 d).Tracked cr3' n := by
  obtain ⟨idx, hfind, hidx, hval⟩ := h
  refine ⟨idx, (account_find ..).trans hfind, hidx, ?_⟩
  rw [RssTable.account]
  split
  · exact hval
  split
  next j hj =>
    have hij : j ≠ idx := by
      intro hij
      rw [hij] at hj
      exact hne ((find_key hfind).symm.trans (find_key hj))
    exact (getD_set_of_ne hij ..).trans hval
  · exact hval

/-- A slot that a lookup does not stop at changes hands: the lookup ends where it did. -/
lemma findIn_set {j v : ℕ} (hj : keys.getD j 0 ≠ cr3) (hv : v ≠ keyEmpty) (hne : v ≠ cr3)
    (h : findIn keys cr3 l = some idx) : findIn (keys.set j v) cr3 l = some idx := by
  induction l with
  | nil => cases h
  | cons x l ih =>
    rw [findIn] at h ⊢
    obtain ⟨hnonempty, h⟩ := Option.ite_none_left_eq_some.mp h
    by_cases hx : x = j
    · subst hx
      have hlt : x < keys.length := by
        by_contra hout
        rw [getD_eq_default _ _ (not_lt.mp hout)] at hnonempty
        exact hnonempty rfl
      rw [if_neg hj] at h
      rw [getD_set_self hlt, if_neg hv, if_neg hne]
      exact ih h
    rw [getD_set_of_ne (Ne.symm hx), if_neg hnonempty]
    split at h
    next hfound =>
      rw [if_pos hfound]
      exact h
    next hother =>
      rw [if_neg hother]
      exact ih h

/-- So the counter of another address space stands. -/
lemma Tracked.set {j v : ℕ} {x : ℤ} (h : t.Tracked cr3 n) (hj : t.keys.getD j 0 ≠ cr3)
    (hv : v ≠ keyEmpty) (hne : v ≠ cr3) : Tracked ⟨t.keys.set j v, t.pages.set j x⟩ cr3 n := by
  obtain ⟨idx, hfind, hidx, hval⟩ := h
  refine ⟨idx, findIn_set hj hv hne hfind, hidx, (getD_set_of_ne ?_ ..).trans hval⟩
  rintro rfl
  exact hj (find_key hfind)

/-- The first slot that `attach` may claim is where a lookup finds the new address space. -/
lemma findIn_set_self (hcr3 : cr3 ≠ keyEmpty) (hlen : ∀ x ∈ l, x < keys.length)
    (hnone : findIn keys cr3 l = none)
    (h : l.find? (fun i => keys.getD i 0 = keyEmpty ∨ keys.getD i 0 = keyTombstone) = some idx) :
    findIn (keys.set idx cr3) cr3 l = some idx := by
  induction l with
  | nil => cases h
  | cons x l ih =>
    rw [List.find?_cons] at h
    rw [findIn] at hnone ⊢
    split at h
    · have hx : x = idx := some.inj h
      subst hx
      rw [getD_set_self (hlen x mem_cons_self), if_neg hcr3, if_pos rfl]
    next htaken =>
      have hx : ¬ keys.getD x 0 = keyEmpty ∧ ¬ keys.getD x 0 = keyTombstone := by
        simpa using htaken
      rw [if_neg hx.1] at hnone
      split at hnone
      · cases hnone
      next hother =>
        have hne : idx ≠ x := by
          intro heq
          have hfree := List.find?_some h
          rw [heq] at hfree
          simp only [decide_eq_true_eq] at hfree
          exact hfree.elim hx.1 hx.2
        rw [getD_set_of_ne hne, if_neg hx.1, if_neg hother]
        exact ih (fun y hy => hlen y (by simp [hy])) hnone h

lemma attach_spec (hfresh : t.find cr3 = none) (hattach : (t.attach cr3).1) :
    cr3 ≠ 0 ∧ ∃ idx ∈ probes cr3,
      (t.keys.getD idx 0 = keyEmpty ∨ t.keys.getD idx 0 = keyTombstone) ∧
      (probes cr3).find?
        (fun i => t.keys.getD i 0 = keyEmpty ∨ t.keys.getD i 0 = keyTombstone) = some idx ∧
      (t.attach cr3).2 = { keys := t.keys.set idx cr3, pages := t.pages.set idx 0 } := by
  have hcr3 : cr3 ≠ 0 := by
    intro hzero
    rw [attach, if_pos hzero] at hattach
    cases hattach
  refine ⟨hcr3, ?_⟩
  rw [attach, if_neg hcr3, hfresh] at hattach ⊢
  simp only [isSome_none, Bool.false_eq_true, if_false] at hattach ⊢
  split at hattach
  next idx hfound =>
    have hfree := List.find?_some hfound
    simp only [decide_eq_true_eq] at hfree
    exact ⟨idx, mem_of_find?_eq_some hfound, hfree, hfound, rfl⟩
  · cases hattach

lemma attach_tracked (hfresh : t.find cr3 = none) (hattach : (t.attach cr3).1)
    (hkeys : t.keys.length = rssSlots) (hpages : t.pages.length = rssSlots) :
    (t.attach cr3).2.Tracked cr3 0 := by
  obtain ⟨hcr3, idx, hmem, -, hfound, heq⟩ := attach_spec hfresh hattach
  have hidx := mem_probes hmem
  rw [heq]
  exact ⟨idx, findIn_set_self hcr3 (fun x hx => hkeys ▸ mem_probes hx) hfresh hfound, hidx,
    getD_set_self (hpages ▸ hidx) ..⟩

lemma attach_fails (h : ¬ (t.attach cr3).1) : (t.attach cr3).2 = t := by
  rw [attach] at h ⊢
  split at h
  next hzero => rw [if_pos hzero]
  next hzero =>
    rw [if_neg hzero]
    split at h
    · exact absurd rfl h
    next hfind =>
      rw [if_neg hfind]
      split
      next idx hfree =>
        rw [hfree] at h
        exact absurd rfl h
      · rfl

lemma attach_length (hfresh : t.find cr3 = none) (hattach : (t.attach cr3).1) :
    (t.attach cr3).2.keys.length = t.keys.length ∧
    (t.attach cr3).2.pages.length = t.pages.length := by
  obtain ⟨-, idx, -, -, -, heq⟩ := attach_spec hfresh hattach
  rw [heq]
  exact ⟨length_set .., length_set ..⟩

end RssTable

/-! ## Weights -/

/-- The weight of the 2 MiB leaves. -/
def hugeWeight : LeafWeight where
  leaf _ _ := 0
  huge _ _ := 1

/-- What a fork off a user address space counts and the walk does not. -/
def identityWeight : LeafWeight where
  leaf va pte := if isPresent pte ∧ isIdentityMapPhys va (pte &&& addrMask) then 1 else 0
  huge va pte := if isIdentityMapPhys va (pte &&& hugeMask) then 512 else 0

namespace LeafWeight

variable (w w' : LeafWeight)

lemma walk_add (m : Machine) :
    w.walk m.root + w'.walk m.root
      = walk ⟨fun va pte => w.leaf va pte + w'.leaf va pte, fun va pte =>
        w.huge va pte + w'.huge va pte⟩ m.root := by
  rw [walk_eq, walk_eq, walk_eq, ← Finset.sum_add_distrib]
  refine Finset.sum_congr rfl fun n _ => ?_
  cases m.pdAt (n * 2 ^ 21) with
  | absent => rfl
  | huge pte => rfl
  | table u t => simp only [pd, pt, ← Finset.sum_add_distrib]

lemma walk_mapLeaves {leaf huge : ℕ → ℕ → ℕ}
    (hleaf : ∀ va pte, w.leaf va (leaf va pte) = w.leaf va pte)
    (hhuge : ∀ va pte, w.huge va (huge va pte) = w.huge va pte) (root : Root) :
    w.walk (mapLeaves leaf huge root) = w.walk root := by
  refine Finset.sum_congr rfl fun i hi => ?_
  rw [mapLeaves, if_neg (not_le.mpr (Finset.mem_range.mp hi))]
  cases root i with
  | absent => rfl
  | table u pdpt' =>
    refine Finset.sum_congr rfl fun j _ => ?_
    dsimp only
    cases pdpt' j with
    | absent => rfl
    | table u' pd' =>
      refine Finset.sum_congr rfl fun k _ => ?_
      dsimp only
      cases pd' k with
      | absent => rfl
      | huge pte => exact hhuge _ pte
      | table u'' pt' => simp only [pd, pt, hleaf]

lemma walk_le (hleaf : ∀ va pte, w.leaf va pte ≤ 1) (hhuge : ∀ va pte, w.huge va pte ≤ 512)
    (m : Machine) : w.walk m.root ≤ 256 * 512 * 512 * 512 := by
  rw [walk_eq]
  refine Rows.sum_le _ fun n => ?_
  cases m.pdAt (n * 2 ^ 21) with
  | absent => exact Nat.zero_le _
  | huge pte => exact hhuge _ pte
  | table u t =>
    exact Rows.sum_le (fun l => w.leaf (n * 2 ^ 21 + l * 2 ^ 12) (t l)) fun _ => hleaf _ _

lemma walk_eq_zero {root : Root} (h : userHalfEmpty root) : w.walk root = 0 := by
  refine Finset.sum_eq_zero fun i hi => ?_
  have hempty := all_eq_true.mp h i (mem_range.mpr (Finset.mem_range.mp hi))
  cases hroot : root i with
  | absent => rfl
  | table u pdpt =>
    rw [hroot] at hempty
    cases hempty

end LeafWeight

lemma walkResidentPages_lt (root : Root) : (walkResidentPages root : ℤ) < 2 ^ 36 := by
  have hle : walkResidentPages root ≤ 256 * 512 * 512 * 512 := by
    refine LeafWeight.walk_le _ (fun va pte => ?_) (fun va pte => ?_)
      ((RssSystem.boot 0 fun _ => 0).machine root 0)
    · show (if _ then 1 else 0) ≤ 1
      split <;> decide
    · show (if _ then 0 else 512) ≤ 512
      split <;> decide
  omega

/-! ## A write, judged -/

/-- The write of `newPte` over `oldPte` at `va` is judged as the walk judges the two leaves: a
present leaf replaced by a present one does not enter or leave the identity map; a leaf that appears
or disappears is of the identity map at `va` exactly if it is at the page of `va`. -/
def Judged (va oldPte newPte : ℕ) : Prop :=
  if isPresent oldPte = isPresent newPte then
    isPresent newPte = true →
      isIdentityMapPhys (pageOf va) (oldPte &&& addrMask) = isIdentityMapPhys (pageOf va)
        (newPte &&& addrMask)
  else if isPresent newPte then
    isIdentityMapPhys va (newPte &&& addrMask) = isIdentityMapPhys (pageOf va) (newPte &&& addrMask)
  else isIdentityMapPhys va (oldPte &&& addrMask) = isIdentityMapPhys (pageOf va)
    (oldPte &&& addrMask)

instance Judged.decidable (va oldPte newPte : ℕ) : Decidable (Judged va oldPte newPte) := by
  dsimp only [Judged]
  infer_instance

lemma residentWeight_leaf (va pte : ℕ) : residentWeight.leaf va pte =
    if isPresent pte ∧ ¬ isIdentityMapPhys va (pte &&& addrMask) then 1 else 0 := rfl

lemma accountLeafPte_eq {va oldPte newPte : ℕ} (hva : va < 2 ^ 47) (h : Judged va oldPte newPte) :
    (residentWeight.leaf (pageOf va) newPte : ℤ)
      = residentWeight.leaf (pageOf va) oldPte + accountLeafPte va oldPte newPte := by
  rw [Judged] at h
  rw [accountLeafPte, if_neg (not_le.mpr hva), residentWeight_leaf, residentWeight_leaf]
  cases hold : isPresent oldPte <;> cases hnew : isPresent newPte <;>
    simp only [hold, hnew, if_true, if_false, Bool.true_eq_false, Bool.false_eq_true, true_implies,
      false_implies] at h
  · simp
  · cases hid : isIdentityMapPhys (pageOf va) (newPte &&& addrMask) <;> rw [hid] at h <;> simp [h]
  · cases hid : isIdentityMapPhys (pageOf va) (oldPte &&& addrMask) <;> rw [hid] at h <;> simp [h]
  · rw [h]
    simp

/-! ## Forks -/

lemma writeProtect_addr (pte : ℕ) : writeProtect pte &&& addrMask = pte &&& addrMask := by
  have hself : addrMask &&& addrMask = addrMask := by decide
  have hnone : (2 ^ 64 - 1 - addrMask - pageWritable) &&& addrMask = 0 := by decide
  rw [writeProtect, Nat.and_or_distrib_right, Nat.and_assoc, Nat.and_assoc, hself, hnone,
    Nat.and_zero, Nat.or_zero]

lemma isPresent_writeProtect (pte : ℕ) : isPresent (writeProtect pte) = isPresent pte := by
  have hnone : addrMask &&& pagePresent = 0 := by decide
  have hkept : (2 ^ 64 - 1 - addrMask - pageWritable) &&& pagePresent = pagePresent := by decide
  rw [isPresent, isPresent, writeProtect, Nat.and_or_distrib_right, Nat.and_assoc, Nat.and_assoc,
    hnone, hkept,
    Nat.and_zero, Nat.zero_or]

section

variable (f : ForkWalk) (va pte : ℕ)

lemma ForkWalk.hugeEntry_addr : f.hugeEntry va pte &&& hugeMask = pte &&& hugeMask := by
  have hself : hugeMask &&& hugeMask = hugeMask := by decide
  have hnone : (2 ^ 64 - 1 - addrMask - pageWritable) &&& hugeMask = 0 := by decide
  rw [hugeEntry]
  split
  · rfl
  · rw [Nat.and_or_distrib_right, Nat.and_assoc, Nat.and_assoc, hself, hnone, Nat.and_zero,
      Nat.or_zero]

lemma residentWeight_entry :
    residentWeight.leaf va (f.entry va pte) = residentWeight.leaf va pte := by
  rw [ForkWalk.entry]
  split
  · rfl
  · rw [residentWeight_leaf, residentWeight_leaf, isPresent_writeProtect, writeProtect_addr]

lemma residentWeight_hugeEntry :
    residentWeight.huge va (f.hugeEntry va pte) = residentWeight.huge va pte := by
  show (if isIdentityMapPhys va (f.hugeEntry va pte &&& hugeMask) then 0 else 512) = _
  rw [f.hugeEntry_addr]
  rfl

end

lemma parentRoot_walk (f : ForkWalk) (root : Root) :
    walkResidentPages (f.parentRoot root) = walkResidentPages root := by
  refine LeafWeight.walk_mapLeaves _ (fun va pte => ?_) (fun va pte => ?_) root
  · split
    · exact residentWeight_entry f va pte
    · rfl
  split
  · exact residentWeight_hugeEntry f va pte
  · rfl

lemma childRoot_walk (f : ForkWalk) (root : Root) :
    walkResidentPages (f.childRoot root) = walkResidentPages root := by
  refine LeafWeight.walk_mapLeaves _ (fun va pte => ?_) (residentWeight_hugeEntry f) root
  split
  · exact residentWeight_entry f va pte
  next hpte =>
    have hzero : ¬ isPresent 0 := by decide
    rw [residentWeight_leaf, residentWeight_leaf, if_neg (fun h => hzero h.1),
      if_neg (fun h => hpte h.1)]

/-- `child_resident` against the walk: on the kernel's page table they agree, elsewhere the identity
leaves are counted too. -/
lemma countedWeight_walk (onKernelCr3 : Bool) (root : Root) :
    (countedWeight onKernelCr3).walk root = walkResidentPages root +
      if onKernelCr3 then 0 else identityWeight.walk root := by
  cases onKernelCr3 with
  | true =>
    rw [if_pos rfl, add_zero, walkResidentPages]
    congr 1
    simp [countedWeight, residentWeight]
  | false =>
    refine Eq.trans ?_
      (LeafWeight.walk_add residentWeight identityWeight
        ((RssSystem.boot 0 fun _ => 0).machine root 0)).symm
    congr 1
    simp only [countedWeight, residentWeight, identityWeight, Bool.false_eq_true, false_and,
      not_false_eq_true, and_true,
      if_false]
    congr 1
    · funext va pte
      cases isPresent pte <;> cases isIdentityMapPhys va (pte &&& addrMask) <;> rfl
    · funext va pte
      cases isIdentityMapPhys va (pte &&& hugeMask) <;> rfl

/-! ## The invariant -/

/-- The counter of every attached address space equals the walk. Nobody ever makes a 2 MiB leaf. -/
structure RssSystem.Inv (s : RssSystem) : Prop where
  keys : s.table.keys.length = rssSlots
  pages : s.table.pages.length = rssSlots
  aligned : ∀ cr3, s.attached cr3 = true → cr3 % 4096 = 0 ∧ cr3 ≠ 0
  small : ∀ cr3 root, s.roots cr3 = some root → hugeWeight.walk root = 0
  counted : ∀ cr3 root, s.roots cr3 = some root → s.attached cr3 = true →
    s.table.Tracked cr3 (walkResidentPages root)

namespace RssSystem.Inv

variable {s : RssSystem} {cr3 : ℕ} {root root' : Root}

/-- One address space changes, and its counter by as much as the walk. -/
lemma write (h : s.Inv) (hroot : s.roots cr3 = some root) (hhuge : hugeWeight.walk root' = 0)
    {d : ℤ} (hd : (walkResidentPages root' : ℤ) = walkResidentPages root + d) (count : ℕ → ℕ) :
    Inv { s with
      roots := update s.roots cr3 (some root')
      table := s.table.account cr3 d
      count := count } := by
  refine ⟨?_, ?_, ?_, ?_, ?_⟩
  · rw [account_keys]
    exact h.keys
  · rw [account_length]
    exact h.pages
  · exact h.aligned
  · intro c r hr
    obtain ⟨-, rfl⟩ | ⟨-, hr⟩ := eq_some_of_update hr
    · exact hhuge
    · exact h.small c r hr
  intro c r hr hattached
  obtain ⟨rfl, rfl⟩ | ⟨hc, hr⟩ := eq_some_of_update hr
  · have hlt := walkResidentPages_lt r
    exact (h.counted c root hroot hattached).account h.pages (h.aligned c hattached).2
      ((addI64_eq (by omega) (by omega)).trans hd.symm) fun hzero => by omega
  · exact (h.counted c r hr hattached).account_of_ne hc

variable {m : Machine}

/-- No 2 MiB leaf, and as many leaves as there are in the address space. -/
def Walked (root : Root) (m : Machine) : Prop :=
  hugeWeight.walk m.root = 0 ∧ walkResidentPages m.root = walkResidentPages root

lemma commit (h : s.Inv) (hroot : s.roots cr3 = some root) (hm : Walked root m) :
    (s.commit cr3 m).Inv := by
  have hwrite := h.write hroot hm.1 (by rw [hm.2, Int.add_zero]) m.count
  rw [account_zero] at hwrite
  exact hwrite

lemma not_huge (hhuge : hugeWeight.walk m.root = 0) {va : ℕ} (hva : va < 2 ^ 47) (pte : ℕ) :
    m.pdAt va ≠ .huge pte := by
  intro hpd
  have hle := m.pd_le_walk hugeWeight hva
  rw [hpd, hhuge] at hle
  exact Nat.not_succ_le_zero 0 hle

lemma storeLeaf (h : s.Inv) (hroot : s.roots cr3 = some root) (hm : Walked root m) {va pte : ℕ}
    (hva : va < 2 ^ 47) (hjudged : Judged va (m.readPte va) pte) :
    (s.storeLeaf cr3 m va pte).Inv := by
  rw [RssSystem.storeLeaf]
  split
  next u pt htable =>
    have hsmall := m.storeLeaf_walk hugeWeight hva htable pte
    have hmoved := m.storeLeaf_walk residentWeight hva htable pte
    have hdelta := accountLeafPte_eq hva hjudged
    refine h.write hroot ?_ ?_ (m.storeLeaf va pte).count
    · have hnone : ∀ a x, hugeWeight.leaf a x = 0 := fun _ _ => rfl
      rw [hnone, hnone, hm.1] at hsmall
      omega
    · rw [← hm.2, walkResidentPages, walkResidentPages]
      omega
  next hother =>
    cases hpd : m.pdAt va with
    | absent =>
      have hsame : m.storeLeaf va pte = m := by rw [Machine.storeLeaf, hpd]
      rw [hsame]
      exact h.commit hroot hm
    | huge entry => exact absurd hpd (not_huge hm.1 hva entry)
    | table u pt => exact absurd hpd (hother u pt)

end RssSystem.Inv

/-! ## The condition on a step -/

namespace RssSystem

variable (s : RssSystem) (cr3 va : ℕ)

/-- The leaf of an address. -/
def readPte : ℕ :=
  match s.roots cr3 with
  | none => 0
  | some root => (s.machine root 0).readPte va

/-- The address has a lowest table. -/
def hasTable : Bool :=
  match s.roots cr3 with
  | none => false
  | some root =>
    match (s.machine root 0).pdAt va with
    | .table _ _ => true
    | _ => false

/-- The tables on the walk of the address exist or can be allocated. -/
def canWalk (flags allocs : ℕ) : Bool :=
  match s.roots cr3 with
  | none => false
  | some root => ((s.machine root allocs).walkCreate va (flags &&& pageUser ≠ 0)).2

/-- The address is mapped to the frame. -/
def maps (phys : ℕ) : Prop :=
  isPresent (s.readPte cr3 va) = true ∧ s.readPte cr3 va &&& addrMask = phys &&& addrMask

/-- The leaves of the identity map. -/
def identityLeaves : ℕ :=
  match s.roots cr3 with
  | none => 0
  | some root => identityWeight.walk root

end RssSystem

/-- What a call must meet: each leaf it writes is judged as the walk judges it, and a fork finds no
identity leaf in the parent, unless that is the kernel's own page table. -/
def RssOk (s : RssSystem) : RssOp → Prop
  | .newUser _ _ => True
  | .mapPageIn cr3 va phys flags allocs =>
    s.canWalk cr3 va flags allocs = true →
      Judged va (s.readPte cr3 va) (RssSystem.newPte phys flags)
  | .mapPageInIfAbsent cr3 va phys flags allocs =>
    s.canWalk cr3 va flags allocs = true → isPresent (s.readPte cr3 va) = false →
      Judged va (s.readPte cr3 va) (RssSystem.newPte phys flags)
  | .mapPageInCowIfUnchanged cr3 va phys flags expectedPhys allocs
  | .cowBreakIfUnchanged cr3 va phys flags expectedPhys allocs =>
    s.canWalk cr3 va flags allocs = true → s.maps cr3 va expectedPhys →
      Judged va (s.readPte cr3 va) (RssSystem.newPte phys flags)
  | .flipWritableIfSoleOwner cr3 va expectedPhys flags allocs =>
    s.canWalk cr3 va flags allocs = true → s.maps cr3 va expectedPhys →
      s.count (expectedPhys / 4096) ≤ 1 →
      Judged va (s.readPte cr3 va) (RssSystem.newPte expectedPhys flags)
  | .writePte cr3 va pte => s.hasTable cr3 va = true → Judged va (s.readPte cr3 va) pte
  | .unmapPageIn cr3 va => Judged va (s.readPte cr3 va) 0
  | .unmapAndFreeRangeIn cr3 base length =>
    ∀ va ∈ rangePages base length, Judged va (s.readPte cr3 va) 0
  | .cloneForFork cr3 _ _ => s.kernelCr3 ≠ 0 ∧ cr3 = s.kernelCr3 ∨ s.identityLeaves cr3 = 0
  | .cloneForForkFails _ _ _ => True

instance RssOk.decidable (s : RssSystem) (op : RssOp) : Decidable (RssOk s op) := by
  cases op <;> dsimp only [RssOk, RssSystem.maps] <;> infer_instance

/-! ## The steps -/

section Step

variable {s : RssSystem} {cr3 : ℕ} {root : Root} {va : ℕ} {m : Machine} {allocs phys flags pte : ℕ}

lemma canWalk_of (hroot : s.roots cr3 = some root)
    (heq : (s.machine root allocs).walkCreate va (flags &&& pageUser ≠ 0) = (m, true)) :
    s.canWalk cr3 va flags allocs := by
  rw [RssSystem.canWalk, hroot]
  dsimp only
  rw [heq]

/-- What the installing helpers start from: the tables are there, nothing else has changed. -/
lemma walked (h : s.Inv) (hroot : s.roots cr3 = some root) (hva : va < 2 ^ 47) {user : Bool}
    {ok : Bool} (heq : (s.machine root allocs).walkCreate va user = (m, ok)) :
    RssSystem.Inv.Walked root m ∧ m.count = s.count ∧ m.readPte va = s.readPte cr3 va ∧
    (ok → ∃ u pt, m.pdAt va = .table u pt) := by
  have hhuge : hugeWeight.walk (s.machine root allocs).root = 0 := h.small cr3 root hroot
  obtain ⟨hcreated, htable⟩ := walkCreate_created hva user (RssSystem.Inv.not_huge hhuge hva)
  rw [heq] at hcreated htable
  have hread : s.readPte cr3 va = (s.machine root allocs).readPte va := by
    rw [RssSystem.readPte, hroot]
    rfl
  refine ⟨⟨?_, ?_⟩, hcreated.count, hcreated.read.trans hread.symm, htable⟩
  · exact (hcreated.walk hugeWeight fun _ => rfl).trans hhuge
  · refine hcreated.walk residentWeight fun a => ?_
    rw [residentWeight_leaf, if_neg (fun hp => absurd hp.1 (by decide))]

lemma isPresent_newPte (phys flags : ℕ) : isPresent (RssSystem.newPte phys flags) := isPresent_or _

/-- A present leaf is replaced by a present one that the walk judges alike, without accounting. -/
lemma replaceLeaf_inv (h : s.Inv) (hroot : s.roots cr3 = some root)
    (hm : RssSystem.Inv.Walked root m) (hva : va < 2 ^ 47) (hold : isPresent (m.readPte va))
    (hnew : isPresent pte) (hjudged : Judged va (m.readPte va) pte) {m' : Machine}
    (hm' : ∀ w : LeafWeight, w.walk m'.root + w.leaf (pageOf va) (m.readPte va)
      = w.walk m.root + w.leaf (pageOf va) pte) : (s.commit cr3 m').Inv := by
  have hsmall := hm' hugeWeight
  have hmoved := hm' residentWeight
  have hdelta := accountLeafPte_eq hva hjudged
  have hzero : accountLeafPte va (m.readPte va) pte = 0 := by
    simp [accountLeafPte, hold.trans, hnew.symm]
  have hnone : ∀ a x, hugeWeight.leaf a x = 0 := fun _ _ => rfl
  refine h.commit hroot ⟨?_, ?_⟩
  · rw [hnone, hnone, hm.1] at hsmall
    omega
  · rw [← hm.2, walkResidentPages, walkResidentPages]
    omega

section

variable (h : s.Inv) (hroot : s.roots cr3 = some root) (hva : va < 2 ^ 47)

include h hroot hva

lemma mapPageIn_inv (hok : RssOk s (.mapPageIn cr3 va phys flags allocs)) :
    (s.mapPageIn cr3 root va phys flags allocs).Inv := by
  rw [RssSystem.mapPageIn]
  split
  next m heq => exact h.commit hroot (walked h hroot hva heq).1
  next m heq =>
    obtain ⟨hm, -, hread, -⟩ := walked h hroot hva heq
    refine h.storeLeaf hroot hm hva ?_
    rw [hread]
    exact hok (canWalk_of hroot heq)

lemma mapPageInIfAbsent_inv (hok : RssOk s (.mapPageInIfAbsent cr3 va phys flags allocs)) :
    (s.mapPageInIfAbsent cr3 root va phys flags allocs).Inv := by
  rw [RssSystem.mapPageInIfAbsent]
  split
  next m heq => exact h.commit hroot (walked h hroot hva heq).1
  next m heq =>
    obtain ⟨hm, -, hread, -⟩ := walked h hroot hva heq
    split
    · exact h.commit hroot hm
    next habsent =>
      refine h.storeLeaf hroot hm hva ?_
      rw [hread] at habsent ⊢
      exact hok (canWalk_of hroot heq) (Bool.eq_false_iff.mpr habsent)

lemma cowIfUnchanged_inv {expectedPhys : ℕ} (break_ : Bool)
    (hok : s.canWalk cr3 va flags allocs → s.maps cr3 va expectedPhys →
      Judged va (s.readPte cr3 va) (RssSystem.newPte phys flags)) :
    (s.cowIfUnchanged cr3 root va phys flags expectedPhys allocs break_).Inv := by
  rw [cowIfUnchanged]
  split
  next m heq => exact h.commit hroot (walked h hroot hva heq).1
  next m heq =>
    obtain ⟨hm, -, hread, htable⟩ := walked h hroot hva heq
    obtain ⟨u, pt, htable⟩ := htable rfl
    split
    next hsame =>
      rw [leafUnchanged, decide_eq_true_eq] at hsame
      refine replaceLeaf_inv h hroot hm hva hsame.1 (isPresent_newPte phys flags) ?_ fun w => ?_
      · rw [hread] at hsame ⊢
        exact hok (canWalk_of hroot heq) hsame
      cases break_ with
      | false => exact m.storeLeaf_walk w hva htable _
      | true =>
        -- cleared, then written
        have hfirst := m.storeLeaf_walk w hva htable 0
        have hsecond := (m.storeLeaf va 0).storeLeaf_walk w hva (pdAt_storeLeaf htable 0)
          (RssSystem.newPte phys flags)
        rw [readPte_storeLeaf htable] at hsecond
        rw [if_pos rfl]
        omega
    · exact h.commit hroot hm

lemma flipWritableIfSoleOwner_inv
    {expectedPhys : ℕ} (hok : RssOk s (.flipWritableIfSoleOwner cr3 va expectedPhys flags allocs)) :
    (s.flipWritableIfSoleOwner cr3 root va expectedPhys flags allocs).Inv := by
  rw [RssSystem.flipWritableIfSoleOwner]
  split
  next m heq => exact h.commit hroot (walked h hroot hva heq).1
  next m heq =>
    obtain ⟨hm, hcount, hread, htable⟩ := walked h hroot hva heq
    obtain ⟨u, pt, htable⟩ := htable rfl
    split
    next hsame =>
      obtain ⟨hsame, hsole⟩ := hsame
      rw [leafUnchanged, decide_eq_true_eq] at hsame
      refine replaceLeaf_inv h hroot hm hva hsame.1 (isPresent_newPte expectedPhys flags) ?_
        fun w => m.storeLeaf_walk w hva htable _
      rw [hread] at hsame ⊢
      rw [hcount] at hsole
      exact hok (canWalk_of hroot heq) hsame hsole
    · exact h.commit hroot hm

lemma storeLeafAt_inv (hjudged : s.hasTable cr3 va → Judged va (s.readPte cr3 va) pte) :
    (s.storeLeaf cr3 (s.machine root 0) va pte).Inv := by
  have hm : RssSystem.Inv.Walked root (s.machine root 0) := ⟨h.small cr3 root hroot, rfl⟩
  cases hpd : (s.machine root 0).pdAt va with
  | table u pt =>
    refine h.storeLeaf hroot hm hva ?_
    rw [RssSystem.readPte, hroot] at hjudged
    refine hjudged ?_
    rw [RssSystem.hasTable, hroot]
    dsimp only
    rw [hpd]
  | absent | huge =>
    rw [RssSystem.storeLeaf, hpd]
    rw [Machine.storeLeaf, hpd]
    exact h.commit hroot hm

end

/-! ### Unmapping a range -/

lemma storeLeaf_root (m : Machine) (pte : ℕ) :
    (s.storeLeaf cr3 m va pte).roots cr3 = some (m.storeLeaf va pte).root := by
  rw [RssSystem.storeLeaf]
  split <;> exact update_self ..

lemma readPte_update {s' : RssSystem} (hroots : s'.roots cr3 = some m.root) (va : ℕ) :
    s'.readPte cr3 va = m.readPte va := by
  rw [RssSystem.readPte, hroots]
  rfl

lemma Inv_count (h : s.Inv) (count : ℕ → ℕ) : RssSystem.Inv { s with count := count } :=
  ⟨h.keys, h.pages, h.aligned, h.small, h.counted⟩

lemma unmapAndFreePage_inv (h : s.Inv) (hva : va < 2 ^ 47)
    (hjudged : Judged va (s.readPte cr3 va) 0) : (unmapAndFreePage cr3 s va).Inv := by
  rw [unmapAndFreePage]
  split
  · exact h
  next root hroot =>
    split
    · exact h
    · exact Inv_count (storeLeafAt_inv h hroot hva fun _ => hjudged) _

lemma unmapAndFreePage_readPte {va' : ℕ} (hva : va < 2 ^ 47) (hva' : va' < 2 ^ 47)
    (hne : pageOf va' ≠ pageOf va) :
    (unmapAndFreePage cr3 s va).readPte cr3 va' = s.readPte cr3 va' := by
  rw [unmapAndFreePage]
  split
  · rfl
  next root hroot =>
    split
    · rfl
    · refine (readPte_update (storeLeaf_root (s.machine root 0) 0) va').trans ?_
      rw [readPte_storeLeaf_of_ne hva hva' hne, RssSystem.readPte, hroot]

/-- The loop: the pages are distinct, so each leaf is still as it was when its turn comes. -/
lemma unmapPages_inv {pages : List ℕ} (h : s.Inv) (hlow : ∀ va ∈ pages, va < 2 ^ 47)
    (honce : (pages.map pageOf).Nodup) (hjudged : ∀ va ∈ pages, Judged va (s.readPte cr3 va) 0) :
    (pages.foldl (unmapAndFreePage cr3) s).Inv := by
  induction pages generalizing s with
  | nil => exact h
  | cons va rest ih =>
    rw [map_cons, nodup_cons] at honce
    have hva := hlow va mem_cons_self
    refine ih (unmapAndFreePage_inv h hva (hjudged va mem_cons_self))
      (fun va' hmem => hlow va' (mem_cons_of_mem va hmem)) honce.2 fun va' hmem => ?_
    have hne : pageOf va' ≠ pageOf va := fun heq => honce.1 (heq ▸ mem_map_of_mem hmem)
    rw [unmapAndFreePage_readPte hva (hlow va' (mem_cons_of_mem va hmem)) hne]
    exact hjudged va' (mem_cons_of_mem va hmem)

/-! ### Forking -/

lemma hugeWeight_mapLeaves (leaf huge : ℕ → ℕ → ℕ) (root : Root) :
    hugeWeight.walk (mapLeaves leaf huge root) = hugeWeight.walk root := by
  refine LeafWeight.walk_mapLeaves _ (fun va pte => ?_) (fun va pte => ?_) root <;> rfl

lemma protectParent_inv (h : s.Inv) (hroot : s.roots cr3 = some root) (f : ForkWalk) :
    (s.protectParent cr3 root f).Inv := by
  have hhuge : hugeWeight.walk (f.parentRoot root) = 0 :=
    (hugeWeight_mapLeaves _ _ root).trans (h.small cr3 root hroot)
  have hwrite := h.write hroot hhuge (by rw [parentRoot_walk, Int.add_zero])
    (f.countAfter root s.count)
  rw [account_zero] at hwrite
  exact hwrite

lemma publish_inv (h : s.Inv) (hfresh : s.fresh cr3) (hhuge : hugeWeight.walk root = 0) :
    (s.publish cr3 root (walkResidentPages root)).Inv := by
  rw [fresh, decide_eq_true_eq] at hfresh
  obtain ⟨haligned, hunused, hfind⟩ := hfresh
  rw [isNone_iff_eq_none] at hunused hfind
  have hattached : (s.publish cr3 root (walkResidentPages root)).attached =
      update s.attached cr3 (s.table.attach cr3).1 := rfl
  have hlength : (s.table.attach cr3).2.keys.length = rssSlots ∧
      (s.table.attach cr3).2.pages.length = rssSlots := by
    by_cases hattach : (s.table.attach cr3).1
    · have hlen := attach_length hfind hattach
      exact ⟨hlen.1.trans h.keys, hlen.2.trans h.pages⟩
    · rw [attach_fails hattach]
      exact ⟨h.keys, h.pages⟩
  refine ⟨?_, ?_, ?_, ?_, ?_⟩
  · exact (congrArg List.length (account_keys ..)).trans hlength.1
  · exact (account_length ..).trans hlength.2
  · rw [hattached]
    exact (forall_update_iff s.attached fun c b => b → c % 4096 = 0 ∧ c ≠ 0).mpr
      ⟨fun hc => ⟨haligned, (attach_spec hfind hc).1⟩, fun c _ => h.aligned c⟩
  · intro c r hr
    obtain ⟨-, rfl⟩ | ⟨-, hr⟩ := eq_some_of_update hr
    · exact hhuge
    · exact h.small c r hr
  intro c r hr hc
  obtain ⟨rfl, rfl⟩ | ⟨hne, hr⟩ := eq_some_of_update hr
  · rw [hattached, update_self] at hc
    have hlt := walkResidentPages_lt r
    exact (attach_tracked hfind hc h.keys h.pages).account hlength.2 (attach_spec hfind hc).1
      ((addI64_eq (by omega) (by omega)).trans (Int.zero_add _)) Eq.symm
  rw [hattached, update_of_ne hne] at hc
  refine Tracked.account_of_ne ?_ hne
  by_cases hattach : (s.table.attach cr3).1
  · obtain ⟨hcr3, j, -, hfree, -, heq⟩ := attach_spec hfind hattach
    rw [heq]
    refine (h.counted c r hr hc).set (fun hkey => ?_) hcr3 (Ne.symm hne)
    obtain ⟨hmod, hzero⟩ := h.aligned c hc
    rw [hkey] at hfree
    obtain hempty | rfl := hfree
    · exact hzero hempty
    · cases hmod
  · rw [attach_fails hattach]
    exact h.counted c r hr hc

lemma childSeed_eq (f : ForkWalk) (root : Root) (h : f.onKernelCr3 ∨ identityWeight.walk root = 0) :
    (countedWeight f.onKernelCr3).walk root = walkResidentPages (f.childRoot root) := by
  rw [countedWeight_walk, childRoot_walk]
  obtain hkernel | hnone := h
  · rw [if_pos hkernel, add_zero]
  · simp [hnone, add_zero]

lemma cloneForFork_inv {child : ℕ} {deviceRanges : List (ℕ × ℕ)} {s' : RssSystem} (h : s.Inv)
    (hok : RssOk s (.cloneForFork cr3 child deviceRanges))
    (hstep : rssStep s (.cloneForFork cr3 child deviceRanges) = some s') : s'.Inv := by
  rw [rssStep] at hstep
  split at hstep
  · cases hstep
  next root hroot =>
    obtain ⟨hfresh, heq⟩ := ite_none_right_eq_some.mp hstep
    cases heq
    let f := s.forkWalk cr3 deviceRanges (2 ^ 48)
    have hseed : (countedWeight f.onKernelCr3).walk root =
        walkResidentPages (f.childRoot root) := by
      refine childSeed_eq f root (hok.imp decide_eq_true fun hnone => ?_)
      rw [RssSystem.identityLeaves, hroot] at hnone
      exact hnone
    have hparent := protectParent_inv h hroot f
    have hchild : (s.protectParent cr3 root f).fresh child := by
      rw [fresh, decide_eq_true_eq] at hfresh ⊢
      refine ⟨hfresh.1, ?_, hfresh.2.2⟩
      have hne : child ≠ cr3 := by
        intro heq
        rw [heq, hroot] at hfresh
        exact absurd hfresh.2.1 nofun
      show (update s.roots cr3 (some (f.parentRoot root)) child).isNone
      rw [update_of_ne hne]
      exact hfresh.2.1
    have hhuge : hugeWeight.walk (f.childRoot root) = 0 :=
      (hugeWeight_mapLeaves _ _ root).trans (h.small cr3 root hroot)
    have hinv := publish_inv hparent hchild hhuge
    rw [← hseed] at hinv
    exact hinv

end Step

/-! ## Runs -/

lemma rssStep_inv {s s' : RssSystem} {op : RssOp} (h : s.Inv) (hok : RssOk s op)
    (hstep : rssStep s op = some s') : s'.Inv := by
  cases op with
  | newUser cr3 root =>
    obtain ⟨⟨hfresh, hempty⟩, heq⟩ := ite_none_right_eq_some.mp hstep
    cases heq
    have hnone : walkResidentPages root = 0 := LeafWeight.walk_eq_zero _ hempty
    have hinv := publish_inv h hfresh (LeafWeight.walk_eq_zero hugeWeight hempty)
    rw [hnone] at hinv
    exact hinv
  | mapPageIn cr3 va phys flags allocs =>
    obtain ⟨hva, root, hroot, rfl⟩ := of_guard_map hstep
    exact mapPageIn_inv h hroot hva hok
  | mapPageInIfAbsent cr3 va phys flags allocs =>
    obtain ⟨hva, root, hroot, rfl⟩ := of_guard_map hstep
    exact mapPageInIfAbsent_inv h hroot hva hok
  | mapPageInCowIfUnchanged cr3 va phys flags expectedPhys allocs =>
    obtain ⟨hva, root, hroot, rfl⟩ := of_guard_map hstep
    exact cowIfUnchanged_inv h hroot hva false hok
  | cowBreakIfUnchanged cr3 va newPhys flags expectedPhys allocs =>
    obtain ⟨hva, root, hroot, rfl⟩ := of_guard_map hstep
    exact cowIfUnchanged_inv h hroot hva true hok
  | flipWritableIfSoleOwner cr3 va expectedPhys flags allocs =>
    obtain ⟨hva, root, hroot, rfl⟩ := of_guard_map hstep
    exact flipWritableIfSoleOwner_inv h hroot hva hok
  | writePte cr3 va pte =>
    obtain ⟨hva, root, hroot, rfl⟩ := of_guard_map hstep
    exact storeLeafAt_inv h hroot hva hok
  | unmapPageIn cr3 va =>
    obtain ⟨hva, root, hroot, rfl⟩ := of_guard_map hstep
    exact storeLeafAt_inv h hroot hva fun _ => hok
  | unmapAndFreeRangeIn cr3 base length =>
    obtain ⟨hrange, heq⟩ := ite_none_right_eq_some.mp hstep
    cases heq
    refine unmapPages_inv h (fun va hmem => ?_) ?_ hok
    · obtain ⟨i, hi, rfl⟩ := mem_map.mp hmem
      rw [mem_range] at hi
      omega
    rw [rangePages, List.map_map]
    refine List.Nodup.map (fun i j heq => ?_) nodup_range
    simp only [comp_apply, pageOf] at heq
    omega
  | cloneForFork cr3 child deviceRanges => exact cloneForFork_inv h hok hstep
  | cloneForForkFails cr3 deviceRanges limit =>
    obtain ⟨root, hroot, rfl⟩ := map_eq_some_iff.mp hstep
    exact protectParent_inv h hroot _

lemma boot_inv (kernelCr3 : ℕ) (count : ℕ → ℕ) : (boot kernelCr3 count).Inv where
  keys := length_replicate
  pages := length_replicate
  aligned _ h := absurd h nofun
  small _ _ h := by cases h
  counted _ _ _ h := absurd h nofun

/-- In a run whose steps all meet `RssOk`, after every step the counter of every attached address
space, made by `new_user` or by a fork, is what a walk of its table finds. -/
theorem rssRun_agrees (kernelCr3 : ℕ) (count : ℕ → ℕ) (ops : List RssOp)
    (hok : Guarded rssStep RssOk (.boot kernelCr3 count) ops) (n : ℕ) (s : RssSystem)
    (hrun : run rssStep (.boot kernelCr3 count) (ops.take n) = some s) (cr3 : ℕ) (root : Root)
    (hroot : s.roots cr3 = some root) (hattached : s.attached cr3 = true) :
    s.residentPages cr3 = some (walkResidentPages root) := by
  have hinv : s.Inv := run_guarded (fun _ _ _ => rssStep_inv) (boot_inv kernelCr3 count)
    (guarded_take hok n) hrun
  obtain ⟨idx, hfind, -, hval⟩ := hinv.counted cr3 root hroot hattached
  rw [RssSystem.residentPages, RssTable.residentPages, hfind, map_some, hval, Int.toNat_natCast]

/-- What `resident_pages` and the walk say about an address space. -/
def RssSystem.report (s : RssSystem) (cr3 : ℕ) : Option (Bool × Option ℕ × ℕ) :=
  (s.roots cr3).map fun root => (s.attached cr3, s.residentPages cr3, walkResidentPages root)

/-- A parent maps two pages, breaks one as copy-on-write, forks, and unmaps the other. -/
def forkAndUnmap : List RssOp :=
  [.newUser 0x10000 (fun _ => .absent), .mapPageIn 0x10000 0x1000 0x2000 7 3,
    .mapPageIn 0x10000 0x5000 0x3000 7 0,
    .cowBreakIfUnchanged 0x10000 0x1000 0x4000 7 0x2000 0, .cloneForFork 0x10000 0x20000 [],
      .unmapPageIn 0x10000 0x5000]

theorem rssRun_agrees_of_forkAndUnmap :
    ∃ s parent child, run rssStep (.boot 0 fun _ => 1) forkAndUnmap = some s ∧
      s.roots 0x10000 = some parent ∧ s.roots 0x20000 = some child ∧
      walkResidentPages parent = 1 ∧ s.residentPages 0x10000 = some (walkResidentPages parent) ∧
      walkResidentPages child = 2 ∧ s.residentPages 0x20000 = some (walkResidentPages child) := by
  have hreport : (run rssStep (.boot 0 fun _ => 1) forkAndUnmap).map
    (fun s => (s.report 0x10000, s.report 0x20000))
      = some (some (true, some 1, 1), some (true, some 2, 2)) := by
    decide +kernel
  obtain ⟨s, hrun, hs⟩ := map_eq_some_iff.mp hreport
  rw [Prod.mk.injEq, report, report, map_eq_some_iff, map_eq_some_iff] at hs
  obtain ⟨⟨parent, hparent, hp⟩, child, hchild, hc⟩ := hs
  rw [Prod.mk.injEq, Prod.mk.injEq] at hp hc
  have hagrees := rssRun_agrees 0 (fun _ => 1) forkAndUnmap (by decide +kernel) 6 s hrun
  exact ⟨s, parent, child, hrun, hparent, hchild, hp.2.2, hagrees _ parent hparent hp.1, hc.2.2,
    hagrees _ child hchild hc.1⟩

/-- A page of the identity map put over another page: both sides are present, so nothing is
accounted, and the walk no longer counts the leaf. -/
theorem overwrite_drifts :
    ∃ s root, run rssStep (.boot 0 fun _ => 1)
        [.newUser 0x10000 (fun _ => .absent), .mapPageIn 0x10000 0x1000 0x2000 7 3,
          .mapPageIn 0x10000 0x1000 0x1000 7 0]
        = some s ∧
      s.roots 0x10000 = some root ∧ s.attached 0x10000 = true ∧
      s.residentPages 0x10000 = some 1 ∧ walkResidentPages root = 0 := by
  have hreport : (run rssStep (.boot 0 fun _ => 1) [.newUser 0x10000 (fun _ => .absent),
      .mapPageIn 0x10000 0x1000 0x2000 7 3, .mapPageIn 0x10000 0x1000 0x1000 7 0]).map
        (·.report 0x10000)
      = some (some (true, some 1, 0)) := by
    decide +kernel
  obtain ⟨s, hrun, hs⟩ := map_eq_some_iff.mp hreport
  rw [report, map_eq_some_iff] at hs
  obtain ⟨root, hroot, hr⟩ := hs
  rw [Prod.mk.injEq, Prod.mk.injEq] at hr
  exact ⟨s, root, hrun, hroot, hr.1, hr.2.1, hr.2.2⟩

end Astryx
