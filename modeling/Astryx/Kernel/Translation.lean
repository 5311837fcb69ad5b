import Astryx.Kernel.PageTable

/-!
# What the helpers do to the translation of addresses

What a walk finds is decided by the directory entry on its way, so a helper is described by what it
does to the directory entries of all addresses. `walkCreate_spec`: the entry of `va` becomes a table
with the 512 leaves it stood for and no other entry changes, or a table could not be allocated and
none does. `storeLeaf_spec`: one leaf is rewritten.

`map_page_in` is the two together. It merges its flags into the entry beside the frame and drops
what does not fit the address field, so it maps the frame it is given if that is aligned and below
`2 ^ 52` and the flags have no address bits. A walk ignores the bits of an address from 48 on.
-/

namespace Astryx

open Function

/-- The 2 MiB region of an address, as far as a walk can tell. -/
def dirOf (va : ℕ) : ℕ := va % 2 ^ 48 / 2 ^ 21

lemma dirOf_eq_iff {va va' : ℕ} :
    dirOf va' = dirOf va ↔ pml4Idx va' = pml4Idx va ∧ pdptIdx va' = pdptIdx va ∧
    pdIdx va' = pdIdx va := by
  simp only [dirOf, pml4Idx, pdptIdx, pdIdx]
  omega

/-- The 512 leaves that a directory entry stands for. -/
def PdEntry.leaves : PdEntry → ℕ → ℕ
  | .absent => fun _ => 0
  | .huge pte => Machine.splitHuge pte
  | .table _ pt => pt

namespace Machine

variable {m m' : Machine} {va : ℕ} {u user ok : Bool} {pd : ℕ → PdEntry} {pt : ℕ → ℕ}

/-! ## Rewriting an entry -/

lemma pdAt_eq (m : Machine) (va : ℕ) : m.pdAt va = match m.pdptAt va with
    | .absent => .absent
    | .table _ pd => pd (pdIdx va) := by
  rw [pdAt, pdptAt]
  cases m.root (pml4Idx va) <;> rfl

lemma pdAt_of_dirOf {va' : ℕ} (h : dirOf va' = dirOf va) : m.pdAt va' = m.pdAt va := by
  obtain ⟨h1, h2, h3⟩ := dirOf_eq_iff.mp h
  rw [pdAt, pdAt, h1, h2, h3]

lemma root_of_pdptAt (hat : m.pdptAt va = .table u pd) :
    m.root (pml4Idx va) ≠ .absent := fun habs => by
  rw [pdptAt, habs] at hat
  cases hat

lemma setPdpt_spec (hroot : m.root (pml4Idx va) ≠ .absent) (e : PdptEntry) :
    (m.setPdpt va e).count = m.count ∧ ∀ va', (m.setPdpt va e).pdptAt va' =
      if pml4Idx va' = pml4Idx va ∧ pdptIdx va' = pdptIdx va then e else m.pdptAt va' := by
  cases hr : m.root (pml4Idx va) with
  | absent => exact absurd hr hroot
  | table u pdpt =>
    simp only [setPdpt, hr, pdptAt, true_and]
    intro va'
    by_cases h1 : pml4Idx va' = pml4Idx va
    · by_cases h2 : pdptIdx va' = pdptIdx va <;> simp [h1, h2, hr]
    · simp [h1]

/-- A second-level entry replaced by a table that leads to the same directory entries. -/
lemma setPdpt_pdAt (hroot : m.root (pml4Idx va) ≠ .absent) (u : Bool) (pd : ℕ → PdEntry)
    (hpd : ∀ va', m.pdptAt va' = m.pdptAt va → pd (pdIdx va') = m.pdAt va') :
    (m.setPdpt va (.table u pd)).count = m.count ∧ (m.setPdpt va (.table u pd)).pdAt = m.pdAt ∧
      (m.setPdpt va (.table u pd)).pdptAt va = .table u pd := by
  obtain ⟨hcount, hset⟩ := setPdpt_spec hroot (.table u pd)
  refine ⟨hcount, funext fun va' => ?_, by simp [hset]⟩
  rw [pdAt_eq, hset]
  by_cases h : pml4Idx va' = pml4Idx va ∧ pdptIdx va' = pdptIdx va
  · rw [if_pos h]
    exact hpd va' (by rw [pdptAt, pdptAt, h.1, h.2])
  · rw [if_neg h, ← pdAt_eq]

lemma setPd_spec (hat : m.pdptAt va = .table u pd) (e : PdEntry) :
    (m.setPd va e).count = m.count ∧
    ∀ va', (m.setPd va e).pdAt va' = if dirOf va' = dirOf va then e else m.pdAt va' := by
  have heq : m.setPd va e = m.setPdpt va (.table u (update pd (pdIdx va) e)) := by
    rw [pdptAt] at hat
    split at hat
    · cases hat
    next hr => simp only [setPd, setPdpt, hr, hat]
  obtain ⟨hcount, hset⟩ := setPdpt_spec (root_of_pdptAt hat) (.table u (update pd (pdIdx va) e))
  rw [heq]
  refine ⟨hcount, fun va' => ?_⟩
  rw [pdAt_eq, hset, pdAt_eq, if_congr dirOf_eq_iff rfl rfl]
  by_cases h : pml4Idx va' = pml4Idx va ∧ pdptIdx va' = pdptIdx va
  · have hsame : m.pdptAt va' = m.pdptAt va := by rw [pdptAt, pdptAt, h.1, h.2]
    by_cases h3 : pdIdx va' = pdIdx va <;> simp [h, h3, hsame, hat]
  · rw [if_neg h, if_neg fun hall => h ⟨hall.1, hall.2.1⟩]

theorem storeLeaf_spec (htable : m.pdAt va = .table u pt) (pte : ℕ) :
    (m.storeLeaf va pte).count = m.count ∧ ∀ va', (m.storeLeaf va pte).pdAt va' =
      if dirOf va' = dirOf va then .table u (update pt (ptIdx va) pte) else m.pdAt va' := by
  rw [storeLeaf, htable]
  rw [pdAt_eq] at htable
  split at htable
  · cases htable
  next hat => exact setPd_spec hat _

/-! ## Creating the tables on the way -/

lemma getOrCreatePml4_spec (heq : m.getOrCreatePml4 va user = (m', ok)) :
    m'.count = m.count ∧ m'.pdptAt = m.pdptAt ∧ (ok → m'.root (pml4Idx va) ≠ .absent) := by
  have hset : ∀ (u : Bool) (pdpt : ℕ → PdptEntry) (n : Machine),
    n.root = update m.root (pml4Idx va) (.table u pdpt) →
      (∀ va', pml4Idx va' = pml4Idx va → pdpt (pdptIdx va') = m.pdptAt va') →
      n.pdptAt = m.pdptAt ∧ (ok → n.root (pml4Idx va) ≠ .absent) := by
    intro u pdpt n hroot hpdpt
    refine ⟨funext fun va' => ?_, fun _ => by simp [hroot]⟩
    by_cases h : pml4Idx va' = pml4Idx va
    · rw [pdptAt, hroot, h, update_self]
      exact hpdpt va' h
    · simp [pdptAt, hroot, h]
  rw [getOrCreatePml4] at heq
  split at heq
  next u pdpt hroot =>
    split at heq
    · cases heq
      exact ⟨rfl, hset true pdpt _ rfl fun va' h => by rw [pdptAt, h, hroot]⟩
    · cases heq
      exact ⟨rfl, rfl, fun _ => by simp [hroot]⟩
  next hroot =>
    split at heq
    next halloc =>
      obtain ⟨-, rfl⟩ := Prod.mk.inj halloc
      cases heq
      exact ⟨rfl, rfl, by simp⟩
    next halloc =>
      obtain ⟨-, rfl⟩ := Prod.mk.inj halloc
      cases heq
      exact ⟨rfl, hset user _ _ rfl fun va' h => by rw [pdptAt, h, hroot]⟩

lemma getOrCreatePdpt_spec (hroot : m.root (pml4Idx va) ≠ .absent)
    (heq : m.getOrCreatePdpt va user = (m', ok)) :
    m'.count = m.count ∧ m'.pdAt = m.pdAt ∧ (ok → ∃ u pd, m'.pdptAt va = .table u pd) := by
  rw [getOrCreatePdpt] at heq
  split at heq
  next u pd hat =>
    split at heq
    · cases heq
      obtain ⟨hcount, hpd, hnew⟩ := setPdpt_pdAt hroot true pd fun va' h => by rw [pdAt_eq, h, hat]
      exact ⟨hcount, hpd, fun _ => ⟨true, pd, hnew⟩⟩
    · cases heq
      exact ⟨rfl, rfl, fun _ => ⟨u, pd, hat⟩⟩
  next hat =>
    split at heq
    next halloc =>
      obtain ⟨-, rfl⟩ := Prod.mk.inj halloc
      cases heq
      exact ⟨rfl, rfl, by simp⟩
    next halloc =>
      obtain ⟨-, rfl⟩ := Prod.mk.inj halloc
      cases heq
      obtain ⟨hcount, hpd, hnew⟩ :=
        setPdpt_pdAt (m := m.allocPage.2) hroot user (fun _ => .absent) fun va' h => by
        rw [pdAt_eq, h, show m.allocPage.2.pdptAt va = .absent from hat]
      exact ⟨hcount, hpd, fun _ => ⟨user, _, hnew⟩⟩

/-- The directory entry of `va` has become a table with the leaves it stood for, or nothing has
happened. -/
def Opened (m : Machine) (va : ℕ) (m' : Machine) : Bool → Prop
  | true =>
    ∃ v, ∀ va', m'.pdAt va' =
      if dirOf va' = dirOf va then .table v (m.pdAt va).leaves else m.pdAt va'
  | false => m'.pdAt = m.pdAt

lemma getOrCreatePd_spec (hat : m.pdptAt va = .table u pd)
    (heq : m.getOrCreatePd va user = (m', ok)) : m'.count = m.count ∧ m.Opened va m' ok := by
  rw [getOrCreatePd] at heq
  split at heq
  next v pt hpd =>
    split at heq
    · cases heq
      obtain ⟨hcount, hset⟩ := setPd_spec hat (.table true pt)
      exact ⟨hcount, true, by rw [hpd]; exact hset⟩
    cases heq
    refine ⟨rfl, v, fun va' => ?_⟩
    split
    next h => rw [pdAt_of_dirOf h, hpd]; rfl
    · rfl
  all_goals
    next hpd =>
    split at heq
    next halloc =>
      obtain ⟨-, rfl⟩ := Prod.mk.inj halloc
      cases heq
      exact ⟨rfl, rfl⟩
    next halloc =>
      obtain ⟨-, rfl⟩ := Prod.mk.inj halloc
      cases heq
      obtain ⟨hcount, hset⟩ := setPd_spec (m := m.allocPage.2) hat _
      exact ⟨hcount, _, by rw [hpd]; exact hset⟩

theorem walkCreate_spec (heq : m.walkCreate va user = (m', ok)) :
    m'.count = m.count ∧ m.Opened va m' ok := by
  rw [walkCreate] at heq
  split at heq
  next m₁ h1 =>
    cases heq
    obtain ⟨hcount, hpdpt, -⟩ := getOrCreatePml4_spec h1
    exact ⟨hcount, funext fun va' => by rw [pdAt_eq, hpdpt, ← pdAt_eq]⟩
  next m₁ h1 =>
    obtain ⟨hcount1, hpdpt, hroot⟩ := getOrCreatePml4_spec h1
    have hpd1 : m₁.pdAt = m.pdAt := funext fun va' => by rw [pdAt_eq, hpdpt, ← pdAt_eq]
    split at heq
    next m₂ h2 =>
      cases heq
      obtain ⟨hcount2, hpd2, -⟩ := getOrCreatePdpt_spec (hroot rfl) h2
      exact ⟨hcount2.trans hcount1, hpd2.trans hpd1⟩
    next m₂ h2 =>
      obtain ⟨hcount2, hpd2, hat⟩ := getOrCreatePdpt_spec (hroot rfl) h2
      obtain ⟨u, pd, hat⟩ := hat rfl
      obtain ⟨hcount3, hopen⟩ := getOrCreatePd_spec hat heq
      refine ⟨hcount3.trans (hcount2.trans hcount1), ?_⟩
      cases ok <;> simpa only [Opened, hpd2, hpd1] using hopen

/-! ## Translating -/

lemma and_addrMask (a : ℕ) : a &&& addrMask = a % 2 ^ 52 / 2 ^ 12 * 2 ^ 12 :=
  Word.and_mask (k := 12) (n := 52) (by decide) a

lemma isPresent_or (a : ℕ) : isPresent (a ||| pagePresent) := by
  rw [isPresent, Nat.and_or_distrib_right, decide_eq_true_eq]
  exact fun hzero => absurd (Nat.or_eq_zero_iff.mp hzero).2 (by decide)

/-- A 2 MiB leaf and the leaf it is split into take an address to the same place. -/
lemma splitHuge_phys (pte va : ℕ) :
    (splitHuge pte (ptIdx va) &&& addrMask) ||| (va &&& 0xFFF) =
      (pte &&& hugeMask) ||| (va &&& 0x1FFFFF) := by
  have hflags : (pte &&& (2 ^ 64 - 1 - addrMask - pageHuge)) &&& addrMask = 0 := by
    rw [Nat.and_assoc, show (2 ^ 64 - 1 - addrMask - pageHuge) &&& addrMask =
      0 by decide, Nat.and_zero]
  have hbase : pte &&& hugeMask = pte % 2 ^ 52 / 2 ^ 21 * 2 ^ 21 :=
    Word.and_mask (k := 21) (n := 52) (by decide) pte
  have hlow : va &&& 0xFFF = va % 2 ^ 12 := Nat.and_two_pow_sub_one_eq_mod va 12
  have hlow' : va &&& 0x1FFFFF = va % 2 ^ 21 := Nat.and_two_pow_sub_one_eq_mod va 21
  rw [splitHuge, Nat.and_or_distrib_right, hflags, Nat.or_zero, and_addrMask, hbase, hlow,
    hlow', ptIdx,
    Word.or_eq_add (k := 12) (by omega) (by omega), Word.or_eq_add (k := 21) (by omega) (by omega)]
  omega

lemma isPresent_splitHuge {pte : ℕ} (h : isPresent pte) (i : ℕ) : isPresent (splitHuge pte i) := by
  rw [isPresent, decide_eq_true_eq] at h ⊢
  rw [splitHuge, Nat.and_or_distrib_right, Nat.and_assoc pte,
    show (2 ^ 64 - 1 - addrMask - pageHuge) &&& pagePresent = pagePresent by decide]
  exact fun hzero => h (Nat.or_eq_zero_iff.mp hzero).2

/-- Opening a directory entry moves no address. -/
lemma virtToPhysIn_leaves (hm : ∀ pte, m.pdAt va = .huge pte → isPresent pte)
    (h : m'.pdAt va = .table u (m.pdAt va).leaves) : m'.virtToPhysIn va = m.virtToPhysIn va := by
  rw [virtToPhysIn, h, virtToPhysIn]
  cases hpd : m.pdAt va with
  | absent => simp [PdEntry.leaves, isPresent]
  | huge pte =>
    simp only [PdEntry.leaves, isPresent_splitHuge (hm pte hpd), if_true, splitHuge_phys]
  | table u pt => rfl

/-- **Exact edits.** In a table whose 2 MiB leaves are present, `map_page_in` of an aligned frame
below `2 ^ 52` with flags that have no address bits translates the addresses of the page to the
frame if it succeeds, and all others, or all if it fails, as before. -/
theorem mapPageIn_exact (m : Machine) (va phys flags : ℕ)
    (hm : ∀ va pte, m.pdAt va = .huge pte → isPresent pte = true)
    (hphys : phys % 4096 = 0 ∧ phys < 2 ^ 52) (hflags : flags &&& addrMask = 0) (va' : ℕ) :
    (m.mapPageIn va phys flags).1.virtToPhysIn va' =
      if (m.mapPageIn va phys flags).2 = true ∧ va' % 2 ^ 48 / 4096 = va % 2 ^ 48 / 4096
        then some (phys + va' % 4096)
      else m.virtToPhysIn va' := by
  rw [mapPageIn]
  rcases heq : m.walkCreate va (flags &&& pageUser ≠ 0) with ⟨m₁, _ | _⟩
  · obtain ⟨-, hsame⟩ : _ ∧ m₁.pdAt = m.pdAt := walkCreate_spec heq
    simp [virtToPhysIn, hsame]
  obtain ⟨-, v, hopen⟩ := walkCreate_spec heq
  have hstore :=
    (storeLeaf_spec ((hopen va).trans (if_pos rfl))
      ((phys &&& addrMask) ||| flags ||| pagePresent)).2 va'
  by_cases hdir : dirOf va' = dirOf va
  · rw [if_pos hdir] at hstore
    by_cases hidx : ptIdx va' = ptIdx va
    · have hpage : va' % 2 ^ 48 / 4096 = va % 2 ^ 48 / 4096 := by
        simp only [dirOf, ptIdx] at hdir hidx
        omega
      have hlow : va' &&& 0xFFF = va' % 2 ^ 12 := Nat.and_two_pow_sub_one_eq_mod va' 12
      have haddr : ((phys &&& addrMask) ||| flags ||| pagePresent) &&& addrMask = phys := by
        rw [Nat.and_or_distrib_right, Nat.and_or_distrib_right, hflags,
          show pagePresent &&& addrMask = 0 by decide,
          Nat.or_zero, Nat.or_zero, Nat.and_assoc, Nat.and_self, and_addrMask]
        omega
      rw [if_pos ⟨rfl, hpage⟩, virtToPhysIn, hstore]
      simp only [hidx, update_self, isPresent_or, if_true, haddr, hlow]
      rw [Word.or_eq_add (k := 12) hphys.1 (by omega)]
      rfl
    have hpage : ¬ va' % 2 ^ 48 / 4096 = va % 2 ^ 48 / 4096 := by
      simp only [dirOf, ptIdx] at hdir hidx
      omega
    have hat : m₁.pdAt va' = .table v (m.pdAt va').leaves := by
      rw [hopen, if_pos hdir, pdAt_of_dirOf hdir]
    rw [if_neg fun h => hpage h.2, ← virtToPhysIn_leaves (hm va') hat, virtToPhysIn, hstore,
      virtToPhysIn, hat]
    simp [hidx, pdAt_of_dirOf hdir]
  have hpage : ¬ va' % 2 ^ 48 / 4096 = va % 2 ^ 48 / 4096 :=
    fun h => hdir (by simp only [dirOf]; omega)
  rw [if_neg hdir, hopen, if_neg hdir] at hstore
  rw [if_neg fun h => hpage h.2, virtToPhysIn, hstore, virtToPhysIn]

/-- Every walk ends in a 2 MiB leaf of the first frames, and there are frames for tables. -/
def firstLeaves : Machine where
  root _ := .table true fun _ => .table true fun _ => .huge 0x87
  count _ := 1
  frames n := some (0x200000 + n * 0x1000)
  tableHeld := false
  effects := []

theorem mapPageIn_exact_of_split :
    (firstLeaves.mapPageIn 0x1000 0x5000 7).2 = true ∧
    (firstLeaves.mapPageIn 0x1000 0x5000 7).1.virtToPhysIn 0x1234 = some 0x5234 ∧
      (firstLeaves.mapPageIn 0x1000 0x5000 7).1.virtToPhysIn 0x2234 = some 0x2234 := by
  have hm : ∀ va pte, firstLeaves.pdAt va = .huge pte → isPresent pte := fun va pte h => by
    cases h
    decide
  have hexact := mapPageIn_exact firstLeaves 0x1000 0x5000 7 hm ⟨by decide, by decide⟩ (by decide)
  exact ⟨by decide, (hexact 0x1234).trans (by decide), (hexact 0x2234).trans (by decide)⟩

/-- Flags with an address bit change the frame. -/
theorem mapPageIn_flags : (firstLeaves.mapPageIn 0 0 0x1000).2 = true ∧
    (firstLeaves.mapPageIn 0 0 0x1000).1.virtToPhysIn 0 = some 0x1000 := by
  decide

end Machine

end Astryx
