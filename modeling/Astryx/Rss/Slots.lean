import Astryx.Rss.Agreement

/-!
# The slot table is a map

A slot that was used is never empty again: `detach` leaves a tombstone, which `find` passes over and
`attach` may take. So a slot that holds a key is where `find` of the key ends, whatever was attached
and detached before, and no key is held twice (`Maps`). The counters are `i64` and wrap.

## Main results

* `slotRun_maps` — after any calls, a key has a counter exactly while it is attached; the counter is
  the sum, in `i64`, of what was accounted since then; and `attach` fails only when 256 keys are
  attached
* `resident_wraps` — a sum that is too large for `i64`
-/

namespace Astryx.RssTable

open Function List Option

/-- A page-aligned `CR3` that is not zero. -/
abbrev Cr3 := { k : ℕ // k ≠ 0 ∧ k % 4096 = 0 ∧ k < 2 ^ 64 }

/-- A call on the table. -/
inductive SlotCall where
  | attach (k : Cr3)
  | detach (k : Cr3)
  | account (k : Cr3) (delta : ℤ)

/-- A call, and what it does to the attached keys and the sums of their deltas. -/
def slotStep (s : RssTable × (Cr3 → Option ℤ)) : SlotCall → RssTable × (Cr3 → Option ℤ)
  | .attach k =>
    ((s.1.attach k).2, if (s.1.attach k).1 then update s.2 k (some ((s.2 k).getD 0)) else s.2)
  | .detach k => (s.1.detach k, update s.2 k none)
  | .account k delta => (s.1.account k delta, update s.2 k ((s.2 k).map (· + delta)))

/-- A slot is empty, a tombstone, or where an attached key is found, and the counter of a key is its
sum. -/
structure Maps (t : RssTable) (m : Cr3 → Option ℤ) : Prop where
  keys : t.keys.length = rssSlots
  pages : t.pages.length = rssSlots
  slots : ∀ i < rssSlots, (t.keys.getD i 0 = keyEmpty ∨ t.keys.getD i 0 = keyTombstone) ∨
    ∃ k : Cr3, t.keys.getD i 0 = k ∧ t.find k = some i ∧ (m k).isSome
  counts : ∀ k n, m k = some n → t.Tracked k (n.bmod (2 ^ 64))

variable {t : RssTable} {m : Cr3 → Option ℤ} {k : Cr3} {i v : ℕ} {o : Option ℤ}

lemma ne_tombstone (k : Cr3) : k.1 ≠ keyTombstone := by
  intro heq
  exact absurd (heq ▸ k.2.2.1) (by decide)

lemma find_lt (h : t.find k = some i) : i < rssSlots := mem_probes (findIn_spec h).1

section

variable (h : Maps t m)

include h

/-- A key is held where it is found, and nowhere else. -/
lemma Maps.held (hi : i < rssSlots) (hk : t.keys.getD i 0 = k) :
    t.find k = some i ∧ (m k).isSome := by
  obtain (hempty | htomb) | ⟨k', hk', hslot⟩ := h.slots i hi
  · exact absurd (hk.symm.trans hempty) k.2.1
  · exact absurd (hk.symm.trans htomb) (ne_tombstone k)
  · exact Subtype.ext (hk'.symm.trans hk) ▸ hslot

lemma Maps.find_eq_none (hm : m k = none) : t.find k = none := by
  by_contra hfind
  obtain ⟨i, hi⟩ := ne_none_iff_exists'.mp hfind
  have hsome := (h.held (find_lt hi) (find_key hi)).2
  rw [hm] at hsome
  cases hsome

/-- A slot that holds no other key is given to the key or becomes a tombstone, and no other slot
holds the key. -/
lemma Maps.set (hi : i < rssSlots) (hheld : ∀ k' : Cr3, t.keys.getD i 0 = k' → k' = k)
    (honly : ∀ j, t.find k = some j → j = i)
    (hv : v = keyTombstone ∧ o = none ∨ v = k ∧ o = some 0 ∧
      find ⟨t.keys.set i v, t.pages.set i 0⟩ k = some i) :
    Maps ⟨t.keys.set i v, t.pages.set i 0⟩ (update m k o) := by
  have hempty : v ≠ keyEmpty := by
    obtain ⟨rfl, -⟩ | ⟨rfl, -⟩ := hv
    · decide
    · exact k.2.1
  have hother : ∀ k' : Cr3, k' ≠ k → v ≠ k' := by
    rintro k' hne rfl
    obtain ⟨htomb, -⟩ | ⟨heq, -⟩ := hv
    · exact ne_tombstone k' htomb
    · exact hne (Subtype.ext heq)
  refine ⟨(length_set ..).trans h.keys, (length_set ..).trans h.pages, fun j hj => ?_,
    fun k' n hn => ?_⟩
  · by_cases hji : j = i
    · subst hji
      rw [getD_set_self (h.keys ▸ hj)]
      obtain ⟨rfl, -⟩ | ⟨rfl, rfl, hfind⟩ := hv
      · exact .inl (.inr rfl)
      · exact .inr ⟨k, rfl, hfind, by rw [update_self]; rfl⟩
    rw [getD_set_of_ne (Ne.symm hji)]
    refine (h.slots j hj).imp id ?_
    rintro ⟨k', hk', hfind, hsome⟩
    have hne : k' ≠ k := by
      rintro rfl
      exact hji (honly j hfind)
    refine ⟨k', hk', findIn_set (fun heq => hne (hheld k' heq)) hempty (hother k' hne) hfind, ?_⟩
    rw [update_of_ne hne]
    exact hsome
  by_cases hne : k' = k
  · subst hne
    rw [update_self] at hn
    subst hn
    obtain ⟨-, hnone⟩ | ⟨-, hzero, hfind⟩ := hv
    · cases hnone
    · cases hzero
      exact ⟨i, hfind, hi, getD_set_self (h.pages ▸ hi) ..⟩
  · rw [update_of_ne hne] at hn
    exact (h.counts k' n hn).set (fun heq => hne (hheld k' heq)) hempty (hother k' hne)

theorem Maps.attach (k : Cr3) :
    Maps (t.attach k).2 (if (t.attach k).1 then update m k (some ((m k).getD 0)) else m) := by
  by_cases hattach : (t.attach k).1
  swap
  · rw [if_neg hattach, attach_fails hattach]
    exact h
  rw [if_pos hattach]
  cases hm : m k with
  | some n =>
    obtain ⟨i, hfind, -⟩ := h.counts k n hm
    rw [RssTable.attach, if_neg k.2.1, hfind, getD_some, ← hm, update_eq_self]
    exact h
  | none =>
    have hnone := h.find_eq_none hm
    obtain ⟨-, i, hmem, hfree, hfound, heq⟩ := attach_spec hnone hattach
    rw [heq]
    refine h.set (mem_probes hmem) (fun k' hk' => ?_) (fun j hj => ?_) (.inr ⟨rfl, rfl, ?_⟩)
    · rw [hk'] at hfree
      exact (hfree.elim k'.2.1 (ne_tombstone k')).elim
    · rw [hnone] at hj
      cases hj
    · exact findIn_set_self k.2.1 (fun x hx => h.keys ▸ mem_probes hx) hnone hfound

theorem Maps.detach (k : Cr3) : Maps (t.detach k) (update m k none) := by
  rw [RssTable.detach, if_neg k.2.1]
  cases hfind : t.find k with
  | none =>
    have hm : m k = none := by
      by_contra hsome
      obtain ⟨n, hn⟩ := ne_none_iff_exists'.mp hsome
      obtain ⟨i, hi, -⟩ := h.counts k n hn
      rw [hfind] at hi
      cases hi
    rw [← hm, update_eq_self]
    exact h
  | some i =>
    have hkey := find_key hfind
    refine h.set (find_lt hfind) (fun k' hk' => Subtype.ext (hk'.symm.trans hkey)) (fun j hj => ?_)
      (.inl ⟨rfl, rfl⟩)
    exact some.inj (hj.symm.trans hfind)

lemma Maps.account (k : Cr3) (d : ℤ) : Maps (t.account k d) (update m k ((m k).map (· + d))) := by
  refine ⟨(congrArg length (account_keys ..)).trans h.keys, (account_length ..).trans h.pages,
    fun i hi => ?_, fun k' n hn => ?_⟩
  · rw [account_keys]
    refine (h.slots i hi).imp id ?_
    rintro ⟨k', hk', hfind, hsome⟩
    refine ⟨k', hk', (account_find ..).trans hfind, ?_⟩
    by_cases hne : k' = k
    · rw [hne, update_self, isSome_map]
      exact hne ▸ hsome
    · rw [update_of_ne hne]
      exact hsome
  by_cases hne : k' = k
  · subst hne
    rw [update_self] at hn
    obtain ⟨n, hm, rfl⟩ := map_eq_some_iff.mp hn
    refine (h.counts k' n hm).account h.pages k'.2.1 (Int.bmod_add_bmod ..) fun hd => ?_
    rw [hd, Int.add_zero]
  · rw [update_of_ne hne] at hn
    exact (h.counts k' n hn).account_of_ne fun heq => hne (Subtype.ext heq)

lemma Maps.full (hattach : (t.attach k).1 = false) :
    ∃ keys : Finset Cr3, keys.card = rssSlots ∧ ∀ k' ∈ keys, (m k').isSome := by
  have hslots : ∀ i : Fin rssSlots, ∃ k' : Cr3, t.find k' = some i.1 ∧ (m k').isSome := by
    intro i
    obtain hfree | ⟨k', -, hslot⟩ := h.slots i i.2
    swap
    · exact ⟨k', hslot⟩
    have hmem : i.1 ∈ probes k := by
      refine mem_map.mpr ⟨(i + rssSlots - slotFor k) % rssSlots,
        mem_range.mpr (Nat.mod_lt _ (by decide)), ?_⟩
      have hi := i.2
      have hstart : slotFor k < rssSlots := Nat.mod_lt _ (by decide)
      simp only [rssSlots] at hi hstart ⊢
      omega
    rw [RssTable.attach, if_neg k.2.1] at hattach
    split at hattach
    · cases hattach
    split at hattach
    · cases hattach
    next hnone => exact absurd (decide_eq_true hfree) (find?_eq_none.mp hnone i hmem)
  choose key hkey using hslots
  have hinj : Injective key := by
    intro i j hij
    have hi := (hkey i).1
    rw [hij, (hkey j).1] at hi
    exact Fin.ext (some.inj hi).symm
  refine ⟨Finset.univ.map ⟨key, hinj⟩, by simp, fun k' hk' => ?_⟩
  obtain ⟨i, -, rfl⟩ := Finset.mem_map.mp hk'
  exact (hkey i).2

end

lemma maps_empty : Maps empty fun _ => none := by
  refine ⟨length_replicate, length_replicate, fun i hi => .inl (.inl ?_), fun _ _ h => nomatch h⟩
  simp [empty, hi]

lemma slotStep_maps {s : RssTable × (Cr3 → Option ℤ)} (h : Maps s.1 s.2) (call : SlotCall) :
    Maps (slotStep s call).1 (slotStep s call).2 := by
  cases call with
  | attach k => exact h.attach k
  | detach k => exact h.detach k
  | account k delta => exact h.account k delta

theorem slotRun_maps (calls : List SlotCall) :
    let s := calls.foldl slotStep (empty, fun _ => none)
    (∀ k : Cr3, s.1.residentPages k = (s.2 k).map fun n => (n.bmod (2 ^ 64)).toNat) ∧
      ∀ k : Cr3, (s.1.attach k).1 = false →
        ∃ keys : Finset Cr3, keys.card = rssSlots ∧ ∀ k' ∈ keys, (s.2 k').isSome := by
  intro s
  have h : Maps s.1 s.2 :=
    foldlRecOn (motive := fun s => Maps s.1 s.2) calls slotStep maps_empty fun _ hs call _ =>
      slotStep_maps hs call
  refine ⟨fun k => ?_, fun k => h.full⟩
  rw [residentPages]
  cases hm : s.2 k with
  | none => rw [h.find_eq_none hm, map_none, map_none]
  | some n =>
    obtain ⟨i, hfind, -, hcount⟩ := h.counts k n hm
    rw [hfind, map_some, map_some, hcount]

/-- Two deltas of `2 ^ 62` pages are `2 ^ 63`, which `i64` has not. -/
theorem resident_wraps :
    let k : Cr3 := ⟨0x1000, by decide⟩
    let s := [SlotCall.attach k, .account k (2 ^ 62), .account k (2 ^ 62)].foldl slotStep
      (empty, fun _ => none)
    s.2 k = some (2 ^ 63) ∧ s.1.residentPages k = some 0 := by
  decide +kernel

end Astryx.RssTable
