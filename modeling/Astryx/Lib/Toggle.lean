import Mathlib

/-!
# Flags and the log of their changes

A family of flags, and a log of events each of which sets or clears one flag.
`Toggles key val b l b'` says that the log `l` leads from the flags `b` to `b'` and that every event
of it really changes the flag it names: nothing is set that was set already, nothing cleared that
was clear.

Such a log determines how many flags stand (`Toggles.card_add`), and between two equal changes of
one flag it has the opposite one (`Toggles.between`).
-/

namespace Toggle

open Function List

variable {ι ε : Type*} [DecidableEq ι] {key : ε → ι} {val : ε → Bool}
variable {b b' b'' : ι → Bool} {l l' : List ε}

/-- The events lead from `b` to `b'`; each changes the flag it names. -/
def Toggles (key : ε → ι) (val : ε → Bool) : (ι → Bool) → List ε → (ι → Bool) → Prop
  | b, [], b' => b' = b
  | b, e :: l, b' => b (key e) = !val e ∧ Toggles key val (update b (key e) (val e)) l b'

lemma toggles_append : Toggles key val b (l ++ l') b'' ↔
    ∃ b', Toggles key val b l b' ∧ Toggles key val b' l' b'' := by
  induction l generalizing b with
  | nil => simp [Toggles]
  | cons e l ih => simp only [cons_append, Toggles, ih, and_assoc, exists_and_left]

variable {v : Bool}

/-- A flag keeps its value if no event gives it the other one. -/
lemma Toggles.stays (h : Toggles key val b l b') {i : ι} (hi : b i = v)
    (hno : ∀ e ∈ l, key e = i → val e = v) : b' i = v := by
  induction l generalizing b with
  | nil =>
    cases h
    exact hi
  | cons e l ih =>
    refine ih h.2 ?_ fun e' he' => hno e' (by simp [he'])
    by_cases hk : key e = i
    · rw [← hk, update_self]
      simp [hno, hk]
    · rw [update_of_ne (Ne.symm hk)]
      exact hi

/-- Between two events that give a flag the same value there is one that gave it the other. -/
theorem Toggles.between {l₁ l₂ l₃ : List ε} {e₁ e₂ : ε}
    (h : Toggles key val b (l₁ ++ e₁ :: (l₂ ++ e₂ :: l₃)) b') (hkey : key e₂ = key e₁)
    (hval : val e₂ = val e₁) : ∃ e ∈ l₂, key e = key e₁ ∧ val e = !val e₁ := by
  obtain ⟨c, -, -, hrest⟩ := toggles_append.mp h
  obtain ⟨d, hmid, hlast, -⟩ := toggles_append.mp hrest
  by_contra hno
  have hstay : d (key e₁) = val e₁ := by
    refine hmid.stays (update_self ..) fun e he hk => ?_
    by_contra hv
    exact hno ⟨e, he, hk, Bool.eq_not_of_ne hv⟩
  rw [hkey, hstay, hval] at hlast
  exact (Bool.eq_not_self _).mp hlast

/-- Events of one kind that give their flags the value `v` name different flags, if none of these
flags is given the other value later. -/
lemma Toggles.nodup (h : Toggles key val b l b') {q : ε → Bool} (hq : ∀ e ∈ l, q e → val e = v)
    (hno : ∀ l₁ e l₂, l = l₁ ++ e :: l₂ → q e → ∀ e' ∈ l₂, key e' = key e → val e' = v) :
    ((l.filter q).map key).Nodup := by
  induction l generalizing b with
  | nil => exact nodup_nil
  | cons e l ih =>
    have hrest : ((l.filter q).map key).Nodup := by
      refine ih h.2 (fun e' he' => hq e' (by simp [he'])) fun l₁ e' l₂ hl => ?_
      exact hno (e :: l₁) e' l₂ (by simp [hl])
    by_cases he : q e
    · rw [filter_cons_of_pos he, map_cons, nodup_cons]
      refine ⟨fun hmem => ?_, hrest⟩
      obtain ⟨e', he', hkey⟩ := mem_map.mp hmem
      obtain ⟨hin, hqe'⟩ := mem_filter.mp he'
      obtain ⟨l₁, l₂, hl⟩ := append_of_mem hin
      have hv : val e = v := hq e mem_cons_self he
      have hv' : val e' = v := hq e' (by simp [hin]) hqe'
      have hsplit : Toggles key val b ([] ++ e :: (l₁ ++ e' :: l₂)) b' := by
        rw [← hl]
        exact h
      obtain ⟨m, hm, hmkey, hmval⟩ := hsplit.between hkey (hv'.trans hv.symm)
      have hmem : m ∈ l := by
        rw [hl]
        simp [hm]
      rw [hno [] e l rfl he m hmem hmkey, hv] at hmval
      exact (Bool.eq_not_self v).mp hmval
    · rw [filter_cons_of_neg he]
      exact hrest

/-- One change moves one flag into the set of those with its value. -/
lemma card_update {U : Finset ι} {i : ι} (hi : i ∈ U) (hb : b i = !v) (w : Bool) :
    (U.filter fun j => update b i v j = w).card + (if v = !w then 1 else 0)
      = (U.filter fun j => b j = w).card + if v = w then 1 else 0 := by
  -- the other flags keep their value
  have hrest : ((U.erase i).filter fun j => update b i v j = w) =
      (U.erase i).filter fun j => b j = w :=
    Finset.filter_congr fun j hj => by rw [update_of_ne (Finset.ne_of_mem_erase hj)]
  have hnot : i ∉ (U.erase i).filter fun j =>
      b j = w := fun h => Finset.notMem_erase i U (Finset.mem_filter.mp h).1
  rw [← Finset.insert_erase hi, Finset.filter_insert, Finset.filter_insert, hrest, update_self, hb]
  cases v <;> cases w <;> simp [Finset.card_insert_of_notMem hnot]

/-- The log accounts for the flags with value `w`, among any finite set that holds every flag it
names. -/
theorem Toggles.card_add (h : Toggles key val b l b') {U : Finset ι} (hU : ∀ e ∈ l, key e ∈ U)
    (w : Bool) :
    (U.filter fun i => b' i = w).card + l.countP (fun e => val e = !w)
      = (U.filter fun i => b i = w).card + l.countP fun e => val e = w := by
  induction l generalizing b with
  | nil =>
    cases h
    rfl
  | cons e l ih =>
    have hrest := ih h.2 fun e' he' => hU e' (by simp [he'])
    have hone := card_update (hU e mem_cons_self) h.1 w
    rw [countP_cons, countP_cons]
    simp only [decide_eq_true_eq]
    omega

end Toggle
