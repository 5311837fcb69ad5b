import Mathlib

/-!
# Trees of pointers in a store

A store has numbered blocks, each with slots that hold block numbers; block 0 stands for none. A
forest has named roots that hold block numbers too. A *cell* is a root and a list of slots:
following the slots from the root leads to the block that the cell holds, or to none.

The cells that count are given by a fan-out, which bounds the slots, and by a height for each root,
which bounds the lists. If no block is held by two of them, then rewriting a slot of a block changes
the cells through that slot and no others (`get_setNext`). So a fresh empty block can be hung into
an empty cell (`get_attachNext`, `get_attachRoot`), and a block whose slots are empty can be taken
out (`get_detachNext`, `get_detachRoot`), with one cell changed.
-/

namespace PointerForest

open Function List

variable {ρ : Type*}

/-- The block at the end of a path, 0 if the path breaks off. -/
def follow (next : ℕ → ℕ → ℕ) : ℕ → List ℕ → ℕ
  | b, [] => b
  | b, i :: is => if b = 0 then 0 else follow next (next b i) is

section

variable (next : ℕ → ℕ → ℕ)

lemma follow_zero (is : List ℕ) : follow next 0 is = 0 := by
  cases is with
  | nil => rfl
  | cons i is => exact if_pos rfl

lemma follow_append (b : ℕ) (is js : List ℕ) :
    follow next b (is ++ js) = follow next (follow next b is) js := by
  induction is generalizing b with
  | nil => rfl
  | cons i is ih =>
    rw [cons_append, follow, follow]
    split
    · rw [follow_zero]
    · exact ih _

lemma follow_concat (b : ℕ) (is : List ℕ) (i : ℕ) :
    follow next b (is ++ [i]) = if follow next b is = 0 then 0 else next (follow next b is) i := by
  rw [follow_append]
  rfl

end

lemma follow_empty {next : ℕ → ℕ → ℕ} {b : ℕ} (hb : ∀ i, next b i = 0) (is : List ℕ) :
    follow next b is = if is = [] then b else 0 := by
  cases is with
  | nil => rfl
  | cons i is => rw [follow, hb, follow_zero, ite_self, if_neg (cons_ne_nil i is)]

/-- Trees whose nodes are blocks of pointers. -/
structure Forest (ρ : Type*) where
  root : ρ → ℕ
  next : ℕ → ℕ → ℕ

/-- The block at a cell. -/
def Forest.get (f : Forest ρ) (r : ρ) (is : List ℕ) : ℕ := follow f.next (f.root r) is

/-- The cells that count. -/
structure Cell (fanout : ℕ) (height : ρ → ℕ) (r : ρ) (is : List ℕ) : Prop where
  length : is.length ≤ height r
  slots : ∀ i ∈ is, i < fanout

variable {fanout : ℕ} {height : ρ → ℕ} {f : Forest ρ} {r r' : ρ} {is js : List ℕ} {i v : ℕ}

lemma Cell.of_append (h : Cell fanout height r (is ++ js)) : Cell fanout height r is := by
  refine ⟨?_, fun i hi => h.slots i (by simp [hi])⟩
  have hlength := h.length
  rw [length_append] at hlength
  omega

lemma Cell.lt_of_concat (h : Cell fanout height r (is ++ [i])) : is.length < height r := by
  have hlength := h.length
  rwa [length_append, length_singleton] at hlength

lemma Cell.concat (h : Cell fanout height r is) (hlength : is.length < height r) (hi : i < fanout) :
    Cell fanout height r (is ++ [i]) := by
  refine ⟨?_, forall_mem_append.mpr ⟨h.slots, forall_mem_singleton.mpr hi⟩⟩
  rw [length_append, length_singleton]
  exact hlength

lemma cell_nil : Cell fanout height r [] := ⟨Nat.zero_le _, nofun⟩

lemma Forest.get_concat (f : Forest ρ) (r : ρ) (is : List ℕ) (i : ℕ) :
    f.get r (is ++ [i]) = if f.get r is = 0 then 0 else f.next (f.get r is) i :=
  follow_concat f.next (f.root r) is i

lemma Forest.get_append (f : Forest ρ) (r : ρ) (is js : List ℕ) :
    f.get r (is ++ js) = follow f.next (f.get r is) js :=
  follow_append f.next (f.root r) is js

/-- What the cells hold depends on the roots and on the slots of the blocks that they go through. -/
lemma Forest.get_congr {g : Forest ρ} (hroot : ∀ r, g.root r = f.root r)
    (hnext : ∀ r is i, Cell fanout height r (is ++ [i]) → f.get r is ≠ 0 →
      g.next (f.get r is) i = f.next (f.get r is) i)
    (his : Cell fanout height r is) : g.get r is = f.get r is := by
  induction is using List.reverseRecOn with
  | nil => exact hroot r
  | append_singleton is i ih =>
    rw [get_concat, get_concat, ih his.of_append]
    split
    · rfl
    next hne => exact hnext r is i his hne

/-- No block is at two cells. -/
def Forest.Distinct (fanout : ℕ) (height : ρ → ℕ) (f : Forest ρ) : Prop :=
  ∀ r is r' is', Cell fanout height r is → Cell fanout height r' is' → f.get r is ≠ 0 →
    f.get r is = f.get r' is' →
    r = r' ∧ is = is'

/-- A pointer of a block changes. -/
def Forest.setNext (f : Forest ρ) (b i v : ℕ) : Forest ρ :=
  { f with next := update f.next b (update (f.next b) i v) }

lemma Forest.setNext_next (f : Forest ρ) (b i v b' j : ℕ) :
    (f.setNext b i v).next b' j = if b' = b ∧ j = i then v else f.next b' j := by
  by_cases hb : b' = b
  · simp [setNext, hb, update_apply]
  · simp [setNext, hb]

variable [DecidableEq ρ]

theorem Forest.get_setNext (hf : f.Distinct fanout height)
    (his : Cell fanout height r is) (hb : f.get r is ≠ 0) (hjs : Cell fanout height r' js) :
    (f.setNext (f.get r is) i v).get r' js
      = if r' = r ∧ is ++ [i] <+: js
        then follow (f.setNext (f.get r is) i v).next v (js.drop (is.length + 1))
        else f.get r' js := by
  induction js using List.reverseRecOn with
  | nil =>
    have hno : ¬ (r' = r ∧ is ++ [i] <+: []) := fun h => by
      have hle := h.2.length_le
      rw [length_append, length_singleton, length_nil] at hle
      omega
    rw [if_neg hno]
    rfl
  | append_singleton js j ih =>
    have hbefore := ih hjs.of_append
    rw [get_concat]
    by_cases hthrough : r' = r ∧ is ++ [i] <+: js
    · -- already below the slot
      have hbelow : r' = r ∧ is ++ [i] <+: js ++ [j] :=
        ⟨hthrough.1, hthrough.2.trans (prefix_append ..)⟩
      have hle : is.length + 1 ≤ js.length := by
        have hle := hthrough.2.length_le
        rwa [length_append, length_singleton] at hle
      rw [if_pos hthrough] at hbefore
      rw [if_pos hbelow, drop_append_of_le_length hle, follow_concat, hbefore]
    rw [if_neg hthrough] at hbefore
    rw [hbefore]
    by_cases hat : r' = r ∧ js = is
    · obtain ⟨rfl, rfl⟩ := hat
      rw [if_neg hb, setNext_next]
      by_cases hj : j = i
      · rw [hj, if_pos ⟨rfl, rfl⟩, if_pos ⟨rfl, prefix_rfl⟩, drop_eq_nil_of_le]
        · rfl
        · simp
      have hno : ¬ (r' = r' ∧ js ++ [i] <+: js ++ [j]) := fun h => by
        have hsingle := (prefix_append_right_inj js).mp h.2
        exact hj (cons_prefix_cons.mp hsingle).1.symm
      rw [if_neg fun h => hj h.2, if_neg hno, get_concat, if_neg hb]
    -- not at the slot, so the block is another one
    have hno : ¬ (r' = r ∧ is ++ [i] <+: js ++ [j]) := fun h => by
      rcases prefix_concat_iff.mp h.2 with heq | hlt
      · exact hat ⟨h.1, (append_inj_left' heq rfl).symm⟩
      · exact hthrough ⟨h.1, hlt⟩
    rw [if_neg hno, get_concat]
    split
    · rfl
    next hne =>
      rw [setNext_next, if_neg]
      rintro ⟨heq, -⟩
      obtain ⟨hr, hjs'⟩ := hf r' js r is hjs.of_append his hne heq
      exact hat ⟨hr, hjs'⟩

/-- A root changes. -/
def Forest.setRoot (f : Forest ρ) (r : ρ) (v : ℕ) : Forest ρ :=
  { f with root := update f.root r v }

lemma Forest.get_setRoot (f : Forest ρ) (r r' : ρ) (v : ℕ) (js : List ℕ) :
    (f.setRoot r v).get r' js = if r' = r then follow f.next v js else f.get r' js := by
  by_cases hr : r' = r
  · simp [get, setRoot, hr]
  · simp [get, setRoot, hr]

section

variable (hf : f.Distinct fanout height) (his : Cell fanout height r is) (hb : f.get r is ≠ 0)

include hf his hb

/-- A block with empty slots is hung into an empty slot. -/
theorem Forest.get_attachNext (hempty : f.next (f.get r is) i = 0)
    (hv : ∀ j, f.next v j = 0) (hne : v ≠ f.get r is) (hjs : Cell fanout height r' js) :
    (f.setNext (f.get r is) i v).get r' js =
      if r' = r ∧ js = is ++ [i] then v else f.get r' js := by
  have hnext : ∀ j, (f.setNext (f.get r is) i v).next v j = 0 := fun j => by
    rw [setNext_next, if_neg fun h => hne h.1]
    exact hv j
  rw [get_setNext hf his hb hjs]
  by_cases hthrough : r' = r ∧ is ++ [i] <+: js
  · obtain ⟨rfl, rest, rfl⟩ := hthrough
    have hdrop : (is ++ [i] ++ rest).drop (is.length + 1) = rest := by
      rw [drop_left' (by simp)]
    rw [if_pos ⟨rfl, prefix_append ..⟩, hdrop, follow_empty hnext]
    by_cases hrest : rest = []
    · simp [hrest]
    · have hlong : ¬ (r' = r' ∧ is ++ [i] ++ rest = is ++ [i]) :=
        fun h => hrest (append_right_eq_self.mp h.2)
      rw [if_neg hrest, if_neg hlong, get_append, get_concat, if_neg hb, hempty, follow_zero]
  · have hnot : ¬ (r' = r ∧ js = is ++ [i]) := fun h => hthrough ⟨h.1, h.2 ▸ prefix_rfl⟩
    simp [hthrough, hnot]

/-- A block with empty slots is taken out of its slot. -/
theorem Forest.get_detachNext
    (hbelow : ∀ js, js ≠ [] → Cell fanout height r (is ++ [i] ++ js) →
      f.get r (is ++ [i] ++ js) = 0)
    (hjs : Cell fanout height r' js) :
    (f.setNext (f.get r is) i 0).get r' js =
      if r' = r ∧ js = is ++ [i] then 0 else f.get r' js := by
  rw [get_setNext hf his hb hjs]
  by_cases hthrough : r' = r ∧ is ++ [i] <+: js
  · obtain ⟨rfl, rest, rfl⟩ := hthrough
    rw [if_pos ⟨rfl, prefix_append ..⟩, follow_zero]
    split
    · rfl
    next hlong =>
      refine (hbelow rest ?_ hjs).symm
      rintro rfl
      exact hlong ⟨rfl, append_nil _⟩
  · have hnot : ¬ (r' = r ∧ js = is ++ [i]) := fun h => hthrough ⟨h.1, h.2 ▸ prefix_rfl⟩
    simp [hthrough, hnot]

end

/-- A block with empty slots is hung into an empty root. -/
theorem Forest.get_attachRoot (hempty : f.root r = 0) (hv : ∀ j, f.next v j = 0) (r' : ρ)
    (js : List ℕ) : (f.setRoot r v).get r' js = if r' = r ∧ js = [] then v else f.get r' js := by
  rw [get_setRoot]
  by_cases hr : r' = r
  · rw [if_pos hr, follow_empty hv]
    by_cases hjs : js = []
    · simp [hjs, hr]
    · rw [if_neg hjs, if_neg fun h => hjs h.2, get, hr, hempty, follow_zero]
  · rw [if_neg hr, if_neg fun h => hr h.1]

/-- A block with empty slots is taken out of its root. -/
theorem Forest.get_detachRoot (hbelow : ∀ js, js ≠ [] → Cell fanout height r js → f.get r js = 0)
    (hjs : Cell fanout height r' js) :
    (f.setRoot r 0).get r' js = if r' = r ∧ js = [] then 0 else f.get r' js := by
  rw [get_setRoot]
  by_cases hr : r' = r
  · subst hr
    rw [if_pos rfl, follow_zero]
    split
    · rfl
    next hne => exact (hbelow js (fun h => hne ⟨rfl, h⟩) hjs).symm
  · rw [if_neg hr, if_neg fun h => hr h.1]

/-! ## Counting cells -/

/-- The lists of `n` slots. -/
def paths (fanout : ℕ) : ℕ → Finset (List ℕ)
  | 0 => {[]}
  | n + 1 => (Finset.range fanout ×ˢ paths fanout n).image fun p => p.1 :: p.2

lemma mem_paths {n : ℕ} : is ∈ paths fanout n ↔ is.length = n ∧ ∀ i ∈ is, i < fanout := by
  induction n generalizing is with
  | zero => simp +contextual [paths]
  | succ n ih =>
    cases is with
    | nil => simp [paths]
    | cons j js => simp [paths, ih, and_left_comm]

/-- All cells under some roots. -/
def cells (fanout : ℕ) (height : ρ → ℕ) (roots : Finset ρ) : Finset (ρ × List ℕ) :=
  roots.biUnion fun r =>
    ((Finset.range (height r + 1)).biUnion (paths fanout)).image fun is => (r, is)

lemma mem_cells {roots : Finset ρ} :
    (r, is) ∈ cells fanout height roots ↔ r ∈ roots ∧ Cell fanout height r is := by
  have hcell : Cell fanout height r is ↔ is.length ≤ height r ∧
      ∀ i ∈ is, i < fanout := ⟨fun h => ⟨h.1, h.2⟩, fun h => ⟨h.1, h.2⟩⟩
  simp [cells, mem_paths, hcell]

lemma card_filter_insert {α : Type*} [DecidableEq α] {S : Finset α} {c : α} {p q : α → Prop}
    [DecidablePred p] [DecidablePred q] (hq : ∀ x ∈ S, q x ↔ p x ∨ x = c) (hc : ¬ p c) :
    (S.filter q).card = (S.filter p).card + if c ∈ S then 1 else 0 := by
  have hdisjoint : Disjoint (S.filter p) (S.filter (· = c)) :=
    Finset.disjoint_filter.mpr fun _ _ hp hx => hc (hx ▸ hp)
  rw [Finset.filter_congr hq, Finset.filter_or, Finset.card_union_of_disjoint hdisjoint,
    Finset.filter_eq']
  split <;> rfl

end PointerForest
