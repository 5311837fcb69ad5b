import Mathlib

/-!
# Ring buffers

An array with two indices that run round it. The values are in a `window` of its cells, and the
loops over the array put behind the window or take from its front. A `Ring` has the cells from
`head` up to `tail` in use, so an array of `cap` cells holds at most `cap - 1` values. `contents` is
the queue that the ring stands for; the other lemmas say that the loops over the array are the
operations of that queue.
-/

namespace Astryx

open Function List

/-! ### Windows -/

section

variable {α : Type*} {buf : ℕ → α} {cap head pos n : ℕ}

/-- The `n` cells from `head` on, round an array of `cap`. -/
def window (buf : ℕ → α) (cap head n : ℕ) : List α :=
  (List.range n).map fun i => buf ((head + i) % cap)

/-- Values are put one after the other from `pos` on. -/
def fill (cap : ℕ) (buf : ℕ → α) (pos : ℕ) : List α → (ℕ → α) × ℕ
  | [] => (buf, pos)
  | x :: xs => fill cap (update buf pos x) ((pos + 1) % cap) xs

/-- `n` values are read one after the other from `pos` on. -/
def drain (cap : ℕ) (buf : ℕ → α) : ℕ → ℕ → List α × ℕ
  | 0, pos => ([], pos)
  | n + 1, pos =>
    let (xs, pos') := drain cap buf n ((pos + 1) % cap)
    (buf pos :: xs, pos')

@[simp] lemma length_window : (window buf cap head n).length = n := by simp [window]

lemma window_put (hn : n < cap) (x : α) :
    window (update buf ((head + n) % cap) x) cap head (n + 1) = window buf cap head n ++ [x] := by
  rw [window, range_succ, map_append, map_singleton, update_self]
  congr 1
  refine map_congr_left fun i hi => update_of_ne ?_ ..
  -- another cell of the window is not the one behind it
  intro heq
  rw [mem_range] at hi
  have hi : i = n := (Nat.ModEq.add_left_cancel' head heq).eq_of_lt_of_lt (by omega) hn
  omega

lemma window_append (m n : ℕ) :
    window buf cap head (m + n) = window buf cap head m ++ window buf cap ((head + m) % cap) n := by
  rw [window, range_add, map_append, map_map]
  congr 1
  refine map_congr_left fun i _ => ?_
  rw [comp_apply, Nat.mod_add_mod, add_assoc]

lemma window_succ (n : ℕ) :
    window buf cap head (n + 1) = buf (head % cap) :: window buf cap ((head + 1) % cap) n := by
  rw [add_comm, window_append]
  rfl

lemma window_fill (buf : ℕ → α) (head : ℕ) (xs : List α) (h : n + xs.length ≤ cap) :
    window (fill cap buf ((head + n) % cap) xs).1 cap head (n + xs.length) =
      window buf cap head n ++ xs := by
  induction xs generalizing buf n with
  | nil => exact (append_nil _).symm
  | cons x xs ih =>
    rw [length_cons] at h ⊢
    rw [fill, Nat.mod_add_mod, add_assoc head, add_comm xs.length, ← add_assoc n, ih _ (by omega),
      window_put (by omega), append_assoc, singleton_append]

lemma fill_snd (xs : List α) (hpos : pos < cap) :
    (fill cap buf pos xs).2 = (pos + xs.length) % cap := by
  induction xs generalizing buf pos with
  | nil => exact (Nat.mod_eq_of_lt hpos).symm
  | cons x xs ih =>
    rw [fill, ih (Nat.mod_lt _ (by omega)), Nat.mod_add_mod, length_cons, add_right_comm, add_assoc]

lemma drain_eq (hpos : pos < cap) :
    drain cap buf n pos = (window buf cap pos n, (pos + n) % cap) := by
  induction n generalizing pos with
  | zero => rw [drain, add_zero, Nat.mod_eq_of_lt hpos]; rfl
  | succ n ih =>
    rw [drain, ih (Nat.mod_lt _ (by omega)), window_succ, Nat.mod_eq_of_lt hpos,
      Nat.mod_add_mod, add_assoc,
      add_comm 1]

end

/-! ### Rings -/

/-- A ring over `cap` cells. -/
structure Ring (α : Type*) (cap : ℕ) where
  buf : ℕ → α
  head : ℕ
  tail : ℕ
  head_lt : head < cap
  tail_lt : tail < cap

namespace Ring

variable {α : Type*} {cap : ℕ} (r : Ring α cap)

lemma cap_pos (r : Ring α cap) : 0 < cap := lt_of_le_of_lt (Nat.zero_le _) r.head_lt

/-- Both indices back at the start; the cells keep what they hold. -/
def clear : Ring α cap :=
  { r with head := 0, tail := 0, head_lt := r.cap_pos, tail_lt := r.cap_pos }

/-- The items in the ring. -/
def length : ℕ := (r.tail + cap - r.head) % cap

/-- The free room; one slot stays empty. -/
def space : ℕ := cap - 1 - r.length

/-- The values in the order in which they were put. -/
def contents : List α := (List.range r.length).map fun i => r.buf ((r.head + i) % cap)

/-- An item goes in. -/
def put (x : α) : Ring α cap :=
  { r with
    buf := Function.update r.buf r.tail x, tail := (r.tail + 1) % cap,
    tail_lt := Nat.mod_lt _ r.cap_pos }

/-- Items go in, in order. -/
def putAll (xs : List α) : Ring α cap := xs.foldl put r

/-- The front item goes out. -/
def advance : Ring α cap := { r with head := (r.head + 1) % cap, head_lt := Nat.mod_lt _ r.cap_pos }

/-- Give up `n` cells. -/
def skip : ℕ → Ring α cap → Ring α cap
  | 0, r => r
  | n + 1, r => skip n r.advance

/-- Read `n` cells and give them up. -/
def takeOut : ℕ → Ring α cap → List α × Ring α cap
  | 0, r => ([], r)
  | n + 1, r =>
    let (xs, r') := takeOut n r.advance
    (r.buf r.head :: xs, r')

lemma length_lt : r.length < cap := Nat.mod_lt _ r.cap_pos

lemma tail_eq : r.tail = (r.head + r.length) % cap := by
  have hhead := r.head_lt
  have htail := r.tail_lt
  rw [length]
  by_cases hwrap : r.head ≤ r.tail
  · have hlen : r.tail + cap - r.head = r.tail - r.head + cap := by omega
    simp [hlen, Nat.mod_eq_of_lt (by omega : r.tail - r.head < cap), Nat.add_sub_cancel' hwrap,
      Nat.mod_eq_of_lt htail]
  · rw [Nat.mod_eq_of_lt (by omega : r.tail + cap - r.head < cap), Nat.add_sub_cancel' (by omega),
      Nat.add_mod_right,
      Nat.mod_eq_of_lt htail]

variable {n : ℕ}

lemma length_eq (hn : n < cap) (h : r.tail = (r.head + n) % cap) : r.length = n := by
  have hhead := r.head_lt
  rw [length, h]
  by_cases hwrap : r.head + n < cap
  · simp [Nat.mod_eq_of_lt hwrap, (by omega : r.head + n + cap - r.head = n + cap),
      Nat.mod_eq_of_lt hn]
  have hmod : (r.head + n) % cap = r.head + n - cap := by
    rw [Nat.mod_eq_sub_mod (by omega), Nat.mod_eq_of_lt (by omega)]
  rw [hmod, (by omega : r.head + n - cap + cap - r.head = n), Nat.mod_eq_of_lt hn]

@[simp] lemma length_contents : r.contents.length = r.length := by simp [contents]

@[simp] lemma length_clear : r.clear.length = 0 := r.clear.length_eq r.cap_pos (by simp [clear])

@[simp] lemma contents_clear : r.clear.contents = [] := by
  rw [← length_eq_zero_iff, length_contents, length_clear]

/-! ### Putting -/

lemma length_put (h : r.length + 1 < cap) (x : α) : (r.put x).length = r.length + 1 := by
  refine (r.put x).length_eq h ?_
  show (r.tail + 1) % cap = (r.head + (r.length + 1)) % cap
  rw [r.tail_eq, Nat.mod_add_mod, add_assoc]

lemma contents_put (h : r.length + 1 < cap) (x : α) : (r.put x).contents = r.contents ++ [x] := by
  show window (update r.buf r.tail x) cap r.head (r.put x).length = _
  rw [length_put r h, r.tail_eq]
  exact window_put r.length_lt x

lemma contents_putAll (xs : List α) (h : r.length + xs.length < cap) :
    (r.putAll xs).contents = r.contents ++ xs := by
  induction xs generalizing r with
  | nil => exact (append_nil _).symm
  | cons x xs ih =>
    rw [length_cons] at h
    have hlen := r.length_put (by omega) x
    have hrest := ih (r.put x) (by omega)
    rw [putAll, foldl_cons, ← putAll, hrest, contents_put r (by omega), append_assoc,
      singleton_append]

/-! ### Taking out -/

lemma length_advance (h : 0 < r.length) : r.advance.length + 1 = r.length := by
  have hlt := r.length_lt
  have hlen : r.advance.length = r.length - 1 := by
    refine r.advance.length_eq (by omega) ?_
    show r.tail = ((r.head + 1) % cap + (r.length - 1)) % cap
    rw [Nat.mod_add_mod, (by omega : r.head + 1 + (r.length - 1) = r.head + r.length)]
    exact r.tail_eq
  omega

lemma contents_advance (h : 0 < r.length) : r.contents = r.buf r.head :: r.advance.contents := by
  show window r.buf cap r.head r.length = _
  rw [← length_advance r h, window_succ, Nat.mod_eq_of_lt r.head_lt]
  rfl

lemma contents_skip (h : n ≤ r.length) : (skip n r).contents = r.contents.drop n := by
  induction n generalizing r with
  | zero => rfl
  | succ n ih =>
    have hlen := r.length_advance (by omega)
    simp [skip, ih r.advance (by omega), contents_advance r (by omega)]

lemma takeOut_spec (h : n ≤ r.length) :
    (takeOut n r).1 = r.contents.take n ∧ (takeOut n r).2.contents = r.contents.drop n := by
  induction n generalizing r with
  | zero => exact ⟨rfl, rfl⟩
  | succ n ih =>
    have hlen := r.length_advance (by omega)
    obtain ⟨hout, hrest⟩ := ih r.advance (by omega)
    rw [contents_advance r (by omega), take_succ_cons, drop_succ_cons]
    exact ⟨congrArg (r.buf r.head :: ·) hout, hrest⟩

end Ring

end Astryx
