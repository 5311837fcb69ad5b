import Mathlib

/-!
# Reference-counted pools

A pool hands out numbered resources and keeps, for each, a counter of fixed width and a bit that
says whether it is handed out. `Backs w refs p` is the soundness of the counters with respect to the
list `refs` of all references in existence: each counter is the number of times its resource occurs
there, and a referenced resource is handed out.

The counters wrap at `w`. That is the only way to lose count: `Backs.inc` and `Backs.incAll` need
room, and nothing else does. The list of references is taken up to permutation, so a caller
describes its references in whatever order its own data has them.
-/

namespace RefPool

open Function List

/-- Counters and in-use bits. -/
structure Pool where
  count : ℕ → ℕ
  used : ℕ → Bool

namespace Pool

variable (p : Pool)

/-- Take a reference; the counter wraps at `w`. -/
def inc (w f : ℕ) : Pool := { p with count := update p.count f ((p.count f + 1) % w) }

/-- Drop a reference; a counter at zero stays there. -/
def dec (f : ℕ) : Pool := { p with count := update p.count f (p.count f - 1) }

/-- Drop a reference and give the resource back when the counter reaches zero. -/
def release (f : ℕ) : Pool :=
  if (p.dec f).count f = 0 then { p.dec f with used := update p.used f false } else p.dec f

/-- A frame is handed out. -/
def alloc (f : ℕ) : Pool := { p with used := update p.used f true }

/-- Give a resource back, whatever its counter says. -/
def free (f : ℕ) : Pool := { p with used := update p.used f false }

/-- A frame is handed out with one user. -/
def claim (f : ℕ) : Pool := { p.alloc f with count := update p.count f 1 }

/-- One more user for each. -/
def incAll (w : ℕ) (fs : List ℕ) : Pool := fs.foldl (inc · w) p

/-- One user fewer for each. -/
def releaseAll (fs : List ℕ) : Pool := fs.foldl release p

/-- Frames are handed out. -/
def allocAll (fs : List ℕ) : Pool := fs.foldl alloc p

/-- Frames are freed whatever their counts. -/
def freeAll (fs : List ℕ) : Pool := fs.foldl free p

variable {w f g : ℕ} {fs : List ℕ}

lemma dec_count_le (f g : ℕ) : (p.dec f).count g ≤ p.count g := by
  show update p.count f (p.count f - 1) g ≤ p.count g
  rw [update_apply]
  split
  next hgf => exact hgf ▸ Nat.sub_le ..
  · exact Nat.le_refl _

lemma release_count_le (f g : ℕ) : (p.release f).count g ≤ p.count g := by
  rw [release]
  split <;> exact p.dec_count_le f g

lemma releaseAll_count_le (fs : List ℕ) (g : ℕ) : (p.releaseAll fs).count g ≤ p.count g := by
  induction fs generalizing p with
  | nil => exact Nat.le_refl _
  | cons f fs ih => exact Nat.le_trans (ih _) (p.release_count_le f g)

lemma releaseAll_used_of_not_mem (h : g ∉ fs) : (p.releaseAll fs).used g = p.used g := by
  induction fs generalizing p with
  | nil => rfl
  | cons f fs ih =>
    rw [mem_cons, not_or] at h
    refine (ih (p.release f) h.2).trans ?_
    rw [release]
    split
    · exact update_of_ne h.1 _ _
    · rfl

@[simp] lemma incAll_used (w : ℕ) (fs : List ℕ) : (p.incAll w fs).used = p.used := by
  induction fs generalizing p with
  | nil => rfl
  | cons f fs ih => exact ih (p.inc w f)

lemma inc_count_of_ne (h : g ≠ f) :
    (p.inc w f).count g = p.count g := update_of_ne h _ _

lemma incAll_count_of_not_mem (h : g ∉ fs) : (p.incAll w fs).count g = p.count g := by
  induction fs generalizing p with
  | nil => rfl
  | cons f fs ih =>
    rw [mem_cons, not_or] at h
    exact (ih _ h.2).trans (p.inc_count_of_ne h.1)

@[simp] lemma claim_count_self (f : ℕ) : (p.claim f).count f = 1 := update_self ..

lemma claim_count_of_ne (h : g ≠ f) :
    (p.claim f).count g = p.count g := update_of_ne h _ _

lemma alloc_used (f : ℕ) : (p.alloc f).used f := by
  show update p.used f true f
  simp

@[simp] lemma allocAll_count (fs : List ℕ) : (p.allocAll fs).count = p.count := by
  induction fs generalizing p with
  | nil => rfl
  | cons f fs ih => exact ih (p.alloc f)

@[simp] lemma freeAll_count (fs : List ℕ) : (p.freeAll fs).count = p.count := by
  induction fs generalizing p with
  | nil => rfl
  | cons f fs ih => exact ih (p.free f)

variable {p}

lemma allocAll_used : (p.allocAll fs).used g ↔ g ∈ fs ∨ p.used g := by
  induction fs generalizing p with
  | nil => simp [allocAll]
  | cons f fs ih =>
    show ((p.alloc f).allocAll fs).used g ↔ _
    rw [ih, mem_cons]
    show g ∈ fs ∨ update p.used f true g ↔ _
    by_cases hgf : g = f <;> simp [hgf]

lemma freeAll_used : (p.freeAll fs).used g ↔ g ∉ fs ∧ p.used g := by
  induction fs generalizing p with
  | nil => simp [freeAll]
  | cons f fs ih =>
    show ((p.free f).freeAll fs).used g ↔ _
    rw [ih, mem_cons]
    show g ∉ fs ∧ update p.used f false g ↔ _
    by_cases hgf : g = f <;> simp [hgf]

end Pool

/-- The counters of `p` are exact for the references `refs`, and referenced resources are in use. -/
structure Backs (refs : List ℕ) (p : Pool) : Prop where
  count_eq : ∀ f, p.count f = refs.count f
  used_of_mem : ∀ f ∈ refs, p.used f = true

variable {w f : ℕ} {refs refs' fs : List ℕ} {p : Pool}

lemma Backs.perm (h : Backs refs p) (hp : refs.Perm refs') : Backs refs' p :=
  ⟨fun f => by rw [h.count_eq, hp.count_eq], fun f hf => h.used_of_mem f (hp.mem_iff.mpr hf)⟩

lemma Backs.not_mem_of_free (h : Backs refs p) (hf : p.used f = false) : f ∉ refs := by
  intro hmem
  rw [h.used_of_mem f hmem] at hf
  cases hf

theorem Backs.inc (h : Backs refs p) (hf : p.used f) (hroom : refs.count f + 1 < w) :
    Backs (f :: refs) (p.inc w f) := by
  refine ⟨fun g => ?_, forall_mem_cons.mpr ⟨hf, h.used_of_mem⟩⟩
  by_cases hgf : g = f
  · subst hgf
    simp only [Pool.inc, update_self, h.count_eq, count_cons_self]
    exact Nat.mod_eq_of_lt hroom
  · simp only [Pool.inc, update_of_ne hgf, h.count_eq, count_cons_of_ne (Ne.symm hgf)]

theorem Backs.incAll (h : Backs refs p) (hused : ∀ f ∈ fs, p.used f)
    (hroom : ∀ f ∈ fs, refs.count f + fs.count f < w) : Backs (fs ++ refs) (p.incAll w fs) := by
  induction fs generalizing refs p with
  | nil => exact h
  | cons g fs ih =>
    have hg : Backs (g :: refs) (p.inc w g) := by
      refine h.inc (hused g (by simp)) ?_
      have := hroom g (by simp)
      rw [count_cons_self] at this
      omega
    have := ih hg (fun f hf => hused f (by simp [hf])) fun f hf => by
      have := hroom f (by simp [hf])
      rw [count_cons] at this ⊢
      omega
    exact this.perm perm_middle

lemma Backs.dec (h : Backs (f :: refs) p) : Backs refs (p.dec f) := by
  refine ⟨fun g => ?_, fun g hg => h.used_of_mem g (by simp [hg])⟩
  by_cases hgf : g = f
  · subst hgf
    simp [Pool.dec, h.count_eq]
  · simp only [Pool.dec, update_of_ne hgf, h.count_eq, count_cons_of_ne (Ne.symm hgf)]

lemma Backs.release (h : Backs (f :: refs) p) : Backs refs (p.release f) := by
  have hdec := h.dec
  rw [Pool.release]
  split
  next hzero =>
    refine ⟨hdec.count_eq, fun g hg => ?_⟩
    -- a resource that is still referenced is not the one whose counter reached zero
    have hgf : g ≠ f := by
      rintro rfl
      rw [hdec.count_eq, count_eq_zero] at hzero
      exact hzero hg
    show update p.used f false g
    rw [update_of_ne hgf]
    exact hdec.used_of_mem g hg
  · exact hdec

lemma Backs.releaseAll (h : Backs (fs ++ refs) p) : Backs refs (p.releaseAll fs) := by
  induction fs generalizing p with
  | nil => exact h
  | cons g fs ih => exact ih h.release

/-- A handed-out resource that was free has no reference yet. -/
lemma Backs.alloc (h : Backs refs p) (f : ℕ) : Backs refs (p.alloc f) := by
  refine ⟨h.count_eq, fun g hg => ?_⟩
  show update p.used f true g
  rw [update_apply, h.used_of_mem g hg, ite_self]

lemma Backs.allocAll (h : Backs refs p) (fs : List ℕ) : Backs refs (p.allocAll fs) :=
  ⟨fun f => by rw [p.allocAll_count, h.count_eq],
    fun f hf => Pool.allocAll_used.mpr (.inr (h.used_of_mem f hf))⟩

/-- Resources that nobody refers to may be given back at will. -/
lemma Backs.freeAll (h : Backs refs p) (hfs : ∀ f ∈ fs, f ∉ refs) : Backs refs (p.freeAll fs) :=
  ⟨fun f => by rw [p.freeAll_count, h.count_eq],
    fun f hf => Pool.freeAll_used.mpr ⟨fun hmem => hfs f hmem hf, h.used_of_mem f hf⟩⟩

lemma Backs.claim (h : Backs refs p) (hf : p.used f = false) : Backs (f :: refs) (p.claim f) := by
  have hnot := h.not_mem_of_free hf
  refine ⟨fun g => ?_, forall_mem_cons.mpr ⟨p.alloc_used f, (h.alloc f).used_of_mem⟩⟩
  show update p.count f 1 g = _
  by_cases hgf : g = f
  · simp [hgf, count_eq_zero.mpr hnot]
  · rw [update_of_ne hgf, h.count_eq, count_cons_of_ne (Ne.symm hgf)]

end RefPool
