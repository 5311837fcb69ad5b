import Astryx.Lib.Transition
import Astryx.Lib.Word
import Astryx.Vfs.Mounts

/-!
# The path cache

`vfs::path_cache` remembers what a directory lookup gave: the child and its type, or that there is
none. One lock guards it, so every function is one step. An invalidation counts up a generation, and
an insertion is dropped when the generation has moved since its snapshot.

The nested map is a function of the key; `count` and the insertion order are kept beside it as in
the source. The statistics are left out.
-/

namespace Astryx.Vfs

open Function

/-- `PATH_CACHE_CAP` -/
def pathCacheCap : ℕ := 4096

/-- What is known of a name. -/
inductive Cached where
  | negative
  | positive (child : ℕ) (ftype : FileType)
  deriving DecidableEq, Repr

/-- A name in a directory of a mount. -/
structure Key where
  mount : ℕ
  dir : ℕ
  name : Text
  deriving DecidableEq, Repr

/-- `Inner`. -/
structure PathCache where
  map : Key → Option Cached
  count : ℕ
  fifo : List Key
  gen : ℕ

namespace PathCache

/-- The cache at boot. -/
def new : PathCache := ⟨fun _ => none, 0, [], 0⟩

variable (c : PathCache)

/-- An entry is removed. -/
def removeKey (k : Key) : PathCache :=
  if (c.map k).isSome then { c with map := update c.map k none, count := c.count - 1 } else c

/-- The loop of `compact` on what is left of the insertion order. -/
def compactLoop : List Key → PathCache → PathCache
  | [], c => { c with fifo := [] }
  | k :: rest, c =>
    if pathCacheCap < c.count ∨ 2 * pathCacheCap < rest.length + 1
      then compactLoop rest (c.removeKey k)
    else { c with fifo := k :: rest }

/-- Entries are dropped from the oldest on, down to the cap. -/
def compact : PathCache := compactLoop c.fifo c

/-- What is known of a key. -/
def lookup (k : Key) : Option Cached := c.map k

/-- The number of invalidations so far. -/
def generation : ℕ := c.gen

/-- Inserts, unless something was invalidated since the snapshot. -/
def insert (genSnapshot : ℕ) (k : Key) (value : Cached) : PathCache :=
  if c.gen ≠ genSnapshot then c
  else if (c.map k).isNone then
    { c with
      map := update c.map k (some value), count := c.count + 1, fifo := c.fifo ++ [k] }.compact
  else { c with map := update c.map k (some value) }

/-- Removes an entry and counts the invalidation. -/
def invalidate (k : Key) : PathCache := { c with gen := Word.add c.gen 1 }.removeKey k

/-! ## What the functions leave -/

variable {c} {k k' : Key} {v v' : Cached}

@[simp] lemma removeKey_gen (c : PathCache) (k : Key) : (c.removeKey k).gen = c.gen := by
  rw [removeKey]
  split <;> rfl

@[simp] lemma removeKey_map_self (c : PathCache) (k : Key) : (c.removeKey k).map k = none := by
  rw [removeKey]
  split
  · exact update_self ..
  next h => exact Option.not_isSome_iff_eq_none.mp h

lemma removeKey_map (h : (c.removeKey k).map k' = some v) : c.map k' = some v := by
  rw [removeKey] at h
  split at h
  · dsimp only at h
    by_cases hk : k' = k
    · rw [hk, update_self] at h
      cases h
    · rwa [update_of_ne hk] at h
  · exact h

/-- Eviction only takes entries out. -/
lemma compactLoop_spec (q : List Key) (c : PathCache) :
    (compactLoop q c).gen = c.gen ∧ ∀ k v, (compactLoop q c).map k = some v → c.map k = some v := by
  induction q generalizing c with
  | nil => exact ⟨rfl, fun _ _ h => h⟩
  | cons k rest ih =>
    rw [compactLoop]
    split
    · have h := ih (c.removeKey k)
      exact ⟨h.1.trans (removeKey_gen c k), fun k' v hv => removeKey_map (h.2 k' v hv)⟩
    · exact ⟨rfl, fun _ _ h => h⟩

@[simp] lemma insert_gen (c : PathCache) (g : ℕ) (k : Key) (v : Cached) :
    (c.insert g k v).gen = c.gen := by
  rw [insert]
  split
  · rfl
  split
  · exact (compactLoop_spec _ _).1
  · rfl

/-- What is in the cache after an insertion was there before, or is the new entry at the current
generation. -/
lemma insert_map {g : ℕ} (h : (c.insert g k v).map k' = some v') :
    c.map k' = some v' ∨ c.gen = g ∧ k' = k ∧ v' = v := by
  have hupdate : update c.map k (some v) k' = some v' → c.map k' = some v' ∨ k' = k ∧ v' = v := by
    intro hmap
    exact (Transition.eq_some_of_update hmap).symm.imp_left And.right
  rw [insert] at h
  split at h
  · exact .inl h
  rename_i hgen
  rw [not_not] at hgen
  split at h
  · exact (hupdate ((compactLoop_spec _ _).2 k' v' h)).imp_right fun hnew => ⟨hgen, hnew⟩
  · exact (hupdate h).imp_right fun hnew => ⟨hgen, hnew⟩

@[simp] lemma invalidate_gen (c : PathCache) (k : Key) :
    (c.invalidate k).gen = Word.add c.gen 1 := removeKey_gen ..

@[simp] lemma invalidate_map_self (c : PathCache) (k : Key) :
    (c.invalidate k).map k = none := removeKey_map_self ..

end PathCache

end Astryx.Vfs
