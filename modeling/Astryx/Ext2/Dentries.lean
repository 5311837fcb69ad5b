import Astryx.Lib.Transition

/-!
# Lookups against a removal

`lookup` asks the dentry cache, scans the directory if the cache has nothing, and puts what the scan
found into the cache. `remove` takes the name out of the directory and then out of the cache. A
lookup that scanned before the removal puts the name back after the eviction, and whoever asks later
is answered from the cache. The model has one directory and one name of it.

## Main results

* `lookup_notFound_of_removed` — if no lookup is between its scan and the cache when the name is
  evicted, later ones find nothing
* `lookup_finds_removed` — a lookup that does finds the removed file
-/

namespace Astryx.Ext2

open Transition Function

/-- How far a call of `lookup` is: it has not asked yet, the cache had nothing, the scan found an
inode, or it has returned. -/
inductive Lookup
  | start
  | missed
  | found (child : ℕ)
  | returned (result : Option ℕ)
deriving DecidableEq

/-- `remove` up to `remove_dir_entry`, up to `dentry_cache_evict_parent`, and after it. -/
inductive Removal
  | pending
  | unlinked
  | evicted

/-- The inode of the name in the directory and in `dentry_map`, and the calls on the name. -/
structure DentryState where
  entry : Option ℕ
  cached : Option ℕ
  removal : Removal
  lookups : ℕ → Lookup

namespace DentryState

/-- The next section of a lookup. -/
def lookup (s : DentryState) (i : ℕ) : Option DentryState :=
  match s.lookups i with
  | .start =>
    some { s with
      lookups := update s.lookups i (s.cached.elim .missed fun child => .returned (some child)) }
  | .missed => some { s with lookups := update s.lookups i (s.entry.elim (.returned none) .found) }
  -- `dentry_cache_insert` drops the oldest entry of a full map, and then this one is in it
  | .found child =>
    some { s with cached := some child, lookups := update s.lookups i (.returned (some child)) }
  | .returned _ => none

/-- The next section of the removal. -/
def remove (s : DentryState) : Option DentryState :=
  match s.removal with
  | .pending => some { s with entry := none, removal := .unlinked }
  | .unlinked => some { s with cached := none, removal := .evicted }
  | .evicted => none

/-- A step of a lookup, or of the removal. -/
def step (s : DentryState) : Option ℕ → Option DentryState
  | some i => s.lookup i
  | none => s.remove

/-- No lookup is between its scan and the cache when the name is evicted. -/
def Quiet (s : DentryState) (a : Option ℕ) : Prop :=
  a = none → s.removal = .unlinked → ∀ i child, s.lookups i ≠ .found child

/-- Call `i` does nothing before the removal is over. -/
def After (i : ℕ) (s : DentryState) (a : Option ℕ) : Prop := a = some i → s.removal = .evicted

/-- What the removal has taken away stays away, and call `i` does not find it. -/
structure Gone (i : ℕ) (s : DentryState) : Prop where
  entry : s.removal ≠ .pending → s.entry = none
  cached : s.removal = .evicted → s.cached = none ∧ ∀ j child, s.lookups j ≠ .found child
  late : ∀ child, s.lookups i ≠ .returned (some child)

variable {s s' : DentryState} {i j : ℕ} {a : Option ℕ}

lemma Gone.advance (h : Gone i s) {l : Lookup}
    (hfound : s.removal = .evicted → ∀ child, l ≠ .found child)
    (hlate : i = j → ∀ child, l ≠ .returned (some child)) :
    Gone i { s with lookups := update s.lookups j l } where
  entry := h.entry
  cached hev :=
    ⟨(h.cached hev).1, (forall_update_iff s.lookups fun _ l => ∀ child, l ≠ Lookup.found child).mpr
    ⟨hfound hev, fun k _ => (h.cached hev).2 k⟩⟩
  late child := by
    dsimp only
    rw [update_apply]
    split
    next heq => exact hlate heq child
    next => exact h.late child

lemma step_gone (h : Gone i s) (hok : s.Quiet a ∧ After i s a) (hs : s.step a = some s') :
    Gone i s' := by
  cases a with
  | some j =>
    have hev (heq : i = j) : s.removal = .evicted := hok.2 (heq ▸ rfl)
    rw [step, lookup] at hs
    split at hs
    next =>
      cases hs
      refine h.advance (fun _ => ?_) fun heq => ?_
      · cases s.cached <;> nofun
      · rw [(h.cached (hev heq)).1]
        nofun
    next =>
      cases hs
      refine h.advance (fun hev => ?_) fun _ => ?_
      · rw [h.entry (by rw [hev]; nofun)]
        nofun
      · cases s.entry <;> nofun
    next child hfound =>
      have hnot (hev : s.removal = .evicted) : False := (h.cached hev).2 j child hfound
      cases hs
      have hmoved := h.advance (j := j) (l := .returned (some child))
        (fun hev => (hnot hev).elim) fun heq => (hnot (hev heq)).elim
      exact ⟨h.entry, fun hev => (hnot hev).elim, hmoved.late⟩
    next => cases hs
  | none =>
    rw [step, remove] at hs
    split at hs
    next =>
      cases hs
      exact ⟨fun _ => rfl, nofun, h.late⟩
    next hunlinked =>
      cases hs
      exact ⟨fun _ => h.entry (by rw [hunlinked]; nofun), fun _ =>
        ⟨rfl, hok.1 rfl hunlinked⟩, h.late⟩
    next => cases hs

/-- A lookup that starts after the removal finds nothing. -/
theorem lookup_notFound_of_removed (s t : DentryState) (schedule : List (Option ℕ))
    (hinit : s.removal = .pending) (i : ℕ) (hstart : s.lookups i = .start)
    (hok : Guarded step (fun s a => s.Quiet a ∧ After i s a) s schedule)
    (hrun : run step s schedule = some t) (result : Option ℕ)
    (hresult : t.lookups i = .returned result) : result = none := by
  have hfirst : Gone i s := ⟨fun h => absurd hinit h, by simp [hinit], by simp [hstart]⟩
  have hgone := run_guarded (fun _ _ _ => step_gone) hfirst hok hrun
  exact Option.eq_none_iff_forall_ne_some.mpr fun child heq => hgone.late child (heq ▸ hresult)

/-- The file is there and nobody has looked. -/
def unseen (child : ℕ) : DentryState := ⟨some child, none, .pending, fun _ => .start⟩

theorem lookup_notFound_of_turns :
    ∃ t, run step (unseen 12) [some 1, some 1, some 1, none, none, some 2, some 2] = some t ∧
    ∃ result, t.lookups 2 = .returned result ∧ result = none := by
  refine ⟨_, rfl, none, rfl, lookup_notFound_of_removed (unseen 12) _
    [some 1, some 1, some 1, none, none, some 2, some 2] rfl 2 rfl
    ?_ rfl none rfl⟩
  simp [Guarded, Quiet, After, step, lookup, remove, unseen, update_apply, ite_eq_iff]

/-- Call 1 has scanned when the name is removed; call 2 starts after the removal. -/
theorem lookup_finds_removed :
    (run step (unseen 12) [some 1, some 1, none, none, some 1, some 2]).map
    (fun t => (t.entry, t.lookups 2)) = some (none, .returned (some 12)) := by
  decide

end DentryState

end Astryx.Ext2
