import Mathlib

/-!
# Queues in buckets

Elements `α` wait in queues, one for each key. `home` says where an element belongs, `none` if it
does not wait. `Homed` is the invariant of such a table: an element is only in its home queue, and
once. It is one-sided: an element may be missing from its home, since taking one out is how it is
served.
-/

namespace Buckets

open Function

variable {κ α : Type*}

/-- Every element is in its home queue only, and once. -/
structure Homed (home : α → Option κ) (q : κ → List α) : Prop where
  nodup : ∀ k, (q k).Nodup
  home : ∀ k, ∀ a ∈ q k, home a = some k

variable {home home' : α → Option κ} {q q' : κ → List α} {k : κ} {a : α}

lemma Homed.empty (home : α → Option κ) : Homed home fun _ => [] where
  nodup _ := List.nodup_nil
  home _ _ h := absurd h List.not_mem_nil

lemma Homed.not_mem (h : Homed home q) (ha : home a = none) (k : κ) : a ∉ q k := by
  intro hmem
  rw [h.home k a hmem] at ha
  cases ha

lemma Homed.not_mem_of_ne (h : Homed home q) (ha : a ∈ q k) {k' : κ} (hk : k' ≠ k) : a ∉ q k' := by
  intro hmem
  have hsome := (h.home k' a hmem).symm.trans (h.home k a ha)
  exact hk (Option.some.inj hsome)

/-- Elements leave their queues, and those that stay keep their home. -/
theorem Homed.shrink (h : Homed home q) (hq : ∀ k, (q' k).Sublist (q k))
    (hhome : ∀ k, ∀ a ∈ q' k, home' a = home a) : Homed home' q' where
  nodup k := (hq k).nodup (h.nodup k)
  home k a ha := (hhome k a ha).trans (h.home k a ((hq k).subset ha))

variable [DecidableEq κ]

theorem Homed.push (h : Homed home q) (hnot : ∀ k, a ∉ q k) (ha : home' a = some k)
    (hhome : ∀ b, b ≠ a → home' b = home b) : Homed home' (update q k (q k ++ [a])) := by
  have hold : ∀ k', ∀ b ∈ q k', home' b = some k' := by
    intro k' b hb
    rw [hhome b fun hba => hnot k' (hba ▸ hb)]
    exact h.home k' b hb
  refine ⟨(forall_update_iff q fun _ l => l.Nodup).mpr ⟨?_, fun k' _ => h.nodup k'⟩,
    (forall_update_iff q fun k' l => ∀ b ∈ l, home' b = some k').mpr ⟨?_, fun k' _ => hold k'⟩⟩
  · rw [← List.concat_eq_append]
    exact (h.nodup k).concat (hnot k)
  exact List.forall_mem_append.mpr ⟨hold k, List.forall_mem_singleton.mpr ha⟩

/-- A queue is taken off, and some of its elements enter another one, which may be the same. -/
theorem Homed.move (h : Homed home q) {src dst : κ} {moved : List α}
    (hmoved : moved.Sublist (q src)) (hdst : ∀ a ∈ moved, home' a = some dst)
    (hhome : ∀ k, k ≠ src → ∀ a ∈ q k, home' a = home a) :
    Homed home' (update (update q src []) dst (update q src [] dst ++ moved)) := by
  have hold : ∀ k, (update q src [] k).Nodup ∧
      ∀ a ∈ update q src [] k, a ∉ q src ∧ home' a = some k := by
    refine (forall_update_iff q fun k l => l.Nodup ∧ ∀ a ∈ l, a ∉ q src ∧ home' a = some k).mpr
      ⟨by simp, fun k hk => ⟨h.nodup k, fun a ha => ⟨h.not_mem_of_ne ha (Ne.symm hk), ?_⟩⟩⟩
    rw [hhome k hk a ha]
    exact h.home k a ha
  refine ⟨(forall_update_iff _ fun _ (l : List α) => l.Nodup).mpr ⟨?_, fun k _ => (hold k).1⟩,
    (forall_update_iff _ fun k l => ∀ a ∈ l, home' a = some k).mpr
      ⟨?_, fun k _ a ha => ((hold k).2 a ha).2⟩⟩
  · refine List.nodup_append.mpr ⟨(hold dst).1, hmoved.nodup (h.nodup src), ?_⟩
    rintro a ha b hb rfl
    exact ((hold dst).2 a ha).1 (hmoved.subset hb)
  exact List.forall_mem_append.mpr ⟨fun a ha => ((hold dst).2 a ha).2, hdst⟩

end Buckets
