import Mathlib.Tactic.Common

/-!
# Runs of a transition system

A system is a partial step function `step : σ → α → Option σ` on states `σ` with labels `α`; a label
that is not enabled in a state gives `none`. Everything nondeterministic (which thread moves, which
free frame an allocator picks, what a user program passes to a system call) is part of the label, so
a run is a list of labels and can be evaluated.

Two rules cover the safety arguments. `run_invariant` is the plain one. `run_guarded` is the one for
a property that only holds while every step meets a side condition on the state it is taken in; the
condition is collected along the run by `Guarded`. A prefix of a guarded run is one
(`guarded_take`), so the property holds all along it.
-/

namespace Transition

variable {σ α : Type*}

/-- The state reached from `s` by the labels in order, `none` if one of them is not enabled. -/
def run (step : σ → α → Option σ) : σ → List α → Option σ
  | s, [] => some s
  | s, a :: as => (step s a).bind fun s' => run step s' as

/-- Every step of the run from `s` along the labels meets `ok` in the state it is taken in. -/
def Guarded (step : σ → α → Option σ) (ok : σ → α → Prop) : σ → List α → Prop
  | _, [] => True
  | s, a :: as => ok s a ∧ ∀ s', step s a = some s' → Guarded step ok s' as

variable {step : σ → α → Option σ} {ok : σ → α → Prop} {s t : σ}

@[simp] lemma run_nil : run step s [] = some s := rfl

@[simp] lemma run_cons (a : α) (as : List α) :
    run step s (a :: as) = (step s a).bind fun s' => run step s' as := rfl

lemma run_append (as bs : List α) :
    run step s (as ++ bs) = (run step s as).bind fun t => run step t bs := by
  induction as generalizing s with
  | nil => rfl
  | cons a as ih =>
    cases h : step s a with
    | none => simp [h]
    | some s' => simp [h, ih]

/-- A step that is enabled under a condition was taken under it. -/
lemma of_guard {p : Prop} [Decidable p] (h : (if p then some s else none) = some t) :
    p ∧ s = t := by
  simpa using h

lemma of_guard_not {p : Prop} [Decidable p] (h : (if p then none else some s) = some t) :
    ¬ p ∧ s = t := by
  simpa using h

/-- What an assignment to a table of entries leaves. -/
lemma eq_some_of_update {ι β : Type*} [DecidableEq ι] {f : ι → Option β} {i k : ι} {b c : β}
    (h : Function.update f i (some b) k = some c) : k = i ∧ c = b ∨ k ≠ i ∧ f k = some c := by
  by_cases hk : k = i
  · rw [hk, Function.update_self] at h
    exact .inl ⟨hk, (Option.some.inj h).symm⟩
  · rw [Function.update_of_ne hk] at h
    exact .inr ⟨hk, h⟩

lemma of_guard_map {β : Type*} {f : β → σ} {o : Option β} {p : Prop} [Decidable p]
    (h : (if p then o.map f else none) = some t) : p ∧ ∃ b, o = some b ∧ f b = t := by
  simpa using h

/-- A property of an outcome, by evaluation. -/
lemma exists_of_decide {β : Type*} {o : Option β} {p : β → Prop} [DecidablePred p]
    (h : o.any (fun b => decide (p b))) : ∃ b, o = some b ∧ p b := by
  cases o with
  | none => cases h
  | some b => exact ⟨b, rfl, of_decide_eq_true h⟩

@[simp] lemma guarded_nil : Guarded step ok s [] := trivial

/-- The guard of a run can be evaluated when the guard of a step can. -/
instance decidableGuarded [∀ s a, Decidable (ok s a)] :
    ∀ (s : σ) (as : List α), Decidable (Guarded step ok s as)
  | _, [] => isTrue trivial
  | s, a :: as =>
    match hs : step s a with
    | none => decidable_of_iff (ok s a)
        ⟨fun h => ⟨h, fun s' hs' => by rw [hs] at hs'; cases hs'⟩, fun h => h.1⟩
    | some s' =>
      haveI := decidableGuarded s' as
      decidable_of_iff (ok s a ∧ Guarded step ok s' as)
        ⟨fun h => ⟨h.1, fun t ht => by rw [hs] at ht; cases ht; exact h.2⟩, fun h =>
          ⟨h.1, h.2 s' hs⟩⟩

/-- A run whose labels meet the condition in every state is guarded. -/
lemma guarded_of_forall {as : List α} (h : ∀ a ∈ as, ∀ s, ok s a) : Guarded step ok s as := by
  induction as generalizing s with
  | nil => trivial
  | cons a as ih => exact ⟨h a List.mem_cons_self s, fun _ _ => ih fun b hb => h b (by simp [hb])⟩

/-- A counter that no step moves on by more than one stays below a bound along every run that is no
longer. -/
lemma guarded_of_count {count : σ → ℕ} {N : ℕ} {as : List α}
    (hstep : ∀ s a s', step s a = some s' → count s' ≤ count s + 1)
    (h : count s + as.length ≤ N) : Guarded step (fun s _ => count s < N) s as := by
  induction as generalizing s with
  | nil => trivial
  | cons a as ih =>
    rw [List.length_cons] at h
    refine ⟨by omega, fun s' hs' => ih ?_⟩
    have hcount := hstep s a s' hs'
    omega

theorem guarded_take {as : List α} (hg : Guarded step ok s as) (n : ℕ) :
    Guarded step ok s (as.take n) := by
  induction as generalizing s n with
  | nil => simp
  | cons a as ih =>
    cases n with
    | zero => trivial
    | succ n => exact ⟨hg.1, fun s' hs' => ih (hg.2 s' hs') n⟩

/-- **The guarded invariant rule.** A property that holds initially and is preserved by every step
meeting `ok` holds at the end of every run whose steps all meet `ok`. -/
theorem run_guarded {I : σ → Prop} (hstep : ∀ s a s', I s → ok s a → step s a = some s' → I s')
    {as : List α} (hs : I s) (hg : Guarded step ok s as) (hrun : run step s as = some t) : I t := by
  induction as generalizing s with
  | nil =>
    cases hrun
    exact hs
  | cons a as ih =>
    rw [run_cons, Option.bind_eq_some_iff] at hrun
    obtain ⟨s', hs', hrest⟩ := hrun
    exact ih (hstep s a s' hs hg.1 hs') (hg.2 s' hs') hrest

/-- The unguarded rule: a property preserved by every step holds along every run. -/
theorem run_invariant {I : σ → Prop} (hstep : ∀ s a s', I s → step s a = some s' → I s')
    {as : List α} (hs : I s) (hrun : run step s as = some t) : I t := by
  have hg : Guarded step (fun _ _ => True) s as := guarded_of_forall fun _ _ _ => trivial
  exact run_guarded (fun s a s' h _ => hstep s a s' h) hs hg hrun

end Transition
