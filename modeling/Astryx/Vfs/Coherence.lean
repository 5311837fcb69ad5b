import Astryx.Vfs.PathCache

/-!
# The cache agrees with the directories

Resolvers and mutators run on any number of CPUs without a common lock. A resolver takes the
generation, asks the filesystem for the child and for its type, and inserts the outcome. A mutator
invalidates its key, changes the binding in the filesystem, and invalidates the key again; `rename`
does so for two keys.

What a resolver saw can only be outdated by a mutator that changed the binding afterwards. That
mutator had invalidated the key before the resolver took the generation, or the insertion is
dropped; and it has still to invalidate it again, or the insertion is dropped too. So behind every
outdated entry stands a mutator that has changed the binding and not yet swept the key.

## Main results

* `cacheRun_coherent` — that is so under every interleaving
-/

namespace Astryx.Vfs

open Transition Function List Option

/-- The bindings of a filesystem: child and type of a name in a directory. -/
abbrev Bindings := Key → Option (ℕ × FileType)

/-- What a cache is to say of a binding. -/
def outcome : Option (ℕ × FileType) → Cached
  | none => .negative
  | some (child, ftype) => .positive child ftype

/-! ## Mutators -/

/-- The calls that change bindings; `open` with `O_CREAT` is `createFile`. -/
inductive MutOp where
  | createFile (k : Key)
  | mkdir (k : Key)
  | symlink (k : Key)
  | remove (k : Key)
  | rename (old new : Key)
  deriving DecidableEq, Repr

namespace MutOp

/-- The keys that the call invalidates, in order, before and after the change. -/
def keys : MutOp → List Key
  | createFile k | mkdir k | symlink k | remove k => [k]
  | rename old new => [old, new]

/-- A name that is not bound is bound. -/
def bind (k : Key) (ino : ℕ) (ftype : FileType) (b : Bindings) : Option Bindings :=
  if b k = none then some (update b k (some (ino, ftype))) else none

/-- The change in the filesystem; `none` is an error. A new object gets the number `ino`. -/
def apply (op : MutOp) (ino : ℕ) (b : Bindings) : Option Bindings :=
  match op with
  | createFile k => bind k ino .regularFile b
  | mkdir k => bind k ino .directory b
  | symlink k => bind k ino .symLink b
  | remove k => if b k = none then none else some (update b k none)
  | rename old new =>
    match b old with
    | none => none
    | some child => some (if old = new then b else update (update b old none) new (some child))

end MutOp

/-! ## Agents -/

/-- Where a thread is. -/
inductive Agent where
  | idle
  /-- A resolver that has taken the generation. -/
  | snapped (g : ℕ) (k : Key)
  /-- A resolver that has found the child. -/
  | looked (g : ℕ) (k : Key) (child : ℕ)
  /-- A resolver about to insert. -/
  | ready (g : ℕ) (k : Key) (value : Cached)
  /-- A mutator that has invalidated the first `n` of its keys. -/
  | opened (op : MutOp) (n : ℕ)
  /-- A mutator that has changed the bindings and invalidated the first `n` of its keys again. -/
  | mutated (op : MutOp) (n : ℕ)

namespace Agent

/-- The agent has changed the binding and has still to invalidate the key. -/
def Sweeps (k : Key) : Agent → Prop
  | mutated op n => k ∈ op.keys.drop n
  | _ => False

/-- The agent is a mutator of the key between its two invalidations. -/
def Brackets (k : Key) : Agent → Prop
  | opened op n => k ∈ op.keys.take n
  | mutated op n => k ∈ op.keys.drop n
  | _ => False

end Agent

/-- The cache, the filesystem and the threads. -/
structure CacheSystem where
  cache : PathCache
  fs : Bindings
  agents : ℕ → Agent

/-- One atomic step of the agent on a CPU. -/
inductive CacheOp where
  /-- A resolver misses and takes the generation. -/
  | resolve (k : Key)
  | lookup
  /-- `fs.stat` of the child; `none` is an error. -/
  | stat (result : Option FileType)
  | insert
  /-- A resolver gives up, on any error of the filesystem. -/
  | giveUp
  | start (op : MutOp)
  | invalidate
  /-- The call of the filesystem; it may fail for reasons of its own. -/
  | mutate (ino : ℕ) (fails : Bool)

/-- As long as the key is bound to the child, its type is the one that `stat` returns. -/
def statAllowed (b : Option (ℕ × FileType)) (child : ℕ) (result : Option FileType) : Bool :=
  match b, result with
  | some (child', ftype), some ftype' => child' ≠ child || ftype' = ftype
  | _, _ => true

/-- The next section of a thread. -/
def cacheStep (s : CacheSystem) (x : ℕ × CacheOp) : Option CacheSystem :=
  let move (a : Agent) : CacheSystem := { s with agents := update s.agents x.1 a }
  match s.agents x.1, x.2 with
  | .idle, .resolve k => some (move (.snapped s.cache.generation k))
  | .snapped g k, .lookup =>
    match s.fs k with
    | none => some (move (.ready g k .negative))
    | some (child, _) => some (move (.looked g k child))
  | .looked g k child, .stat result =>
    if statAllowed (s.fs k) child result then
      match result with
      | some ftype => some (move (.ready g k (.positive child ftype)))
      | none => some (move .idle)
    else none
  | .ready g k value, .insert => some { move .idle with cache := s.cache.insert g k value }
  | .snapped .., .giveUp => some (move .idle)
  | .looked .., .giveUp => some (move .idle)
  | .idle, .start op => some (move (.opened op 0))
  | .opened op n, .invalidate =>
    match op.keys[n]? with
    | some k => some { move (.opened op (n + 1)) with cache := s.cache.invalidate k }
    | none => none
  | .opened op n, .mutate ino fails =>
    if n < op.keys.length then none
    else
      match (if fails then none else op.apply ino s.fs) with
      | some fs => some { move (.mutated op 0) with fs := fs }
      | none => some (move .idle)
  | .mutated op n, .invalidate =>
    match op.keys[n]? with
    | some k =>
      some { move (if n + 1 < op.keys.length then .mutated op (n + 1) else .idle) with
        cache := s.cache.invalidate k }
    | none => none
  | _, _ => none

/-! ## The invariant -/

/-- A mutator that has changed the binding of the key has still to invalidate it. -/
def CacheSystem.Swept (s : CacheSystem) (k : Key) : Prop := ∃ i, (s.agents i).Sweeps k

/-- What a resolver carries is right at its generation, up to keys that will be swept. -/
def Agent.Fits (gen : ℕ) (fs : Bindings) (swept : Key → Prop) : Agent → Prop
  | snapped g _ => g ≤ gen
  | looked g k child => g ≤ gen ∧ (g = gen → (∃ ftype, fs k = some (child, ftype)) ∨ swept k)
  | ready g k value => g ≤ gen ∧ (g = gen → value = outcome (fs k) ∨ swept k)
  | _ => True

/-- What holds in every state. -/
structure CacheInv (s : CacheSystem) : Prop where
  entries : ∀ k v, s.cache.map k = some v → v = outcome (s.fs k) ∨ s.Swept k
  agents : ∀ i, (s.agents i).Fits s.cache.gen s.fs s.Swept

namespace Agent

variable {gen : ℕ} {fs fs' : Bindings} {swept swept' : Key → Prop} {a : Agent}

/-- Bindings change only where they will be swept. -/
lemma Fits.change (h : a.Fits gen fs swept) (hfs : ∀ k, fs' k = fs k ∨ swept' k)
    (hswept : ∀ k, swept k → swept' k) : a.Fits gen fs' swept' := by
  cases a with
  | looked g k child | ready g k value =>
    refine ⟨h.1, fun hg => ?_⟩
    obtain heq | hs := hfs k
    · rw [heq]
      exact (h.2 hg).imp_right (hswept k)
    · exact .inr hs
  | snapped => exact h
  | _ => trivial

/-- After an invalidation nothing that a resolver carries can be inserted. -/
lemma Fits.bump (h : a.Fits gen fs swept) (fs' : Bindings) (swept' : Key → Prop) :
    a.Fits (gen + 1) fs' swept' := by
  cases a with
  | looked g k child | ready g k value =>
    have hle := h.1
    exact ⟨by omega, fun hg => by omega⟩
  | snapped g k => exact Nat.le_succ_of_le h
  | _ => trivial

end Agent

section Steps

variable {s : CacheSystem} {i : ℕ} {a : Agent} {k : Key}

/-- The keys to be swept stay so when one agent moves on without losing any. -/
lemma swept_update (hkeep : (s.agents i).Sweeps k → a.Sweeps k) (h : s.Swept k) :
    ∃ j, (update s.agents i a j).Sweeps k := by
  obtain ⟨j, hj⟩ := h
  by_cases hij : j = i
  · exact ⟨i, by rw [update_self]; exact hkeep (hij ▸ hj)⟩
  · exact ⟨j, by rw [update_of_ne hij]; exact hj⟩

lemma fits_update {gen : ℕ} {fs : Bindings} {swept : Key → Prop}
    (h : ∀ j, (s.agents j).Fits gen fs swept) (ha : a.Fits gen fs swept) (j : ℕ) :
    (update s.agents i a j).Fits gen fs swept :=
  (forall_update_iff s.agents fun _ a => a.Fits gen fs swept).mpr ⟨ha, fun j _ => h j⟩ j

/-- A resolver moves on, or a mutator starts or fails. -/
lemma CacheInv.move (h : CacheInv s) (hold : ∀ k, ¬ (s.agents i).Sweeps k)
    (ha : a.Fits s.cache.gen s.fs s.Swept) : CacheInv { s with agents := update s.agents i a } := by
  have hswept : ∀ k, s.Swept k →
      ∃ j, (update s.agents i a j).Sweeps k := fun k => swept_update fun hs => absurd hs (hold k)
  refine ⟨fun k v hv => (h.entries k v hv).imp_right (hswept k), ?_⟩
  refine fits_update (fun j => (h.agents j).change (fun k => .inl rfl) hswept)
    (ha.change (fun k => .inl rfl) hswept)

lemma CacheInv.insert (h : CacheInv s) {g : ℕ} {value : Cached}
    (hi : s.agents i = .ready g k value) :
    CacheInv { s with cache := s.cache.insert g k value, agents := update s.agents i .idle } := by
  have hready := h.agents i
  rw [hi] at hready
  have hswept : ∀ k, s.Swept k → ∃ j, (update s.agents i .idle j).Sweeps k :=
    fun k => swept_update fun hs => by rw [hi] at hs; exact hs.elim
  refine ⟨fun k' v hv => ?_, ?_⟩
  · obtain hold | ⟨hgen, rfl, rfl⟩ := PathCache.insert_map hv
    · exact (h.entries k' v hold).imp_right (hswept k')
    · exact (hready.2 hgen.symm).imp_right (hswept k')
  · rw [PathCache.insert_gen]
    exact fits_update (fun j => (h.agents j).change (fun k => .inl rfl) hswept) trivial

/-- A mutator invalidates a key; it has then no more to sweep at this key. -/
lemma CacheInv.invalidate (h : CacheInv s) (hkeep : ∀ k' ≠ k, (s.agents i).Sweeps k' → a.Sweeps k')
    (hroom : s.cache.gen < 2 ^ 64 - 1)
    (ha : a.Fits (s.cache.gen + 1) s.fs fun k => ∃ j, (update s.agents i a j).Sweeps k) :
    CacheInv { s with cache := s.cache.invalidate k, agents := update s.agents i a } := by
  refine ⟨fun k' v hv => ?_, ?_⟩
  · have hne : k' ≠ k := by
      rintro rfl
      rw [PathCache.invalidate_map_self] at hv
      cases hv
    exact (h.entries k' v
      (PathCache.removeKey_map (c := { s.cache with gen := Word.add s.cache.gen 1 }) hv)).imp_right
        (swept_update (hkeep k' hne))
  · rw [PathCache.invalidate_gen, Word.add_eq (by omega)]
    exact fits_update (fun j => (h.agents j).bump _ _) ha

lemma CacheInv.mutate (h : CacheInv s) {op : MutOp} {n : ℕ} (hi : s.agents i = .opened op n)
    {fs : Bindings} (hfs : ∀ k, k ∉ op.keys → fs k = s.fs k) :
    CacheInv { s with fs := fs, agents := update s.agents i (.mutated op 0) } := by
  have hswept : ∀ k, s.Swept k → ∃ j, (update s.agents i (.mutated op 0) j).Sweeps k :=
    fun k => swept_update fun hs => by rw [hi] at hs; exact hs.elim
  have hchange : ∀ k, fs k = s.fs k ∨ ∃ j, (update s.agents i (.mutated op 0) j).Sweeps k := by
    intro k
    by_cases hk : k ∈ op.keys
    · refine .inr ⟨i, ?_⟩
      rw [update_self]
      exact hk
    · exact .inl (hfs k hk)
  refine ⟨fun k v hv => ?_, fits_update (fun j => (h.agents j).change hchange hswept) trivial⟩
  obtain heq | hs := hchange k
  · dsimp only
    rw [heq]
    exact (h.entries k v hv).imp_right (hswept k)
  · exact .inr hs

end Steps

lemma MutOp.apply_of_notMem {op : MutOp} {ino : ℕ} {b b' : Bindings}
    (h : op.apply ino b = some b') {k : Key} (hk : k ∉ op.keys) : b' k = b k := by
  have hbind : ∀ {k₀ : Key} {ftype : FileType}, bind k₀ ino ftype b = some b' → k ≠ k₀ →
      b' k = b k := by
    intro k₀ ftype hb hne
    obtain ⟨-, rfl⟩ := of_guard hb
    exact update_of_ne hne ..
  cases op with
  | createFile k₀ | mkdir k₀ | symlink k₀ => exact hbind h (ne_of_not_mem_cons hk)
  | remove k₀ =>
    obtain ⟨-, rfl⟩ := of_guard_not h
    exact update_of_ne (ne_of_not_mem_cons hk) ..
  | rename old new =>
    rw [keys, mem_cons, mem_singleton, not_or] at hk
    rw [apply] at h
    split at h
    · cases h
    cases h
    split
    · rfl
    · simp [hk.2, hk.1]

lemma cacheStep_inv {s s' : CacheSystem} {x : ℕ × CacheOp} (h : CacheInv s)
    (hroom : s.cache.gen < 2 ^ 64 - 1) (hstep : cacheStep s x = some s') : CacheInv s' := by
  have hx := h.agents x.1
  rw [cacheStep] at hstep
  split at hstep <;> rename_i hagent _
  · -- a resolver takes the generation
    cases hstep
    exact h.move (by simp [hagent, Agent.Sweeps]) le_rfl
  · -- it asks for the child
    rw [hagent] at hx
    split at hstep <;> rename_i hfs
    · cases hstep
      exact h.move (by simp [hagent, Agent.Sweeps]) ⟨hx, fun _ => .inl (by rw [hfs]; rfl)⟩
    · cases hstep
      exact h.move (by simp [hagent, Agent.Sweeps]) ⟨hx, fun _ => .inl ⟨_, hfs⟩⟩
  · -- and for its type, which is the current one if the child is
    rw [hagent] at hx
    split at hstep
    next hallowed =>
      split at hstep
      next ftype _ =>
        cases hstep
        refine h.move (by simp [hagent, Agent.Sweeps])
          ⟨hx.1, fun hg => (hx.2 hg).imp_left fun ⟨ftype', hfs⟩ => ?_⟩
        rw [hfs, statAllowed] at hallowed
        rw [hfs]
        have htype : ftype = ftype' := by simpa using hallowed
        rw [htype]
        rfl
      · cases hstep
        exact h.move (by simp [hagent, Agent.Sweeps]) trivial
    · cases hstep
  · cases hstep
    exact h.insert hagent
  · cases hstep
    exact h.move (by simp [hagent, Agent.Sweeps]) trivial
  · cases hstep
    exact h.move (by simp [hagent, Agent.Sweeps]) trivial
  · cases hstep
    exact h.move (by simp [hagent, Agent.Sweeps]) trivial
  · -- a mutator invalidates a key before its change
    split at hstep
    · cases hstep
      exact h.invalidate (fun k' _ hs => by rw [hagent] at hs; exact hs.elim) hroom trivial
    · cases hstep
  · -- it calls the filesystem
    split at hstep
    · cases hstep
    split at hstep <;> rename_i hcall
    · cases hstep
      split at hcall
      · cases hcall
      · exact h.mutate hagent fun k => MutOp.apply_of_notMem hcall
    · cases hstep
      exact h.move (by simp [hagent, Agent.Sweeps]) trivial
  · -- it invalidates a key after its change
    split at hstep
    next k hk =>
      cases hstep
      refine h.invalidate (fun k' hne hs => ?_) hroom ?_
      · rw [hagent, Agent.Sweeps] at hs
        have hlt := (List.getElem?_eq_some_iff.mp hk).1
        have hget := (List.getElem?_eq_some_iff.mp hk).2
        rw [drop_eq_getElem_cons hlt, hget, mem_cons] at hs
        have hmem := hs.resolve_left hne
        rw [if_pos]
        · exact hmem
        by_contra hlast
        rw [drop_eq_nil_of_le (not_lt.mp hlast)] at hmem
        exact not_mem_nil hmem
      · split <;> trivial
    · cases hstep
  · cases hstep

lemma cacheStep_gen (s : CacheSystem) (x : ℕ × CacheOp) (s' : CacheSystem)
    (hstep : cacheStep s x = some s') : s'.cache.gen ≤ s.cache.gen + 1 := by
  have hadd : Word.add s.cache.gen 1 ≤ s.cache.gen + 1 := Nat.mod_le ..
  rw [cacheStep] at hstep
  grind [PathCache.insert_gen, PathCache.invalidate_gen]

/-- The cache is empty and all threads idle. -/
def CacheSystem.initial (fs : Bindings) : CacheSystem := ⟨.new, fs, fun _ => .idle⟩

/-- Under every interleaving of resolvers and mutators on any number of CPUs, every entry of the
cache is the current binding of its key, or a mutator of that very key is between its two
invalidations; in fewer steps than it takes the generation to come round. -/
theorem cacheRun_coherent (fs : Bindings) (ops : List (ℕ × CacheOp)) (s : CacheSystem)
    (hshort : ops.length < 2 ^ 64) (hrun : run cacheStep (.initial fs) ops = some s) (k : Key)
    (v : Cached) (hv : s.cache.lookup k = some v) :
    v = outcome (s.fs k) ∨ ∃ i, (s.agents i).Brackets k := by
  have hinit : CacheInv (.initial fs) := by
    refine ⟨fun k v hv => ?_, fun i => trivial⟩
    cases hv
  have hroom : Guarded cacheStep (fun s _ => s.cache.gen < 2 ^ 64 - 1) (.initial fs) ops := by
    refine guarded_of_count cacheStep_gen ?_
    simp only [CacheSystem.initial, PathCache.new]
    omega
  have hinv : CacheInv s := run_guarded (fun _ _ _ => cacheStep_inv) hinit hroom hrun
  refine (hinv.entries k v hv).imp_right fun ⟨i, hi⟩ => ⟨i, ?_⟩
  generalize s.agents i = a at hi ⊢
  cases a with
  | mutated op n => exact hi
  | _ => exact hi.elim

/-- A name that is created while a resolver looks for it: the resolver inserts what it saw inside
the bracket. -/
def creation (k : Key) : List (ℕ × CacheOp) :=
  [(0, .start (.createFile k)), (0, .invalidate), (1, .resolve k), (1, .lookup),
    (0, .mutate 5 false), (1, .insert)]

theorem cacheRun_coherent_of_creation :
    ∃ s, run cacheStep (.initial fun _ => none) (creation ⟨0, 1, ['x']⟩) = some s ∧
      s.cache.lookup ⟨0, 1, ['x']⟩ = some .negative ∧ s.fs ⟨0, 1, ['x']⟩ = some (5, .regularFile) ∧
      ∃ i, (s.agents i).Brackets ⟨0, 1, ['x']⟩ := by
  obtain ⟨s, hrun, hs⟩ :
    ∃ s, run cacheStep (.initial fun _ => none) (creation ⟨0, 1, ['x']⟩) = some s ∧
      s.cache.lookup ⟨0, 1, ['x']⟩ = some .negative ∧ s.fs ⟨0, 1, ['x']⟩ = some (5, .regularFile) :=
    exists_of_decide (by decide +kernel)
  have hcoherent := cacheRun_coherent (fun _ => none)
    (creation ⟨0, 1, ['x']⟩) s (by decide) hrun ⟨0, 1, ['x']⟩ .negative hs.1
  refine ⟨s, hrun, hs.1, hs.2, hcoherent.resolve_left ?_⟩
  rw [hs.2]
  exact nofun

end Astryx.Vfs
