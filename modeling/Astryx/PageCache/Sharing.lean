import Astryx.PageCache.Faults

/-!
# One frame for each shared page

All mappings of a page see each other's stores, and `read` sees them too, if every page table entry
names the frame in the cache. An entry is installed with the frame that the cache had a moment ago,
so this holds as long as a page stays in the cache, in its frame, while an entry names it or a fault
is about to install it. That is all that is asked: the code itself replaces the frame of a page when
two faults miss it at the same time, and drops pages that are mapped.
-/

namespace Astryx.PageCache

open Function List Option State Transition

/-- Byte `i` of the page as the mapping at `place` sees it. -/
def load (s : State) (place i : ℕ) : Option UInt8 := (s.pte place).map fun frame => s.mem frame i

/-- Byte `i` of the page as `read` returns it: the frame in the cache goes before the inode. -/
def readByte (s : State) (key : Key) (i : ℕ) : UInt8 :=
  match s.cache key with
  | some frame => s.mem frame i
  | none => readPage s key i

variable (l : Layout)

/-- Two entries for one page name the same frame, which is the one in the cache, and so show the
same bytes as `read`. -/
def Shared (s : State) : Prop :=
  ∀ p q f g, l.backing p = l.backing q → s.pte p = some f → s.pte q = some g →
    f = g ∧ s.cache (l.backing p) = some f ∧
      ∀ i, load s p i = load s q i ∧ load s p i = some (readByte s (l.backing p) i)

/-- The place and the frame of a fault that is about to install it. -/
def Phase.holding : Phase → Option (ℕ × ℕ)
  | hit place frame | installing place frame _ => some (place, frame)
  | writingBack _ _ next => next.holding
  | _ => none

/-- The pages that the step takes out of their frames, if they are in the cache. -/
def leaves (s : State) : Event → Key → Bool
  | .advance t, key =>
    match s.threads t with
    | .inserting ((place, _) :: _) => key = l.backing place
    | .discarding place frame _ => key = l.backing place ∧ s.cache key = some frame
    | .truncating file oldSize newSize => Dropped file oldSize newSize key
    | _ => false
  | .evict _ key', key => key = key'
  | _, _ => false

/-- A page leaves its frame only while no entry names it and no fault is about to install it. -/
def Settled (s : State) (ev : Event) : Prop :=
  (∀ p < l.places, leaves l s ev (l.backing p) → s.pte p = none) ∧
    ∀ t < l.threads, ∀ h ∈ (s.threads t).holding, ¬ leaves l s ev (l.backing h.1)

instance decidableSettled (s : State) (ev : Event) : Decidable (Settled l s ev) := by
  dsimp only [Settled]
  infer_instance

/-- The places that a thread is busy with. -/
def Phase.places : Phase → List ℕ
  | faulting place | hit place _ => [place]
  | reading _ todo got => todo ++ got.map Prod.fst
  | inserting got => got.map Prod.fst
  | installing place _ rest | discarding place _ rest => place :: rest.map Prod.fst
  | writingBack _ _ next => next.places
  | _ => []

/-- A thread is one of those there are and keeps to the places there are, and what it holds is in
the cache. -/
structure Phase.Ok (s : State) (t : ℕ) (p : Phase) : Prop where
  started : p ≠ .idle → t < l.threads
  placed : ∀ q ∈ p.places, q < l.places
  held : ∀ q f, p.holding = some (q, f) → s.cache (l.backing q) = some f

/-- What holds in every state. -/
structure Inv (s : State) : Prop where
  mapped : ∀ p f, s.pte p = some f → p < l.places ∧ s.cache (l.backing p) = some f
  threads : ∀ t, (s.threads t).Ok l s t

variable {l} {s s' : State} {ev : Event} {t : ℕ} {p : Phase}

/-- A thread that has nothing to do with any place. -/
lemma Phase.Ok.away (hstart : p ≠ .idle → t < l.threads) (hplaces : p.places = [])
    (hholding : p.holding = none) : p.Ok l s t where
  started := hstart
  placed := fun q hq => by rw [hplaces] at hq; cases hq
  held := fun q f hq => by rw [hholding] at hq; cases hq

lemma Phase.Ok.idle : Phase.idle.Ok l s t := .away (fun h => absurd rfl h) rfl rfl

lemma inv_boot (l : Layout) : Inv l boot where
  mapped := nofun
  threads := fun _ => .idle

lemma Inv.shared (h : Inv l s) : Shared l s := by
  intro p q f g hpq hp hq
  have hcache := (h.mapped p f hp).2
  obtain rfl : f = g := by
    have := (h.mapped q g hq).2
    rw [← hpq, hcache] at this
    exact some.inj this
  refine ⟨rfl, hcache, fun i => ⟨?_, ?_⟩⟩
  · rw [load, load, hp, hq]
  · rw [load, hp, readByte, hcache]
    rfl

section

variable (h : Inv l s) (hok : Settled l s ev)
  (hcache : ∀ key f, s.cache key = some f → s'.cache key = some f ∨ leaves l s ev key)

include h hok hcache

/-- What a step has to show: the cache loses only pages that leave, and what is new in it is
right. -/
lemma Inv.next
    (hpte : ∀ p f, s'.pte p = some f → s.pte p = some f ∨ p < l.places ∧
      s'.cache (l.backing p) = some f)
    (hthreads : ∀ t, s'.threads t = s.threads t ∨ (s'.threads t).Ok l s' t) : Inv l s' where
  mapped := fun p f hp => by
    rcases hpte p f hp with hold | hnew
    · obtain ⟨hlt, hc⟩ := h.mapped p f hold
      refine ⟨hlt, (hcache _ f hc).resolve_right fun hl => ?_⟩
      rw [hok.1 p hlt hl] at hold
      cases hold
    · exact hnew
  threads := fun t => by
    rcases hthreads t with hsame | hnew
    · have hold := h.threads t
      rw [hsame]
      refine ⟨hold.started, hold.placed, fun q f hq => ?_⟩
      refine (hcache _ f (hold.held q f hq)).resolve_right ?_
      have hlt : t < l.threads := hold.started fun hidle => by rw [hidle] at hq; cases hq
      exact hok.2 t hlt (q, f) hq
    · exact hnew

omit h hok hcache in
lemma moved (hthreads : s'.threads = update s.threads t p) (hp : p.Ok l s' t) :
    ∀ u, s'.threads u = s.threads u ∨ (s'.threads u).Ok l s' u := by
  rw [hthreads]
  exact (forall_update_iff s.threads fun u q => q = s.threads u ∨ q.Ok l s' u).mpr
    ⟨.inr hp, fun _ _ => .inl rfl⟩

lemma Inv.move (hpte : s'.pte = s.pte) (hthreads : s'.threads = update s.threads t p)
    (hp : p.Ok l s' t) : Inv l s' :=
  h.next hok hcache (fun _ _ hq => .inl (hpte ▸ hq)) (moved hthreads hp)

end

lemma nextInsert_holding (got : List (ℕ × ℕ)) : (nextInsert got).holding = none := by
  cases got <;> rfl

lemma nextInsert_places (got : List (ℕ × ℕ)) : (nextInsert got).places = got.map Prod.fst := by
  cases got <;> rfl

lemma Phase.Ok.nextInsert (hp : p.Ok l s t) (hne : p ≠ .idle) {got : List (ℕ × ℕ)}
    (hsub : got.map Prod.fst ⊆ p.places) : (nextInsert got).Ok l s' t where
  started := fun _ => hp.started hne
  placed := fun q hq => hp.placed q (hsub (nextInsert_places got ▸ hq))
  held := fun q f hq => by rw [nextInsert_holding] at hq; cases hq

section

variable (s : State) (key : Key) (frame : ℕ)

lemma insert_cache : (insert s key frame).1.cache = update s.cache key (some frame) := by
  rw [insert]
  split <;> rfl

lemma insert_pte : (insert s key frame).1.pte = s.pte := by
  rw [insert]
  split <;> rfl

lemma insert_threads : (insert s key frame).1.threads = s.threads := by
  rw [insert]
  split <;> rfl

lemma evictIfPhys_pte : (evictIfPhys s key frame).pte = s.pte := by
  rw [evictIfPhys]
  split <;> rfl

lemma evictIfPhys_threads : (evictIfPhys s key frame).threads = s.threads := by
  rw [evictIfPhys]
  split <;> rfl

end

/-- A page found to be absent is installed in the frame the cache has for it. -/
lemma Inv.install (h : Inv l s) (hok : Settled l s ev) {place frame : ℕ}
    (hheld : (s.threads t).holding = some (place, frame)) (hplace : place ∈ (s.threads t).places)
    (hcache : s'.cache = s.cache) (hpte : s'.pte = update s.pte place (some frame))
    (hthreads : s'.threads = update s.threads t p) (hp : p.Ok l s' t) : Inv l s' := by
  refine h.next hok (fun key f hf => .inl (hcache ▸ hf)) (fun q f hq => ?_) (moved hthreads hp)
  rw [hpte] at hq
  obtain ⟨rfl, rfl⟩ | ⟨-, hq⟩ := eq_some_of_update hq
  · exact .inr ⟨(h.threads t).placed q hplace, hcache ▸ (h.threads t).held q f hheld⟩
  · exact .inl hq

lemma advance_inv (h : Inv l s) (hok : Settled l s (.advance t)) (hs : advance l s t = some s') :
    Inv l s' := by
  have hold := h.threads t
  rw [advance] at hs
  split at hs
  · next place frame ht =>
    split at hs
    · cases hs
      exact h.install hok (by rw [ht]; rfl)
        (by rw [ht]; exact mem_singleton_self _) rfl rfl rfl .idle
    · cases hs
      exact h.move hok (fun _ _ hf => .inl hf) rfl rfl .idle
  · next first place todo got ht =>
    rw [ht] at hold
    have hstart := hold.started nofun
    split at hs
    · cases hs
      refine h.move hok (fun _ _ hf => .inl hf) rfl rfl ⟨fun _ => hstart, fun q hq => ?_, nofun⟩
      exact hold.placed q (mem_cons_of_mem place hq)
    cases hs
    refine h.move hok (fun _ _ hf => .inl hf) rfl rfl ⟨fun _ => hstart, fun q hq => ?_, nofun⟩
    refine hold.placed q ?_
    simp only [Phase.places, map_append, map_cons, map_nil, mem_append, mem_cons, not_mem_nil,
      or_false] at hq ⊢
    rcases hq with hq | hq | hq
    · exact .inl (.inr hq)
    · exact .inr hq
    · exact .inl (.inl hq)
  · next first got ht =>
    cases hs
    rw [ht] at hold
    exact h.move hok (fun _ _ hf => .inl hf) rfl rfl (hold.nextInsert nofun fun _ => id)
  · next place frame rest ht =>
    cases hs
    rw [ht] at hold
    -- Whatever frame the page was in, nobody knows of it.
    refine h.move hok (fun key f hf => ?_) ?_ ?_
      (p := (insert (s.refInc frame) (l.backing place) frame).2.elim
      (.installing place frame rest) fun old =>
        .writingBack (l.backing place) old (.installing place frame rest))
      ⟨fun _ => hold.started nofun, fun q hq => ?_, fun q f hq => ?_⟩
    · by_cases hk : key = l.backing place
      · exact .inr (by simpa [leaves, ht] using hk)
      refine .inl ?_
      simp only [setThread, insert_cache]
      rw [update_of_ne hk]
      exact hf
    · exact insert_pte ..
    · simp only [setThread, insert_threads]
      rfl
    · refine hold.placed q ?_
      cases hr : (insert (s.refInc frame) (l.backing place) frame).2 <;> rw [hr] at hq <;> exact hq
    have hqf : place = q ∧ frame = f := by
      cases hr : (insert (s.refInc frame) (l.backing place) frame).2 <;> rw [hr] at hq <;>
        exact Prod.mk.inj (some.inj hq)
    obtain ⟨rfl, rfl⟩ := hqf
    simp only [setThread, insert_cache]
    exact update_self ..
  · next place frame rest ht =>
    rw [ht] at hold
    split at hs
    · cases hs
      refine h.install hok (by rw [ht]; rfl) (by rw [ht]; exact mem_cons_self) rfl rfl rfl ?_
      exact hold.nextInsert nofun fun q => mem_cons_of_mem place
    cases hs
    exact h.move hok (fun _ _ hf => .inl hf) rfl rfl
      ⟨fun _ => hold.started nofun, hold.placed, nofun⟩
  · next place frame rest ht =>
    cases hs
    rw [ht] at hold
    refine h.move hok (fun key f hf => ?_)
      (evictIfPhys_pte ..) ?_ (hold.nextInsert nofun fun q => mem_cons_of_mem place)
    · by_cases hk : key = l.backing place ∧ s.cache key = some frame
      · exact .inr (by simpa [leaves, ht] using hk)
      refine .inl ?_
      simp only [setThread, refDec, evictIfPhys]
      split
      · next hc =>
        have hne : key ≠ l.backing place := fun heq => hk ⟨heq, heq ▸ hc⟩
        exact (update_of_ne hne _ _).trans hf
      · exact hf
    · simp only [setThread, refDec, evictIfPhys_threads]
  · cases hs
    exact h.move hok (fun _ _ hf => .inl hf) rfl rfl .idle
  · next file oldSize newSize ht =>
    cases hs
    refine h.move hok (fun key f hf => ?_) rfl rfl .idle
    by_cases hk : Dropped file oldSize newSize key
    · exact .inr (by simpa [leaves, ht] using hk)
    · exact .inl ((if_neg hk).trans hf)
  · next key frame next ht =>
    cases hs
    rw [ht] at hold
    have hsame : (writebackFrame s key frame).cache = s.cache ∧
      (writebackFrame s key frame).pte = s.pte ∧
        (writebackFrame s key frame).threads = s.threads := by
      rw [writebackFrame]
      split <;> exact ⟨rfl, rfl, rfl⟩
    refine h.move hok (p := next) (fun key f hf => .inl ?_) hsame.2.1 ?_
      ⟨fun _ => hold.started nofun, hold.placed, fun q f hq => ?_⟩
    · exact (congrFun hsame.1 key).trans hf
    · simp only [setThread, hsame.2.2]
    · exact (congrFun hsame.1 _).trans (hold.held q f hq)
  · cases hs

theorem step_inv (h : Inv l s) (hok : Settled l s ev) (hs : step l s ev = some s') : Inv l s' := by
  cases ev with
  | fault t place =>
    obtain ⟨hc, rfl⟩ := of_guard hs
    refine h.move hok (fun _ _ hf => .inl hf) rfl rfl ⟨fun _ => hc.1, fun q hq => ?_, nofun⟩
    rw [mem_singleton.mp hq]
    exact hc.2.1
  | lookup t window =>
    simp only [step] at hs
    split at hs
    · next place ht =>
      have hold := h.threads t
      rw [ht] at hold
      obtain ⟨hw, hs⟩ := Option.ite_none_right_eq_some.mp hs
      rw [lookupAndAcquire] at hs
      cases hc : s.cache (l.backing place) with
      | some frame =>
        rw [hc] at hs
        cases hs
        refine h.move hok (fun _ _ hf => .inl hf) rfl rfl
          ⟨fun _ => hold.started nofun, hold.placed, fun q f hq => ?_⟩
        obtain ⟨rfl, rfl⟩ := Prod.mk.inj (some.inj hq)
        exact hc
      | none =>
        rw [hc] at hs
        cases hs
        refine h.move hok (fun _ _ hf => .inl hf) rfl rfl
          ⟨fun _ => hold.started nofun, fun q hq => ?_, nofun⟩
        simp only [Phase.places, map_nil, append_nil] at hq
        rcases mem_cons.mp hq with rfl | hq
        · exact hold.placed q (mem_singleton_self q)
        · exact hw q hq
    · cases hs
  | stop t =>
    simp only [step] at hs
    split at hs
    · next first todo got ht =>
      have hold := h.threads t
      rw [ht] at hold
      cases hs
      exact h.move hok (fun _ _ hf => .inl hf) rfl rfl
        (hold.nextInsert nofun fun q => mem_append_right todo)
    · cases hs
  | advance t => exact advance_inv h hok hs
  | store place i byte =>
    simp only [step] at hs
    split at hs
    · obtain ⟨-, rfl⟩ := of_guard hs
      exact h.next hok (fun _ _ hf => .inl hf) (fun _ _ hp => .inl hp) fun _ => .inl rfl
    · cases hs
  | clear place =>
    simp only [step] at hs
    split at hs
    · cases hs
      refine h.next hok (fun _ _ hf => .inl hf) (fun p f hp => .inl ?_) fun _ => .inl rfl
      by_cases hpp : p = place
      · simp [setPte, refDec, hpp] at hp
      · simpa [setPte, refDec, hpp] using hp
    · cases hs
  | write t file offset bytes | truncate t file newSize =>
    obtain ⟨hc, rfl⟩ := of_guard hs
    exact h.move hok (fun _ _ hf => .inl hf) rfl rfl (.away (fun _ => hc.1) rfl rfl)
  | evict t key =>
    obtain ⟨hc, hs⟩ := Option.ite_none_right_eq_some.mp hs
    split at hs
    · cases hs
      refine h.move hok (fun key' f hf => ?_) rfl rfl (.away (fun _ => hc.1) rfl rfl)
      by_cases hk : key' = key
      · exact .inr (decide_eq_true hk)
      · exact .inl ((update_of_ne hk _ _).trans hf)
    · cases hs
      exact h

theorem shared_of_guarded {evs : List Event} (hg : Guarded (step l) (Settled l) boot evs)
    (hs : run (step l) boot evs = some s) : Shared l s := by
  have hinv : Inv l s := run_guarded (fun _ _ _ => step_inv) (inv_boot l) hg hs
  exact hinv.shared

/-- Two threads, each with a mapping of the first page of the same file. -/
def pair : Layout := ⟨fun _ => (0, 0), 2, 2⟩

/-- The file gets a byte, so that its first page is below the end. -/
def grow : List Event := [.write 0 0 0 [7], .advance 0]

/-- What a thread does after a miss: it reads the page, inserts the frame and installs it. -/
def missed (t : ℕ) : List Event := [.advance t, .advance t, .advance t, .advance t]

theorem shared_of_guarded_pair : ∃ s,
    run (step pair) boot (grow ++ [.fault 0 0, .lookup 0 []] ++ missed 0 ++
      [.fault 1 1, .lookup 1 [], .advance 1, .store 0 0 9]) = some s ∧ load s 1 0 = some 9 ∧
        Shared pair s := by
  have hg : Guarded (step pair) (Settled pair) boot
    (grow ++ [.fault 0 0, .lookup 0 []] ++ missed 0 ++
      [.fault 1 1, .lookup 1 [], .advance 1, .store 0 0 9]) := by
    decide
  exact ⟨_, rfl, rfl, shared_of_guarded hg rfl⟩

/-- Both threads miss the page before either has inserted it. -/
theorem not_shared_of_two_misses : ∃ s,
    run (step pair) boot
      (grow ++ [.fault 0 0, .lookup 0 [], .fault 1 1, .lookup 1 []] ++ missed 0 ++
      missed 1) = some s ∧ 0 < s.size 0 ∧ s.pte 0 = some 0 ∧ s.pte 1 = some 1 ∧
        ¬ Shared pair s := by
  refine ⟨_, rfl, by decide, rfl, rfl, fun h => ?_⟩
  have hsame := (h 0 1 0 1 rfl rfl rfl).1
  cases hsame

end Astryx.PageCache
