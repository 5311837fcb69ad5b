import Astryx.Paging.Counts

/-!
# Copy-on-write isolation

A private leaf may be writable only while it is the one reference to its frame. `PageState.CowSafe`
says so of every leaf of a state. Since the counts are exact (`PageState.Inv`), a store through such
a leaf is seen by nobody else: `store_isolated`.

`fork` write-protects what it shares, the copy-on-write arm of the fault handler makes a leaf
writable only when it owns its frame, and a page of the cache is never mapped writable into a
private area. `mprotect` breaks the rule: it computes the writable bit from the requested protection
alone and looks at no count. The runs considered are those in which it grants write access to no
private leaf that shares its frame. A fork that fails halfway is left out as well: its child runs on
the parent's own page table, and the two share every page.
-/

namespace Astryx

open Function List Option PageState Transition

variable {s s' : PageState} {l : Leaf}

open RefPool

/-- An area without `MAP_SHARED` covers the page of the leaf. -/
def PageState.isPrivate (s : PageState) (l : Leaf) : Bool :=
  (s.areas l.pid).any fun a => a.contains l.va && !a.isShared

/-- No private leaf that is writable maps a frame with a second reference. -/
def PageState.CowSafe (s : PageState) : Prop :=
  ∀ l ∈ s.leaves, s.isPrivate l → l.writable → s.frames.count l.frame ≤ 1

lemma isPrivate_iff : s.isPrivate l ↔
    ∃ a ∈ s.areas l.pid, a.contains l.va ∧ a.isShared = false := by
  simp [isPrivate, List.any_eq_true]

/-! ## References to one frame -/

lemma two_le_count (h : s.Inv) {k : Leaf} (hk : k ∈ s.leaves) (hl : l ∈ s.leaves)
    (hne : k ≠ l) (hframe : k.frame = l.frame) : 2 ≤ s.frames.count l.frame := by
  obtain ⟨pre, post, hsplit⟩ := append_of_mem hl
  have hk' : k ∈ pre ++ post := by
    rw [hsplit, mem_append, mem_cons] at hk
    rw [mem_append]
    tauto
  rw [h.backs.count_eq, refs, (refs_perm_of_split hsplit _).count_eq, count_cons_self, count_append]
  have : 0 < ((pre ++ post).map Leaf.frame).count l.frame :=
    count_pos_iff.mpr (mem_map.mpr ⟨k, hk', hframe⟩)
  omega

variable {key : CacheKey} {vma : VmArea} {access : FaultAccess} {limit : ℕ}

/-- A leaf of a cached frame is not the only reference to it. -/
lemma two_le_count_of_cached (h : s.Inv)
    (hl : l ∈ s.leaves) (hkey : s.cached key = some l.frame) : 2 ≤ s.frames.count l.frame := by
  rw [h.backs.count_eq, (refs_perm_of_cached hkey).count_eq, count_cons_self, count_append]
  have : 0 < (s.leaves.map Leaf.frame).count l.frame := count_pos_iff.mpr (mem_map_of_mem hl)
  omega

variable {f pid addr parent : ℕ}

lemma frame_ne_of_free (h : s.Inv) (hl : l ∈ s.leaves) (hf : s.frames.used f = false) :
    l.frame ≠ f := fun heq =>
  h.backs.not_mem_of_free hf (heq ▸ mem_refs_of_leaf hl)

/-- **A store through a private mapping is seen by no other process.** -/
theorem store_isolated (h : s.Inv) (hcow : s.CowSafe) (hl : s.leafAt pid addr = some l)
    (hpriv : s.isPrivate l) (value : ℕ) {pid' : ℕ} (hpid : pid' ≠ pid) (addr' : ℕ) :
    (s.store pid addr value).read pid' addr' = s.read pid' addr' := by
  rw [PageState.store, hl]
  dsimp only
  split
  next hw =>
    obtain ⟨hlmem, hlpid, -⟩ := leafAt_spec hl
    have hone := hcow l hlmem hpriv hw
    refine map_congr fun k hk => ?_
    obtain ⟨hkmem, hkpid, -⟩ := leafAt_spec hk
    -- a leaf of another process that mapped the frame would be a second reference
    have hne : k.frame ≠ l.frame := fun heq => by
      have := two_le_count h hkmem hlmem (fun hkl => hpid (by rw [← hkpid, hkl, hlpid])) heq
      omega
    dsimp only
    simp [hne]
  · rfl

/-! ## One step -/

/-- A leaf was private before its area was cut into pieces. -/
lemma isPrivate_of_cut {g : VmArea → List VmArea}
    (hareas : s'.areas = update s.areas pid ((s.areas pid).flatMap g))
    (hg : ∀ a, ∀ b ∈ g a, a.CutFrom b) (h : s'.isPrivate l) : s.isPrivate l := by
  rw [isPrivate_iff, hareas] at h
  by_cases hp : l.pid = pid
  · rw [hp, update_self] at h
    obtain ⟨b, hb, hcont, hshared⟩ := h
    obtain ⟨a, ha, hba⟩ := mem_flatMap.mp hb
    have hcut := hg a b hba
    refine isPrivate_iff.mpr ⟨a, hp ▸ ha, hcut.inside _ hcont, ?_⟩
    rw [VmArea.isShared, ← hcut.flags]
    exact hshared
  · rw [update_of_ne hp] at h
    exact isPrivate_iff.mpr h

lemma cow_mapArea (h : s.Inv) (hcow : s.CowSafe) (hs : s.mapArea pid vma = some s') :
    s'.CowSafe := by
  rw [PageState.mapArea] at hs
  split_ifs at hs with hpage hover
  · cases hs
    exact hcow
  cases hs
  intro l hl hpriv hw
  refine hcow l hl ?_ hw
  rw [isPrivate_iff] at hpriv ⊢
  dsimp only at hpriv
  by_cases hp : l.pid = pid
  · rw [hp, update_self] at hpriv
    obtain ⟨a, ha, hcont, hshared⟩ := hpriv
    rcases Extents.mem_place.mp ha with rfl | ha
    · -- the new area holds no page that already has a leaf
      obtain ⟨-, -, b, hb, hbcont, -⟩ := h.covered l hl
      refine absurd (List.any_eq_true.mpr ⟨b, hp ▸ hb, ?_⟩) hover
      rw [contains_iff] at hcont hbcont
      have : a.endAddr = Word.add a.base a.length := rfl
      simp only [VmArea.overlaps, decide_eq_true_eq]
      omega
    · exact ⟨a, hp ▸ ha, hcont, hshared⟩
  · rw [update_of_ne hp] at hpriv
    exact hpriv

lemma cow_munmap (hcow : s.CowSafe) (pid addr length : ℕ) : (s.munmap pid addr length).CowSafe := by
  rw [PageState.munmap]
  split
  · exact hcow
  intro l hl hpriv hw
  have hold :=
    hcow l (mem_filter.mp hl).1 (isPrivate_of_cut rfl (fun a b => carve_cutFrom) hpriv) hw
  exact (Pool.releaseAll_count_le ..).trans hold

/-- `mprotect` asks for write access to no private leaf that shares its frame. -/
def PageState.MprotectSafe (s : PageState) (pid addr len prot : ℕ) : Prop :=
  len = 0 ∨ addr % 4096 ≠ 0 ∨ prot &&& protWrite = 0 ∨
    ∀ l ∈ s.leaves, l.pid = pid →
      walks (pageAlignDown addr) (pageAlignUp (Word.add addr len)) l.va → s.isPrivate l →
      s.frames.count l.frame ≤ 1

lemma cow_mprotect (hcow : s.CowSafe) {len prot : ℕ}
    (hsafe : s.MprotectSafe pid addr len prot) : (s.mprotect pid addr len prot).CowSafe := by
  rw [PageState.mprotect]
  split
  · exact hcow
  rename_i hargs
  intro l hl hpriv hw
  have hpriv := isPrivate_of_cut rfl (fun a b => retag_cutFrom) hpriv
  obtain ⟨k, hk, rfl⟩ := mem_map.mp hl
  rw [retagLeaf] at hpriv hw ⊢
  split at hpriv
  next hwalk =>
    rw [if_pos hwalk] at hw ⊢
    have hprot : prot &&& protWrite ≠ 0 := of_decide_eq_true hw
    have hshare : ∀ l ∈ s.leaves, l.pid = pid →
        walks (pageAlignDown addr) (pageAlignUp (Word.add addr len)) l.va → s.isPrivate l →
        s.frames.count l.frame ≤ 1 := by
      rcases hsafe with h | h | h | h
      · exact absurd (.inl h) hargs
      · exact absurd (.inr h) hargs
      · exact absurd h hprot
      · exact h
    exact hshare k hk hwalk.1 hwalk.2 hpriv
  next hwalk =>
    rw [if_neg hwalk] at hw ⊢
    exact hcow k hk hpriv hw

section

variable (h : s.Inv)

include h

/-- The area that `find_vma` gives for an address lies over its page, and is private if its leaf
is. -/
lemma isShared_of_findVma (hvma : findVma (s.areas pid) addr = some vma) (hpid : l.pid = pid)
    (hva : l.va = pageAlignDown addr) (hpriv : s.isPrivate l) : vma.isShared = false := by
  obtain ⟨hmem, hcont⟩ := mem_of_findVma hvma
  have hpage := contains_pageAlignDown ((h.agree pid).aligned vma hmem) hcont
  obtain ⟨a, ha, hacont, hshared⟩ := isPrivate_iff.mp hpriv
  rw [VmArea.isShared, ← ((h.agree l.pid).agree a ha vma (hpid ▸ hmem) l.va hacont (hva ▸ hpage)).1]
  exact hshared

lemma cow_anonFault (hcow : s.CowSafe) (hs : s.anonFault pid addr access f = some s') :
    s'.CowSafe := by
  rw [PageState.anonFault] at hs
  split at hs
  · cases hs
    exact hcow
  split_ifs at hs with hskip hfree
  · cases hs
    exact hcow
  cases hs
  rw [not_or, Bool.not_eq_true] at hfree
  intro l hl hpriv hw
  rcases mem_cons.mp hl with rfl | hl
  · exact (Pool.claim_count_self _ _).le
  · rw [Pool.claim_count_of_ne _ (frame_ne_of_free h hl hfree.1)]
    exact hcow l hl hpriv hw

lemma cow_fileFault (hcow : s.CowSafe) (hs : s.fileFault pid addr access f = some s') :
    s'.CowSafe := by
  rw [PageState.fileFault] at hs
  split at hs
  · cases hs
    exact hcow
  rename_i vma phys hacq
  obtain ⟨hvma, -, -, key, hkey⟩ := acquires_spec hacq
  -- the frame of the cache has the cache as a second owner
  have hother : ∀ l ∈ s.leaves, s.isPrivate l → l.writable → l.frame ≠ phys := by
    rintro l hl hpriv hw rfl
    have := two_le_count_of_cached h hl hkey
    have := hcow l hl hpriv hw
    omega
  split_ifs at hs with hlim hcopy hfree
  · cases hs
    rw [Bool.not_eq_true] at hfree
    intro l hl hpriv hw
    refine (Pool.dec_count_le ..).trans ?_
    rcases mem_cons.mp hl with rfl | hl
    · exact (Pool.claim_count_self _ _).le
    · rw [Pool.claim_count_of_ne _ (frame_ne_of_free h hl hfree),
        Pool.inc_count_of_ne _ (hother l hl hpriv hw)]
      exact hcow l hl hpriv hw
  cases hs
  intro l hl hpriv hw
  rcases mem_cons.mp hl with rfl | hl
  · refine absurd ⟨hw, ?_⟩ hcopy
    rw [isShared_of_findVma h hvma rfl rfl hpriv]
    rfl
  · rw [Pool.inc_count_of_ne _ (hother l hl hpriv hw)]
    exact hcow l hl hpriv hw

lemma cow_writeFault (hcow : s.CowSafe) (hs : s.writeFault pid addr f = some s') : s'.CowSafe := by
  rw [PageState.writeFault] at hs
  split at hs
  · cases hs
  split at hs
  · cases hs
    exact hcow
  rename_i l hl
  obtain ⟨-, hlpid, hlva⟩ := leafAt_spec hl
  dsimp only at hs
  split_ifs at hs with hro hflip hfree
  · cases hs
    exact hcow
  · cases hs
    intro k hk hpriv hw
    rcases mem_rewriteLeaf hl hk with hk | rfl
    · exact hcow k hk hpriv hw
    -- a private leaf is made writable in place only by its sole owner
    rcases hflip with hshared | hone
    · obtain ⟨vma, hvma, hvs⟩ := (Option.any_eq_true _ _).mp hshared
      have := isShared_of_findVma h hvma hlpid hlva hpriv
      rw [this] at hvs
      cases hvs
    · exact hone
  cases hs
  rw [Bool.not_eq_true] at hfree
  intro k hk hpriv hw
  refine (Pool.dec_count_le ..).trans ?_
  rcases mem_rewriteLeaf hl hk with hk | rfl
  · rw [Pool.claim_count_of_ne _ (frame_ne_of_free h hk hfree)]
    exact hcow k hk hpriv hw
  · exact (Pool.claim_count_self _ _).le

/-- A leaf that a fork leaves writable maps none of the frames it counts. -/
lemma count_incAll_of_not_counted
    (hl : l ∈ s.leaves) (hnot : ¬ s.forkCounts parent limit l) (hone : s.frames.count l.frame ≤ 1) :
    (s.frames.incAll refWidth (s.forkCounted parent limit)).count l.frame ≤ 1 := by
  rw [Pool.incAll_count_of_not_mem]
  · exact hone
  intro hmem
  obtain ⟨k, hk, hframe⟩ := mem_map.mp hmem
  obtain ⟨hk, hcounted⟩ := mem_filter.mp hk
  have := two_le_count h hk hl (fun hkl => hnot (hkl ▸ hcounted)) hframe
  omega

omit h in
/-- A leaf that is writable after the walk of a fork is as it was before, and not counted. -/
lemma forkProtect_of_writable (hw : (s.forkProtect parent limit l).writable) :
    ¬ s.forkCounts parent limit l ∧ s.forkProtect parent limit l = l := by
  rw [forkProtect] at hw ⊢
  split at hw
  · cases hw
  next hnot => exact ⟨hnot, if_neg hnot⟩

lemma cow_fork (hcow : s.CowSafe) {child : ℕ} (hs : s.fork parent child = some s') :
    s'.CowSafe := by
  rw [PageState.fork] at hs
  split_ifs at hs with hnew
  rw [not_or, not_or] at hnew
  obtain ⟨-, -, hnone⟩ := hnew
  cases hs
  intro l hl hpriv hw
  rcases mem_append.mp hl with hl | hl
  · -- the child's leaves are write-protected
    obtain ⟨k, hk, rfl⟩ := mem_map.mp hl
    obtain ⟨hk, hkp⟩ := mem_filter.mp hk
    obtain ⟨old, hold, rfl⟩ := mem_map.mp hk
    obtain ⟨hnot, heq⟩ := forkProtect_of_writable hw
    rw [heq] at hkp
    exact absurd ((forkCounts_eq h parent hold).trans hkp) hnot
  obtain ⟨k, hk, rfl⟩ := mem_map.mp hl
  obtain ⟨hnot, heq⟩ := forkProtect_of_writable hw
  rw [heq] at hpriv hw ⊢
  have hchild : k.pid ≠ child := fun hc => hnone (List.any_eq_true.mpr ⟨k, hk, decide_eq_true hc⟩)
  rw [isPrivate] at hpriv
  dsimp only at hpriv
  rw [update_of_ne hchild] at hpriv
  exact count_incAll_of_not_counted h hk hnot (hcow k hk hpriv hw)

lemma cow_cacheFill (hcow : s.CowSafe)
    {content : ℕ → ℕ} (hs : s.cacheFill key f content = some s') : s'.CowSafe := by
  rw [PageState.cacheFill] at hs
  split_ifs at hs with hfree
  rw [Bool.not_eq_true] at hfree
  cases hs
  intro l hl hpriv hw
  have hne := frame_ne_of_free h hl hfree
  have hins : (((s.frames.alloc f).inc refWidth f).inc refWidth f).count l.frame ≤ 1 := by
    rw [Pool.inc_count_of_ne _ hne, Pool.inc_count_of_ne _ hne]
    exact hcow l hl hpriv hw
  refine (Pool.dec_count_le ..).trans ?_
  split
  · exact (Pool.release_count_le ..).trans hins
  · exact hins

end

lemma cow_evict (hcow : s.CowSafe) (key : CacheKey) : (s.evict key).CowSafe := by
  rw [PageState.evict]
  split
  · exact hcow
  · exact fun l hl hpriv hw => (Pool.dec_count_le ..).trans (hcow l hl hpriv hw)

/-! ## Runs -/

/-- The step is `Counted`, and `mprotect` gives no write access to a shared private page. -/
def PageOp.Isolating (s : PageState) (op : PageOp) : Prop :=
  op.Counted s ∧ match op with
    | .mprotect pid addr len prot => s.MprotectSafe pid addr len prot
    | _ => True

instance (s : PageState) (pid addr len prot : ℕ) : Decidable (s.MprotectSafe pid addr len prot) :=
  inferInstanceAs (Decidable (_ ∨ _ ∨ _ ∨ ∀ l ∈ s.leaves, _ → _ → _ → _))

instance (s : PageState) (op : PageOp) : Decidable (op.Isolating s) := by
  induction op using PageOp.casesOn <;> dsimp only [PageOp.Isolating] <;> infer_instance

lemma pageStep_cowSafe {op : PageOp} (h : s.Inv) (hcow : s.CowSafe)
    (hok : op.Isolating s) (hs : pageStep s op = some s') : s'.CowSafe := by
  cases op with
  | mapArea pid vma => exact cow_mapArea h hcow hs
  | munmap pid addr length => exact some.inj hs ▸ cow_munmap hcow pid addr length
  | mprotect pid addr len prot => exact some.inj hs ▸ cow_mprotect hcow hok.2
  | anonFault pid addr access f => exact cow_anonFault h hcow hs
  | fileFault pid addr access f => exact cow_fileFault h hcow hs
  | writeFault pid addr f => exact cow_writeFault h hcow hs
  | fork parent child => exact cow_fork h hcow hs
  | forkOom parent limit => exact hok.1.elim
  | cacheFill key f content => exact cow_cacheFill h hcow hs
  | truncateRange mountIdx inode oldSize newSize =>
    cases hs
    exact fun l hl hpriv hw => (Pool.releaseAll_count_le ..).trans (hcow l hl hpriv hw)
  | evict key => exact some.inj hs ▸ cow_evict hcow key
  | store pid addr value =>
    rw [← some.inj hs, PageState.store]
    split
    · split <;> exact hcow
    · exact hcow

/-- **Copy-on-write isolation** in every state of every run whose steps are `Isolating`: no private
writable leaf shares its frame, and no store through a private mapping is seen by another
process. -/
theorem pageRun_isolated (used : ℕ → Bool) (mem : ℕ → ℕ → ℕ) (ops : List PageOp) (n : ℕ)
    (s : PageState) (hg : Guarded pageStep (fun s op => op.Isolating s) (init used mem) ops)
    (hrun : run pageStep (init used mem) (ops.take n) = some s) :
    (∀ l ∈ s.leaves, s.isPrivate l → l.writable → s.frames.count l.frame ≤ 1) ∧
      ∀ pid addr l, s.leafAt pid addr = some l → s.isPrivate l →
        ∀ value pid' addr', pid' ≠ pid →
          (s.store pid addr value).read pid' addr' = s.read pid' addr' := by
  have hinv : s.Inv ∧ s.CowSafe := by
    refine run_guarded (I := fun s => s.Inv ∧ s.CowSafe)
      (fun s op s' h hok hs => ⟨pageStep_inv h.1 hok.1 hs, pageStep_cowSafe h.1 h.2 hok hs⟩)
      ⟨init_inv used mem, nofun⟩
      (guarded_take hg n) hrun
  exact ⟨hinv.2, fun pid addr l hl hpriv value pid' addr' hpid =>
    store_isolated hinv.1 hinv.2 hl hpriv value hpid addr'⟩

/-- A page written before a fork, and copied by the child's first write after it. -/
def copyRun : List PageOp :=
  [.mapArea 1 ⟨0x10000000, 0x1000, protRead ||| protWrite, mapPrivate, .anonymous, .mmap⟩,
    .anonFault 1 0x10000000 .write 5, .store 1 0x10000000 1, .fork 1 2,
    .mprotect 1 0x10000000 0x1000 protRead, .writeFault 2 0x10000000 6, .store 2 0x10000000 2]

theorem pageRun_isolated_of_copy :
    ∃ s, run pageStep (init (fun _ => false) fun _ _ => 0) copyRun = some s ∧
      (∀ l ∈ s.leaves, s.isPrivate l → l.writable → s.frames.count l.frame ≤ 1) ∧
      s.read 1 0x10000000 = some 1 ∧ s.read 2 0x10000000 = some 2 :=
  ⟨_, rfl, (pageRun_isolated (fun _ => false) (fun _ _ => 0) copyRun 7 _ (by decide +kernel) rfl).1,
    by decide +kernel, by decide +kernel⟩

/-- After a fork the parent asks for write access again, and writes the child's page. -/
def regrantRun : List PageOp :=
  [.mapArea 1 ⟨0x10000000, 0x1000, protRead ||| protWrite, mapPrivate, .anonymous, .mmap⟩,
    .anonFault 1 0x10000000 .write 5, .store 1 0x10000000 1, .fork 1 2,
    .mprotect 1 0x10000000 0x1000 (protRead ||| protWrite)]

theorem regrant_breaks_isolation :
    ∃ s, run pageStep (init (fun _ => false) fun _ _ => 0) regrantRun = some s ∧
      (∃ l ∈ s.leaves, s.isPrivate l ∧ l.writable ∧ s.frames.count l.frame = 2) ∧
      s.read 2 0x10000000 = some 1 ∧ (s.store 1 0x10000000 9).read 2 0x10000000 = some 9 :=
  ⟨_, rfl, by decide +kernel, by decide +kernel, by decide +kernel⟩

end Astryx
