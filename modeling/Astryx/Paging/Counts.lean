import Astryx.Lib.Transition
import Astryx.Paging.State

/-!
# Reference counts are exact

Every reference to a frame is a present leaf or an entry of the page cache; `PageState.refs` lists
them. `PageState.Inv` says that the counts are exact for that list and that every frame in it is in
use, so that no frame named by a leaf or by the cache is ever free.

Two side facts about the areas carry the induction. Areas that share an address agree on their flags
and on whether they are device memory, and every leaf lies in an area that is not device memory.
Without the second, `fork` would copy a leaf without counting it.

The counts are 16 bits wide and `page_ref_inc` wraps, so a step that takes references needs room for
them. A fork that fails halfway has counted leaves for a table that nobody will ever release.
Nothing else can go wrong below the trampoline page, whatever arguments the calls are given;
`munmap` and `mprotect` of a range that is not below it are left out (`PageOp.Counted`).
-/

namespace Astryx

open Function List Option PageState Extents Transition

variable {s s' : PageState} {areas : List VmArea} {access : FaultAccess}

open RefPool

/-! ## The invariant -/

/-- Areas begin at pages, and those that share an address agree on how its page is shared. -/
structure AreasAgree (areas : List VmArea) : Prop where
  aligned : ∀ a ∈ areas, a.base % 4096 = 0
  agree : ∀ a ∈ areas, ∀ b ∈ areas, ∀ addr, a.contains addr → b.contains addr →
    a.flags = b.flags ∧ a.backing.isDevice = b.backing.isDevice

/-- All references to frames: leaves and cache entries. -/
def PageState.refs (s : PageState) : List ℕ := s.leaves.map Leaf.frame ++ s.cache.map Prod.snd

/-- The leaf is a page of ordinary memory of its process. -/
def PageState.Covered (s : PageState) (l : Leaf) : Prop :=
  l.va < userVaLimit ∧ l.va % 4096 = 0 ∧
    ∃ a ∈ s.areas l.pid, a.contains l.va ∧ a.backing.isDevice = false

/-- What every step preserves. -/
structure PageState.Inv (s : PageState) : Prop where
  backs : Backs s.refs s.frames
  agree : ∀ pid, AreasAgree (s.areas pid)
  covered : ∀ l ∈ s.leaves, s.Covered l
  /-- The cache holds a frame for one file page only. -/
  cacheFrames : (s.cache.map Prod.snd).Nodup

lemma PageState.init_inv (used : ℕ → Bool) (mem : ℕ → ℕ → ℕ) : (init used mem).Inv := by
  refine ⟨⟨fun f => rfl, ?_⟩, fun pid => ⟨?_, ?_⟩, ?_, ?_⟩ <;> simp [init, refs]

variable {l : Leaf} {f base pid addr parent n : ℕ} {key : CacheKey} {vma : VmArea}

lemma mem_refs_of_leaf (h : l ∈ s.leaves) : l.frame ∈ s.refs := mem_append_left _ (mem_map_of_mem h)

lemma mem_refs_of_cached (h : s.cached key = some f) : f ∈ s.refs := by
  obtain ⟨e, he, rfl⟩ := map_eq_some_iff.mp h
  exact mem_append_right _ (mem_map_of_mem (mem_of_find?_eq_some he))

/-! ## Areas -/

section

variable (h : AreasAgree areas)

include h

/-- Replacing every area by pieces cut from it keeps the areas in agreement. -/
lemma AreasAgree.flatMap {g : VmArea → List VmArea}
    (hg : ∀ a ∈ areas, ∀ b ∈ g a, a.CutFrom b ∧ (a.base % 4096 = 0 → b.base % 4096 = 0)) :
    AreasAgree (areas.flatMap g) := by
  refine ⟨fun b hb => ?_, fun b hb c hc addr hbaddr hcaddr => ?_⟩
  · obtain ⟨a, ha, hba⟩ := mem_flatMap.mp hb
    exact (hg a ha b hba).2 (h.aligned a ha)
  obtain ⟨a, ha, hba⟩ := mem_flatMap.mp hb
  obtain ⟨d, hd, hcd⟩ := mem_flatMap.mp hc
  have hab := (hg a ha b hba).1
  have hdc := (hg d hd c hcd).1
  obtain ⟨hflags, hdev⟩ := h.agree a ha d hd addr (hab.inside addr hbaddr) (hdc.inside addr hcaddr)
  exact ⟨by rw [hab.flags, hdc.flags, hflags], by rw [hab.device, hdc.device, hdev]⟩

/-- An area that overlaps no other shares no address with them. -/
lemma AreasAgree.place {x : VmArea} (hpage : x.base % 4096 = 0)
    (hx : ∀ a ∈ areas, ¬ a.overlaps x.base x.length) : AreasAgree (place VmArea.base x areas) := by
  have hsep : ∀ a ∈ areas, ∀ addr, a.contains addr → ¬ x.contains addr := by
    intro a ha addr haddr hxaddr
    rw [contains_iff] at haddr hxaddr
    refine hx a ha ?_
    simp only [VmArea.overlaps, decide_eq_true_eq]
    have : x.endAddr = Word.add x.base x.length := rfl
    omega
  refine ⟨fun a ha => ?_, fun a ha b hb addr haddr hbaddr => ?_⟩
  · rcases mem_place.mp ha with rfl | ha
    · exact hpage
    · exact h.aligned a ha
  rcases mem_place.mp ha with rfl | ha'
  · rcases mem_place.mp hb with rfl | hb'
    · exact ⟨rfl, rfl⟩
    · exact absurd haddr (hsep b hb' addr hbaddr)
  rcases mem_place.mp hb with rfl | hb'
  · exact absurd hbaddr (hsep a ha' addr haddr)
  · exact h.agree a ha' b hb' addr haddr hbaddr

/-- Removing a page-aligned range cuts areas at pages. -/
lemma AreasAgree.carve {length : ℕ} (hb : base % 4096 = 0) (hl : length % 4096 = 0) :
    AreasAgree (areas.flatMap (carve base length)) := by
  refine h.flatMap fun a _ b hbmem => ⟨carve_cutFrom hbmem, fun ha => ?_⟩
  rcases carve_base hbmem with heq | heq
  · rw [heq, ha]
  · rw [heq, Word.add]
    omega

/-- So does retagging one. -/
lemma AreasAgree.retag {rangeEnd prot : ℕ} (hb : base % 4096 = 0) (he : rangeEnd % 4096 = 0) :
    AreasAgree (areas.flatMap (retag base rangeEnd prot)) := by
  refine h.flatMap fun a _ b hbmem => ⟨retag_cutFrom hbmem, fun ha => ?_⟩
  rcases retag_base hbmem with heq | heq | heq <;> rw [heq] <;> assumption

end

/-- A covered leaf is outside every device range, so `fork` counts it. -/
lemma PageState.Inv.not_inDeviceRange (h : s.Inv) (hl : l ∈ s.leaves) :
    inDeviceRange (s.areas l.pid) l.va = false := by
  obtain ⟨-, -, a, ha, hcont, hdev⟩ := h.covered l hl
  rw [inDeviceRange, List.any_eq_false]
  intro b hb hbad
  rw [Bool.and_eq_true] at hbad
  have := ((h.agree l.pid).agree a ha b hb l.va hcont hbad.2).2
  rw [hdev, hbad.1] at this
  cases this

/-! ## Mapping, unmapping and retagging -/

variable {new : List VmArea} {limit : ℕ} {op : PageOp}

lemma agree_update {areas : ℕ → List VmArea} (h : ∀ pid, AreasAgree (areas pid))
    (hnew : AreasAgree new) (pid' : ℕ) : AreasAgree (update areas pid new pid') :=
  (forall_update_iff areas fun _ => AreasAgree).mpr ⟨hnew, fun p _ => h p⟩ pid'

lemma covered_update (h : s.Covered l) (hs' : s'.areas = update s.areas pid new)
    (hnew : l.pid = pid → ∀ a ∈ s.areas pid, a.contains l.va → a.backing.isDevice = false →
      ∃ b ∈ new, b.contains l.va ∧ b.backing.isDevice = false) : s'.Covered l := by
  obtain ⟨hlim, hpage, a, ha, hcont, hdev⟩ := h
  refine ⟨hlim, hpage, ?_⟩
  rw [hs']
  by_cases hp : l.pid = pid
  · rw [hp, update_self]
    exact hnew hp a (hp ▸ ha) hcont hdev
  · rw [update_of_ne hp]
    exact ⟨a, ha, hcont, hdev⟩

lemma inv_mapArea (h : s.Inv) (hs : s.mapArea pid vma = some s') : s'.Inv := by
  rw [PageState.mapArea] at hs
  split_ifs at hs with hpage hover
  · cases hs
    exact h
  cases hs
  have hno : ∀ a ∈ s.areas pid, ¬ a.overlaps vma.base vma.length := fun a ha ho =>
    hover (List.any_eq_true.mpr ⟨a, ha, ho⟩)
  refine ⟨h.backs, agree_update h.agree ((h.agree pid).place (by omega) hno), fun l hl => ?_,
    h.cacheFrames⟩
  exact covered_update (h.covered l hl) rfl fun _ a ha hcont hdev =>
    ⟨a, mem_place.mpr (.inr ha), hcont, hdev⟩

lemma sweeps_of_mem {length va : ℕ} (hva : va < 2 ^ 48) (h1 : base ≤ va)
    (h2 : va < base + length) : sweeps base length va := by
  simp only [sweeps, walks, Bool.or_eq_true, decide_eq_true_eq]
  omega

lemma inv_munmap (h : s.Inv) (pid addr length : ℕ) : (s.munmap pid addr length).Inv := by
  rw [PageState.munmap]
  split
  · exact h
  have hlen := pageAlignUp_mod length
  generalize pageAlignUp length = len at hlen
  refine ⟨?_, agree_update h.agree ((h.agree pid).carve (by omega) hlen),
    fun l hl => ?_, h.cacheFrames⟩
  · -- the released references are the frames of the swept leaves
    refine Backs.releaseAll (h.backs.perm ?_)
    have hsplit := (filter_append_perm (sweptBy pid addr len) s.leaves).symm
    have hframes := (hsplit.map Leaf.frame).append_right (s.cache.map Prod.snd)
    rw [map_append, append_assoc] at hframes
    exact hframes
  obtain ⟨hl, hstay⟩ := mem_filter.mp hl
  refine covered_update (h.covered l hl) rfl fun hp a ha hcont hdev => ?_
  have hlim : l.va < 2 ^ 47 := (h.covered l hl).1
  have hnot : sweeps addr len l.va = false := by
    simpa [sweptBy, hp] using hstay
  have hr : addr + len < 2 ^ 64 := by
    simp only [sweeps, Bool.or_eq_false_iff, decide_eq_false_iff_not] at hnot
    omega
  have hout : ¬ (addr ≤ l.va ∧ l.va < addr + len) := fun hin => by
    rw [sweeps_of_mem (by omega) hin.1 hin.2] at hnot
    cases hnot
  obtain ⟨b, hb, hbcont⟩ := carve_covers hcont hr hout
  refine ⟨b, mem_flatMap.mpr ⟨a, ha, hb⟩, hbcont, ?_⟩
  rw [(carve_cutFrom hb).device, hdev]

/-- A rewritten leaf that still maps the same page to the same frame. -/
structure Leaf.SameMapping (l l' : Leaf) : Prop where
  pid : l'.pid = l.pid
  va : l'.va = l.va
  frame : l'.frame = l.frame

lemma map_frame_of_sameMapping {g : Leaf → Leaf} (hg : ∀ l : Leaf, l.SameMapping (g l))
    (ls : List Leaf) : (ls.map g).map Leaf.frame = ls.map Leaf.frame := by
  rw [List.map_map]
  exact map_congr_left fun l _ => (hg l).frame

lemma PageState.Covered.of_sameMapping {l' : Leaf} (h : s.Covered l) (hm : l.SameMapping l') :
    s.Covered l' := by
  rw [PageState.Covered, hm.pid, hm.va]
  exact h

lemma retagLeaf_sameMapping (pid base rangeEnd prot : ℕ) (l : Leaf) :
    l.SameMapping (retagLeaf pid base rangeEnd prot l) := by
  rw [retagLeaf]
  split <;> exact ⟨rfl, rfl, rfl⟩

lemma inv_mprotect (h : s.Inv) (pid addr len prot : ℕ) : (s.mprotect pid addr len prot).Inv := by
  rw [PageState.mprotect]
  split
  · exact h
  refine ⟨?_, agree_update h.agree
    ((h.agree pid).retag (pageAlignDown_mod addr) (pageAlignUp_mod (Word.add addr len))),
    fun l hl => ?_, h.cacheFrames⟩
  · -- the retag changes writable bits only
    rw [refs, map_frame_of_sameMapping (retagLeaf_sameMapping _ _ _ _)]
    exact h.backs
  obtain ⟨k, hk, rfl⟩ := mem_map.mp hl
  have hsame := retagLeaf_sameMapping pid (pageAlignDown addr)
    (pageAlignUp (Word.add addr len)) prot k
  refine PageState.Covered.of_sameMapping ?_ hsame
  refine covered_update (h.covered k hk) rfl fun hp a ha hcont hdev => ?_
  obtain ⟨b, hb, hbcont⟩ := retag_covers hcont
  refine ⟨b, mem_flatMap.mpr ⟨a, ha, hb⟩, hbcont, ?_⟩
  rw [(retag_cutFrom hb).device, hdev]

/-! ## Faults -/

/-- The page of an address in ordinary memory may get a leaf. -/
lemma PageState.Inv.covered_cons (h : s.Inv) (hvma : findVma (s.areas pid) addr = some vma)
    (hdev : vma.backing.isDevice = false) (hlim : addr < trampolineVaddr) (f : ℕ) (w : Bool) :
    ∀ l ∈ ⟨pid, pageAlignDown addr, f, w⟩ :: s.leaves, s.Covered l := by
  obtain ⟨hmem, hcont⟩ := mem_of_findVma hvma
  have hpage := contains_pageAlignDown ((h.agree pid).aligned vma hmem) hcont
  refine forall_mem_cons.mpr ⟨⟨?_, pageAlignDown_mod addr, vma, hmem, hpage, hdev⟩, h.covered⟩
  have huser : trampolineVaddr ≤ userVaLimit := by decide
  show pageAlignDown addr < userVaLimit
  rw [pageAlignDown_eq]
  omega

lemma inv_anonFault (h : s.Inv) (hs : s.anonFault pid addr access f = some s') : s'.Inv := by
  rw [PageState.anonFault] at hs
  split at hs
  · cases hs
    exact h
  rename_i vma hvma
  split_ifs at hs with hskip hfree
  · cases hs
    exact h
  cases hs
  rw [not_or, not_or, not_not] at hskip
  rw [not_or, Bool.not_eq_true, not_le] at hfree
  exact ⟨h.backs.claim hfree.1, h.agree, h.covered_cons hvma (by rw [hskip.2.1]; rfl) hfree.2 _ _,
    h.cacheFrames⟩

/-- What `lookup_and_acquire` finds: a frame of the cache, for a page of an area that is not device
memory. -/
lemma acquires_spec {phys : ℕ} (h : s.acquires pid addr access = some (vma, phys)) :
    findVma (s.areas pid) addr = some vma ∧ vma.backing.isDevice = false ∧
    s.leafAt pid addr = none ∧
      ∃ key, s.cached key = some phys := by
  rw [acquires] at h
  split at h
  · cases h
  rename_i a hvma
  split_ifs at h with hskip
  obtain ⟨p, hp, heq⟩ := map_eq_some_iff.mp h
  obtain ⟨rfl, rfl⟩ := Prod.mk.inj heq
  obtain ⟨key, hkey, hcached⟩ := bind_eq_some_iff.mp hp
  have hnone : s.leafAt pid addr = none := not_isSome_iff_eq_none.mp fun hsome => hskip (.inr hsome)
  refine ⟨hvma, ?_, hnone, key, hcached⟩
  rw [fileKey] at hkey
  split at hkey
  next hfile =>
    rw [hfile]
    rfl
  · cases hkey

lemma inv_fileFault (h : s.Inv)
    (hroom : ∀ hit ∈ s.acquires pid addr access, s.frames.count hit.2 + 1 < refWidth)
    (hs : s.fileFault pid addr access f = some s') : s'.Inv := by
  rw [PageState.fileFault] at hs
  split at hs
  · cases hs
    exact h
  rename_i vma phys hacq
  obtain ⟨hvma, hdev, -, key, hkey⟩ := acquires_spec hacq
  have hguard : Backs (phys :: s.refs) (s.frames.inc refWidth phys) := by
    refine h.backs.inc (h.backs.used_of_mem _ (mem_refs_of_cached hkey)) ?_
    rw [← h.backs.count_eq]
    exact hroom (vma, phys) hacq
  split_ifs at hs with hlim hpriv hfree
  · -- the copy takes over and the guard reference goes
    cases hs
    rw [Bool.not_eq_true] at hfree
    have hcopy : Backs (phys :: f :: s.refs) ((s.frames.inc refWidth phys).claim f) :=
      (hguard.claim hfree).perm (List.Perm.swap ..)
    exact ⟨hcopy.dec, h.agree, h.covered_cons hvma hdev (not_le.mp hlim) _ _, h.cacheFrames⟩
  · cases hs
    exact ⟨hguard, h.agree, h.covered_cons hvma hdev (not_le.mp hlim) _ _, h.cacheFrames⟩

lemma refs_perm_of_split {leaves pre post : List Leaf} (h : leaves = pre ++ l :: post)
    (rest : List ℕ) :
    (leaves.map Leaf.frame ++ rest).Perm (l.frame :: ((pre ++ post).map Leaf.frame ++ rest)) := by
  have hp : leaves.Perm (l :: (pre ++ post)) := by
    rw [h]
    exact perm_middle
  exact (hp.map Leaf.frame).append_right _

lemma mem_rewriteLeaf {g : Leaf → Leaf} {k : Leaf} (hl : s.leafAt pid addr = some l)
    (hk : k ∈ s.rewriteLeaf pid addr g) : k ∈ s.leaves ∨ k = g l := by
  refine (FirstMatch.mem_updateFirst hk).imp_right ?_
  rintro ⟨v, hv, rfl⟩
  rw [← some.inj (hl.symm.trans hv)]

lemma inv_writeFault (h : s.Inv) (hs : s.writeFault pid addr f = some s') : s'.Inv := by
  rw [PageState.writeFault] at hs
  split at hs
  · cases hs
  split at hs
  · cases hs
    exact h
  rename_i l hl
  -- the rewritten leaf keeps its page, and every other leaf is untouched
  have hcov : ∀ (g : Leaf → Leaf), (g l).pid = l.pid → (g l).va = l.va →
      ∀ k ∈ s.rewriteLeaf pid addr g, s.Covered k := by
    intro g hgpid hgva k hk
    rcases mem_rewriteLeaf hl hk with hk | rfl
    · exact h.covered k hk
    · rw [PageState.Covered, hgpid, hgva]
      exact h.covered l (leafAt_spec hl).1
  dsimp only at hs
  split_ifs at hs with hro hflip hfree
  · cases hs
    exact h
  · cases hs
    refine ⟨?_, h.agree, hcov _ rfl rfl, h.cacheFrames⟩
    obtain ⟨pre, post, hsplit, hnew, -⟩ :=
      FirstMatch.split_of_find? (fun k => { k with writable := true }) hl
    exact h.backs.perm ((refs_perm_of_split hsplit _).trans (refs_perm_of_split hnew _).symm)
  cases hs
  rw [Bool.not_eq_true] at hfree
  refine ⟨?_, h.agree, hcov _ rfl rfl, h.cacheFrames⟩
  obtain ⟨pre, post, hsplit, hnew, -⟩ :=
    FirstMatch.split_of_find? (fun k => { k with frame := f, writable := true }) hl
  have hcopy := (h.backs.perm (refs_perm_of_split hsplit _)).claim hfree
  exact (hcopy.perm (List.Perm.swap ..)).dec.perm (refs_perm_of_split hnew _).symm

/-! ## Fork -/

lemma forkProtect_sameMapping (s : PageState) (parent limit : ℕ) (l : Leaf) :
    l.SameMapping (s.forkProtect parent limit l) := by
  rw [forkProtect]
  split <;> exact ⟨rfl, rfl, rfl⟩

lemma forkCounts_eq (h : s.Inv) (parent : ℕ) (hl : l ∈ s.leaves) :
    s.forkCounts parent (2 ^ 48) l = decide (l.pid = parent) := by
  have hlim : l.va < 2 ^ 47 := (h.covered l hl).1
  by_cases hp : l.pid = parent
  · have hdev := h.not_inDeviceRange hl
    rw [hp] at hdev
    simp only [forkCounts, hp, hdev, Bool.not_false, and_true, true_and, decide_true,
      decide_eq_true_eq]
    omega
  · simp [forkCounts, hp]

/-- The frames a fork counts are those of the child's new leaves. -/
lemma forkCounted_eq (h : ∀ l ∈ s.leaves, s.forkCounts parent (2 ^ 48) l = decide (l.pid = parent))
    (child : ℕ) :
    s.forkCounted parent (2 ^ 48) =
      (((s.leaves.map (s.forkProtect parent (2 ^ 48))).filter fun l => l.pid = parent).map
        fun l => { l with pid := child }).map Leaf.frame := by
  rw [forkCounted, List.filter_congr h, List.map_map, List.filter_map, List.map_map]
  have hpid : (fun l => decide (l.pid = parent)) ∘ s.forkProtect parent (2 ^ 48) =
      fun l => decide (l.pid = parent) := by
    funext l
    simp [(forkProtect_sameMapping s parent _ l).pid]
  rw [hpid]
  exact map_congr_left fun l _ => ((forkProtect_sameMapping s parent _ l).frame).symm

/-- No count wraps in the fork. -/
def PageState.RoomToFork (s : PageState) (parent limit : ℕ) : Prop :=
  ∀ f ∈ s.forkCounted parent limit,
    s.frames.count f + (s.forkCounted parent limit).count f < refWidth

/-- Taking a reference to every frame in `forkCounted` keeps the counts exact. -/
lemma backs_forkCounted (h : s.Inv) (hroom : s.RoomToFork parent limit) :
    Backs (s.forkCounted parent limit ++ s.refs)
    (s.frames.incAll refWidth (s.forkCounted parent limit)) := by
  refine h.backs.incAll (fun f hf => ?_) fun f hf => ?_
  · obtain ⟨l, hl, rfl⟩ := mem_map.mp hf
    exact h.backs.used_of_mem _ (mem_refs_of_leaf (mem_filter.mp hl).1)
  · rw [← h.backs.count_eq]
    exact hroom f hf

lemma inv_fork (h : s.Inv) {child : ℕ} (hroom : s.RoomToFork parent (2 ^ 48))
    (hs : s.fork parent child = some s') : s'.Inv := by
  rw [PageState.fork] at hs
  split_ifs at hs with hnew
  rw [not_or, not_or, not_not] at hnew
  obtain ⟨-, -, hnone⟩ := hnew
  cases hs
  refine ⟨?_, agree_update h.agree (h.agree parent), fun l hl => ?_, h.cacheFrames⟩
  · rw [refs, map_append, ← forkCounted_eq fun l => forkCounts_eq h parent,
      map_frame_of_sameMapping (forkProtect_sameMapping s _ _), append_assoc]
    exact backs_forkCounted h hroom
  -- a new leaf lies in the copied areas; an old one is not the child's
  rcases mem_append.mp hl with hl | hl
  · obtain ⟨k, hk, rfl⟩ := mem_map.mp hl
    obtain ⟨hk, hkp⟩ := mem_filter.mp hk
    obtain ⟨old, hold, rfl⟩ := mem_map.mp hk
    have hcov := (h.covered old hold).of_sameMapping (forkProtect_sameMapping s parent (2 ^ 48) old)
    rw [PageState.Covered, of_decide_eq_true hkp] at hcov
    rw [PageState.Covered]
    dsimp only
    rw [update_self]
    exact hcov
  obtain ⟨k, hk, rfl⟩ := mem_map.mp hl
  refine PageState.Covered.of_sameMapping ?_ (forkProtect_sameMapping s parent (2 ^ 48) k)
  refine covered_update (h.covered k hk) rfl fun hchild => ?_
  exact absurd (List.any_eq_true.mpr ⟨k, hk, decide_eq_true hchild⟩) hnone

/-! ## The page cache -/

lemma refs_perm_of_cached {old : ℕ} (h : s.cached key = some old) :
    s.refs.Perm (old :: (s.leaves.map Leaf.frame ++
      (s.cache.eraseP fun e => e.1 = key).map Prod.snd)) := by
  obtain ⟨e, he, rfl⟩ := map_eq_some_iff.mp h
  have hp := (FirstMatch.perm_cons_eraseP he).map Prod.snd
  exact (hp.append_left (s.leaves.map Leaf.frame)).trans perm_middle

lemma eraseP_of_not_cached (h : s.cached key = none) :
    (s.cache.eraseP fun e => e.1 = key) = s.cache := by
  refine eraseP_of_forall_not fun e he hkey => ?_
  exact List.find?_eq_none.mp (map_eq_none_iff.mp h) e he hkey

lemma nodup_eraseP (h : s.Inv) (key : CacheKey) :
    ((s.cache.eraseP fun e => e.1 = key).map Prod.snd).Nodup :=
  h.cacheFrames.sublist (eraseP_sublist.map _)

lemma inv_cacheFill (h : s.Inv) {content : ℕ → ℕ} (hs : s.cacheFill key f content = some s') :
    s'.Inv := by
  rw [PageState.cacheFill] at hs
  split_ifs at hs with hfree
  rw [Bool.not_eq_true] at hfree
  have hfresh := h.backs.not_mem_of_free hfree
  have hcount : s.refs.count f = 0 := count_eq_zero.mpr hfresh
  -- the guard reference and the one of the cache
  have hguard : Backs (f :: s.refs) ((s.frames.alloc f).inc refWidth f) := by
    refine (h.backs.alloc f).inc (Pool.alloc_used _ _) ?_
    rw [hcount]
    decide
  have hboth : Backs (f :: f :: s.refs) (((s.frames.alloc f).inc refWidth f).inc refWidth f) := by
    refine hguard.inc (Pool.alloc_used _ _) ?_
    rw [count_cons_self, hcount]
    decide
  cases hs
  refine ⟨(?_ : Backs (f :: f :: (s.leaves.map Leaf.frame ++
      (s.cache.eraseP fun e => e.1 = key).map Prod.snd)) _).dec.perm ?_, h.agree, h.covered, ?_⟩
  · -- an older entry of the page is released
    split
    next old hold =>
      have hp := (refs_perm_of_cached hold).append_left [f, f]
      exact (hboth.perm (hp.trans perm_middle)).release
    next hnone =>
      rw [eraseP_of_not_cached hnone]
      exact hboth
  · exact perm_middle.symm
  refine nodup_cons.mpr ⟨fun hmem => hfresh ?_, nodup_eraseP h key⟩
  exact mem_append_right _ ((eraseP_sublist.map Prod.snd).subset hmem)

lemma inv_truncateRange (h : s.Inv) (mountIdx inode oldSize newSize : ℕ) :
    (s.truncateRange mountIdx inode oldSize newSize).Inv := by
  rw [PageState.truncateRange]
  generalize pageAlignUp (min oldSize newSize) = first
  refine ⟨Backs.releaseAll (h.backs.perm ?_), h.agree, h.covered,
    h.cacheFrames.sublist (filter_sublist.map _)⟩
  -- the released references are those of the evicted entries
  have hsplit := (filter_append_perm (truncates mountIdx inode first) s.cache).symm
  have hframes := hsplit.map Prod.snd
  rw [map_append] at hframes
  exact (hframes.append_left (s.leaves.map Leaf.frame)).trans (perm_append_comm_assoc ..)

lemma inv_evict (h : s.Inv) (key : CacheKey) : (s.evict key).Inv := by
  rw [PageState.evict]
  split
  · exact h
  rename_i phys hphys
  exact ⟨(h.backs.perm (refs_perm_of_cached hphys)).dec, h.agree, h.covered, nodup_eraseP h key⟩

lemma inv_store (h : s.Inv) (pid addr value : ℕ) : (s.store pid addr value).Inv := by
  rw [PageState.store]
  split
  · split
    · exact ⟨h.backs, h.agree, h.covered, h.cacheFrames⟩
    · exact h
  · exact h

/-! ## Runs -/

/-- What the code leaves to its callers: the references that are taken fit into the counter, a fork
finds the page-table frames it needs, and a range lies below the trampoline page. -/
def PageOp.Counted (s : PageState) : PageOp → Prop
  | .fileFault pid addr access _ =>
    ∀ hit ∈ s.acquires pid addr access, s.frames.count hit.2 + 1 < refWidth
  | .fork parent _ => s.RoomToFork parent (2 ^ 48)
  | .forkOom _ _ => False
  | .munmap _ addr length =>
    length ≠ 0 → addr % 4096 = 0 → addr + pageAlignUp length ≤ trampolineVaddr
  | .mprotect _ addr len _ => len ≠ 0 → addr % 4096 = 0 → addr + len ≤ trampolineVaddr
  | _ => True

instance (s : PageState) (parent limit : ℕ) : Decidable (s.RoomToFork parent limit) := by
  dsimp only [PageState.RoomToFork]
  infer_instance

instance (s : PageState) (op : PageOp) : Decidable (op.Counted s) := by
  cases op <;> dsimp only [PageOp.Counted] <;> infer_instance

lemma pageStep_inv (h : s.Inv) (hok : op.Counted s) (hs : pageStep s op = some s') : s'.Inv := by
  cases op with
  | mapArea pid vma => exact inv_mapArea h hs
  | munmap pid addr length => exact some.inj hs ▸ inv_munmap h pid addr length
  | mprotect pid addr len prot => exact some.inj hs ▸ inv_mprotect h pid addr len prot
  | anonFault pid addr access f => exact inv_anonFault h hs
  | fileFault pid addr access f => exact inv_fileFault h hok hs
  | writeFault pid addr f => exact inv_writeFault h hs
  | fork parent child => exact inv_fork h hok hs
  | forkOom parent limit => exact hok.elim
  | cacheFill key f content => exact inv_cacheFill h hs
  | truncateRange mountIdx inode oldSize newSize =>
    exact some.inj hs ▸ inv_truncateRange h mountIdx inode oldSize newSize
  | evict key => exact some.inj hs ▸ inv_evict h key
  | store pid addr value => exact some.inj hs ▸ inv_store h pid addr value

/-- The present leaves that map the frame. -/
def PageState.mappings (s : PageState) (f : ℕ) : ℕ := s.leaves.countP fun l => l.frame = f

/-- The page cache holds the frame. -/
def PageState.inCache (s : PageState) (f : ℕ) : Bool := s.cache.any fun e => e.2 = f

/-- Counts are exact, and a free frame is neither mapped nor cached. -/
structure PageState.CountsExact (s : PageState) : Prop where
  count_eq : ∀ f, s.frames.count f = s.mappings f + if s.inCache f then 1 else 0
  unused_of_free : ∀ f, s.frames.used f = false → s.mappings f = 0 ∧ s.inCache f = false

lemma PageState.Inv.countsExact (h : s.Inv) : s.CountsExact := by
  have hcache : ∀ f, (s.inCache f ↔ f ∈ s.cache.map Prod.snd) := fun f => by
    simp [inCache, List.any_eq_true]
  refine ⟨fun f => ?_, fun f hf => ?_⟩
  · rw [h.backs.count_eq, refs, count_append, h.cacheFrames.count]
    congr 1
    · rw [List.count, countP_map]
      rfl
    · simp only [hcache f]
  have hnot := h.backs.not_mem_of_free hf
  rw [refs, mem_append, not_or] at hnot
  refine ⟨countP_eq_zero.mpr fun l hl hframe => ?_, ?_⟩
  · exact hnot.1 (mem_map.mpr ⟨l, hl, of_decide_eq_true hframe⟩)
  · rw [← Bool.not_eq_true, hcache f]
    exact hnot.2

/-- **Reference counts are exact** in every state of every run whose steps are `Counted`. -/
theorem pageRun_countsExact (used : ℕ → Bool) (mem : ℕ → ℕ → ℕ) (ops : List PageOp) (n : ℕ)
    (s : PageState) (hg : Guarded pageStep (fun s op => op.Counted s) (init used mem) ops)
    (hrun : run pageStep (init used mem) (ops.take n) = some s) : s.CountsExact := by
  have hinv : s.Inv :=
    run_guarded (fun _ _ _ => pageStep_inv) (init_inv used mem) (guarded_take hg n) hrun
  exact hinv.countsExact

/-- An anonymous page shared by a fork and copied by the child, and a file page that is mapped. -/
def sharingRun : List PageOp :=
  [.mapArea 1 ⟨0x10000000, 0x1000, protRead ||| protWrite, mapPrivate, .anonymous, .mmap⟩,
    .anonFault 1 0x10000000 .write 5, .fork 1 2, .writeFault 2 0x10000000 6,
    .mapArea 1 ⟨0x20000000, 0x1000, protRead, mapShared, .file 0 3 0 0x1000, .mmapFile⟩,
    .cacheFill ⟨0, 3, 0⟩ 7 fun _ => 1, .fileFault 1 0x20000000 .read 8,
    .munmap 1 0x10000000 0x1000]

theorem pageRun_countsExact_of_sharing :
    ∃ s, run pageStep (init (fun _ => false) fun _ _ => 0) sharingRun = some s ∧
      s.CountsExact ∧ s.frames.count 7 = 2 :=
  ⟨_, rfl, pageRun_countsExact (fun _ => false)
    (fun _ _ => 0) sharingRun 8 _ (by decide +kernel) rfl,
    by decide +kernel⟩

/-- A process with two pages, far enough apart to need two page tables, forks while there is a frame
for the first table only. -/
def failedForkRun : List PageOp :=
  [.mapArea 1 ⟨0x10000000, 0x1000, protRead ||| protWrite, mapPrivate, .anonymous, .mmap⟩,
    .mapArea 1 ⟨0x20000000, 0x1000, protRead ||| protWrite, mapPrivate, .anonymous, .mmap⟩,
    .anonFault 1 0x10000000 .write 5, .anonFault 1 0x20000000 .write 6, .forkOom 1 0x20000000]

/-- The first page is counted twice and mapped once. -/
theorem failedFork_overcounts :
    ∃ s, run pageStep (init (fun _ => false) fun _ _ => 0) failedForkRun = some s ∧
      s.frames.count 5 = 2 ∧ s.mappings 5 = 1 ∧ s.inCache 5 = false :=
  ⟨_, rfl, by decide +kernel⟩

end Astryx
