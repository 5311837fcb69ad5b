import Astryx.Shm.Attachments

/-!
# Segments beside ordinary memory

`mmap`, demand paging, `fork`, `munmap` and the teardown of an address space act on leaves and
counts without looking at the segment table. `ShmState.Inv.withPage` is the rule for all of them: a
step that adds no device area and keeps the frames outside `trackedRefs` keeps the segments. For
`fork` and `munmap` that is where `ShmOp.Respects` is needed.
-/

namespace Astryx

open RefPool FirstMatch Extents Tally Function List Option PageState ShmState ShmSegment Transition

/-! ## Ordinary memory -/

/-- The areas of devices. -/
def deviceAreas (areas : List VmArea) : List VmArea := areas.filter (·.backing.isDevice)

variable {areas : List VmArea} {seg : ShmSegment} {s : ShmState} {page : PageState}
  {pid addr length : ℕ}

lemma inDeviceRange_congr {areas' : List VmArea} (h : deviceAreas areas' = deviceAreas areas)
    (va : ℕ) : inDeviceRange areas' va = inDeviceRange areas va := by
  have hany : ∀ l : List VmArea, inDeviceRange l va =
      (deviceAreas l).any (·.contains va) := fun l => by
    simp [inDeviceRange, deviceAreas]
  rw [hany, hany, h]

/-- A segment's frame is not among the counted references. -/
lemma ShmState.Inv.not_tracked (h : s.Inv) (hseg : seg ∈ s.segs)
    (hu : seg.inUse) {f : ℕ} (hf : f ∈ seg.frames) : f ∉ s.page.trackedRefs := by
  have := (h.held seg hseg hu).untracked f hf
  rwa [h.backs.count_eq, count_eq_zero] at this

/-- A change of the paging state that adds no device area, keeps the frames of segments in use and
keeps ordinary memory in order. -/
theorem ShmState.Inv.withPage (h : s.Inv) (hareas : ∀ pid, UserAreas (page.areas pid))
    (hdev : ∀ pid, (deviceAreas (page.areas pid)).Sublist (deviceAreas (s.page.areas pid)))
    (hleaf : ∀ l ∈ page.leaves, ∃ a ∈ page.areas l.pid, a.Holds l)
    (hbacks : Backs page.trackedRefs page.frames)
    (hused : ∀ f, f ∉ s.page.trackedRefs → s.page.frames.used f →
      page.frames.used f ∧ f ∉ page.trackedRefs) : ShmState.Inv { s with page } := by
  refine ⟨hareas, fun seg hseg hu => ?_, h.apart, fun pid a ha hadev => ?_,
    fun seg hseg hu => ?_, hleaf,
    hbacks⟩
  · have hold := h.held seg hseg hu
    refine ⟨hold.size_pos, hold.size_pages, fun f hf => ?_, fun f hf => ?_⟩
    · exact (hused f (h.not_tracked hseg hu hf) (hold.used f hf)).1
    have := (hused f (h.not_tracked hseg hu hf) (hold.used f hf)).2
    rw [hbacks.count_eq]
    exact count_eq_zero.mpr this
  · have hmem := (hdev pid).subset (mem_filter.mpr ⟨ha, hadev⟩)
    exact h.attached pid a (mem_filter.mp hmem).1 hadev
  refine (h.counted seg hseg hu).mono fun pid => ?_
  -- attachments are device areas
  have hcount : ∀ l : List VmArea, l.countP (VmArea.attaches seg) =
      (deviceAreas l).countP (VmArea.attaches seg) := fun l => by
    rw [deviceAreas, countP_filter]
    refine countP_congr fun a _ => ?_
    rw [Bool.and_eq_true]
    exact ⟨fun hatt => ⟨hatt, isDevice_of_attaches hatt⟩, And.left⟩
  show (page.areas pid).countP _ ≤ (s.page.areas pid).countP _
  rw [hcount (page.areas pid), hcount (s.page.areas pid)]
  exact (hdev pid).countP_le

lemma inv_mapArea_shm (h : s.Inv) {vma : VmArea}
    (hresp : vma.backing.isDevice = false ∧ 0 < vma.length ∧ vma.length % 4096 = 0 ∧
      vma.base + vma.length ≤ trampolineVaddr) (hs : s.page.mapArea pid vma = some page) :
        ShmState.Inv { s with page } := by
  obtain ⟨hord, hpos, hpages, hlow⟩ := hresp
  rw [PageState.mapArea] at hs
  split_ifs at hs with hbase hover <;> cases hs
  · exact h
  have hmax : trampolineVaddr < 2 ^ 64 := by decide
  have hnew : UserAreas (place VmArea.base vma (s.page.areas pid)) := by
    refine ⟨(h.areas pid).wf.place ⟨hpages, by omega, by omega⟩ hpos fun a ha => ?_, fun a ha => ?_⟩
    · have hno : ¬ a.overlaps vma.base vma.length :=
        fun ho => hover (List.any_eq_true.mpr ⟨a, ha, ho⟩)
      rw [((areasWellFormed_iff.mp (h.areas pid).wf).2 a ha).overlaps_iff (by omega)] at hno
      simp only [VmArea.top] at hno ⊢
      omega
    rcases mem_place.mp ha with rfl | ha
    · exact hlow
    · exact (h.areas pid).low a ha
  have hdev : ∀ q, deviceAreas (update s.page.areas pid
      (place VmArea.base vma (s.page.areas pid)) q) = deviceAreas (s.page.areas q) :=
    (forall_update_iff s.page.areas fun q l => deviceAreas l = deviceAreas (s.page.areas q)).mpr
      ⟨filter_place (p := fun a : VmArea => a.backing.isDevice) hord _, fun _ _ => rfl⟩
  have hstay : ∀ q, ∀ a ∈ s.page.areas q,
      a ∈ update s.page.areas pid (place VmArea.base vma (s.page.areas pid)) q :=
    (forall_update_iff s.page.areas fun q l => ∀ a ∈ s.page.areas q, a ∈ l).mpr
      ⟨fun a ha => mem_place.mpr (.inr ha), fun _ _ _ ha => ha⟩
  have hrefs : ∀ l : List Leaf, l.filter (fun k => !inDeviceRange (update s.page.areas pid
      (place VmArea.base vma (s.page.areas pid)) k.pid) k.va) =
      l.filter fun k => !inDeviceRange (s.page.areas k.pid) k.va := fun l =>
    filter_congr fun k _ => by rw [inDeviceRange_congr (hdev k.pid)]
  refine h.withPage ?_ (fun q => ?_) (fun l hl => ?_) ?_ fun f hf hused => ⟨hused, ?_⟩
  · exact (forall_update_iff s.page.areas fun _ => UserAreas).mpr ⟨hnew, fun q _ => h.areas q⟩
  · rw [hdev]
  · obtain ⟨a, ha, hal⟩ := h.leaf l hl
    exact ⟨a, hstay _ a ha, hal⟩
  · rw [trackedRefs, hrefs]
    exact h.backs
  · rw [trackedRefs, hrefs]
    exact hf

lemma inv_anonFault_shm (h : s.Inv) {f : ℕ} {access : FaultAccess}
    (hs : s.page.anonFault pid addr access f = some page) : ShmState.Inv { s with page } := by
  rw [PageState.anonFault] at hs
  split at hs
  · cases hs
    exact h
  rename_i vma hvma
  split_ifs at hs with hskip hfree <;> cases hs
  · exact h
  rw [not_or, not_or, not_not] at hskip
  rw [not_or, Bool.not_eq_true] at hfree
  obtain ⟨hmem, hcont⟩ := mem_of_findVma hvma
  have hpage := contains_pageAlignDown ((h.areas pid).wf.base_pages vma hmem) hcont
  have hord : vma.backing.isDevice = false := by
    rw [hskip.2.1]
    rfl
  -- the new leaf is counted
  have hrefs : trackedRefs { s.page with
      leaves := ⟨pid, pageAlignDown addr, f, vma.isWritable⟩ :: s.page.leaves
      frames := s.page.frames.claim f
      mem := update s.page.mem f fun _ => 0 } = f :: s.page.trackedRefs := by
    rw [trackedRefs, filter_cons_of_pos, map_cons, trackedRefs]
    rw [(h.areas pid).inDeviceRange_eq hmem hpage, hord]
    rfl
  refine h.withPage h.areas (fun q => List.Sublist.refl _)
    (forall_mem_cons.mpr ⟨⟨vma, hmem, hpage, pageAlignDown_mod addr, fun hdev => ?_⟩, h.leaf⟩) ?_
    fun g hg hused => ⟨?_, ?_⟩
  · rw [hord] at hdev
    cases hdev
  · rw [hrefs]
    exact h.backs.claim hfree.1
  · show update s.page.frames.used f true g
    rw [update_apply, hused, ite_self]
  rw [hrefs, mem_cons, not_or]
  refine ⟨?_, hg⟩
  rintro rfl
  rw [hused] at hfree
  cases hfree.1

lemma filter_flatMap_eq {α : Type*} {p : α → Bool} {g : α → List α} {l : List α}
    (h : ∀ a ∈ l, (g a).filter p = [a].filter p) : (l.flatMap g).filter p = l.filter p := by
  rw [filter_flatMap, flatMap_congr h, ← filter_flatMap, flatMap_singleton']

/-- Unmapping that cuts no device area keeps them all. -/
lemma deviceAreas_carve (h : ∀ a ∈ areas, a.backing.isDevice → ¬ a.overlaps addr length) :
    deviceAreas (areas.flatMap (carve addr length)) = deviceAreas areas := by
  refine filter_flatMap_eq fun a ha => ?_
  cases hdev : a.backing.isDevice with
  | true => rw [carve_of_not_overlaps (h a ha hdev)]
  | false =>
    rw [filter_cons_of_neg (by rw [hdev]; nofun), filter_nil,
      filter_eq_nil_iff]
    intro b hb
    rw [(carve_cutFrom hb).device, hdev]
    nofun

lemma UserAreas.carve (h : UserAreas areas) (hb : addr % 4096 = 0) (hl : length % 4096 = 0)
    (hr : addr + length < 2 ^ 64) : UserAreas (areas.flatMap (carve addr length)) := by
  have hs := (areasWellFormed_iff.mp h.wf).2
  have hpieces : ∀ a ∈ areas, Pieces a (Astryx.carve addr length a) := fun a ha =>
    carve_pieces (hs a ha) (h.wf.length_pos a ha) hb hl hr
  refine ⟨h.wf.flatMap hpieces, fun b hbmem => ?_⟩
  obtain ⟨a, ha, hba⟩ := mem_flatMap.mp hbmem
  exact le_trans ((hpieces a ha).inside b hba).2 (h.low a ha)

lemma holds_carve (h : s.Inv) (hresp : MunmapRespects s.page pid addr length) {l : Leaf}
    (hl : l ∈ s.page.leaves) (hkeep : sweptBy pid addr length l = false) (hp : l.pid = pid) :
    ∃ a ∈ (s.page.areas pid).flatMap (carve addr length), a.Holds l := by
  obtain ⟨a, ha, hal⟩ := h.leaf l hl
  have hin := (h.areas l.pid).contains_lt ha hal.contains
  have hlow := (h.areas l.pid).low a ha
  rw [trampolineVaddr] at hlow
  rw [hp] at ha
  cases hdev : a.backing.isDevice with
  | true =>
    refine ⟨a, mem_flatMap.mpr ⟨a, ha, ?_⟩, hal⟩
    rw [carve_of_not_overlaps (hresp.2.1 a ha hdev)]
    simp
  | false =>
    have hout : ¬ (addr ≤ l.va ∧ l.va < addr + length) := fun hrange => by
      have hswept := sweeps_of_mem (by omega) hrange.1 hrange.2
      rw [sweptBy, hswept, hp] at hkeep
      simp at hkeep
    obtain ⟨b, hb, hbcont⟩ := carve_covers hal.contains (hresp.1.trans_lt (by decide)) hout
    refine ⟨b, mem_flatMap.mpr ⟨a, ha, hb⟩, hbcont, hal.page, fun hbdev => ?_⟩
    rw [(carve_cutFrom hb).device, hdev] at hbdev
    cases hbdev

lemma inv_munmap_shm (h : s.Inv)
    (hresp : length ≠ 0 → addr % 4096 = 0 → MunmapRespects s.page pid addr (pageAlignUp length)) :
    ShmState.Inv { s with page := s.page.munmap pid addr length } := by
  rw [PageState.munmap]
  split
  · exact h
  rename_i hargs
  rw [not_or, not_not] at hargs
  have hresp := hresp hargs.1 hargs.2
  have hlen := pageAlignUp_mod length
  generalize pageAlignUp length = len at hlen hresp
  have hareas :
      ∀ q, UserAreas (update s.page.areas pid ((s.page.areas pid).flatMap (carve addr len)) q) :=
    (forall_update_iff s.page.areas fun _ => UserAreas).mpr
      ⟨(h.areas pid).carve hargs.2 hlen (hresp.1.trans_lt (by decide)),
      fun q _ => h.areas q⟩
  have hdev : ∀ q, deviceAreas (update s.page.areas pid
      ((s.page.areas pid).flatMap (carve addr len)) q) = deviceAreas (s.page.areas q) :=
    (forall_update_iff s.page.areas fun q l => deviceAreas l = deviceAreas (s.page.areas q)).mpr
      ⟨deviceAreas_carve hresp.2.1, fun _ _ => rfl⟩
  -- the swept leaves are all counted, so the counted references split into theirs and the rest
  have hswept : (s.page.leaves.filter (sweptBy pid addr len)).filter
    (fun l => !inDeviceRange (s.page.areas l.pid) l.va) =
      s.page.leaves.filter (sweptBy pid addr len) := by
    refine filter_eq_self.mpr fun l hl => ?_
    obtain ⟨hl, hsw⟩ := mem_filter.mp hl
    have hpid : l.pid = pid := (of_decide_eq_true hsw).1
    rw [hpid, Bool.not_eq_true', ← Bool.not_eq_true]
    exact hresp.2.2 l hl hsw
  have hsplit : s.page.trackedRefs.Perm
    ((s.page.leaves.filter (sweptBy pid addr len)).map Leaf.frame ++
        trackedRefs { s.page with
          areas := update s.page.areas pid ((s.page.areas pid).flatMap (carve addr len))
          leaves := s.page.leaves.filter fun l => !sweptBy pid addr len l }) := by
    have hperm := ((filter_append_perm (sweptBy pid addr len) s.page.leaves).symm.filter
      fun l => !inDeviceRange (s.page.areas l.pid) l.va).map Leaf.frame
    rw [filter_append, hswept, map_append] at hperm
    rw [trackedRefs, trackedRefs]
    simp only [inDeviceRange_congr (hdev _)]
    exact hperm
  refine h.withPage hareas (fun q => by rw [hdev]) (fun l hl => ?_)
    (h.backs.perm hsplit).releaseAll fun f hf hused => ?_
  · obtain ⟨hl, hkeep⟩ := mem_filter.mp hl
    rw [Bool.not_eq_true'] at hkeep
    by_cases hp : l.pid = pid
    · obtain ⟨a, ha, hal⟩ := holds_carve h hresp hl hkeep hp
      refine ⟨a, ?_, hal⟩
      dsimp only
      rw [hp, update_self]
      exact ha
    obtain ⟨a, ha, hal⟩ := h.leaf l hl
    refine ⟨a, ?_, hal⟩
    dsimp only
    rw [update_of_ne hp]
    exact ha
  · rw [hsplit.mem_iff, mem_append, not_or] at hf
    exact ⟨(Pool.releaseAll_used_of_not_mem _ hf.1).trans hused, hf.2⟩

section Fork

variable {s : ShmState} {parent child : ℕ}

lemma inDeviceRange_of_ordinary {areas : List VmArea} (h : ∀ a ∈ areas, a.backing.isDevice = false)
    (va : ℕ) : inDeviceRange areas va = false := by
  rw [inDeviceRange, List.any_eq_false]
  intro a ha hbad
  rw [h a ha] at hbad
  cases hbad

variable (h : s.Inv) (hord : ∀ a ∈ s.page.areas parent, a.backing.isDevice = false)

include h hord

lemma ShmState.Inv.forkCounts_eq {l : Leaf} (hl : l ∈ s.page.leaves) :
    s.page.forkCounts parent (2 ^ 48) l = decide (l.pid = parent) := by
  obtain ⟨a, ha, hal⟩ := h.leaf l hl
  have hin := (h.areas l.pid).contains_lt ha hal.contains
  have hlow := (h.areas l.pid).low a ha
  rw [trampolineVaddr] at hlow
  have hva : l.va < 2 ^ 48 := by omega
  rw [forkCounts, decide_eq_decide, inDeviceRange_of_ordinary hord]
  exact ⟨And.left, fun hp => ⟨hp, hva, rfl⟩⟩

/-- The child's leaves are counted, and the old ones as before. -/
lemma trackedRefs_fork {page : PageState} (hs : s.page.fork parent child = some page) :
    page.trackedRefs = s.page.forkCounted parent (2 ^ 48) ++ s.page.trackedRefs := by
  rw [PageState.fork] at hs
  split_ifs at hs with hnew
  cases hs
  rw [not_or, not_or] at hnew
  rw [trackedRefs, filter_append, map_append]
  congr 1
  · rw [forkCounted_eq (fun l => h.forkCounts_eq hord) child, filter_eq_self.mpr]
    intro l hl
    obtain ⟨-, -, rfl⟩ := mem_map.mp hl
    dsimp only
    rw [update_self, inDeviceRange_of_ordinary hord]
    rfl
  rw [List.filter_map, List.map_map, trackedRefs]
  have hframe : Leaf.frame ∘ s.page.forkProtect parent (2 ^ 48) = Leaf.frame :=
    funext fun l => (forkProtect_sameMapping s.page parent _ l).frame
  rw [hframe]
  refine congrArg _ (filter_congr fun l hl => ?_)
  have hpid : l.pid ≠ child := fun hp => hnew.2.2 (List.any_eq_true.mpr ⟨l, hl, decide_eq_true hp⟩)
  have hsame := forkProtect_sameMapping s.page parent (2 ^ 48) l
  rw [comp_apply]
  dsimp only
  rw [hsame.pid, hsame.va, update_of_ne hpid]

lemma inv_fork_shm {page : PageState} (hroom : s.page.RoomToFork parent (2 ^ 48))
    (hs : s.page.fork parent child = some page) : ShmState.Inv { s with page } := by
  have hrefs := trackedRefs_fork h hord hs
  have hcounted : ∀ f ∈ s.page.forkCounted parent (2 ^ 48), f ∈ s.page.trackedRefs := by
    intro f hf
    obtain ⟨l, hl, rfl⟩ := mem_map.mp hf
    obtain ⟨hl, hcount⟩ := mem_filter.mp hl
    refine mem_map_of_mem (mem_filter.mpr ⟨hl, ?_⟩)
    rw [(of_decide_eq_true hcount).1, inDeviceRange_of_ordinary hord]
    rfl
  have hbacks := h.backs.incAll (fun f hf => h.backs.used_of_mem f (hcounted f hf)) fun f hf => by
      rw [← h.backs.count_eq]
      exact hroom f hf
  rw [← hrefs] at hbacks
  rw [PageState.fork] at hs
  split_ifs at hs with hnew
  cases hs
  rw [not_or, not_or] at hnew
  have hnochild : ∀ l ∈ s.page.leaves, l.pid ≠ child := fun l hl hp =>
    hnew.2.2 (List.any_eq_true.mpr ⟨l, hl, decide_eq_true hp⟩)
  refine h.withPage ?_ ?_ (fun l hl => ?_) hbacks fun f hf hused => ⟨?_, ?_⟩
  · exact (forall_update_iff s.page.areas fun _ => UserAreas).mpr
      ⟨h.areas parent, fun q _ => h.areas q⟩
  · refine (forall_update_iff s.page.areas fun q l =>
      (deviceAreas l).Sublist (deviceAreas (s.page.areas q))).mpr ⟨?_, fun q _ => .refl _⟩
    have hnil : deviceAreas (s.page.areas parent) = [] :=
      filter_eq_nil_iff.mpr fun a ha => by simp [hord a ha]
    rw [hnil]
    exact nil_sublist _
  · -- a leaf of the child lies in the copied areas, any other where it was
    rcases mem_append.mp hl with hl | hl
    · obtain ⟨k, hk, rfl⟩ := mem_map.mp hl
      obtain ⟨hk, hkp⟩ := mem_filter.mp hk
      obtain ⟨old, hold, rfl⟩ := mem_map.mp hk
      have hsame := forkProtect_sameMapping s.page parent (2 ^ 48) old
      obtain ⟨a, ha, hal⟩ := h.leaf old hold
      rw [← hsame.pid, of_decide_eq_true hkp] at ha
      refine ⟨a, ?_, hal.congr hsame.va hsame.frame⟩
      dsimp only
      rw [update_self]
      exact ha
    obtain ⟨old, hold, rfl⟩ := mem_map.mp hl
    have hsame := forkProtect_sameMapping s.page parent (2 ^ 48) old
    obtain ⟨a, ha, hal⟩ := h.leaf old hold
    refine ⟨a, ?_, hal.congr hsame.va hsame.frame⟩
    dsimp only
    rw [hsame.pid, update_of_ne (hnochild old hold)]
    exact ha
  · rw [Pool.incAll_used]
    exact hused
  · rw [hrefs, mem_append, not_or]
    exact ⟨fun hmem => hf (hcounted f hmem), hf⟩

end Fork

section Teardown

variable {s : ShmState} {pid : ℕ}

/-- Selections that exclude each other, made one after the other, are one selection. -/
lemma flatMap_filter_perm {α β : Type*} {p : α → β → Bool} {as : List α} {l : List β}
    (h : as.Pairwise fun a b => ∀ x ∈ l, p a x → p b x = false) :
    (as.flatMap fun a => l.filter (p a)).Perm (l.filter fun x => as.any (p · x)) := by
  induction as with
  | nil => simp
  | cons a as ih =>
    obtain ⟨ha, has⟩ := pairwise_cons.mp h
    -- what is selected at all is selected by `a` or by a later one, not by both
    have hsplit := filter_append_perm (p a) (l.filter fun x => (a :: as).any (p · x))
    rw [List.filter_filter, List.filter_filter] at hsplit
    refine (List.Perm.append_left _ (ih has)).trans ?_
    have hfirst : (l.filter fun x => p a x && (a :: as).any (p · x)) = l.filter (p a) :=
      filter_congr fun x _ => by rw [any_cons]; cases p a x <;> simp
    have hrest : (l.filter fun x => !p a x && (a :: as).any (p · x)) =
        l.filter fun x => as.any (p · x) := by
      refine filter_congr fun x hx => ?_
      rw [any_cons]
      cases hax : p a x with
      | true =>
        have hnone : as.any (p · x) = false := List.any_eq_false.mpr fun b hb => by
          rw [ha b hb x hx hax]
          nofun
        simp [hnone]
      | false => simp
    rw [hfirst, hrest] at hsplit
    exact hsplit

lemma walkedIn_iff (h : s.Inv) {a : VmArea} (ha : a ∈ s.page.areas pid) {l : Leaf}
    (hl : l ∈ s.page.leaves) : Leaf.walkedIn pid a l ↔ l.pid = pid ∧ a.contains l.va := by
  obtain ⟨b, hb, hbl⟩ := h.leaf l hl
  have hva := (h.areas l.pid).contains_lt hb hbl.contains
  have hlow := (h.areas l.pid).low b hb
  have hend := ((areasWellFormed_iff.mp (h.areas pid).wf).2 a ha).endAddr_eq
  rw [Leaf.walkedIn, decide_eq_true_iff, contains_iff, hend,
    walks_iff ((h.areas pid).low a ha) (by omega)]

/-- The references the teardown drops are the counted ones of the process. -/
lemma dropped_perm (h : s.Inv) :
    (s.page.dropped pid).Perm (((s.page.leaves.filter fun l => l.pid = pid).filter
      fun l => !inDeviceRange (s.page.areas l.pid) l.va).map Leaf.frame) := by
  have hmap : s.page.dropped pid = (((s.page.areas pid).filter fun a => !a.backing.isDevice).flatMap
      fun a => s.page.leaves.filter (Leaf.walkedIn pid a)).map Leaf.frame := by
    rw [dropped, map_flatMap]
  rw [hmap]
  refine List.Perm.map _ ((flatMap_filter_perm ?_).trans (List.Perm.of_eq ?_))
  · -- a leaf lies in one area only
    have hnodup : (s.page.areas pid).Nodup :=
      (h.areas pid).wf.ascending.imp fun hlt heq => absurd hlt (by rw [heq]; exact lt_irrefl _)
    refine (hnodup.filter _).imp_of_mem fun {a b} ha hb hne l hl hal => ?_
    have ha := (mem_filter.mp ha).1
    have hb := (mem_filter.mp hb).1
    rw [← Bool.not_eq_true]
    intro hbl
    exact hne ((h.areas pid).eq_of_contains ha hb ((walkedIn_iff h ha hl).mp hal).2
      ((walkedIn_iff h hb hl).mp hbl).2)
  rw [List.filter_filter]
  refine filter_congr fun l hl => ?_
  obtain ⟨a, ha, hal⟩ := h.leaf l hl
  rw [(h.areas l.pid).inDeviceRange_eq ha hal.contains, Bool.eq_iff_iff, List.any_eq_true,
    Bool.and_eq_true, Bool.not_eq_true', decide_eq_true_iff]
  constructor
  · rintro ⟨b, hb, hbl⟩
    obtain ⟨hb, hord⟩ := mem_filter.mp hb
    obtain ⟨hp, hcont⟩ := (walkedIn_iff h hb hl).mp hbl
    rw [hp] at ha
    rw [(h.areas pid).eq_of_contains ha hb hal.contains hcont]
    exact ⟨by simpa using hord, hp⟩
  rintro ⟨hord, hp⟩
  rw [hp] at ha
  exact ⟨a, mem_filter.mpr ⟨ha, by rw [hord]; rfl⟩, (walkedIn_iff h ha hl).mpr ⟨hp, hal.contains⟩⟩

lemma inv_freeVmSpace (h : s.Inv) (pid : ℕ) :
    ShmState.Inv { s with page := s.page.freeVmSpace pid } := by
  have hkeep : ∀ l ∈ (s.page.freeVmSpace pid).leaves, l ∈ s.page.leaves ∧
      (s.page.freeVmSpace pid).areas l.pid = s.page.areas l.pid := by
    intro l hl
    obtain ⟨hl, hp⟩ := mem_filter.mp hl
    exact ⟨hl, update_of_ne (of_decide_eq_true hp) _ _⟩
  -- the counted references are those dropped and those of the other processes
  have hsplit : s.page.trackedRefs.Perm
      (s.page.dropped pid ++ (s.page.freeVmSpace pid).trackedRefs) := by
    have hperm := ((filter_append_perm (fun l => decide (l.pid = pid)) s.page.leaves).symm.filter
      fun l => !inDeviceRange (s.page.areas l.pid) l.va).map Leaf.frame
    rw [filter_append, map_append] at hperm
    refine hperm.trans ((dropped_perm h).symm.append (List.Perm.of_eq ?_))
    have hleaves : (s.page.freeVmSpace pid).leaves = s.page.leaves.filter fun l =>
        !decide (l.pid = pid) :=
      filter_congr fun l _ => decide_not
    rw [← hleaves]
    exact congrArg _ (filter_congr fun l hl => by rw [(hkeep l hl).2])
  refine h.withPage ?_ ?_ (fun l hl => ?_) (h.backs.perm hsplit).releaseAll fun f hf hused => ?_
  · refine (forall_update_iff s.page.areas fun _ => UserAreas).mpr ⟨?_, fun q _ => h.areas q⟩
    exact ⟨areasWellFormed_iff.mpr ⟨laid_nil, by simp⟩, by simp⟩
  · exact (forall_update_iff s.page.areas fun q l =>
      (deviceAreas l).Sublist (deviceAreas (s.page.areas q))).mpr
        ⟨nil_sublist _, fun q _ => .refl _⟩
  · obtain ⟨hl', hareas⟩ := hkeep l hl
    rw [hareas]
    exact h.leaf l hl'
  · rw [hsplit.mem_iff, mem_append, not_or] at hf
    exact ⟨(Pool.releaseAll_used_of_not_mem _ hf.1).trans hused, hf.2⟩

end Teardown

/-! ## Runs -/

lemma shmStep_inv {s' : ShmState} {op : ShmOp} (h : s.Inv) (hresp : op.Respects s)
    (hs : shmStep s op = some s') : s'.Inv := by
  cases op with
  | shmget key size flags answer =>
    obtain ⟨⟨t, r⟩, ht, rfl⟩ := map_eq_some_iff.mp hs
    rcases shmget_cases ht with rfl | ⟨pages, start, hpos, rfl, hfree⟩
    · exact h
    refine inv_create h ?_ ?_ hfree <;> rw [newSegment]
    · exact Nat.mul_pos hpos (by decide)
    · exact Nat.mul_mod_left _ _
  | shmat pid shmid shmaddr failed => exact some.inj hs ▸ inv_shmat h failed hresp
  | shmdt pid shmaddr => exact some.inj hs ▸ inv_shmdt h pid shmaddr
  | shmctl shmid cmd => exact some.inj hs ▸ inv_shmctl h shmid cmd
  | fork parent child =>
    obtain ⟨page, hp, rfl⟩ := map_eq_some_iff.mp hs
    exact inv_fork_shm h hresp.1 hresp.2 hp
  | freeVmSpace pid => exact some.inj hs ▸ inv_freeVmSpace h pid
  | munmap pid addr length => exact some.inj hs ▸ inv_munmap_shm h hresp
  | mapArea pid vma =>
    obtain ⟨page, hp, rfl⟩ := map_eq_some_iff.mp hs
    exact inv_mapArea_shm h hresp hp
  | anonFault pid addr access f =>
    obtain ⟨page, hp, rfl⟩ := map_eq_some_iff.mp hs
    exact inv_anonFault_shm h hp

/-- Under a change of counts the table keeps every segment with its frames. -/
lemma exists_frames_updateFirst {segs : List ShmSegment} (hseg : seg ∈ segs)
    {f : ShmSegment → ShmSegment} (hf : ∀ g : ShmSegment, g.SameExtent (f g))
    (p : ShmSegment → Bool) : ∃ g ∈ updateFirst p f segs, g.SameExtent seg := by
  rcases mem_updateFirst_of_mem f hseg with hg | ⟨-, hg⟩
  · exact ⟨seg, hg, rfl, rfl, rfl⟩
  · exact ⟨f seg, hg, (hf seg).inUse.symm, (hf seg).physBase.symm, (hf seg).size.symm⟩

/-- A step keeps every segment, with its frames, or is its removal. -/
lemma shmStep_segment {s' : ShmState} {op : ShmOp} (h : s.Inv) (hs : shmStep s op = some s')
    (hseg : seg ∈ s.segs) (hu : seg.inUse) :
    (∃ g ∈ s'.segs, g.SameExtent seg) ∨ op.Removes s seg := by
  have hself : ∃ g ∈ s.segs, g.SameExtent seg := ⟨seg, hseg, rfl, rfl, rfl⟩
  cases op with
  | shmget key size flags answer =>
    obtain ⟨⟨t, r⟩, ht, rfl⟩ := map_eq_some_iff.mp hs
    rcases shmget_cases ht with rfl | ⟨pages, start, -, rfl, -⟩
    · exact .inl hself
    -- the new segment takes a slot that was not in use
    rcases mem_updateFirst_of_mem (fun _ => s.newSegment key (pages * 4096) start) hseg
      with hg | ⟨hv, -⟩
    · exact .inl ⟨seg, hg, rfl, rfl, rfl⟩
    have := List.find?_some hv
    rw [hu] at this
    cases this
  | shmat pid shmid shmaddr failed =>
    rw [← some.inj hs, ShmState.shmat]
    split
    · exact .inl hself
    obtain ⟨g, hg, hsame⟩ := exists_frames_updateFirst hseg (f := addRef) (fun _ => ⟨rfl, rfl, rfl⟩)
      (hasId shmid)
    dsimp only
    split
    · obtain ⟨g', hg', hsame'⟩ :=
        exists_frames_updateFirst hg (f := dropRef) (fun _ => ⟨rfl, rfl, rfl⟩) (hasId shmid)
      exact .inl ⟨g', hg', hsame.inUse.trans hsame'.inUse, hsame.physBase.trans hsame'.physBase,
        hsame.size.trans hsame'.size⟩
    · exact .inl ⟨g, hg, hsame⟩
  | shmdt pid shmaddr =>
    rw [← some.inj hs, ShmState.shmdt]
    split
    · exact .inl hself
    · exact .inl (exists_frames_updateFirst hseg (f := dropRef) (fun _ => ⟨rfl, rfl, rfl⟩) _)
  | shmctl shmid cmd =>
    rw [← some.inj hs, ShmState.shmctl]
    split
    · exact .inl hself
    rename_i hcmd
    split
    · exact .inl hself
    rename_i v hv
    split
    next hzero =>
      rcases mem_updateFirst_of_mem (fun _ => .empty) hseg with hg | ⟨hg, -⟩
      · exact .inl ⟨seg, hg, rfl, rfl, rfl⟩
      refine .inr ⟨not_not.mp hcmd, hg, fun pid => ?_⟩
      rw [hv] at hg
      cases hg
      have := (h.counted seg hseg hu).le pid
      omega
    · exact .inl hself
  | fork parent child | mapArea pid vma | anonFault pid addr access f =>
    obtain ⟨-, -, rfl⟩ := map_eq_some_iff.mp hs
    exact .inl hself
  | freeVmSpace pid | munmap pid addr length => exact .inl (some.inj hs ▸ hself)

instance decidableShmatRespects (s : ShmState) (pid shmaddr : ℕ) (seg : ShmSegment) :
    Decidable (ShmatRespects s pid shmaddr seg) := by
  dsimp only [ShmatRespects]
  infer_instance

instance decidableMunmapRespects (s : PageState) (pid addr length : ℕ) :
    Decidable (MunmapRespects s pid addr length) := by
  dsimp only [MunmapRespects]
  infer_instance

instance ShmOp.decidableRespects (s : ShmState) (op : ShmOp) : Decidable (op.Respects s) := by
  cases op <;> dsimp only [ShmOp.Respects] <;> infer_instance

/-- **Segments own their frames** in every state of every run whose steps respect the attachments:
the frames of segments and all mapped frames are in use, no count is below the live attachments, and
the next step frees a frame of a segment only by removing a segment without attachments. -/
theorem shmRun_owned (used : ℕ → Bool) (mem : ℕ → ℕ → ℕ) (ops : List ShmOp) (n : ℕ) (s : ShmState)
    (hg : Guarded shmStep (fun s op => op.Respects s) (init used mem) ops)
    (hrun : run shmStep (init used mem) (ops.take n) = some s) :
    s.Owned ∧ ∀ op s', ops[n]? = some op → shmStep s op = some s' →
      ∀ seg ∈ s.segs, seg.inUse →
        ∀ f ∈ seg.frames, s'.page.frames.used f = false → op.Removes s seg := by
  have hinv : ∀ k t, run shmStep (init used mem) (ops.take k) = some t → t.Inv :=
    fun k t ht =>
      run_guarded (fun s op s' => shmStep_inv) (init_inv used mem) (guarded_take hg k) ht
  refine ⟨(hinv n s hrun).owned, fun op s' hop hs seg hseg hu f hf hfree => ?_⟩
  have hnext : s'.Inv := by
    refine hinv (n + 1) s' ?_
    rw [take_add_one, hop, run_append, hrun]
    simpa using hs
  rcases shmStep_segment (hinv n s hrun) hs hseg hu with ⟨g, hg, hsame⟩ | hrm
  · -- the segment is still there, so its frames are in use
    have hused := (hnext.held g hg (hsame.inUse ▸ hu)).used f (hsame.frames ▸ hf)
    rw [hfree] at hused
    cases hused
  · exact hrm

/-- Segments share no frame, and a device area is an attachment of a whole segment. -/
theorem segments_of_reachable (used : ℕ → Bool) (mem : ℕ → ℕ → ℕ) (s : {s // ∃ ops,
    Guarded shmStep (fun s op => op.Respects s) (init used mem) ops ∧
    run shmStep (init used mem) ops = some s}) :
    s.1.segs.Pairwise ShmSegment.Apart ∧ ∀ pid, ∀ a ∈ s.1.page.areas pid, a.backing.isDevice →
      ∃ seg ∈ s.1.segs, seg.inUse ∧ a.attaches seg ∧ a.length = seg.size := by
  obtain ⟨s, ops, hg, hrun⟩ := s
  have h : s.Inv := run_guarded (fun _ _ _ => shmStep_inv) (init_inv used mem) hg hrun
  exact ⟨h.apart, h.attached⟩

/-- Two processes attach a segment and detach it again, beside ordinary memory that one of them
forks and unmaps; then the segment is removed. -/
def attachRun : List ShmOp :=
  [.shmget 7 0x1800 ipcCreat (some 300), .shmat 1 1 0 [], .shmat 2 1 0x10000000 [],
    .mapArea 3 ⟨0x20000000, 0x1000, protRead ||| protWrite, mapPrivate, .anonymous, .mmap⟩,
    .anonFault 3 0x20000000 .write 302, .fork 3 4, .munmap 3 0x20000000 0x1000, .shmdt 1 0x60000000,
    .freeVmSpace 4, .shmdt 2 0x10000000, .shmctl 1 ipcRmid]

/-- While two processes have the segment attached, both areas are whole. -/
theorem segments_of_reachable_of_attachRun :
    ∃ s, run shmStep (init (fun f => f < 256) fun _ _ => 0) (attachRun.take 3) = some s ∧
      s.segs.Pairwise ShmSegment.Apart ∧ ∀ a ∈ s.page.areas 2, a.backing.isDevice →
        ∃ seg ∈ s.segs, seg.inUse ∧ a.attaches seg ∧ a.length = seg.size := by
  have h := segments_of_reachable (fun f => f < 256) (fun _ _ => 0)
    ⟨_, attachRun.take 3, by decide +kernel, rfl⟩
  exact ⟨_, rfl, h.1, h.2 2⟩

theorem shmRun_owned_of_attachRun :
    ∃ s, run shmStep (init (fun f => f < 256) fun _ _ => 0) (attachRun.take 10) = some s ∧
      s.Owned ∧ s.page.frames.used 301 = true ∧
      ∃ s', shmStep s (.shmctl 1 ipcRmid) = some s' ∧ s'.page.frames.used 301 = false :=
  ⟨_, rfl, (shmRun_owned (fun f => f < 256)
    (fun _ _ => 0) attachRun 10 _ (by decide +kernel) rfl).1,
    by decide +kernel, _, rfl, by decide +kernel⟩

/-- A process unmaps its attachment with `munmap`. -/
def unmapRun : List ShmOp := [.shmget 7 0x1000 ipcCreat (some 300), .shmat 1 1 0x10000000 [],
  .munmap 1 0x10000000 0x1000]

theorem munmap_frees_segment :
    ∃ s, run shmStep (init (fun f => f < 256) fun _ _ => 0) unmapRun = some s ∧
      ∃ seg ∈ s.segs, seg.inUse ∧ 300 ∈ seg.frames ∧ s.page.frames.used 300 = false :=
  ⟨_, rfl, by decide +kernel⟩

end Astryx
