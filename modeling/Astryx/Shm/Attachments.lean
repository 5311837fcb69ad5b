import Astryx.Lib.Tally
import Astryx.Paging.Counts
import Astryx.Shm.Segments
import Astryx.Vma.Layout

/-!
# Who owns the frames of a segment

A segment's frames are to stay in use while the segment exists or a leaf maps them
(`ShmState.Owned`). Since they carry no count, the argument rests on the segment table: `refcount`
covers the live attachments, every leaf of a segment lies in a `Device` area that is one of them,
and nothing but `IPC_RMID` gives the frames back.

The paths that drop or copy mappings know nothing of the table. `munmap` releases whatever leaf it
sweeps, and a frame without a count is freed at once; `fork` copies the device areas of the parent
without counting the child's attachments; a hinted `shmat` may land on top of an ordinary area,
whose teardown then releases the segment's frames. `ShmOp.Respects` is the condition under which
none of this happens.

Ordinary memory is carried along, because the two schemes meet in the page allocator: a frame freed
too early by one side would be handed to the other. `trackedRefs` lists the references that are
counted, namely the leaves outside device areas, and the counts are exact for that list.
-/

namespace Astryx

open List ShmState ShmSegment PageState

variable {s : ShmState} {seg : ShmSegment} {a : VmArea} {areas : List VmArea}

open RefPool FirstMatch Extents Tally

/-! ## Ownership -/

/-- The area attaches the segment. -/
def VmArea.attaches (seg : ShmSegment) (a : VmArea) : Bool := a.backing = .device seg.physBase

/-- The areas of a process that attach the segment. -/
def ShmState.attachments (s : ShmState) (seg : ShmSegment) (pid : ℕ) : ℕ :=
  (s.page.areas pid).countP (VmArea.attaches seg)

/-- Frames of segments and mapped frames are in use, and no segment under-counts its attachments. -/
structure ShmState.Owned (s : ShmState) : Prop where
  segment_used : ∀ seg ∈ s.segs, seg.inUse → ∀ f ∈ seg.frames, s.page.frames.used f = true
  mapped_used : ∀ l ∈ s.page.leaves, s.page.frames.used l.frame = true
  counted : ∀ seg ∈ s.segs, seg.inUse →
    ∀ pids : Finset ℕ, ∑ pid ∈ pids, s.attachments seg pid ≤ seg.refcount

/-- The step is the `IPC_RMID` of the segment, and the segment has no attachments. -/
def ShmOp.Removes (s : ShmState) (seg : ShmSegment) : ShmOp → Prop
  | .shmctl shmid cmd =>
    cmd = ipcRmid ∧ s.segs.find? (hasId shmid) = some seg ∧ ∀ pid, s.attachments seg pid = 0
  | _ => False

/-! ## What the callers have to respect -/

/-- What `shmat` does not check: that the count does not wrap, and that a hinted target is free and
below the trampoline page. -/
def ShmatRespects (s : ShmState) (pid shmaddr : ℕ) (seg : ShmSegment) : Prop :=
  seg.refcount + 1 < attachWidth ∧ (shmaddr ≠ 0 → pageAlignDown shmaddr ≠ 0 →
    pageAlignDown shmaddr + seg.size ≤ trampolineVaddr ∧
      ∀ a ∈ s.page.areas pid, ¬ a.overlaps (pageAlignDown shmaddr) seg.size)

/-- What `munmap` does not check: that its range lies below the trampoline page, cuts no device area
and sweeps no leaf of one. -/
def MunmapRespects (s : PageState) (pid addr length : ℕ) : Prop :=
  addr + length ≤ trampolineVaddr ∧
    (∀ a ∈ s.areas pid, a.backing.isDevice → ¬ a.overlaps addr length) ∧
    ∀ l ∈ s.leaves, sweptBy pid addr length l → ¬ inDeviceRange (s.areas pid) l.va

/-- The condition on a step. Ordinary areas are to be nonempty, whole pages and below the trampoline
page, a parent has no segment attached, and the 16-bit counts do not wrap in a fork. -/
def ShmOp.Respects (s : ShmState) : ShmOp → Prop
  | .shmat pid shmid shmaddr _ =>
    ∀ seg ∈ s.segs.find? (hasId shmid), ShmatRespects s pid shmaddr seg
  | .fork parent _ =>
    (∀ a ∈ s.page.areas parent, a.backing.isDevice = false) ∧ s.page.RoomToFork parent (2 ^ 48)
  | .munmap pid addr length =>
    length ≠ 0 → addr % 4096 = 0 → MunmapRespects s.page pid addr (pageAlignUp length)
  | .mapArea _ vma =>
    vma.backing.isDevice = false ∧ 0 < vma.length ∧ vma.length % 4096 = 0 ∧
      vma.base + vma.length ≤ trampolineVaddr
  | _ => True

/-! ## The invariant -/

/-- A segment in use: whole pages, handed out and without a count. -/
structure ShmSegment.Held (p : Pool) (seg : ShmSegment) : Prop where
  size_pos : 0 < seg.size
  size_pages : seg.size % 4096 = 0
  used : ∀ f ∈ seg.frames, p.used f = true
  untracked : ∀ f ∈ seg.frames, p.count f = 0

/-- The segments have no frame in common. -/
def ShmSegment.Apart (a b : ShmSegment) : Prop := a.inUse → b.inUse → ∀ f ∈ a.frames, f ∉ b.frames

/-- Areas in order and below the trampoline page. -/
structure UserAreas (areas : List VmArea) : Prop where
  wf : AreasWellFormed areas
  low : ∀ a ∈ areas, a.top ≤ trampolineVaddr

/-- The leaf is a page of the area, and of a device area the page it should be. -/
structure VmArea.Holds (a : VmArea) (l : Leaf) : Prop where
  contains : a.contains l.va
  page : l.va % 4096 = 0
  frame : a.backing.isDevice → l.frame = a.backing.devicePhys / 4096 + (l.va - a.base) / 4096

variable {l : Leaf} {b : ShmSegment} {p : Pool} {va shmid t pid : ℕ}

lemma VmArea.Holds.congr {l' : Leaf} (h : a.Holds l) (hva : l'.va = l.va)
    (hframe : l'.frame = l.frame) : a.Holds l' :=
  ⟨by rw [hva]; exact h.contains, by rw [hva]; exact h.page, by rw [hva, hframe]; exact h.frame⟩

/-- The frames behind leaves outside areas of devices. -/
def PageState.trackedRefs (s : PageState) : List ℕ :=
  (s.leaves.filter fun l => !inDeviceRange (s.areas l.pid) l.va).map Leaf.frame

/-- What every step that respects the segments preserves. -/
structure ShmState.Inv (s : ShmState) : Prop where
  areas : ∀ pid, UserAreas (s.page.areas pid)
  held : ∀ seg ∈ s.segs, seg.inUse → seg.Held s.page.frames
  apart : s.segs.Pairwise ShmSegment.Apart
  attached : ∀ pid, ∀ a ∈ s.page.areas pid, a.backing.isDevice →
    ∃ seg ∈ s.segs, seg.inUse ∧ a.attaches seg ∧ a.length = seg.size
  counted : ∀ seg ∈ s.segs, seg.inUse → Bounded (s.attachments seg) seg.refcount
  leaf : ∀ l ∈ s.page.leaves, ∃ a ∈ s.page.areas l.pid, a.Holds l
  backs : Backs s.page.trackedRefs s.page.frames

lemma ShmState.init_inv (used : ℕ → Bool) (mem : ℕ → ℕ → ℕ) : (ShmState.init used mem).Inv := by
  have hfree : ∀ seg ∈ (ShmState.init used mem).segs, seg.inUse = false := fun seg hseg => by
    rw [eq_of_mem_replicate hseg]
    rfl
  refine ⟨fun pid => ⟨?_, ?_⟩, fun seg hseg hu => ?_, ?_, ?_, fun seg hseg hu => ?_, ?_,
    ⟨fun f => rfl, ?_⟩⟩
  · exact ⟨.nil, by simp [init, PageState.init], by simp [init, PageState.init],
      by simp [init, PageState.init], by simp [init, PageState.init], .nil⟩
  · simp [init, PageState.init]
  · rw [hfree seg hseg] at hu
    cases hu
  · refine pairwise_replicate.mpr (.inr fun hu => ?_)
    cases hu
  · simp [init, PageState.init]
  · rw [hfree seg hseg] at hu
    cases hu
  · simp [init, PageState.init]
  · simp [init, PageState.init, trackedRefs]

lemma ShmSegment.mem_frames {f : ℕ} :
    f ∈ seg.frames ↔ ∃ i < seg.size / 4096, seg.physBase / 4096 + i = f := by
  simp [ShmSegment.frames]

lemma ShmSegment.Apart.symm {a : ShmSegment} (h : a.Apart b) :
    b.Apart a := fun hb ha f hfb hfa => h ha hb f hfa hfb

lemma ShmSegment.Held.first (h : seg.Held p) : seg.physBase / 4096 ∈ seg.frames := by
  have := h.size_pos
  have := h.size_pages
  exact mem_frames.mpr ⟨0, by omega, by omega⟩

/-- Segments in use that share no frame have different bases. -/
lemma ShmSegment.Apart.phys_ne {a : ShmSegment} (h : a.Apart b) (ha : a.inUse)
    (hb : b.inUse) (hpa : a.Held p) (hpb : b.Held p) : a.physBase ≠ b.physBase := by
  intro heq
  have hfirst := hpb.first
  rw [← heq] at hfirst
  exact h ha hb _ hpa.first hfirst

lemma attaches_iff : a.attaches seg ↔ a.backing = .device seg.physBase := decide_eq_true_iff

lemma isDevice_of_attaches (h : a.attaches seg) : a.backing.isDevice := by
  rw [attaches_iff.mp h]
  rfl

/-! ## Areas and leaves -/

section

variable (h : UserAreas areas) (ha : a ∈ areas)

include h ha

lemma UserAreas.eq_of_contains {b : VmArea} (hb : b ∈ areas) (hav : a.contains va)
    (hbv : b.contains va) : a = b := by
  obtain ⟨hl, hs⟩ := areasWellFormed_iff.mp h.wf
  by_contra hne
  rw [contains_iff, (hs a ha).endAddr_eq] at hav
  rw [contains_iff, (hs b hb).endAddr_eq] at hbv
  have := hl.disjoint ha hb hne
  omega

/-- Whether an address is device memory is decided by the area it lies in. -/
lemma UserAreas.inDeviceRange_eq (hav : a.contains va) :
    inDeviceRange areas va = a.backing.isDevice := by
  rw [inDeviceRange, Bool.eq_iff_iff, any_eq_true]
  constructor
  · rintro ⟨b, hb, hbv⟩
    rw [Bool.and_eq_true] at hbv
    rw [h.eq_of_contains ha hb hav hbv.2]
    exact hbv.1
  · intro hdev
    exact ⟨a, ha, by rw [hdev, hav]; rfl⟩

lemma UserAreas.contains_lt (hav : a.contains va) : a.base ≤ va ∧ va < a.top := by
  rw [contains_iff, ((areasWellFormed_iff.mp h.wf).2 a ha).endAddr_eq] at hav
  exact hav

end

lemma walks_iff {base rangeEnd : ℕ} (hb : rangeEnd ≤ trampolineVaddr) (hva : va < trampolineVaddr) :
    walks base rangeEnd va ↔ base ≤ va ∧ va < rangeEnd := by
  rw [trampolineVaddr] at hb hva
  rw [walks, decide_eq_true_iff]
  omega

/-- A frame behind a device leaf belongs to a segment in use. -/
lemma ShmState.Inv.mem_segment (h : s.Inv) (ha : a ∈ s.page.areas l.pid) (hal : a.Holds l)
    (hdev : a.backing.isDevice) : ∃ seg ∈ s.segs, seg.inUse ∧ l.frame ∈ seg.frames := by
  obtain ⟨seg, hseg, hu, hatt, hlen⟩ := h.attached l.pid a ha hdev
  have hin := (h.areas l.pid).contains_lt ha hal.contains
  have hlenp := (h.areas l.pid).wf.length_pages a ha
  rw [VmArea.top, hlen] at hin
  refine ⟨seg, hseg, hu, mem_frames.mpr ⟨(l.va - a.base) / 4096, by omega, ?_⟩⟩
  rw [hal.frame hdev, attaches_iff.mp hatt]
  rfl

lemma ShmState.Inv.owned (h : s.Inv) : s.Owned := by
  refine ⟨fun seg hseg hu => (h.held seg hseg hu).used, fun l hl => ?_, h.counted⟩
  obtain ⟨a, ha, hal⟩ := h.leaf l hl
  cases hdev : a.backing.isDevice with
  | true =>
    obtain ⟨seg, hseg, hu, hmem⟩ := h.mem_segment ha hal hdev
    exact (h.held seg hseg hu).used _ hmem
  | false =>
    -- the counted leaves are those in ordinary areas
    refine h.backs.used_of_mem _ (mem_map_of_mem (mem_filter.mpr ⟨hl, ?_⟩))
    rw [(h.areas l.pid).inDeviceRange_eq ha hal.contains, hdev]
    rfl

/-! ## Creating and removing segments -/

/-- An area that attaches a segment has the physical base of one that exists. -/
lemma ShmState.Inv.attachments_eq_zero (h : s.Inv)
    (hfresh : ∀ g ∈ s.segs, g.inUse → g.physBase ≠ seg.physBase) (pid : ℕ) :
    s.attachments seg pid = 0 := by
  refine countP_eq_zero.mpr fun a ha hatt => ?_
  obtain ⟨g, hg, hu, hag, -⟩ := h.attached pid a ha (isDevice_of_attaches hatt)
  have heq := (attaches_iff.mp hag).symm.trans (attaches_iff.mp hatt)
  exact hfresh g hg hu (VmBacking.device.inj heq)

lemma inv_create (h : s.Inv) (hpos : 0 < seg.size) (hpages : seg.size % 4096 = 0)
    (hfree : ∀ f ∈ seg.frames, s.page.frames.used f = false) : (s.create seg).Inv := by
  have hnew : seg.Held (s.page.frames.allocAll seg.frames) := by
    refine ⟨hpos, hpages, fun f hf => Pool.allocAll_used.mpr (.inl hf), fun f hf => ?_⟩
    rw [Pool.allocAll_count, h.backs.count_eq]
    exact count_eq_zero.mpr (h.backs.not_mem_of_free (hfree f hf))
  -- the frames were free, so they belong to no segment
  have hapart : ∀ g ∈ s.segs, ShmSegment.Apart g seg := fun g hg hu _ f hfg hfs => by
    have hused := (h.held g hg hu).used f hfg
    rw [hfree f hfs] at hused
    cases hused
  refine ⟨h.areas, fun g hg hu => ?_, ?_, fun pid a ha hdev => ?_, fun g hg hu => ?_, h.leaf,
    h.backs.allocAll _⟩
  · rcases mem_updateFirst hg with hg | ⟨v, -, rfl⟩
    · have hold := h.held g hg hu
      refine ⟨hold.size_pos, hold.size_pages, fun f hf =>
        Pool.allocAll_used.mpr (.inr (hold.used f hf)),
        fun f hf => ?_⟩
      show (s.page.frames.allocAll seg.frames).count f = 0
      rw [Pool.allocAll_count]
      exact hold.untracked f hf
    · exact hnew
  · exact pairwise_updateFirst h.apart (fun v _ b hb _ => (hapart b hb).symm) fun v _ a ha
      _ => hapart a ha
  · obtain ⟨g, hg, hu, hatt⟩ := h.attached pid a ha hdev
    rcases mem_updateFirst_of_mem (fun _ => seg) hg with hg | ⟨hv, -⟩
    · exact ⟨g, hg, hu, hatt⟩
    have := List.find?_some hv
    rw [hu] at this
    cases this
  rcases mem_updateFirst hg with hg | ⟨-, -, rfl⟩
  · exact h.counted g hg hu
  refine bounded_of_zero (h.attachments_eq_zero fun g hg hgu => ?_)
  intro heq
  exact hapart g hg hgu hu _ (h.held g hg hgu).first (heq ▸ hnew.first)

variable {size shmaddr : ℕ} {f : ShmSegment → ShmSegment} {g g' : ShmSegment}

lemma hasId_spec {segs : List ShmSegment} (h : segs.find? (hasId shmid) = some seg) :
    seg ∈ segs ∧ seg.inUse :=
  ⟨mem_of_find?_eq_some h, (of_decide_eq_true (List.find?_some (p := hasId shmid) h)).1⟩

lemma ShmState.Inv.mem_update (h : s.Inv) {p : ShmSegment → Bool} {v : ShmSegment}
    (hv : s.segs.find? p = some v) (hb : b ∈ updateFirst p f s.segs) :
    b = f v ∨ b ∈ s.segs ∧ b.Apart v :=
  mem_updateFirst_of_pairwise (fun _ _ => ShmSegment.Apart.symm) h.apart hv hb

lemma inv_remove (h : s.Inv) (hv : s.segs.find? (hasId shmid) = some seg)
    (hzero : seg.refcount = 0) :
    (s.remove shmid seg).Inv := by
  obtain ⟨hmem, hinuse⟩ := hasId_spec hv
  have hnone : ∀ pid, s.attachments seg pid = 0 := fun pid => by
    have := (h.counted seg hmem hinuse).le pid
    omega
  refine ⟨h.areas, fun g hg hu => ?_, ?_, fun pid a ha hdev => ?_, fun g hg hu => ?_, h.leaf, ?_⟩
  · rcases h.mem_update hv hg with rfl | ⟨hg, hapart⟩
    · cases hu
    have hold := h.held g hg hu
    refine ⟨hold.size_pos, hold.size_pages,
      fun f hf => Pool.freeAll_used.mpr ⟨hapart hu hinuse f hf, hold.used f hf⟩, fun f hf => ?_⟩
    show (s.page.frames.freeAll seg.frames).count f = 0
    rw [Pool.freeAll_count]
    exact hold.untracked f hf
  · refine pairwise_updateFirst h.apart (fun v _ b _ _ hu => ?_) fun v _ a _ _ _ hu =>
      ?_ <;> cases hu
  · obtain ⟨g, hg, hu, hatt, hlen⟩ := h.attached pid a ha hdev
    rcases mem_updateFirst_of_mem (fun _ => .empty) hg with hg | ⟨hg, -⟩
    · exact ⟨g, hg, hu, hatt, hlen⟩
    -- the removed segment has no attachment left
    rw [hv] at hg
    cases hg
    exact absurd hatt (countP_eq_zero.mp (hnone pid) a ha)
  · rcases h.mem_update hv hg with rfl | ⟨hg, -⟩
    · cases hu
    · exact h.counted g hg hu
  refine h.backs.freeAll fun f hf hmem' => ?_
  have huntracked := (h.held seg hmem hinuse).untracked f hf
  rw [h.backs.count_eq, count_eq_zero] at huntracked
  exact huntracked hmem'

lemma inv_shmctl (h : s.Inv) (shmid : ℕ) (cmd : ℤ) : (s.shmctl shmid cmd).1.Inv := by
  rw [shmctl]
  split
  · exact h
  split
  · exact h
  rename_i seg hv
  split
  next hzero => exact inv_remove h hv hzero
  · exact h

/-! ## Attaching and detaching -/

/-- Only the count of a segment has changed. -/
structure ShmSegment.SameExtent (g g' : ShmSegment) : Prop where
  inUse : g'.inUse = g.inUse
  physBase : g'.physBase = g.physBase
  size : g'.size = g.size

lemma ShmSegment.SameExtent.frames (h : g.SameExtent g') : g'.frames = g.frames := by
  rw [ShmSegment.frames, h.size, h.physBase, ShmSegment.frames]

lemma ShmSegment.SameExtent.held (h : g.SameExtent g') (hg : g.Held p) : g'.Held p := by
  refine ⟨by rw [h.size]; exact hg.size_pos, by rw [h.size]; exact hg.size_pages, ?_, ?_⟩
    <;> rw [h.frames]
  · exact hg.used
  · exact hg.untracked

/-- What a change of counts leaves of the invariant: the segments and what attaches them. -/
lemma ShmState.Inv.recount (h : s.Inv) (hf : ∀ g : ShmSegment, g.SameExtent (f g))
    (p : ShmSegment → Bool) :
    (∀ g ∈ updateFirst p f s.segs, g.inUse → g.Held s.page.frames) ∧
      (updateFirst p f s.segs).Pairwise ShmSegment.Apart ∧
      ∀ a : VmArea, (∃ g ∈ s.segs, g.inUse ∧ a.attaches g ∧ a.length = g.size) →
        ∃ g ∈ updateFirst p f s.segs, g.inUse ∧ a.attaches g ∧ a.length = g.size := by
  refine ⟨fun g hg hu => ?_, pairwise_updateFirst h.apart ?_ ?_, ?_⟩
  · rcases mem_updateFirst hg with hg | ⟨v, hv, rfl⟩
    · exact h.held g hg hu
    · rw [(hf v).inUse] at hu
      exact (hf v).held (h.held v (mem_of_find?_eq_some hv) hu)
  · intro v _ b _ hr
    rw [ShmSegment.Apart, (hf v).inUse, (hf v).frames]
    exact hr
  · intro v _ a _ hr
    rw [ShmSegment.Apart, (hf v).inUse, (hf v).frames]
    exact hr
  rintro a ⟨g, hg, hu, hatt, hlen⟩
  rcases mem_updateFirst_of_mem f hg with hg | ⟨-, hg⟩
  · exact ⟨g, hg, hu, hatt, hlen⟩
  refine ⟨f g, hg, by rw [(hf g).inUse, hu], ?_, by rw [(hf g).size, hlen]⟩
  rw [attaches_iff, (hf g).physBase, ← attaches_iff]
  exact hatt

/-- Whether a leaf is counted does not change while its area stays. -/
lemma ShmState.Inv.inDeviceRange_eq (h : s.Inv) (hareas : UserAreas areas)
    (ha : a ∈ s.page.areas l.pid) (hal : a.Holds l) (ha' : a ∈ areas) :
    inDeviceRange areas l.va = inDeviceRange (s.page.areas l.pid) l.va := by
  rw [hareas.inDeviceRange_eq ha' hal.contains, (h.areas l.pid).inDeviceRange_eq ha hal.contains]

/-- A free, page-aligned target in the user half. -/
structure AttachTarget (areas : List VmArea) (size t : ℕ) : Prop where
  page : t % 4096 = 0
  low : t + size ≤ trampolineVaddr
  free : ∀ a ∈ areas, a.top ≤ t ∨ t + size ≤ a.base

lemma AttachTarget.userAreas (ht : AttachTarget areas size t)
    (h : UserAreas areas) (hpos : 0 < size) (hpages : size % 4096 = 0) (physBase : ℕ) :
    UserAreas (place VmArea.base (shmArea t size physBase) areas) := by
  have hlow := ht.low
  have hmax : trampolineVaddr < 2 ^ 64 := by decide
  refine ⟨h.wf.place ⟨hpages, ht.page, hlow.trans_lt hmax⟩ hpos ht.free, fun a ha => ?_⟩
  rcases mem_place.mp ha with rfl | ha
  · exact hlow
  · exact h.low a ha

lemma AttachTarget.holds {failed : List ℕ} (ht : AttachTarget areas seg.size t)
    (hpages : seg.size % 4096 = 0) (hl : l ∈ attachLeaves pid t seg failed) :
    l.pid = pid ∧ (shmArea t seg.size seg.physBase).Holds l := by
  obtain ⟨i, hi, rfl⟩ := mem_map.mp hl
  have hlt := mem_range.mp (mem_filter.mp hi).1
  have hlow := ht.low
  have hpage := ht.page
  rw [trampolineVaddr] at hlow
  have hva : (t + i * 4096) % 2 ^ 48 = t + i * 4096 := Nat.mod_eq_of_lt (by omega)
  refine ⟨rfl, ?_, ?_, fun _ => ?_⟩
  · rw [contains_iff, VmArea.endAddr]
    show t ≤ (t + i * 4096) % 2 ^ 48 ∧ (t + i * 4096) % 2 ^ 48 < Word.add t seg.size
    rw [hva, Word.add_eq (by omega)]
    omega
  · show (t + i * 4096) % 2 ^ 48 % 4096 = 0
    omega
  · show seg.physBase / 4096 + i = seg.physBase / 4096 + ((t + i * 4096) % 2 ^ 48 - t) / 4096
    omega

/-- Nothing is overwritten at a free target. -/
lemma AttachTarget.install_eq (h : s.Inv) (failed : List ℕ)
    (ht : AttachTarget (s.page.areas pid) seg.size t) (hpos : 0 < seg.size)
    (hpages : seg.size % 4096 = 0) :
    installLeaves (attachLeaves pid t seg failed) s.page.leaves = attachLeaves pid t seg failed ++
      s.page.leaves := by
  rw [installLeaves, filter_eq_self.mpr]
  intro l hl
  rw [Bool.not_eq_true', any_eq_false]
  intro k hk hsame
  obtain ⟨hkpid, hkarea⟩ := ht.holds hpages hk
  obtain ⟨hpid, hva⟩ := of_decide_eq_true hsame
  obtain ⟨a, ha, hal⟩ := h.leaf l hl
  rw [← hpid, hkpid] at ha
  -- the area of the old leaf and the new one would share the page
  have hin := (h.areas pid).contains_lt ha hal.contains
  have hnew := (ht.userAreas (h.areas pid) hpos hpages seg.physBase).contains_lt
    (mem_place.mpr (.inl rfl)) hkarea.contains
  have hfree := ht.free a ha
  have htop : (shmArea t seg.size seg.physBase).top = t + seg.size := rfl
  have hbase : (shmArea t seg.size seg.physBase).base = t := rfl
  omega

section Attach

variable {s : ShmState} {pid shmid t : ℕ} {seg : ShmSegment} {failed : List ℕ}

section

variable (h : s.Inv) (hv : s.segs.find? (hasId shmid) = some seg)
  (hroom : seg.refcount + 1 < attachWidth)

include h hv hroom

/-- The segment counts its new attachment, and the others have none. -/
lemma attach_counted {g : ShmSegment} (hg : g ∈ (s.attach pid shmid t seg failed).segs)
    (hu : g.inUse) : Bounded ((s.attach pid shmid t seg failed).attachments g) g.refcount := by
  obtain ⟨hmem, hinuse⟩ := hasId_spec hv
  have hperm := place_perm VmArea.base (shmArea t seg.size seg.physBase) (s.page.areas pid)
  have hself : ∀ g', (s.attach pid shmid t seg failed).attachments g' pid =
      (shmArea t seg.size seg.physBase :: s.page.areas pid).countP (VmArea.attaches g') :=
        fun g' => by
    simp [← hperm.countP_eq, attachments]
  have hother : ∀ g' q, q ≠ pid →
      (s.attach pid shmid t seg failed).attachments g' q = s.attachments g' q := fun g' q hq => by
    rw [attachments, attach_areas_of_ne s hq, attachments]
  rcases h.mem_update hv hg with rfl | ⟨hg, hapart⟩
  · rw [addRef]
    rw [Nat.mod_eq_of_lt hroom]
    refine (h.counted seg hmem hinuse).raise pid ?_ fun q hq => le_of_eq (hother _ q hq)
    rw [hself]
    exact le_of_eq (countP_cons_of_pos (attaches_iff.mpr rfl))
  refine (h.counted g hg hu).mono fun q => ?_
  by_cases hq : q = pid
  · have hne := hapart.phys_ne hu hinuse (h.held g hg hu) (h.held seg hmem hinuse)
    rw [hq, hself]
    refine le_of_eq (countP_cons_of_neg fun hatt => hne ?_)
    exact (VmBacking.device.inj (attaches_iff.mp hatt)).symm
  · exact le_of_eq (hother g q hq)

lemma inv_attach (ht : AttachTarget (s.page.areas pid) seg.size t) :
    (s.attach pid shmid t seg failed).Inv := by
  obtain ⟨hmem, hinuse⟩ := hasId_spec hv
  have hheld := h.held seg hmem hinuse
  have hnew := ht.userAreas (h.areas pid) hheld.size_pos hheld.size_pages seg.physBase
  have hareas : ∀ q, UserAreas ((s.attach pid shmid t seg failed).page.areas q) :=
    (Function.forall_update_iff s.page.areas fun _ => UserAreas).mpr ⟨hnew, fun q _ => h.areas q⟩
  -- the areas that were there are there still, and the new one is
  have hstay : ∀ q, ∀ a ∈ s.page.areas q, a ∈ (s.attach pid shmid t seg failed).page.areas q :=
    (Function.forall_update_iff s.page.areas fun q l => ∀ a ∈ s.page.areas q, a ∈ l).mpr
      ⟨fun a ha => mem_place.mpr (.inr ha), fun _ _ _ ha => ha⟩
  have hin : shmArea t seg.size seg.physBase ∈
      (s.attach pid shmid t seg failed).page.areas pid := by
    rw [attach_areas_self]
    exact mem_place.mpr (.inl rfl)
  have hleaves : (s.attach pid shmid t seg failed).page.leaves =
      attachLeaves pid t seg failed ++ s.page.leaves :=
    ht.install_eq h failed hheld.size_pos hheld.size_pages
  obtain ⟨hheld', hapart', hatt'⟩ :=
    h.recount (f := addRef) (fun g => ⟨rfl, rfl, rfl⟩) (hasId shmid)
  refine ⟨hareas, hheld', hapart', fun q a ha hdev => hatt' a ?_,
    fun g => attach_counted h hv hroom, fun l hl => ?_, ?_⟩
  · -- a device area is the new one or an old one
    by_cases hq : q = pid
    · rw [hq, attach_areas_self] at ha
      rcases mem_place.mp ha with rfl | ha
      · exact ⟨seg, hmem, hinuse, attaches_iff.mpr rfl, rfl⟩
      · exact h.attached pid a ha hdev
    · rw [attach_areas_of_ne s hq] at ha
      exact h.attached q a ha hdev
  · rw [hleaves] at hl
    rcases mem_append.mp hl with hl | hl
    · obtain ⟨hlpid, hlarea⟩ := ht.holds hheld.size_pages hl
      exact ⟨_, hlpid ▸ hin, hlarea⟩
    · obtain ⟨a, ha, hal⟩ := h.leaf l hl
      exact ⟨a, hstay _ a ha, hal⟩
  -- the new leaves are not counted, the old ones as before
  have hrefs : (s.attach pid shmid t seg failed).page.trackedRefs = s.page.trackedRefs := by
    rw [trackedRefs, hleaves, filter_append, filter_eq_nil_iff.mpr, nil_append, trackedRefs,
      filter_congr fun l hl => ?_]
    · obtain ⟨a, ha, hal⟩ := h.leaf l hl
      rw [h.inDeviceRange_eq (hareas l.pid) ha hal (hstay _ a ha)]
    intro l hl
    obtain ⟨hlpid, hlarea⟩ := ht.holds hheld.size_pages hl
    rw [(hareas l.pid).inDeviceRange_eq (hlpid ▸ hin) hlarea.contains]
    nofun
  rw [hrefs]
  exact h.backs

end

end Attach

section Detach

variable {s : ShmState} {pid shmaddr : ℕ} {vma : VmArea}

lemma isDeviceAt_spec (hv : (s.page.areas pid).find? (·.isDeviceAt shmaddr) = some vma) :
    vma ∈ s.page.areas pid ∧ vma.backing.isDevice :=
  ⟨mem_of_find?_eq_some hv,
    (of_decide_eq_true (List.find?_some (p := fun a : VmArea => a.isDeviceAt shmaddr) hv)).2⟩

lemma detach_counted (h : s.Inv) (hv : (s.page.areas pid).find? (·.isDeviceAt shmaddr) = some vma)
    {g : ShmSegment} (hg : g ∈ (s.detach pid shmaddr vma).segs) (hu : g.inUse) :
    Bounded ((s.detach pid shmaddr vma).attachments g) g.refcount := by
  obtain ⟨hmem, hdev⟩ := isDeviceAt_spec hv
  have hperm := perm_cons_eraseP hv
  have hself : ∀ g', (s.detach pid shmaddr vma).attachments g' pid =
      ((s.page.areas pid).eraseP (·.isDeviceAt shmaddr)).countP (VmArea.attaches g') := fun g' => by
    simp [attachments]
  have hother : ∀ g' q, q ≠ pid →
      (s.detach pid shmaddr vma).attachments g' q = s.attachments g' q := fun g' q hq => by
    rw [attachments, detach_areas_of_ne s hq, attachments]
  -- the table has a segment with the physical base of the area
  obtain ⟨seg, hseg, hinuse, hatt, -⟩ := h.attached pid vma hmem hdev
  rw [attaches_iff] at hatt
  have hphys : vma.backing.devicePhys = seg.physBase := by rw [hatt]; rfl
  cases hfind : s.segs.find? (hasPhys vma.backing.devicePhys) with
  | none =>
    exact absurd (decide_eq_true ⟨hinuse, hphys.symm⟩) (List.find?_eq_none.mp hfind seg hseg)
  | some v =>
    have hvspec := of_decide_eq_true (List.find?_some (p := hasPhys vma.backing.devicePhys) hfind)
    have hvmem := mem_of_find?_eq_some hfind
    rcases h.mem_update hfind hg with rfl | ⟨hg, -⟩
    · refine (h.counted v hvmem hvspec.1).lower pid ?_ fun q hq => le_of_eq (hother _ q hq)
      rw [hself, attachments, hperm.countP_eq]
      refine le_of_eq (countP_cons_of_pos (attaches_iff.mpr ?_)).symm
      show vma.backing = .device v.physBase
      rw [hvspec.2, hatt]
      rfl
    refine (h.counted g hg hu).mono fun q => ?_
    by_cases hq : q = pid
    · rw [hq, hself]
      exact eraseP_sublist.countP_le
    · exact le_of_eq (hother g q hq)

lemma detaches_iff (h : s.Inv) (hmem : vma ∈ s.page.areas pid) {l : Leaf} (hl : l ∈ s.page.leaves) :
    detaches pid vma l ↔ l.pid = pid ∧ vma.contains l.va := by
  obtain ⟨a, ha, hal⟩ := h.leaf l hl
  have hva := (h.areas l.pid).contains_lt ha hal.contains
  have hatop := (h.areas l.pid).low a ha
  have htop := (h.areas pid).low vma hmem
  have hlen := (h.areas pid).wf.length_pages vma hmem
  have hend : vma.base + vma.length / 4096 * 4096 = vma.top := by
    rw [VmArea.top]
    omega
  rw [detaches, decide_eq_true_iff, hend, walks_iff htop (by omega), contains_iff,
    ((areasWellFormed_iff.mp (h.areas pid).wf).2 vma hmem).endAddr_eq]

lemma inv_detach (h : s.Inv) (hv : (s.page.areas pid).find? (·.isDeviceAt shmaddr) = some vma) :
    (s.detach pid shmaddr vma).Inv := by
  obtain ⟨hmem, hdev⟩ := isDeviceAt_spec hv
  have hsub : ((s.page.areas pid).eraseP (·.isDeviceAt shmaddr)).Sublist (s.page.areas pid) :=
    eraseP_sublist
  have hnew : UserAreas ((s.page.areas pid).eraseP (·.isDeviceAt shmaddr)) := by
    obtain ⟨hl, hs⟩ := areasWellFormed_iff.mp (h.areas pid).wf
    exact ⟨areasWellFormed_iff.mpr ⟨hl.sublist hsub, fun a ha => hs a (hsub.subset ha)⟩,
      fun a ha => (h.areas pid).low a (hsub.subset ha)⟩
  have hareas : ∀ q, UserAreas ((s.detach pid shmaddr vma).page.areas q) :=
    (Function.forall_update_iff s.page.areas fun _ => UserAreas).mpr ⟨hnew, fun q _ => h.areas q⟩
  -- a leaf that stays keeps its area
  have hstay : ∀ l ∈ s.page.leaves, !detaches pid vma l → ∀ a ∈ s.page.areas l.pid, a.Holds l →
      a ∈ (s.detach pid shmaddr vma).page.areas l.pid := by
    intro l hl hkeep a ha hal
    by_cases hq : l.pid = pid
    · rw [hq] at ha
      rw [hq, detach_areas_self]
      rcases mem_cons.mp ((perm_cons_eraseP hv).mem_iff.mp ha) with rfl | ha
      · rw [(detaches_iff h hmem hl).mpr ⟨hq, hal.contains⟩] at hkeep
        cases hkeep
      · exact ha
    · rw [detach_areas_of_ne s hq]
      exact ha
  obtain ⟨hheld', hapart', hatt'⟩ :=
    h.recount (f := dropRef) (fun g => ⟨rfl, rfl, rfl⟩) (hasPhys vma.backing.devicePhys)
  refine ⟨hareas, hheld', hapart', fun q a ha hadev => hatt' a ?_,
    fun g => detach_counted h hv, fun l hl => ?_, ?_⟩
  · by_cases hq : q = pid
    · rw [hq, detach_areas_self] at ha
      exact h.attached pid a (hsub.subset ha) hadev
    · rw [detach_areas_of_ne s hq] at ha
      exact h.attached q a ha hadev
  · obtain ⟨hl, hkeep⟩ := mem_filter.mp hl
    obtain ⟨a, ha, hal⟩ := h.leaf l hl
    exact ⟨a, hstay l hl hkeep a ha hal, hal⟩
  -- the cleared leaves were not counted
  have hrefs : (s.detach pid shmaddr vma).page.trackedRefs = s.page.trackedRefs := by
    rw [trackedRefs, trackedRefs, detach]
    rw [filter_filter]
    refine congrArg _ (filter_congr fun l hl => ?_)
    obtain ⟨a, ha, hal⟩ := h.leaf l hl
    cases hkeep : detaches pid vma l with
    | true =>
      obtain ⟨hpid, hcont⟩ := (detaches_iff h hmem hl).mp hkeep
      simp [hpid, (h.areas pid).inDeviceRange_eq hmem hcont, hdev]
    | false =>
      rw [Bool.not_false, Bool.and_true]
      exact congrArg _
        (h.inDeviceRange_eq (hareas l.pid) ha hal (hstay l hl (by rw [hkeep]; rfl) a ha hal))
  rw [hrefs]
  exact h.backs

end Detach

/-- A picked target, and a hinted one that respects the areas, is free. -/
lemma attachTarget_of_respects (h : s.Inv) (hheld : seg.Held s.page.frames)
    (hresp : ShmatRespects s pid shmaddr seg)
    (hne : shmTarget (s.page.areas pid) seg.size shmaddr ≠ 0) :
    AttachTarget (s.page.areas pid) seg.size (shmTarget (s.page.areas pid) seg.size shmaddr) := by
  have hmax : trampolineVaddr < 2 ^ 64 := by decide
  rw [shmTarget] at hne ⊢
  split
  next hhint =>
    rw [if_pos hhint] at hne
    obtain ⟨hlow, hfree⟩ := hresp.2 hhint hne
    refine ⟨pageAlignDown_mod _, hlow, fun a ha => ?_⟩
    have hno := hfree a ha
    rw [((areasWellFormed_iff.mp (h.areas pid).wf).2 a ha).overlaps_iff (by omega)] at hno
    omega
  next hhint =>
    rw [if_neg hhint] at hne
    obtain ⟨hpage, -, hfree⟩ := pickVaddrFrom_spec (h.areas pid).wf hheld.size_pages (by decide) hne
    refine ⟨hpage, ?_, hfree⟩
    exact le_trans (le_of_lt (pickVaddrFrom_lt hne)) (by decide)

lemma inv_shmat (h : s.Inv) (failed : List ℕ)
    (hresp : ∀ seg ∈ s.segs.find? (hasId shmid), ShmatRespects s pid shmaddr seg) :
    (s.shmat pid shmid shmaddr failed).1.Inv := by
  rw [ShmState.shmat]
  split
  · exact h
  rename_i seg hv
  have hseg := hresp seg hv
  obtain ⟨hmem, hinuse⟩ := hasId_spec hv
  dsimp only
  split
  · -- the failed attach gives its count back
    have hback : dropRef (addRef seg) = seg := by
      rw [addRef, dropRef]
      simp [Nat.mod_eq_of_lt hseg.1]
    rw [updateFirst_updateFirst (p := hasId shmid) (f := addRef) fun _ => id,
      updateFirst_eq_self fun v hv' => ?_]
    · exact h
    rw [hv] at hv'
    cases hv'
    exact hback
  next hne =>
    exact inv_attach h hv hseg.1 (attachTarget_of_respects h (h.held seg hmem hinuse) hseg hne)

lemma inv_shmdt (h : s.Inv) (pid shmaddr : ℕ) : (s.shmdt pid shmaddr).1.Inv := by
  rw [ShmState.shmdt]
  split
  · exact h
  next vma hv => exact inv_detach h hv

end Astryx
