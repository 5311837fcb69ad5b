import Astryx.Vma.Space
import Mathlib

/-!
# The mount table

`vfs::MOUNTS` is a vector, and the rest of the kernel names a mount by its position: descriptors,
file-backed areas, the page cache, the pins and the deferred deletions all hold pairs of a position
and an inode number. `sys_umount` removes an entry, which shifts every later one. It refuses while a
descriptor is open on the mount, and it renumbers the descriptors; the other tables it neither looks
at nor renumbers.

## Main results

* `sysUmount_preserves_iff` — when a successful call keeps what every reference denotes
* `umount_moves_mapping` — a mapping that denotes a file of another filesystem after the call
-/

namespace Astryx.Vfs

open List

/-- A path or a name. -/
abbrev Text := List Char

/-- `FileType` -/
inductive FileType where
  | regularFile
  | directory
  | symLink
  | charDevice
  | blockDevice
  | pipe
  | eventFd
  | socket
  | timerFd
  | signalFd
  | inotifyFd
  | ptyMaster
  | ptySlave
  deriving DecidableEq, Repr

/-- `usize::MAX`, the mount of descriptors that have no inode. -/
def usizeMax : ℕ := 2 ^ 64 - 1

/-- A mount of a filesystem of type `φ`. -/
structure Mount (φ : Type*) where
  path : Text
  fs : φ
  rootInode : ℕ

/-- An open file, as far as it names one. -/
structure FileDescriptor where
  mountIdx : ℕ
  inode : ℕ
  fileType : FileType
  deriving DecidableEq, Repr

/-- A process, as far as it names files. -/
structure Process where
  fileDescriptors : List (Option FileDescriptor)
  areas : List VmBacking

/-- The tables that name files by mount position. A filesystem is known by its identity: every mount
owns its own, so no two entries have the same. -/
structure KernelState where
  mounts : List (Mount ℕ)
  procs : List Process
  /-- The keys of `PAGE_CACHE`: mount, inode and page offset. -/
  pageCache : List (ℕ × ℕ × ℕ)
  /-- `PINNED_INODES`, with the counts. -/
  pinned : List (ℕ × ℕ × ℕ)
  /-- `DELETED_INODES`. -/
  deleted : List (ℕ × ℕ)
  /-- `PENDING_INODE_REAP`. -/
  pendingReap : List (ℕ × ℕ)
  distinct : (mounts.map (·.fs)).Nodup
  length_le : mounts.length ≤ usizeMax

/-- The descriptor on the shifted table. -/
def FileDescriptor.renumber (idx : ℕ) (fd : FileDescriptor) : FileDescriptor :=
  if fd.mountIdx ≠ usizeMax ∧ idx < fd.mountIdx then { fd with mountIdx := fd.mountIdx - 1 } else fd

/-- The descriptors of a process after a mount is gone. -/
def Process.renumber (idx : ℕ) (p : Process) : Process :=
  { p with fileDescriptors := p.fileDescriptors.map fun fdo => fdo.map (·.renumber idx) }

namespace KernelState

variable (k : KernelState)

/-- A descriptor is on the mount. -/
def busy (idx : ℕ) : Bool := k.procs.any fun p =>
    p.fileDescriptors.any fun fdo => fdo.any fun fd => fd.mountIdx = idx

/-- The entry at `idx` leaves the table, and the descriptors are renumbered. -/
def removeMount (idx : ℕ) : KernelState where
  mounts := k.mounts.eraseIdx idx
  procs := k.procs.map (·.renumber idx)
  pageCache := k.pageCache
  pinned := k.pinned
  deleted := k.deleted
  pendingReap := k.pendingReap
  distinct := k.distinct.sublist ((eraseIdx_sublist k.mounts idx).map _)
  length_le := Nat.le_trans (length_eraseIdx_le ..) k.length_le

/-- Removes a mount that no descriptor is on. -/
def sysUmount (target : Text) : ℤ × KernelState :=
  if target = [] ∨ target = ['/'] then (-22, k)
  else
    match k.mounts.findIdx? fun m => m.path = target with
    | none => (-2, k)
    | some idx => if k.busy idx then (-16, k) else (0, k.removeMount idx)

/-! ## References -/

/-- What a pair of position and inode stands for: a filesystem and an inode of it. -/
def denotes (r : ℕ × ℕ) : Option (ℕ × ℕ) := k.mounts[r.1]?.map fun m => (m.fs, r.2)

/-- What the descriptors refer to. -/
def fdRefs : List (ℕ × ℕ) :=
  k.procs.flatMap fun p =>
    p.fileDescriptors.filterMap fun fdo => fdo.map fun fd => (fd.mountIdx, fd.inode)

/-- What an area refers to. -/
def backingRef : VmBacking → Option (ℕ × ℕ)
  | .file mountIdx inode _ _ => some (mountIdx, inode)
  | _ => none

/-- The references of areas, cached pages, pins and deferred deletions. -/
def indexRefs : List (ℕ × ℕ) :=
  (k.procs.flatMap fun p => p.areas.filterMap backingRef) ++
    k.pageCache.map (fun x => (x.1, x.2.1)) ++
    k.pinned.map (fun x => (x.1, x.2.1)) ++ k.deleted ++ k.pendingReap

/-- Every reference, in an order that no call changes. -/
def refs : List (ℕ × ℕ) := k.fdRefs ++ k.indexRefs

/-- Every reference of `k'` denotes what it denoted in `k`, and none a file of the filesystem
`fs`. -/
def Preserved (k k' : KernelState) (fs : ℕ) : Prop :=
  k'.refs.map k'.denotes = k.refs.map k.denotes ∧
    ∀ r ∈ k'.refs, ∀ f, k'.denotes r = some f → f.1 ≠ fs

instance Preserved.decidable (k k' : KernelState) (fs : ℕ) : Decidable (Preserved k k' fs) := by
  dsimp only [Preserved]
  haveI : ∀ r, Decidable (∀ f, k'.denotes r = some f → f.1 ≠ fs) := fun r =>
    match h : k'.denotes r with
    | none => isTrue fun f hf => by cases hf
    | some f =>
      decidable_of_iff (f.1 ≠ fs)
        ⟨fun hne f' hf' => by cases hf'; exact hne, fun hall => hall f rfl⟩
  infer_instance

/-! ## After the removal -/

variable {k} {r : ℕ × ℕ} {idx : ℕ}

lemma denotes_of_lt (h : r.1 < idx) : (k.removeMount idx).denotes r = k.denotes r := by
  rw [denotes, denotes, removeMount, List.getElem?_eraseIdx, if_pos h]

lemma denotes_of_le (h : idx ≤ r.1) : (k.removeMount idx).denotes r = k.denotes (r.1 + 1, r.2) := by
  rw [denotes, denotes, removeMount, List.getElem?_eraseIdx, if_neg (not_lt.mpr h)]

lemma denotes_eq_none (h : k.mounts.length ≤ r.1) : k.denotes r = none := by
  rw [denotes, List.getElem?_eq_none h]
  rfl

lemma denotes_eq_some {i : ℕ} (h : i < k.mounts.length) (inode : ℕ) :
    k.denotes (i, inode) = some (k.mounts[i].fs, inode) := by
  rw [denotes, List.getElem?_eq_getElem h]
  rfl

lemma fs_ne {i j : ℕ} (hi : i < k.mounts.length) (hj : j < k.mounts.length) (hne : i ≠ j) :
    k.mounts[i].fs ≠ k.mounts[j].fs := by
  have hinj := @List.Nodup.getElem_inj_iff _ _ k.distinct i (by rwa [length_map]) j
    (by rwa [length_map])
  rw [getElem_map, getElem_map] at hinj
  exact fun heq => hne (hinj.mp heq)

lemma denotes_renumber {fd : FileDescriptor} (hne : fd.mountIdx ≠ idx) :
    (k.removeMount idx).denotes ((fd.renumber idx).mountIdx, (fd.renumber idx).inode) =
      k.denotes (fd.mountIdx, fd.inode) := by
  rw [FileDescriptor.renumber]
  split
  next hgt =>
    rw [denotes_of_le (Nat.le_pred_of_lt hgt.2)]
    rw [Nat.sub_add_cancel (by omega)]
  next hle =>
    by_cases hlt : fd.mountIdx < idx
    · exact denotes_of_lt hlt
    -- the sentinel, which lies beyond every table
    have hlen := k.length_le
    rw [denotes_of_le (by dsimp only; omega), denotes_eq_none (by dsimp only; omega),
      denotes_eq_none (by dsimp only; omega)]

/-- A reference that is not renumbered keeps its file exactly when its position lies before the
removed one or beyond the table. -/
lemma denotes_eq_iff : (k.removeMount idx).denotes r = k.denotes r ↔ r.1 < idx ∨
    k.mounts.length ≤ r.1 := by
  by_cases hlt : r.1 < idx
  · exact ⟨fun _ => .inl hlt, fun _ => denotes_of_lt hlt⟩
  have hle := not_lt.mp hlt
  rw [denotes_of_le hle]
  by_cases hlen : k.mounts.length ≤ r.1
  · refine ⟨fun _ => .inr hlen, fun _ => ?_⟩
    rw [denotes_eq_none hlen, denotes_eq_none (Nat.le_succ_of_le hlen)]
  have hr := not_le.mp hlen
  refine ⟨fun heq => ?_, fun hor => absurd hor (by omega)⟩
  rw [denotes_eq_some hr] at heq
  by_cases hnext : r.1 + 1 < k.mounts.length
  · rw [denotes_eq_some hnext, Option.some.injEq, Prod.mk.injEq] at heq
    exact absurd heq.1 (fs_ne hnext hr (by omega))
  · rw [denotes_eq_none (by dsimp only; omega)] at heq
    cases heq

lemma fdRefs_removeMount (h : k.busy idx = false) :
    (k.removeMount idx).fdRefs.map (k.removeMount idx).denotes = k.fdRefs.map k.denotes := by
  have hfds : ∀ p ∈ k.procs, ((p.renumber idx).fileDescriptors.filterMap fun fdo =>
        fdo.map fun fd => (fd.mountIdx, fd.inode)).map (k.removeMount idx).denotes
      = (p.fileDescriptors.filterMap fun fdo => fdo.map fun fd => (fd.mountIdx, fd.inode)).map
        k.denotes := by
    intro p hp
    rw [Process.renumber, filterMap_map, map_filterMap, map_filterMap]
    refine filterMap_congr fun fdo hfdo => ?_
    cases fdo with
    | none => rfl
    | some fd =>
      refine congrArg some (denotes_renumber fun heq => ?_)
      have htrue : k.busy idx :=
        any_eq_true.mpr ⟨p, hp, any_eq_true.mpr ⟨some fd, hfdo, decide_eq_true heq⟩⟩
      rw [h] at htrue
      exact Bool.false_ne_true htrue
  rw [fdRefs, fdRefs, removeMount, flatMap_map, map_flatMap, map_flatMap]
  exact flatMap_congr hfds

lemma indexRefs_removeMount (idx : ℕ) : (k.removeMount idx).indexRefs = k.indexRefs := by
  rw [indexRefs, indexRefs, removeMount, flatMap_map]
  rfl

/-- No area, cached page, pin or deferred deletion names the mount at `target` or a later one. -/
def UmountOk (k : KernelState) (target : Text) : Prop :=
  ∀ idx ∈ k.mounts.findIdx? fun m =>
    m.path = target, ∀ r ∈ k.indexRefs, r.1 < idx ∨ k.mounts.length ≤ r.1

end KernelState

open KernelState

variable {k : KernelState}

lemma sysUmount_zero {k' : KernelState} {target : Text} (h : k.sysUmount target = (0, k')) :
    ∃ idx, k.mounts.findIdx? (fun m => m.path = target) = some idx ∧ idx < k.mounts.length ∧
      k.busy idx = false ∧
      k' = k.removeMount idx := by
  rw [sysUmount] at h
  split at h
  · cases h
  split at h
  · cases h
  next idx hidx =>
    split at h
    · cases h
    next hbusy =>
      refine ⟨idx, hidx, (List.findIdx?_eq_some_iff_findIdx_eq.mp hidx).1,
        eq_false_of_ne_true hbusy, ?_⟩
      exact (Prod.mk.inj h).2.symm

lemma removed_notMem {idx : ℕ} (hlt : idx < k.mounts.length) :
    k.mounts[idx].fs ∉ (k.removeMount idx).mounts.map (·.fs) := by
  intro hmem
  obtain ⟨m, hm, heq⟩ := mem_map.mp hmem
  obtain ⟨i, hi, hne, hget⟩ := mem_eraseIdx_iff_getElem.mp hm
  exact fs_ne hi hlt hne (by rw [hget, heq])

/-- The descriptors keep their files in any case, so the whole depends on the other references. -/
lemma refs_removeMount_iff {idx : ℕ} (hbusy : k.busy idx = false) :
    (k.removeMount idx).refs.map (k.removeMount idx).denotes = k.refs.map k.denotes ↔
      ∀ r ∈ k.indexRefs, r.1 < idx ∨ k.mounts.length ≤ r.1 := by
  rw [refs, refs, map_append, map_append, fdRefs_removeMount hbusy, append_cancel_left_eq,
    indexRefs_removeMount, map_inj_left]
  exact forall₂_congr fun r _ => denotes_eq_iff

/-- A call that returns 0 removes a mount at the target. It keeps what every reference denotes, and
leaves none to the removed filesystem, exactly when no area, cached page, pin or deferred deletion
names the removed mount or a later one. -/
theorem sysUmount_preserves_iff (k k' : KernelState) (target : Text)
    (h : k.sysUmount target = (0, k')) :
    ∃ m ∈ k.mounts, m.path = target ∧ m.fs ∉ k'.mounts.map (·.fs) ∧
      (Preserved k k' m.fs ↔ k.UmountOk target) := by
  obtain ⟨idx, hidx, hlt, hbusy, rfl⟩ := sysUmount_zero h
  have hpath := List.findIdx?_eq_some_iff_getElem.mp hidx
  refine ⟨k.mounts[idx], getElem_mem hlt, of_decide_eq_true hpath.2.1, removed_notMem hlt, ?_⟩
  have hok : k.UmountOk target ↔ ∀ r ∈ k.indexRefs, r.1 < idx ∨ k.mounts.length ≤ r.1 := by
    rw [UmountOk, hidx]
    simp
  rw [hok, Preserved, refs_removeMount_iff hbusy]
  refine ⟨fun hpres => hpres.1, fun hrefs => ⟨hrefs, fun r _ f hf heq => removed_notMem hlt ?_⟩⟩
  -- what is denoted now is mounted now
  obtain ⟨m, hm, rfl⟩ := Option.map_eq_some_iff.mp hf
  rw [← heq]
  exact mem_map_of_mem (mem_of_getElem? hm)

/-- Three mounts. A process has a file of the last one open, and the file at `area` mapped. -/
def threeMounts (area : VmBacking) : KernelState where
  mounts := [⟨['/'], 10, 1⟩, ⟨['/', 'a'], 20, 1⟩, ⟨['/', 'b'], 30, 1⟩]
  procs := [⟨[some ⟨2, 7, .regularFile⟩], [area]⟩]
  pageCache := []
  pinned := []
  deleted := []
  pendingReap := []
  distinct := by decide
  length_le := by decide

/-- The mapping is of the first mount. -/
theorem sysUmount_preserves_of_earlier :
    ∃ k', (threeMounts (.file 0 5 0 0)).sysUmount ['/', 'a'] = (0, k') ∧
      Preserved (threeMounts (.file 0 5 0 0)) k' 20 := by
  refine ⟨_, rfl, ?_⟩
  obtain ⟨m, hm, hpath, -, hiff⟩ :=
    sysUmount_preserves_iff (threeMounts (.file 0 5 0 0)) _ ['/', 'a'] rfl
  have hfs : ∀ m ∈ (threeMounts (.file 0 5 0 0)).mounts, m.path = ['/', 'a'] → m.fs = 20 := by
    decide +kernel
  rw [hfs m hm hpath] at hiff
  refine hiff.mpr fun idx hidx r hr => ?_
  obtain rfl : idx = 1 := (Option.some.inj hidx).symm
  obtain rfl : r = (0, 5) := mem_singleton.mp hr
  exact .inl (by decide)

/-- The mapping is of the last mount: `umount("/a")` succeeds and renumbers the descriptor of the
same file, but the mapping then denotes nothing. -/
theorem umount_moves_mapping :
    ∃ k', (threeMounts (.file 2 7 0 0)).sysUmount ['/', 'a'] = (0, k') ∧
      k'.fdRefs.map k'.denotes = [some (30, 7)] ∧
      (threeMounts (.file 2 7 0 0)).indexRefs.map (threeMounts (.file 2 7 0 0)).denotes =
        [some (30, 7)] ∧
      k'.indexRefs.map k'.denotes = [none] ∧ ¬ Preserved (threeMounts (.file 2 7 0 0)) k' 20 := by
  refine ⟨_, rfl, ?_, ?_, ?_, ?_⟩ <;> decide +kernel

end Astryx.Vfs
