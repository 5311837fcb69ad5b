import Astryx.Lib.Transition
import Astryx.Lib.Word
import Astryx.Vfs.RamFs

/-!
# How long an inode lives

An unlinked file stays as long as something refers to it: a descriptor in some process's table, or a
kernel pin for a shared mapping or a descriptor in flight. `remove` only takes the entry away when a
descriptor is open, and puts the inode on a list; whoever drops the last reference frees it from
there. Four places decide, and each looks at a part of the references:

* `remove` looks at the descriptors but not at the pins, so it frees a file that is only mapped;
* `rename` over a name looks at neither;
* `close` frees regular files only, so an open directory that was removed stays for ever;
* dropping the last pin frees whatever is on the list, also a directory that still has entries.

`LifeOk` rules out these calls. A call is one step; paths are resolved before, so a call gets the
mount and the inodes that the path led to. Descriptors without an inode (pipes, sockets, the
console) are left out.

## Main results

* `lifeRun_keeps` — under `LifeOk` an inode is there exactly as long as something refers to it
* `lifetime_breaks` — the four calls
-/

namespace Astryx.Vfs

open Transition Function List RamFs

/-- The descriptors of a process and how many it may have. -/
structure FdTable where
  fds : List (Option FileDescriptor)
  nofile : ℕ

/-- The descriptor in the lowest free slot, or in a new one. -/
def FdTable.place (p : FdTable) (fd : FileDescriptor) : FdTable :=
  match p.fds.findIdx? Option.isNone with
  | some i => { p with fds := p.fds.set i (some fd) }
  | none => { p with fds := p.fds ++ [some fd] }

/-- The filesystems, the descriptors and the pins. -/
structure VfsState where
  mounts : List RamFs
  /-- `NEXT_INODE`. -/
  nextInode : ℕ
  /-- `PROCESS_TABLE`; a process is known by its place. -/
  procs : List FdTable
  /-- `DELETED_INODES`. -/
  deleted : List (ℕ × ℕ)
  /-- `PINNED_INODES`. -/
  pinned : List (ℕ × ℕ × ℕ)
  /-- `PENDING_INODE_REAP`. -/
  pendingReap : List (ℕ × ℕ)
  /-- What was last written to a file. -/
  written : ℕ × ℕ → List UInt8

/-! ## Pins -/

/-- `pin_inode` on the table. -/
def pinList (m ino : ℕ) : List (ℕ × ℕ × ℕ) → List (ℕ × ℕ × ℕ)
  | [] => [(m, ino, 1)]
  | x :: l =>
    if x.1 = m ∧ x.2.1 = ino then (m, ino, min (x.2.2 + 1) (2 ^ 32 - 1)) :: l
      else x :: pinList m ino l

/-- `dec_pin` on the table: whether the last pin went. -/
def decPin (m ino : ℕ) : List (ℕ × ℕ × ℕ) → Bool × List (ℕ × ℕ × ℕ)
  | [] => (false, [])
  | x :: l =>
    if x.1 = m ∧ x.2.1 = ino then if 1 < x.2.2 then (false, (m, ino, x.2.2 - 1) :: l) else (true, l)
    else ((decPin m ino l).1, x :: (decPin m ino l).2)

/-- `inode_is_pinned` on the table. -/
def isPinnedIn (m ino : ℕ) (l : List (ℕ × ℕ × ℕ)) : Bool :=
  l.any fun x => x.1 = m ∧ x.2.1 = ino ∧ 0 < x.2.2

namespace VfsState

variable (s : VfsState)

/-- A node of a mount. -/
def node (m ino : ℕ) : Option RamInode := s.mounts[m]?.bind (·.get ino)

/-- A filesystem is replaced. -/
def setFs (m : ℕ) (fs : RamFs) : VfsState := { s with mounts := s.mounts.set m fs }

/-- A descriptor names the node. -/
def isOpen (m ino : ℕ) : Bool :=
  s.procs.any fun p => p.fds.any fun fdo => fdo.any fun fd => fd.mountIdx = m ∧ fd.inode = ino

/-- A pin is on the node. -/
def isPinned (m ino : ℕ) : Bool := isPinnedIn m ino s.pinned

/-- The node is open or pinned. -/
def Referenced (m ino : ℕ) : Prop := s.isOpen m ino = true ∨ s.isPinned m ino = true

instance Referenced.decidable (m ino : ℕ) : Decidable (s.Referenced m ino) := by
  dsimp only [Referenced]
  infer_instance

/-- The test of `try_free_orphan_inode` and `close`: deleted, and no reference is left. -/
def orphaned (x : ℕ × ℕ) : Bool := !s.isOpen x.1 x.2 && !s.isPinned x.1 x.2 && x ∈ s.deleted

/-- The inode leaves the list and the filesystem. -/
def free (x : ℕ × ℕ) : VfsState :=
  { s with
    deleted := s.deleted.filter fun y => y ≠ x
    mounts :=
      match s.mounts[x.1]? with
      | some fs => s.mounts.set x.1 (fs.removeInode x.2)
      | none => s.mounts }

/-- Frees a node that is unlinked, not open and not pinned. -/
def tryFreeOrphanInode (x : ℕ × ℕ) : VfsState := if s.orphaned x then s.free x else s

/-- One more pin. -/
def pinInode (x : ℕ × ℕ) : VfsState :=
  if x.1 = usizeMax then s else { s with pinned := pinList x.1 x.2 s.pinned }

/-- The state in which `unpin_inode` looks for an orphan. -/
def dropPin (x : ℕ × ℕ) : VfsState := { s with pinned := (decPin x.1 x.2 s.pinned).2 }

/-- One pin fewer; the last may free the node. -/
def unpinInode (x : ℕ × ℕ) : VfsState :=
  if x.1 = usizeMax then s
  else if (decPin x.1 x.2 s.pinned).1 then (s.dropPin x).tryFreeOrphanInode x
  else s.dropPin x

/-- One pin fewer; the node is looked at later. -/
def unpinInodeDeferred (x : ℕ × ℕ) : VfsState :=
  if x.1 = usizeMax then s
  else if (decPin x.1 x.2 s.pinned).1 then { s.dropPin x with pendingReap := s.pendingReap ++ [x] }
  else s.dropPin x

/-- Looks at the nodes that were put off. -/
def reapPendingInodes : VfsState :=
  s.pendingReap.foldl (fun s x => s.tryFreeOrphanInode x) { s with pendingReap := [] }

end VfsState

/-- What an edit of the areas does to the pin of a shared file mapping: `vma_pin_if_shared_file` and
`vma_unpin_if_shared_file`. -/
inductive PinEdit where
  | pin (x : ℕ × ℕ)
  | unpin (x : ℕ × ℕ)

namespace VfsState

variable (s : VfsState)

/-- An edit of the pins, as an area comes or goes. -/
def editPin : PinEdit → VfsState
  | .pin x => s.pinInode x
  | .unpin x => s.unpinInodeDeferred x

/-- Edits in order. -/
def editPins (edits : List PinEdit) : VfsState := edits.foldl (fun s e => s.editPin e) s

/-! ## Descriptors -/

/-- The table of a process is replaced. -/
def setFds (pid : ℕ) (p : FdTable) : VfsState := { s with procs := s.procs.set pid p }

/-- The descriptor goes to a free slot, or to a new one below the limit; `none` is an error. -/
def install (pid : ℕ) (fd : FileDescriptor) : Option VfsState :=
  match s.procs[pid]? with
  | none => none
  | some p =>
    if (∃ fdo ∈ p.fds, fdo = none) ∨ p.fds.length < p.nofile
      then some (s.setFds pid (p.place fd)) else none

/-- What a slot of a process holds. -/
def slot (pid i : ℕ) : Option FileDescriptor :=
  match s.procs[pid]? with
  | none => none
  | some p => p.fds[i]?.join

/-- A slot of a process is emptied. -/
def clearSlot (pid i : ℕ) : VfsState :=
  match s.procs[pid]? with
  | none => s
  | some p => s.setFds pid { p with fds := p.fds.set i none }

/-! ## Calls -/

/-- `open` of an existing inode. -/
def openExisting (pid m ino : ℕ) (trunc : Bool) : VfsState :=
  match s.mounts[m]? with
  | none => s
  | some fs =>
    match fs.stat ino with
    | .error _ => s
    | .ok ftype =>
      let fd : FileDescriptor := ⟨m, ino, ftype⟩
      if trunc ∧ ftype = .regularFile then
        match fs.truncate ino 0 with
        | .error _ => s
        | .ok fs' =>
          let s' := { s.setFs m fs' with
            written := update s.written (m, ino) (resize 0 (s.written (m, ino))) }
          (s'.install pid fd).getD s'
      else (s.install pid fd).getD s

/-- A call of a filesystem that makes a node, under a new number. -/
def create (m : ℕ) (make : RamFs → ℕ → Except VfsError RamFs) : Option VfsState :=
  match s.mounts[m]? with
  | none => none
  | some fs =>
    match make fs s.nextInode with
    | .error _ => none
    | .ok fs' =>
      some { s.setFs m fs' with
        nextInode := Word.add s.nextInode 1
        written := update s.written (m, s.nextInode) [] }

/-- `open` with `O_CREAT` of a name that does not exist. -/
def openCreate (pid m parent : ℕ) (name : Text) (trunc : Bool) : VfsState :=
  match s.create m (·.createFile parent name) with
  | none => s
  | some s' => s'.openExisting pid m s.nextInode trunc

/-- `reopen_proc_fd`, which `open` does for `/proc/<pid>/fd/<N>`. -/
def reopenProcFd (pid target i : ℕ) : VfsState :=
  match s.slot target i with
  | none => s
  | some fd =>
    if fd.fileType = .regularFile ∨ fd.fileType = .directory ∨
      fd.fileType = .symLink then (s.install pid fd).getD s else s

/-- Empties a slot; a file that is now unused may be freed. -/
def close (pid i : ℕ) : VfsState :=
  match s.slot pid i with
  | none => s
  | some fd =>
    let s' := s.clearSlot pid i
    if fd.fileType = .regularFile then s'.tryFreeOrphanInode (fd.mountIdx, fd.inode) else s'

/-- Unlinks a name, and frees the node unless it is open. -/
def remove (m parent : ℕ) (name : Text) : VfsState :=
  match s.mounts[m]? with
  | none => s
  | some fs =>
    match fs.lookup parent name with
    | .error _ => s
    | .ok target =>
      if s.isOpen m target then
        match fs.unlinkEntry parent name with
        | .error _ => s
        | .ok fs' => { s.setFs m fs' with deleted := s.deleted ++ [(m, target)] }
      else
        match fs.remove parent name with
        | .error _ => s
        | .ok fs' => s.setFs m fs'

/-- Moves a name. -/
def rename (m oldParent : ℕ) (oldName : Text) (newParent : ℕ) (newName : Text) : VfsState :=
  match s.mounts[m]? with
  | none => s
  | some fs =>
    match fs.rename oldParent oldName newParent newName with
    | .error _ => s
    | .ok fs' => s.setFs m fs'

/-- A write to the inode, through a descriptor or from the page cache. -/
def write (m ino offset : ℕ) (data : List UInt8) : VfsState :=
  match s.mounts[m]? with
  | none => s
  | some fs =>
    match fs.write ino offset data with
    | .error _ => s
    | .ok fs' =>
      { s.setFs m fs' with
        written := update s.written (m, ino) (overwrite offset data (s.written (m, ino))) }

/-- `recvmsg` installs a descriptor that was in flight, without looking at the limit, and drops its
pin. -/
def receive (pid : ℕ) (x : ℕ × ℕ) : VfsState :=
  match s.procs[pid]? with
  | none => s.unpinInode x
  | some p => (s.setFds pid (p.place ⟨x.1, x.2, .regularFile⟩)).unpinInode x

end VfsState

/-! ## Runs -/

/-- A call that opens, closes, names, writes or maps. -/
inductive LifeOp where
  | openExisting (pid m ino : ℕ) (trunc : Bool)
  | openCreate (pid m parent : ℕ) (name : Text) (trunc : Bool)
  | reopen (pid target i : ℕ)
  | close (pid i : ℕ)
  | mkdir (m parent : ℕ) (name : Text)
  | symlink (m parent : ℕ) (name target : Text)
  | remove (m parent : ℕ) (name : Text)
  | rename (m oldParent : ℕ) (oldName : Text) (newParent : ℕ) (newName : Text)
  | write (m ino offset : ℕ) (data : List UInt8)
  /-- `mmap`, `munmap` and the other edits of areas, with the reaping that follows. -/
  | areas (edits : List PinEdit)
  /-- `sendmsg` queues a descriptor of a regular file. -/
  | scmPin (pid i : ℕ)
  /-- The descriptor is delivered. -/
  | scmReceive (pid : ℕ) (x : ℕ × ℕ)
  /-- The descriptor is dropped: `scm_drop_fds`. -/
  | scmUnpin (x : ℕ × ℕ)

/-- A call; one that fails changes nothing. A mapping puts a pin on an inode that something refers
to: an open descriptor is mapped, or a mapping is split or inherited. A descriptor in flight is one
of a regular file, with a pin. -/
def lifeStep (s : VfsState) : LifeOp → Option VfsState
  | .openExisting pid m ino trunc => some (s.openExisting pid m ino trunc)
  | .openCreate pid m parent name trunc => some (s.openCreate pid m parent name trunc)
  | .reopen pid target i => some (s.reopenProcFd pid target i)
  | .close pid i => some (s.close pid i)
  | .mkdir m parent name => some ((s.create m (·.createDir parent name)).getD s)
  | .symlink m parent name target =>
    some ((s.create m (·.symlink parent name · target)).getD s)
  | .remove m parent name => some (s.remove m parent name)
  | .rename m oldParent oldName newParent newName =>
    some (s.rename m oldParent oldName newParent newName)
  | .write m ino offset data => some (s.write m ino offset data)
  | .areas edits =>
    if edits.all fun e => match e with
      | .pin x => decide (s.Referenced x.1 x.2)
      | .unpin _ => true
    then some (s.editPins edits).reapPendingInodes else none
  | .scmPin pid i =>
    match s.slot pid i with
    | some fd =>
      if fd.fileType = .regularFile then some (s.pinInode (fd.mountIdx, fd.inode)) else none
    | none => none
  | .scmReceive pid x =>
    if s.isPinned x.1 x.2 ∧ (s.node x.1 x.2).map RamInode.fileType = some .regularFile
      then some (s.receive pid x) else none
  | .scmUnpin x => some (s.unpinInode x)

namespace VfsState

/-- If the inode is an orphan, it has no entries that would go with it. -/
def freeable (s : VfsState) (x : ℕ × ℕ) : Prop :=
  s.orphaned x = true → ∀ node ∈ s.node x.1 x.2, node.entries = []

/-- If the pin is the last one, the inode may be freed. -/
def unpinnable (s : VfsState) (x : ℕ × ℕ) : Prop :=
  (decPin x.1 x.2 s.pinned).1 = true → (s.dropPin x).freeable x

instance freeable.decidable (s : VfsState) (x : ℕ × ℕ) : Decidable (s.freeable x) := by
  dsimp only [freeable]
  infer_instance

instance unpinnable.decidable (s : VfsState) (x : ℕ × ℕ) : Decidable (s.unpinnable x) := by
  dsimp only [unpinnable]
  infer_instance

end VfsState

/-- What a call must meet: the last `close` of a removed inode is of a regular file, `remove` finds
no pin on an inode that is not open, `rename` no reference to what it displaces, and the last pin of
a removed inode is not of a directory with entries. Nothing is made once the numbers have run
out. -/
def LifeOk (s : VfsState) : LifeOp → Prop
  | .openCreate .. | .mkdir .. | .symlink .. => s.nextInode < 2 ^ 64 - 1
  | .close pid i => ∀ fd ∈ s.slot pid i, fd.fileType ≠ .regularFile →
      (s.clearSlot pid i).orphaned (fd.mountIdx, fd.inode) = false
  | .remove m parent name =>
    ∀ fs ∈ s.mounts[m]?, ∀ t ∈ (fs.lookup parent name).toOption, s.isPinned m t = true →
      s.isOpen m t = true ∨ fs.rdonly = true ∨ fs.entriesOf t ≠ []
  | .rename m oldParent oldName newParent newName => ∀ fs ∈ s.mounts[m]?,
      ∀ r ∈ (fs.renameCheck oldParent oldName newParent newName).toOption,
        ∀ move ∈ r, ∀ existing ∈ move.2,
        s.Referenced m existing → fs.rdonly = true
  | .areas edits => ∀ x ∈ (s.editPins edits).pendingReap, (s.editPins edits).freeable x
  | .scmUnpin x => x.1 ≠ usizeMax → s.unpinnable x
  | _ => True

instance LifeOk.decidable (s : VfsState) (op : LifeOp) : Decidable (LifeOk s op) := by
  cases op <;> dsimp only [LifeOk] <;> infer_instance

/-! ## Reading the tables -/

variable {m ino m' ino' : ℕ}

lemma isPinnedIn_cons (x : ℕ × ℕ × ℕ) (l : List (ℕ × ℕ × ℕ)) :
    isPinnedIn m ino (x :: l) ↔ (x.1 = m ∧ x.2.1 = ino ∧ 0 < x.2.2) ∨ isPinnedIn m ino l := by
  simp [isPinnedIn]

lemma isPinnedIn_pinList (l : List (ℕ × ℕ × ℕ)) :
    isPinnedIn m ino (pinList m' ino' l) ↔ isPinnedIn m ino l ∨ (m' = m ∧ ino' = ino) := by
  induction l with
  | nil => simp [pinList, isPinnedIn]
  | cons x l ih =>
    rw [pinList]
    split
    next hx =>
      obtain ⟨rfl, rfl⟩ := hx
      rw [isPinnedIn_cons, isPinnedIn_cons]
      have hpos : 0 < min (x.2.2 + 1) (2 ^ 32 - 1) := by omega
      tauto
    · rw [isPinnedIn_cons, isPinnedIn_cons, ih, or_assoc]

variable {l : List (ℕ × ℕ × ℕ)} {s : VfsState}

/-- Only the last pin goes, and then `dec_pin` says so. -/
lemma isPinnedIn_decPin :
    (isPinnedIn m ino (decPin m' ino' l).2 → isPinnedIn m ino l) ∧ (isPinnedIn m ino l →
      isPinnedIn m ino (decPin m' ino' l).2 ∨ (m = m' ∧ ino = ino' ∧ (decPin m' ino' l).1)) := by
  induction l with
  | nil => exact ⟨id, .inl⟩
  | cons x l ih =>
    rw [decPin]
    split
    next hx =>
      obtain ⟨rfl, rfl⟩ := hx
      split <;> grind [isPinnedIn_cons]
    · grind [isPinnedIn_cons]

lemma mem_set_of_ne {α : Type} {l : List α} {i : ℕ} {x y : α} (hy : y ∈ l) (hne : l[i]? ≠ some y) :
    y ∈ l.set i x := by
  obtain ⟨j, hj⟩ := List.getElem?_of_mem hy
  exact mem_of_getElem? ((List.getElem?_set_ne (by rintro rfl; exact hne hj)).trans hj)

lemma FdTable.mem_place {p : FdTable} {fd d : FileDescriptor} :
    some d ∈ (p.place fd).fds ↔ d = fd ∨ some d ∈ p.fds := by
  rw [place]
  split
  next i hi =>
    obtain ⟨hlt, hnone, -⟩ := List.findIdx?_eq_some_iff_getElem.mp hi
    constructor
    · intro hmem
      rcases mem_or_eq_of_mem_set hmem with hmem | heq
      · exact .inr hmem
      · exact .inl (Option.some.inj heq)
    rintro (rfl | hmem)
    · exact mem_set hlt _
    -- the slot that was taken was free
    refine mem_set_of_ne hmem fun heq => ?_
    rw [List.getElem?_eq_getElem hlt, Option.isNone_iff_eq_none.mp hnone] at heq
    cases heq
  · simp [or_comm]

namespace VfsState

variable {s : VfsState}

/-- A process has the descriptor. -/
def Holds (s : VfsState) (fd : FileDescriptor) : Prop := ∃ p ∈ s.procs, some fd ∈ p.fds

variable {m pid i parent : ℕ} {x : ℕ × ℕ} {fd : FileDescriptor} {s' : VfsState} {fs : RamFs}
  {node : RamInode} {name : Text}

lemma isOpen_iff {ino : ℕ} : s.isOpen m ino ↔
    ∃ fd, s.Holds fd ∧ fd.mountIdx = m ∧ fd.inode = ino := by
  simp only [isOpen, any_eq_true, Option.any_eq_true, decide_eq_true_eq]
  constructor
  · rintro ⟨p, hp, -, hfdo, fd, rfl, hfd⟩
    exact ⟨fd, ⟨p, hp, hfdo⟩, hfd⟩
  · rintro ⟨fd, ⟨p, hp, hmem⟩, hfd⟩
    exact ⟨p, hp, some fd, hmem, fd, rfl, hfd⟩

lemma orphaned_iff : s.orphaned x ↔ ¬ s.Referenced x.1 x.2 ∧ x ∈ s.deleted := by
  rw [orphaned, Referenced]
  simp [and_assoc]

lemma holds_setFds {p p' : FdTable} (hp : s.procs[pid]? = some p) :
    ((s.setFds pid p').Holds fd → s.Holds fd ∨ some fd ∈ p'.fds) ∧
      (some fd ∈ p'.fds → (s.setFds pid p').Holds fd) ∧
      (s.Holds fd → (s.setFds pid p').Holds fd ∨ some fd ∈ p.fds) := by
  obtain ⟨hlt, -⟩ := List.getElem?_eq_some_iff.mp hp
  refine ⟨?_, fun hmem => ⟨p', mem_set hlt _, hmem⟩, ?_⟩
  · rintro ⟨r, hr, hmem⟩
    rcases mem_or_eq_of_mem_set hr with hr | rfl
    · exact .inl ⟨r, hr, hmem⟩
    · exact .inr hmem
  rintro ⟨r, hr, hmem⟩
  by_cases heq : s.procs[pid]? = some r
  · cases hp.symm.trans heq
    exact .inr hmem
  · exact .inl ⟨r, mem_set_of_ne hr heq, hmem⟩

lemma holds_of_slot (h : s.slot pid i = some fd) : s.Holds fd := by
  rw [slot] at h
  split at h
  · cases h
  next p hp => exact ⟨p, mem_of_getElem? hp, mem_of_getElem? (Option.join_eq_some_iff.mp h)⟩

lemma holds_clearSlot {d : FileDescriptor} (h : s.slot pid i = some fd) :
    ((s.clearSlot pid i).Holds d → s.Holds d) ∧
    (s.Holds d → (s.clearSlot pid i).Holds d ∨ d = fd) := by
  rw [slot] at h
  rw [clearSlot]
  split at h
  · cases h
  rename_i p hp
  have hslot := Option.join_eq_some_iff.mp h
  obtain ⟨hback, hnew, hold⟩ := @holds_setFds s pid d p { p with fds := p.fds.set i none } hp
  constructor
  · intro hd
    refine (hback hd).elim id fun hmem => ?_
    rcases mem_or_eq_of_mem_set hmem with hmem | heq
    · exact ⟨p, mem_of_getElem? hp, hmem⟩
    · cases heq
  intro hd
  rcases hold hd with hd | hmem
  · exact .inl hd
  by_cases heq : p.fds[i]? = some (some d)
  · cases hslot.symm.trans heq
    exact .inr rfl
  · exact .inl (hnew (mem_set_of_ne hmem heq))

@[simp] lemma clearSlot_mounts (pid i : ℕ) : (s.clearSlot pid i).mounts = s.mounts := by
  rw [clearSlot]
  split <;> rfl

/-! ## The invariant -/

/-- What holds after every call, with `q` empty. Inside a call `q` lists the inodes that may have
lost their last reference and are looked at next. -/
structure Inv (q : List (ℕ × ℕ)) (s : VfsState) : Prop where
  fds : ∀ fd, s.Holds fd →
    ∃ node, s.node fd.mountIdx fd.inode = some node ∧ node.fileType = fd.fileType
  pins : ∀ m x, s.isPinned m x = true → ∃ node, s.node m x = some node
  linked : ∀ m fs x, s.mounts[m]? = some fs → x ≠ RamFs.rootInode → fs.get x ≠ none →
    fs.HasEntry x ∨ ((m, x) ∈ s.deleted ∧ (s.Referenced m x ∨ (m, x) ∈ q))
  names : ∀ (m : ℕ) fs, s.mounts[m]? = some fs → fs.NamesDistinct
  fresh : ∀ (m : ℕ) fs x, s.mounts[m]? = some fs → fs.get x ≠ none → x < s.nextInode
  content : ∀ m x data, s.node m x = some (.file data) → s.written (m, x) = data

variable {q q' : List (ℕ × ℕ)}

lemma Inv.present (h : Inv q s) {x : ℕ} (href : s.Referenced m x) :
    ∃ node, s.node m x = some node := by
  rcases href with hopen | hpin
  · obtain ⟨fd, hfd, rfl, rfl⟩ := isOpen_iff.mp hopen
    obtain ⟨node, hnode, -⟩ := h.fds fd hfd
    exact ⟨node, hnode⟩
  · exact h.pins m x hpin

lemma node_of_get {x : ℕ} (hm : s.mounts[m]? = some fs) : s.node m x = fs.get x := by
  rw [node, hm]
  rfl

/-- Only descriptors and pins change: the new ones are of inodes that are there, and what loses its
references is in `q'`. What is no longer listed as deleted is gone. -/
lemma Inv.of_refs (h : Inv q s) (hmounts : s'.mounts = s.mounts)
    (hnext : s'.nextInode = s.nextInode)
    (hdeleted : ∀ y ∈ s.deleted, y ∈ s'.deleted ∨ s.node y.1 y.2 = none)
    (hwritten : s'.written = s.written)
    (hfds : ∀ fd, s'.Holds fd →
      ∃ node, s.node fd.mountIdx fd.inode = some node ∧ node.fileType = fd.fileType)
    (hpins : ∀ m x, s'.isPinned m x → ∃ node, s.node m x = some node)
    (hlost : ∀ m x, s.Referenced m x ∨ (m, x) ∈ q → s'.Referenced m x ∨ (m, x) ∈ q') :
    Inv q' s' := by
  have hnode : ∀ m x, s'.node m x = s.node m x := fun m x => by rw [node, hmounts, node]
  refine ⟨?_, ?_, ?_, ?_, ?_, ?_⟩
  · intro fd hfd
    rw [hnode]
    exact hfds fd hfd
  · intro m x hpin
    rw [hnode]
    exact hpins m x hpin
  · intro m fs x hm hroot hget
    rw [hmounts] at hm
    refine (h.linked m fs x hm hroot hget).imp id fun hdel =>
      ⟨(hdeleted _ hdel.1).resolve_right fun hnone => ?_, hlost m x hdel.2⟩
    exact hget ((node_of_get hm).symm.trans hnone)
  · rw [hmounts]
    exact h.names
  · rw [hmounts, hnext]
    exact h.fresh
  intro m x data hdata
  rw [hnode] at hdata
  rw [hwritten]
  exact h.content m x data hdata

/-- An inode that is no orphan, or is gone, need not be looked at. -/
lemma Inv.drop (h : Inv (x :: q) s) (hx : s.orphaned x = false ∨ s.node x.1 x.2 = none) :
    Inv q s := by
  refine { h with linked := fun m fs y hm hroot hget => ?_ }
  refine (h.linked m fs y hm hroot hget).imp id ?_
  rintro ⟨hdel, href | hmem⟩
  · exact ⟨hdel, .inl href⟩
  rcases mem_cons.mp hmem with rfl | hmem
  · refine ⟨hdel, .inl ?_⟩
    rcases hx with hx | hx
    · by_contra href
      rw [orphaned_iff.mpr ⟨href, hdel⟩] at hx
      cases hx
    · rw [node, hm] at hx
      exact absurd hx hget
  · exact ⟨hdel, .inr hmem⟩

lemma getElem?_set_of_some {l : List RamFs} (fs' : RamFs) (hm : l[m]? = some fs) (m' : ℕ) :
    (l.set m fs')[m']? = if m' = m then some fs' else l[m']? := by
  obtain ⟨hlt, -⟩ := List.getElem?_eq_some_iff.mp hm
  rw [List.getElem?_set, if_pos hlt]
  by_cases hne : m = m'
  · rw [if_pos hne, if_pos hne.symm]
  · rw [if_neg hne, if_neg fun heq => hne heq.symm]

variable {fs' : RamFs} {edits : List PinEdit}

/-- One filesystem changes by an effect. The inodes that it does not leave alone are not referenced
or keep their type; those that lose their entries are gone or on the list. -/
lemma Inv.of_effect (h : Inv q s) {touched lost : ℕ → Prop}
    (hm : s.mounts[m]? = some fs) (heffect : RamFs.Effect fs fs' touched lost)
    (hmounts : s'.mounts = s.mounts.set m fs') (hprocs : s'.procs = s.procs)
    (hpinned : s'.pinned = s.pinned) (hnext : s.nextInode ≤ s'.nextInode)
    (hkept : ∀ x, touched x → s.Referenced m x → ∀ old, fs.get x = some old →
      ∃ node, fs'.get x = some node ∧ node.fileType = old.fileType)
    (hnew : ∀ x, touched x → fs'.get x ≠ none → x < s'.nextInode ∧
      (fs.get x = none → fs'.HasEntry x))
    (hdata : ∀ x data, touched x → fs'.get x = some (.file data) → s'.written (m, x) = data)
    (hwritten : ∀ m' x, (m' = m → ¬ touched x) → s'.written (m', x) = s.written (m', x))
    (hlost : ∀ x, lost x → fs'.get x ≠ none → (m, x) ∈ s'.deleted ∧ s.Referenced m x)
    (hdeleted : ∀ y ∈ s.deleted, y ∈ s'.deleted ∨ (y.1 = m ∧ fs'.get y.2 = none)) : Inv q s' := by
  have hget := getElem?_set_of_some fs' hm
  have hholds : ∀ fd, s'.Holds fd ↔ s.Holds fd := fun fd => by rw [Holds, hprocs, Holds]
  have hpin : ∀ m x, s'.isPinned m x =
      s.isPinned m x := fun m x => by rw [isPinned, hpinned, isPinned]
  have href : ∀ m x, s'.Referenced m x ↔ s.Referenced m x := fun m x => by
    rw [Referenced, isOpen_iff, hpin, Referenced, isOpen_iff]
    simp only [hholds]
  -- an inode that the effect leaves alone has its old body
  have hbody : ∀ x node, ¬ touched x → fs'.get x = some node →
      ∃ old, fs.get x = some old ∧ old.body = node.body := by
    intro x node hx hnode
    have hb := heffect.body x hx
    rw [hnode] at hb
    exact Option.map_eq_some_iff.mp hb.symm
  have hstays : ∀ m' x old, s.Referenced m' x → s.node m' x = some old →
      ∃ node, s'.node m' x = some node ∧ node.fileType = old.fileType := by
    intro m' x old hr hold
    rw [node, hmounts, hget]
    split
    next heq =>
      subst heq
      rw [node_of_get hm] at hold
      by_cases hx : touched x
      · exact hkept x hx hr old hold
      have hb := heffect.body x hx
      rw [hold] at hb
      obtain ⟨node, hnode, heq⟩ := Option.map_eq_some_iff.mp hb
      exact ⟨node, hnode, RamInode.fileType_of_body heq⟩
    · exact ⟨old, hold, rfl⟩
  refine ⟨?_, ?_, ?_, ?_, ?_, ?_⟩
  · intro fd hfd
    have hfd' := (hholds fd).mp hfd
    obtain ⟨old, hold, htype⟩ := h.fds fd hfd'
    obtain ⟨node, hnode, heq⟩ := hstays _ _ old (.inl (isOpen_iff.mpr ⟨fd, hfd', rfl, rfl⟩)) hold
    exact ⟨node, hnode, heq.trans htype⟩
  · intro m' x hp
    rw [hpin] at hp
    obtain ⟨old, hold⟩ := h.pins m' x hp
    obtain ⟨node, hnode, -⟩ := hstays m' x old (.inr hp) hold
    exact ⟨node, hnode⟩
  · intro m' gs x hm' hroot hpresent
    rw [hmounts, hget] at hm'
    rw [href]
    split at hm'
    next heq =>
      subst heq
      cases hm'
      by_cases hl : lost x
      · obtain ⟨hmem, hr⟩ := hlost x hl hpresent
        exact .inr ⟨hmem, .inl hr⟩
      by_cases hold : fs.get x = none
      · by_cases hx : touched x
        · exact .inl ((hnew x hx hpresent).2 hold)
        have hb := heffect.body x hx
        rw [hold] at hb
        exact absurd (Option.map_eq_none_iff.mp hb) hpresent
      · refine (h.linked m' fs x hm hroot hold).imp (heffect.entry x hl) fun hdel => ⟨?_, hdel.2⟩
        exact (hdeleted _ hdel.1).resolve_right fun hgone => hpresent hgone.2
    next hne =>
      refine (h.linked m' gs x hm' hroot hpresent).imp id fun hdel => ⟨?_, hdel.2⟩
      exact (hdeleted _ hdel.1).resolve_right fun hgone => hne hgone.1
  · intro m' gs hm'
    rw [hmounts, hget] at hm'
    split at hm'
    · cases hm'
      exact heffect.names
    · exact h.names m' gs hm'
  · intro m' gs x hm' hpresent
    rw [hmounts, hget] at hm'
    split at hm'
    · cases hm'
      by_cases hx : touched x
      · exact (hnew x hx hpresent).1
      obtain ⟨node, hnode⟩ := Option.ne_none_iff_exists'.mp hpresent
      obtain ⟨old, hold, -⟩ := hbody x node hx hnode
      exact (h.fresh m fs x hm (by rw [hold]; exact Option.some_ne_none _)).trans_le hnext
    · exact (h.fresh m' gs x hm' hpresent).trans_le hnext
  intro m' x data hfile
  rw [node, hmounts, hget] at hfile
  split at hfile
  next heq =>
    subst heq
    by_cases hx : touched x
    · exact hdata x data hx hfile
    obtain ⟨old, hold, hb⟩ := hbody x _ hx hfile
    have hfile' : s.node m' x = some (.file data) := by
      rw [node_of_get hm, hold, RamInode.eq_file_of_body hb]
    rw [hwritten m' x fun _ => hx]
    exact h.content m' x data hfile'
  next hne =>
    have hfile' : s.node m' x = some (.file data) := hfile
    rw [hwritten m' x fun heq => absurd heq hne]
    exact h.content m' x data hfile'

/-! ## The calls keep it -/

section

variable (h : Inv q s)

include h

lemma Inv.setFds {p : FdTable} (hp : s.procs[pid]? = some p)
    (hnode : s.node fd.mountIdx fd.inode = some node) (htype : node.fileType = fd.fileType) :
    Inv q (s.setFds pid (p.place fd)) := by
  have hheld : ∀ d, s.Holds d → (s.setFds pid (p.place fd)).Holds d := by
    intro d hd
    obtain ⟨-, hnew, hold⟩ := @holds_setFds s pid d p (p.place fd) hp
    exact (hold hd).elim id fun hmem => hnew (FdTable.mem_place.mpr (.inr hmem))
  refine h.of_refs rfl rfl (fun _ => .inl) rfl ?_ h.pins ?_
  · intro d hd
    rcases (holds_setFds hp).1 hd with hd | hmem
    · exact h.fds d hd
    rcases FdTable.mem_place.mp hmem with rfl | hmem
    · exact ⟨node, hnode, htype⟩
    · exact h.fds d ⟨p, mem_of_getElem? hp, hmem⟩
  rintro m x (href | hq)
  · refine .inl (href.imp (fun hopen => ?_) id)
    obtain ⟨d, hd, hx⟩ := isOpen_iff.mp hopen
    exact isOpen_iff.mpr ⟨d, hheld d hd, hx⟩
  · exact .inr hq

lemma Inv.install (hnode : s.node fd.mountIdx fd.inode = some node)
    (htype : node.fileType = fd.fileType) : Inv q ((s.install pid fd).getD s) := by
  rw [VfsState.install]
  split
  · exact h
  next p hp =>
    split
    · exact h.setFds hp hnode htype
    · exact h

lemma Inv.setData {ino : ℕ} (hm : s.mounts[m]? = some fs) (f : List UInt8 → List UInt8) :
    Inv q { s.setFs m (fs.setData ino f) with
      written := update s.written (m, ino) (f (s.written (m, ino))) } := by
  have hget := (get_setData ino f ino : (fs.setData ino f).get ino = _).trans (if_pos rfl)
  refine h.of_effect hm (effect_setData (h.names m fs hm) ino f) rfl rfl rfl le_rfl ?_
    ?_ ?_ ?_ ?_ ?_
  · rintro x rfl - old hold
    rw [hget, hold]
    exact ⟨_, rfl, by cases old <;> rfl⟩
  · rintro x rfl hpresent
    rw [hget, ne_eq, Option.map_eq_none_iff] at hpresent
    exact ⟨h.fresh m fs x hm hpresent, (absurd · hpresent)⟩
  · rintro x data rfl hfile
    rw [hget] at hfile
    obtain ⟨old, hold, heq⟩ := Option.map_eq_some_iff.mp hfile
    dsimp only
    rw [update_self]
    cases old with
    | file d =>
      cases heq
      rw [h.content m x d (by rw [node_of_get hm, hold])]
    | dir => cases heq
    | symLink => cases heq
  · intro m' x hx
    refine update_of_ne (fun heq => ?_) _ _
    cases heq
    exact hx rfl rfl
  · exact fun x hx => hx.elim
  · exact fun y hy => .inl hy

lemma Inv.openExisting (pid m ino : ℕ) (trunc : Bool) : Inv q (s.openExisting pid m ino trunc) := by
  rw [VfsState.openExisting]
  split
  · exact h
  rename_i fs hm
  split
  · exact h
  rename_i ftype hstat
  rw [stat] at hstat
  split at hstat
  · cases hstat
  rename_i node hnode
  cases hstat
  split
  · split
    · exact h
    rename_i fs' htrunc
    rw [truncate] at htrunc
    split at htrunc
    · cases htrunc
    rw [hnode] at htrunc
    cases node with
    | file data =>
      cases htrunc
      refine (h.setData hm (resize 0)).install ?_
        (rfl : (RamInode.file (resize 0 data)).fileType = _)
      have hm' : ({ s.setFs m (fs.setData ino (resize 0)) with
          written := update s.written (m, ino) (resize 0 (s.written (m, ino))) } :
            VfsState).mounts[m]?
          = some (fs.setData ino (resize 0)) := (getElem?_set_of_some _ hm m).trans (if_pos rfl)
      rw [node_of_get hm', get_setData, if_pos rfl, hnode]
      rfl
    | dir => cases htrunc
    | symLink => cases htrunc
  · exact h.install (by rw [node_of_get hm, hnode]) rfl

lemma Inv.create (hroom : s.nextInode < 2 ^ 64 - 1) (hentries : node.entries = [])
    (hempty : ∀ data, node = .file data → data = [])
    (hs' : s.create m (·.create parent name · node) = some s') : Inv q s' := by
  rw [VfsState.create] at hs'
  split at hs'
  · cases hs'
  rename_i fs hm
  split at hs'
  · cases hs'
  rename_i fs' hcreate
  cases hs'
  have hnext : Word.add s.nextInode 1 = s.nextInode + 1 := Word.add_eq (by omega)
  have hfresh : fs.get s.nextInode = none := by
    by_contra hpresent
    exact lt_irrefl _ (h.fresh m fs _ hm hpresent)
  obtain ⟨hget, hentry, heffect⟩ := create_ok (h.names m fs hm) hfresh hentries hcreate
  refine h.of_effect hm heffect rfl rfl rfl (by simp [hnext]) ?_ ?_ ?_ ?_ ?_ ?_
  · rintro x rfl - old hold
    rw [hfresh] at hold
    cases hold
  · rintro x rfl -
    exact ⟨by simp [hnext], fun _ => hentry⟩
  · rintro x data rfl hfile
    rw [hget] at hfile
    dsimp only
    rw [update_self]
    exact (hempty data (Option.some.inj hfile)).symm
  · intro m' x hx
    refine update_of_ne (fun heq => ?_) _ _
    cases heq
    exact hx rfl rfl
  · exact fun x hx => hx.elim
  · exact fun y hy => .inl hy

lemma Inv.openCreate (hroom : s.nextInode < 2 ^ 64 - 1) (pid m parent : ℕ) (name : Text)
    (trunc : Bool) : Inv q (s.openCreate pid m parent name trunc) := by
  rw [VfsState.openCreate]
  split
  · exact h
  next s' hs' =>
    refine (h.create hroom rfl ?_ hs').openExisting ..
    rintro - ⟨⟩
    rfl

lemma Inv.reopenProcFd (pid target i : ℕ) : Inv q (s.reopenProcFd pid target i) := by
  rw [VfsState.reopenProcFd]
  split
  · exact h
  rename_i fd hslot
  split
  · obtain ⟨node, hnode, htype⟩ := h.fds fd (holds_of_slot hslot)
    exact h.install hnode htype
  · exact h

lemma Inv.write (m ino offset : ℕ) (data : List UInt8) : Inv q (s.write m ino offset data) := by
  rw [VfsState.write]
  split
  · exact h
  rename_i fs hm
  split
  · exact h
  rename_i fs' hwrite
  rw [RamFs.write] at hwrite
  split at hwrite
  · cases hwrite
  split at hwrite <;> cases hwrite
  exact h.setData hm _

end

/-! ### Removing and renaming -/

/-- Some inodes go that nothing refers to, and the others keep their entries. -/
lemma Inv.of_gone (h : Inv q s) {gone lost : ℕ → Prop} {l : List (ℕ × ℕ)}
    (hm : s.mounts[m]? = some fs) (heffect : RamFs.Effect fs fs' gone lost)
    (hgone : ∀ x, gone x → fs'.get x = none) (hfree : ∀ x, gone x → ¬ s.Referenced m x)
    (hlost : ∀ x, lost x → gone x) (hl : ∀ y ∈ s.deleted, y ∈ l ∨ (y.1 = m ∧ fs'.get y.2 = none)) :
    Inv q { s.setFs m fs' with deleted := l } := by
  refine h.of_effect hm heffect rfl rfl rfl le_rfl ?_ ?_ ?_ (fun _ _ _ => rfl) ?_ hl
  · exact fun x hx href => absurd href (hfree x hx)
  · exact fun x hx hpresent => absurd (hgone x hx) hpresent
  · intro x data hx hfile
    rw [hgone x hx] at hfile
    cases hfile
  · exact fun x hx hpresent => absurd (hgone x (hlost x hx)) hpresent

theorem Inv.remove (h : Inv q s) (hok : LifeOk s (.remove m parent name)) :
    Inv q (s.remove m parent name) := by
  rw [VfsState.remove]
  split
  · exact h
  rename_i fs hm
  split
  · exact h
  rename_i t hlookup
  have hnames := h.names m fs hm
  split
  next hopen =>
    split
    · exact h
    rename_i fs' hunlink
    have heffect := unlinkEntry_ok hnames hlookup hunlink
    refine h.of_effect hm heffect rfl rfl rfl le_rfl (fun _ hx => hx.elim) (fun _ hx => hx.elim)
      (fun _ _ hx => hx.elim)
      (fun _ _ _ => rfl) ?_ fun y hy => .inl (by simp [hy])
    rintro x rfl -
    exact ⟨mem_append_right _ (mem_singleton_self _), .inl hopen⟩
  next hclosed =>
    split
    · exact h
    rename_i fs' hremove
    obtain ⟨t', hlookup', hrdonly, hempty, hgone, heffect⟩ := remove_ok hnames hremove
    obtain rfl : t = t' := Except.ok.inj (hlookup.symm.trans hlookup')
    refine h.of_gone hm heffect (by rintro x rfl; exact hgone) ?_ (fun _ => id) fun _ => .inl
    rintro x rfl (hopen | hpin)
    · exact hclosed hopen
    -- the guard: a pinned inode is open, or the call fails
    rcases hok fs hm x (by rw [hlookup]; rfl) hpin with hopen | hro | hne
    · exact hclosed hopen
    · rw [hrdonly] at hro
      cases hro
    · exact hne hempty

theorem Inv.rename (h : Inv q s) {oldParent newParent : ℕ} {oldName newName : Text}
    (hok : LifeOk s (.rename m oldParent oldName newParent newName)) :
    Inv q (s.rename m oldParent oldName newParent newName) := by
  rw [VfsState.rename]
  split
  · exact h
  rename_i fs hm
  split
  · exact h
  rename_i fs' hrename
  rcases rename_ok (h.names m fs hm) hrename
    with rfl | ⟨target, existing, hrdonly, hcheck, heffect, hgone⟩
  · have heffect : RamFs.Effect fs' fs' (fun _ => False) (fun _ => False) :=
      ⟨fun _ _ => rfl, fun _ _ he => he, h.names m fs' hm⟩
    exact h.of_gone hm heffect (fun _ => False.elim) (fun _ => False.elim)
      (fun _ => id) fun _ => .inl
  refine h.of_gone hm heffect hgone (fun x hx href => ?_) (fun _ => id) fun _ => .inl
  have hro := hok fs hm _ (by rw [hcheck]; rfl) _ rfl x hx href
  rw [hrdonly] at hro
  cases hro

/-! ### Dropping references -/

lemma Inv.free (h : Inv (x :: q) s) (horphan : s.orphaned x) (hfree : s.freeable x) :
    Inv q (s.free x) := by
  obtain ⟨hfree', -⟩ := orphaned_iff.mp horphan
  have hkeep : ∀ y ∈ s.deleted, y ≠ x → y ∈ s.deleted.filter fun y => y ≠ x := fun y hy hne =>
    mem_filter.mpr ⟨hy, decide_eq_true hne⟩
  cases hm : s.mounts[x.1]? with
  | none =>
    -- there is no such mount, so only the list changes
    have hmounts : (s.free x).mounts = s.mounts := by rw [VfsState.free, hm]
    have hnone : s.node x.1 x.2 = none := by
      rw [node, hm]
      rfl
    refine Inv.drop (h.of_refs hmounts rfl (fun y hy => ?_) rfl h.fds h.pins fun _ _ =>
      id) (.inr ?_)
    · by_cases hne : y = x
      · exact .inr (hne ▸ hnone)
      · exact .inl (hkeep y hy hne)
    · rw [node, hmounts]
      exact hnone
  | some fs =>
    rw [VfsState.free, hm]
    have hgone : (fs.removeInode x.2).get x.2 = none := (get_removeInode ..).trans (if_pos rfl)
    have hempty : fs.entriesOf x.2 = [] := by
      rw [entriesOf]
      cases hget : fs.get x.2 with
      | none => rfl
      | some node => exact hfree horphan node (by rw [node_of_get hm, hget]; rfl)
    have heffect := effect_removeInode (h.names x.1 fs hm) hempty
    refine Inv.drop (h.of_gone hm heffect (by rintro y rfl; exact hgone)
      (by rintro y rfl; exact hfree')
      (fun _ => False.elim) fun y hy => ?_) (.inr ?_)
    · by_cases hne : y = x
      · subst hne
        exact .inr ⟨rfl, hgone⟩
      · exact .inl (hkeep y hy hne)
    · exact (node_of_get ((getElem?_set_of_some _ hm _).trans (if_pos rfl))).trans hgone

lemma Inv.tryFreeOrphanInode (h : Inv (x :: q) s) (hfree : s.freeable x) :
    Inv q (s.tryFreeOrphanInode x) := by
  rw [VfsState.tryFreeOrphanInode]
  split
  next horphan => exact h.free horphan hfree
  next horphan => exact h.drop (.inl (Bool.eq_false_iff.mpr horphan))

lemma freeable_of_regularFile (hnode : s.node x.1 x.2 = some node)
    (htype : node.fileType = .regularFile) : s.freeable x := by
  intro _ n hn
  rw [hnode] at hn
  cases hn
  cases node with
  | file => rfl
  | dir => cases htype
  | symLink => rfl

section

variable (h : Inv q s)

include h

lemma Inv.clearSlot (hslot : s.slot pid i = some fd) :
    Inv ((fd.mountIdx, fd.inode) :: q) (s.clearSlot pid i) := by
  have hrest : (s.clearSlot pid i).nextInode = s.nextInode ∧
    (s.clearSlot pid i).deleted = s.deleted ∧
      (s.clearSlot pid i).written = s.written ∧ (s.clearSlot pid i).pinned = s.pinned := by
    rw [VfsState.clearSlot]
    split <;> exact ⟨rfl, rfl, rfl, rfl⟩
  obtain ⟨hnext, hdeleted, hwritten, hpinned⟩ := hrest
  refine h.of_refs (clearSlot_mounts ..) hnext (fun _ hy => .inl (hdeleted ▸ hy)) hwritten
    (fun d hd => h.fds d ((holds_clearSlot hslot).1 hd)) ?_ ?_
  · intro m x hpin
    rw [isPinned, hpinned] at hpin
    exact h.pins m x hpin
  rintro m x ((hopen | hpin) | hq)
  · obtain ⟨d, hd, rfl, rfl⟩ := isOpen_iff.mp hopen
    rcases (holds_clearSlot hslot).2 hd with hd | rfl
    · exact .inl (.inl (isOpen_iff.mpr ⟨d, hd, rfl, rfl⟩))
    · simp
  · exact .inl (.inr (by rwa [isPinned, hpinned]))
  · simp [hq]

theorem Inv.close (hok : LifeOk s (.close pid i)) : Inv q (s.close pid i) := by
  rw [VfsState.close]
  split
  · exact h
  rename_i fd hslot
  have hcleared := h.clearSlot hslot
  split
  next hregular =>
    obtain ⟨file, hfile, htype⟩ := h.fds fd (holds_of_slot hslot)
    have hfile' : (s.clearSlot pid i).node fd.mountIdx fd.inode = some file := by
      rw [node, clearSlot_mounts]
      exact hfile
    exact hcleared.tryFreeOrphanInode (freeable_of_regularFile hfile' (htype.trans hregular))
  next hregular => exact hcleared.drop (.inl (hok fd hslot hregular))

lemma Inv.pinInode (hnode : s.node x.1 x.2 = some node) : Inv q (s.pinInode x) := by
  rw [VfsState.pinInode]
  split
  · exact h
  refine h.of_refs rfl rfl (fun _ => .inl) rfl h.fds ?_ ?_
  · intro m y hpin
    rcases (isPinnedIn_pinList _).mp hpin with hpin | ⟨rfl, rfl⟩
    · exact h.pins m y hpin
    · exact ⟨node, hnode⟩
  rintro m y (href | hq)
  · exact .inl (href.imp id fun hpin => (isPinnedIn_pinList _).mpr (.inl hpin))
  · exact .inr hq

/-- Dropping a pin: only the last one matters. -/
lemma Inv.dropPin {r : List (ℕ × ℕ)} (hq : ∀ y ∈ q, y ∈ q')
    (hx : (decPin x.1 x.2 s.pinned).1 → x ∈ q') : Inv q' { s.dropPin x with pendingReap := r } := by
  refine h.of_refs rfl rfl (fun _ => .inl) rfl h.fds
    (fun m y hpin => h.pins m y (isPinnedIn_decPin.1 hpin)) ?_
  rintro m y ((hopen | hpin) | hy)
  · exact .inl (.inl hopen)
  · rcases (@isPinnedIn_decPin m y x.1 x.2 _).2 hpin with hpin | ⟨rfl, rfl, hlast⟩
    · exact .inl (.inr hpin)
    · exact .inr (hx hlast)
  · exact .inr (hq _ hy)

lemma Inv.unpinInode (hok : x.1 ≠ usizeMax → s.unpinnable x) : Inv q (s.unpinInode x) := by
  rw [VfsState.unpinInode]
  split
  · exact h
  rename_i hmount
  split
  next hlast =>
    have hdropped : Inv (x :: q) (s.dropPin x) :=
      h.dropPin (fun y => mem_cons_of_mem _) fun _ => mem_cons_self
    exact hdropped.tryFreeOrphanInode (hok hmount hlast)
  next hlast => exact h.dropPin (fun _ => id) (absurd · hlast)

lemma Inv.receive (hnode : (s.node x.1 x.2).map RamInode.fileType = some .regularFile) :
    Inv q (s.receive pid x) := by
  obtain ⟨node, hnode, htype⟩ := Option.map_eq_some_iff.mp hnode
  rw [VfsState.receive]
  split
  · exact h.unpinInode fun _ _ => freeable_of_regularFile hnode htype
  next p hp =>
    have hplaced : Inv q (s.setFds pid (p.place ⟨x.1, x.2, .regularFile⟩)) :=
      h.setFds hp hnode htype
    exact hplaced.unpinInode fun _ _ =>
      freeable_of_regularFile (s :=
        (s.setFds pid (p.place ⟨x.1, x.2, .regularFile⟩)).dropPin x) hnode htype

end

/-! ### Edits of areas -/

@[simp] lemma editPin_mounts (e : PinEdit) : (s.editPin e).mounts = s.mounts := by
  cases e with
  | pin x =>
    rw [editPin, VfsState.pinInode]
    split <;> rfl
  | unpin x =>
    rw [editPin, unpinInodeDeferred]
    split
    · rfl
    · split <;> rfl

/-- The inodes that lose their last pin are the ones that are queued. -/
lemma Inv.editPin (h : Inv s.pendingReap s) {e : PinEdit}
    (hpin : ∀ x, e = .pin x → ∃ node, s.node x.1 x.2 = some node) :
    Inv (s.editPin e).pendingReap (s.editPin e) := by
  cases e with
  | pin x =>
    obtain ⟨node, hnode⟩ := hpin x rfl
    have hreap : (s.pinInode x).pendingReap = s.pendingReap := by
      rw [VfsState.pinInode]
      split <;> rfl
    rw [VfsState.editPin, hreap]
    exact h.pinInode hnode
  | unpin x =>
    rw [VfsState.editPin, unpinInodeDeferred]
    split
    · exact h
    split
    · exact h.dropPin (fun y => mem_append_left _) fun _ => mem_append_right _ (by simp)
    next hlast => exact h.dropPin (fun _ => id) (absurd · hlast)

lemma Inv.editPins (h : Inv s.pendingReap s)
    (hpin : ∀ x, .pin x ∈ edits → ∃ node, s.node x.1 x.2 = some node) :
    Inv (s.editPins edits).pendingReap (s.editPins edits) := by
  induction edits generalizing s with
  | nil => exact h
  | cons e edits ih =>
    refine ih (h.editPin fun x hx => hpin x (hx ▸ mem_cons_self)) fun x hx => ?_
    rw [node, editPin_mounts]
    exact hpin x (mem_cons_of_mem _ hx)

/-- Freeing an inode does not make another one an orphan, nor give it entries. -/
lemma freeable_tryFreeOrphanInode {y : ℕ × ℕ} (h : s.freeable y) :
    (s.tryFreeOrphanInode x).freeable y := by
  rw [VfsState.tryFreeOrphanInode]
  split
  swap
  · exact h
  intro horphan node hnode
  obtain ⟨hfree, hdel⟩ := orphaned_iff.mp horphan
  have horphan' : s.orphaned y := orphaned_iff.mpr ⟨hfree, (mem_filter.mp hdel).1⟩
  refine h horphan' node ?_
  rw [VfsState.node, VfsState.free] at hnode
  cases hm : s.mounts[x.1]? with
  | none =>
    rw [hm] at hnode
    exact hnode
  | some fs =>
    rw [hm] at hnode
    rw [getElem?_set_of_some _ hm] at hnode
    split at hnode
    next heq =>
      rw [node_of_get (heq ▸ hm)]
      change (fs.removeInode x.2).get y.2 = some node at hnode
      rw [get_removeInode] at hnode
      split at hnode
      · cases hnode
      · exact hnode
    · exact hnode

lemma Inv.reap (h : Inv q s) (hfree : ∀ x ∈ q, s.freeable x) :
    Inv [] (q.foldl (fun s x => s.tryFreeOrphanInode x) s) := by
  induction q generalizing s with
  | nil => exact h
  | cons x q ih =>
    refine ih (h.tryFreeOrphanInode (hfree x mem_cons_self)) fun y hy => ?_
    exact freeable_tryFreeOrphanInode (hfree y (by simp [hy]))

lemma Inv.reapPendingInodes (h : Inv s.pendingReap s) (hfree : ∀ x ∈ s.pendingReap, s.freeable x) :
    Inv [] s.reapPendingInodes := by
  exact Inv.reap (h.of_refs rfl rfl (fun _ => .inl) rfl h.fds h.pins fun _ _ => id) hfree

/-! ## Runs keep it -/

/-- Empty filesystems and tables. -/
def boot (rdonly : List Bool) (nofile : List ℕ) : VfsState where
  mounts := rdonly.map RamFs.new
  nextInode := 2
  procs := nofile.map fun n => ⟨[], n⟩
  deleted := []
  pinned := []
  pendingReap := []
  written := fun _ => []

lemma get_new (rdonly : Bool) (x : ℕ) :
    (RamFs.new rdonly).get x = if x = RamFs.rootInode then some (.dir []) else none := by
  rw [RamFs.get, RamFs.new, Assoc.get_cons]
  by_cases hx : x = RamFs.rootInode
  · rw [if_pos hx, if_pos hx.symm]
  · rw [if_neg hx, if_neg fun heq => hx heq.symm]
    rfl

lemma inv_boot (rdonly : List Bool) (nofile : List ℕ) : Inv [] (boot rdonly nofile) := by
  have hmount : ∀ (m : ℕ) fs, (boot rdonly nofile).mounts[m]? = some fs →
      ∃ r, fs = RamFs.new r := by
    intro m fs hm
    dsimp only [boot] at hm
    rw [List.getElem?_map] at hm
    obtain ⟨r, -, rfl⟩ := Option.map_eq_some_iff.mp hm
    exact ⟨r, rfl⟩
  refine ⟨?_, ?_, ?_, ?_, ?_, ?_⟩
  · rintro fd ⟨p, hp, hmem⟩
    obtain ⟨n, -, rfl⟩ := mem_map.mp hp
    cases hmem
  · intro m x hpin
    cases hpin
  · intro m fs x hm hroot hpresent
    obtain ⟨r, rfl⟩ := hmount m fs hm
    rw [get_new, if_neg hroot] at hpresent
    exact absurd rfl hpresent
  · intro m fs hm d
    obtain ⟨r, rfl⟩ := hmount m fs hm
    rw [entriesOf, get_new]
    split <;> exact nodup_nil
  · intro m fs x hm hpresent
    obtain ⟨r, rfl⟩ := hmount m fs hm
    rw [get_new] at hpresent
    split at hpresent
    next hx =>
      rw [hx]
      exact Nat.lt_succ_self 1
    · exact absurd rfl hpresent
  intro m x data hfile
  obtain ⟨fs, hm, hget⟩ := Option.bind_eq_some_iff.mp hfile
  obtain ⟨r, rfl⟩ := hmount m fs hm
  rw [get_new] at hget
  split at hget <;> cases hget

lemma Inv.areas (h : Inv [] s) (hpin : ∀ x, .pin x ∈ edits → s.Referenced x.1 x.2)
    (hok : LifeOk s (.areas edits)) : Inv [] (s.editPins edits).reapPendingInodes := by
  have hq : Inv s.pendingReap s :=
    h.of_refs rfl rfl (fun _ => .inl) rfl h.fds h.pins fun m x href =>
      .inl (href.resolve_right not_mem_nil)
  exact (hq.editPins fun x hx => h.present (hpin x hx)).reapPendingInodes hok

end VfsState

open VfsState

lemma lifeStep_inv {s' : VfsState} {op : LifeOp} (h : Inv [] s) (hok : LifeOk s op)
    (hs : lifeStep s op = some s') : Inv [] s' := by
  cases op with
  | openExisting pid m ino trunc =>
    cases hs
    exact h.openExisting ..
  | openCreate pid m parent name trunc =>
    cases hs
    exact h.openCreate hok ..
  | reopen pid target i =>
    cases hs
    exact h.reopenProcFd ..
  | close pid i =>
    cases hs
    exact h.close hok
  | mkdir m parent name | symlink m parent name target =>
    cases hs
    rw [Option.getD.eq_def]
    split
    · exact h.create hok rfl (fun _ => RamInode.noConfusion) ‹_›
    · exact h
  | remove m parent name =>
    cases hs
    exact h.remove hok
  | rename m oldParent oldName newParent newName =>
    cases hs
    exact h.rename hok
  | write m ino offset data =>
    cases hs
    exact h.write ..
  | areas edits =>
    obtain ⟨hall, rfl⟩ := of_guard hs
    refine h.areas (fun x hx => ?_) hok
    exact of_decide_eq_true (all_eq_true.mp hall _ hx)
  | scmPin pid i =>
    rw [lifeStep] at hs
    split at hs
    next fd hslot =>
      obtain ⟨-, rfl⟩ := of_guard hs
      obtain ⟨node, hnode, -⟩ := h.fds fd (holds_of_slot hslot)
      exact h.pinInode hnode
    · cases hs
  | scmReceive pid x =>
    obtain ⟨hx, rfl⟩ := of_guard hs
    exact h.receive hx.2
  | scmUnpin x =>
    cases hs
    exact h.unpinInode hok

/-- What the lifetime of inodes is to be: a descriptor finds an inode of its type, whatever is
referenced is there with the data last written to it, and an inode without entry, descriptor and pin
is gone. The root of a filesystem has no entry and stays. -/
structure Lifetime (s : VfsState) : Prop where
  open_present :
    ∀ fd, s.Holds fd → ∃ node, s.node fd.mountIdx fd.inode = some node ∧ node.fileType = fd.fileType
  present : ∀ m ino, s.Referenced m ino →
    ∃ node, s.node m ino = some node ∧ ∀ data, node = .file data → data = s.written (m, ino)
  removed : ∀ m fs ino, s.mounts[m]? = some fs → ino ≠ RamFs.rootInode → ¬ fs.HasEntry ino →
    ¬ s.Referenced m ino →
    fs.get ino = none

lemma VfsState.Inv.lifetime (h : Inv [] s) : Lifetime s where
  open_present := h.fds
  present m ino href := by
    obtain ⟨node, hnode⟩ := h.present href
    refine ⟨node, hnode, ?_⟩
    rintro data rfl
    exact (h.content m ino data hnode).symm
  removed m fs ino hm hroot hentry href := by
    by_contra hpresent
    rcases h.linked m fs ino hm hroot hpresent with hlinked | ⟨-, href' | hq⟩
    · exact hentry hlinked
    · exact href href'
    · cases hq

/-- In a run whose calls all meet `LifeOk`, inodes live as they should after every call. -/
theorem lifeRun_keeps (rdonly : List Bool) (nofile : List ℕ) (ops : List LifeOp)
    (hg : Guarded lifeStep LifeOk (boot rdonly nofile) ops) (n : ℕ) (t : VfsState)
    (ht : run lifeStep (boot rdonly nofile) (ops.take n) = some t) : Lifetime t := by
  have hinv : Inv [] t :=
    run_guarded (fun _ _ _ => lifeStep_inv) (inv_boot rdonly nofile) (guarded_take hg n) ht
  exact hinv.lifetime

/-- The names in a directory stay distinct, and inode numbers that were not given out stay
unused. -/
theorem names_of_reachable (rdonly : List Bool) (nofile : List ℕ) (s : {s // ∃ ops,
    Guarded lifeStep LifeOk (boot rdonly nofile) ops ∧
    run lifeStep (boot rdonly nofile) ops = some s}) :
    (∀ (m : ℕ) fs, s.1.mounts[m]? = some fs → fs.NamesDistinct) ∧
      ∀ (m : ℕ) fs x, s.1.mounts[m]? = some fs → fs.get x ≠ none → x < s.1.nextInode := by
  obtain ⟨s, ops, hg, hrun⟩ := s
  have h : Inv [] s := run_guarded (fun _ _ _ => lifeStep_inv) (inv_boot rdonly nofile) hg hrun
  exact ⟨h.names, h.fresh⟩

/-- Shared memory whose name goes while its descriptor is open: the mapping keeps the file, and
`munmap` frees it. -/
def sharedMemory : List LifeOp :=
  [.openCreate 0 0 1 ['a'] false, .write 0 2 0 [7], .areas [.pin (0, 2)], .remove 0 1 ['a'],
    .close 0 0, .areas [.unpin (0, 2)]]

/-- The names are distinct once the file is made and mapped, and its number is given out. -/
theorem names_of_reachable_of_sharedMemory :
    ∃ t, run lifeStep (boot [false] [8]) (sharedMemory.take 3) = some t ∧
      ∃ fs, t.mounts[0]? = some fs ∧ fs.HasEntry 2 ∧ fs.NamesDistinct ∧ 2 < t.nextInode := by
  have hg : Guarded lifeStep LifeOk (boot [false] [8]) (sharedMemory.take 3) := by decide +kernel
  have h := names_of_reachable [false] [8] ⟨_, _, hg, rfl⟩
  exact ⟨_, rfl, _, rfl, by decide +kernel, h.1 0 _ rfl, h.2 0 _ 2 rfl (by decide +kernel)⟩

theorem lifeRun_keeps_of_sharedMemory :
    Guarded lifeStep LifeOk (boot [false] [8]) sharedMemory ∧
      (∃ t, run lifeStep (boot [false] [8]) (sharedMemory.take 5) = some t ∧ t.Referenced 0 2 ∧
        t.node 0 2 = some (.file [7]) ∧ Lifetime t) ∧
      ∃ t, run lifeStep (boot [false] [8]) (sharedMemory.take 6) = some t ∧ ¬ t.Referenced 0 2 ∧
        t.node 0 2 = none ∧
        Lifetime t := by
  have hg : Guarded lifeStep LifeOk (boot [false] [8]) sharedMemory := by decide +kernel
  refine ⟨hg, ⟨_, rfl, ?_, ?_, lifeRun_keeps _ _ _ hg 5 _ rfl⟩,
    ⟨_, rfl, ?_, ?_, lifeRun_keeps _ _ _ hg 6 _ rfl⟩⟩
  all_goals decide +kernel

/-- The four calls: a name is removed while its file is only mapped; a file is renamed over an open
one; an open directory is removed and closed; a mapped directory with an entry is removed and
unmapped. -/
theorem lifetime_breaks :
    (∃ t, run lifeStep (boot [false] [8])
      [.openCreate 0 0 1 ['a'] false, .areas [.pin (0, 2)], .close 0 0,
        .remove 0 1 ['a']] = some t ∧ t.Referenced 0 2 ∧ t.node 0 2 = none) ∧
      (∃ t, run lifeStep (boot [false] [8])
        [.openCreate 0 0 1 ['a'] false, .openCreate 0 0 1 ['b'] false,
        .rename 0 1 ['b'] 1 ['a']] = some t ∧ t.Referenced 0 2 ∧ t.node 0 2 = none) ∧
      (∃ t, run lifeStep (boot [false] [8])
        [.mkdir 0 1 ['a'], .openExisting 0 0 2 false, .remove 0 1 ['a'], .close 0 0]
        = some t ∧ ¬ t.Referenced 0 2 ∧
        ∃ fs, t.mounts[0]? = some fs ∧ ¬ fs.HasEntry 2 ∧ fs.get 2 ≠ none) ∧
      ∃ t, run lifeStep (boot [false] [8])
        [.mkdir 0 1 ['a'], .openCreate 0 0 2 ['b'] false, .close 0 0,
        .openExisting 0 0 2 false, .areas [.pin (0, 2)], .remove 0 1 ['a'], .close 0 0,
          .areas [.unpin (0, 2)]]
        = some t ∧ ¬ t.Referenced 0 3 ∧
        ∃ fs, t.mounts[0]? = some fs ∧ ¬ fs.HasEntry 3 ∧ fs.get 3 ≠ none := by
  refine ⟨⟨_, rfl, ?_, ?_⟩, ⟨_, rfl, ?_, ?_⟩, ⟨_, rfl, ?_, _, rfl, ?_, ?_⟩,
    ⟨_, rfl, ?_, _, rfl, ?_, ?_⟩⟩
  all_goals decide +kernel

end Astryx.Vfs
