import Astryx.Lib.Assoc
import Astryx.Vfs.Mounts

/-!
# ramfs and tmpfs

The inode table of `RamFs` and the calls on it. tmpfs wraps a `RamFs` and refuses changes when it is
mounted read-only; `rdonly` is its flag. The numbers of new inodes come from the caller. Permissions
and times are left out.

Every call is described by an `Effect`: what it leaves of the inodes and of the directory entries.
-/

namespace Astryx.Vfs

open List

/-- Why a call failed. -/
inductive VfsError where
  | notFound
  | permissionDenied
  | fileExists
  | notADirectory
  | isADirectory
  | invalidArg
  | tooManyOpenFiles
  | noSpace
  | badFd
  | fault
  | notEmpty
  | unsupported
  | io
  | wouldBlock
  | timedOut
  deriving DecidableEq, Repr

/-- A node with what it holds. -/
inductive RamInode where
  | file (data : List UInt8)
  | dir (entries : List (Text × ℕ))
  | symLink (target : Text)
  deriving DecidableEq, Repr

namespace RamInode

/-- The kind of a node. -/
def fileType : RamInode → FileType
  | file _ => .regularFile
  | dir _ => .directory
  | symLink _ => .symLink

/-- The entries of a directory; other nodes have none. -/
def entries : RamInode → List (Text × ℕ)
  | dir entries => entries
  | _ => []

/-- The entries of a directory change. -/
def mapEntries (f : List (Text × ℕ) → List (Text × ℕ)) : RamInode → RamInode
  | dir entries => dir (f entries)
  | n => n

/-- A node without its entries. -/
def body : RamInode → RamInode := mapEntries fun _ => []

@[simp] lemma body_mapEntries (f : List (Text × ℕ) → List (Text × ℕ)) (n : RamInode) :
    (n.mapEntries f).body = n.body := by
  cases n <;> rfl

variable {n : RamInode}

lemma fileType_of_body {n' : RamInode} (h : n.body = n'.body) : n.fileType = n'.fileType := by
  have hbody : ∀ n : RamInode, n.body.fileType = n.fileType := fun n => by cases n <;> rfl
  rw [← hbody n, h, hbody]

lemma eq_file_of_body {data : List UInt8} (h : n.body = (file data).body) : n = file data := by
  cases n with
  | file => exact h
  | dir => cases h
  | symLink => cases h

end RamInode

/-- The nodes by their number. -/
structure RamFs where
  rdonly : Bool
  inodes : List (ℕ × RamInode)
  deriving DecidableEq, Repr

namespace RamFs

variable {name newName : Text} {entries : List (Text × ℕ)} {parent newParent : ℕ} {fs' : RamFs}
  {existing : Option ℕ}

/-- The root directory is always inode 1. -/
def rootInode : ℕ := 1

/-- A new filesystem, with a root. -/
def new (rdonly : Bool) : RamFs := ⟨rdonly, [(rootInode, .dir [])]⟩

variable (fs : RamFs)

/-- `find_inode_idx` and the inode there. -/
def get (ino : ℕ) : Option RamInode := Assoc.get ino fs.inodes

/-- The entries of one directory change. -/
def update (ino : ℕ) (f : List (Text × ℕ) → List (Text × ℕ)) : RamFs :=
  { fs with inodes := Assoc.modify ino (RamInode.mapEntries f) fs.inodes }

/-- A node is freed. -/
def removeInode (ino : ℕ) : RamFs := { fs with inodes := Assoc.erase ino fs.inodes }

/-- `entries.retain(|e| e.name != name)`. -/
def without (name : Text) (entries : List (Text × ℕ)) : List (Text × ℕ) :=
  entries.filter fun e => e.1 ≠ name

/-- `create_file`, `create_dir` and `symlink`, which differ in the new inode. -/
def create (parent : ℕ) (name : Text) (ino : ℕ) (node : RamInode) : Except VfsError RamFs :=
  if fs.rdonly then .error .permissionDenied
  else
    match fs.get parent with
    | none => .error .notFound
    | some (.dir entries) =>
      if entries.any fun e => e.1 = name then .error .fileExists
      else .ok ({ fs with inodes := fs.inodes ++ [(ino, node)] }.update parent fun es =>
        es ++ [(name, ino)])
    | some _ => .error .notADirectory

/-- A new file. -/
def createFile (parent : ℕ) (name : Text) (ino : ℕ) : Except VfsError RamFs :=
  fs.create parent name ino (.file [])

/-- A new directory. -/
def createDir (parent : ℕ) (name : Text) (ino : ℕ) : Except VfsError RamFs :=
  fs.create parent name ino (.dir [])

/-- A new symbolic link. -/
def symlink (parent : ℕ) (name : Text) (ino : ℕ) (target : Text) : Except VfsError RamFs :=
  fs.create parent name ino (.symLink target)

/-- The node a name stands for. -/
def lookup (parent : ℕ) (name : Text) : Except VfsError ℕ :=
  match fs.get parent with
  | none => .error .notFound
  | some (.dir entries) =>
    match entries.find? fun e => e.1 = name with
    | some e => .ok e.2
    | none => .error .notFound
  | some _ => .error .notADirectory

/-- `stat`, as far as the type. -/
def stat (ino : ℕ) : Except VfsError FileType :=
  match fs.get ino with
  | none => .error .notFound
  | some node => .ok node.fileType

/-- Unlinks a name and frees its node; a directory has to be empty. -/
def remove (parent : ℕ) (name : Text) : Except VfsError RamFs :=
  if fs.rdonly then .error .permissionDenied
  else
    match fs.lookup parent name with
    | .error e => .error e
    | .ok target =>
      match fs.get target with
      | none => .error .notFound
      | some node =>
        if node.entries ≠ [] then .error .notEmpty
          else .ok ((fs.update parent (without name)).removeInode target)

/-- Unlinks a name and keeps its node. -/
def unlinkEntry (parent : ℕ) (name : Text) : Except VfsError RamFs :=
  if fs.rdonly then .error .permissionDenied
  else
    match fs.get parent with
    | none => .error .notFound
    | some (.dir entries) =>
      if (without name entries).length = entries.length then .error .notFound
        else .ok (fs.update parent (without name))
    | some _ => .error .notADirectory

/-- The bytes of a file change. -/
def setData (ino : ℕ) (f : List UInt8 → List UInt8) : RamFs :=
  { fs with
    inodes := Assoc.modify ino (fun node =>
      match node with
      | .file data => .file (f data)
      | node => node) fs.inodes }

/-- `Vec::resize` with zeros. -/
def resize (size : ℕ) (data : List UInt8) : List UInt8 :=
  data.take size ++ List.replicate (size - data.length) 0

/-- The bytes from `offset` on are overwritten; the file grows if it has to. -/
def overwrite (offset : ℕ) (dataIn data : List UInt8) : List UInt8 :=
  let data := resize (max (offset + dataIn.length) data.length) data
  data.take offset ++ dataIn ++ data.drop (offset + dataIn.length)

/-- Cuts a file, or fills it up with zeros. -/
def truncate (ino size : ℕ) : Except VfsError RamFs :=
  if fs.rdonly then .error .permissionDenied
  else
    match fs.get ino with
    | none => .error .notFound
    | some (.file _) => .ok (fs.setData ino (resize size))
    | some _ => .error .isADirectory

/-- Overwrites bytes of a file, which grows as needed. -/
def write (ino offset : ℕ) (dataIn : List UInt8) : Except VfsError RamFs :=
  if fs.rdonly then .error .permissionDenied
  else
    match fs.get ino with
    | none => .error .notFound
    | some (.file _) => .ok (fs.setData ino (overwrite offset dataIn))
    | some (.dir _) => .error .isADirectory
    | some (.symLink _) => .error .invalidArg

/-! ### Renaming -/

/-- The search of `rename` for `goal` below a directory, with the stack and the pops that are
left. -/
def reaches (goal : ℕ) : ℕ → List ℕ → Bool
  | 0, _ => false
  | _, [] => false
  | pops + 1, cur :: stack =>
    if cur = goal then true
    else
      let children := ((fs.get cur).elim [] RamInode.entries).filter fun e =>
        (fs.get e.2).any fun n => n.fileType = .directory
      reaches goal pops ((children.map fun e => e.2).reverse ++ stack)

/-- What a rename has to do: nothing, or to move the inode over what the new name names. -/
def renameCheck (oldParent : ℕ) (oldName : Text) (newParent : ℕ) (newName : Text) :
    Except VfsError (Option (ℕ × Option ℕ)) := do
  if oldName = ['.'] ∨ oldName = ['.', '.'] ∨ newName = ['.'] ∨
    newName = ['.', '.'] then throw .invalidArg
  if oldName = [] ∨ newName = [] then throw .invalidArg
  let target ← fs.lookup oldParent oldName
  let entries ←
    match fs.get newParent with
    | none => throw .notFound
    | some (.dir entries) => pure entries
    | some _ => throw .notADirectory
  if oldParent = newParent ∧ oldName = newName then return none
  match fs.get target with
  | none => throw .notFound
  | some node =>
    if node.fileType = .directory ∧
        (newParent = target ∨ fs.reaches newParent (fs.inodes.length + 1) [target] = true)
          then throw .invalidArg
    match entries.find? fun e => e.1 = newName with
    | none => return some (target, none)
    | some e =>
      match fs.get e.2 with
      | none => throw .notFound
      | some existing =>
        if node.fileType = .directory ∧ existing.fileType ≠ .directory then throw .notADirectory
        if node.fileType ≠ .directory ∧ existing.fileType = .directory then throw .isADirectory
        if existing.entries ≠ [] then throw .notEmpty
        return some (target, some e.2)

/-- What the new name stood for is freed. -/
def displace (newParent : ℕ) (newName : Text) : Option ℕ → RamFs
  | none => fs
  | some existing => (fs.update newParent (without newName)).removeInode existing

/-- Moves a name, and frees what the new name stood for. -/
def rename (oldParent : ℕ) (oldName : Text) (newParent : ℕ) (newName : Text) :
    Except VfsError RamFs :=
  if fs.rdonly then .error .permissionDenied
  else
    match fs.renameCheck oldParent oldName newParent newName with
    | .error e => .error e
    | .ok none => .ok fs
    | .ok (some (target, existing)) =>
      .ok (((fs.displace newParent newName existing).update oldParent
        (without oldName)).update newParent
        fun es => es ++ [(newName, target)])

/-! ## Entries and bodies -/

/-- The entries of a directory. -/
def entriesOf (d : ℕ) : List (Text × ℕ) := (fs.get d).elim [] RamInode.entries

/-- An entry names the node. -/
def HasEntry (x : ℕ) : Prop := ∃ d, ∃ e ∈ fs.entriesOf d, e.2 = x

/-- No directory has two entries of one name. -/
def NamesDistinct : Prop := ∀ d, ((fs.entriesOf d).map Prod.fst).Nodup

variable {fs} {d t target oldParent : ℕ} {oldName : Text}

lemma entriesOf_of_get (h : fs.get d = some (.dir entries)) : fs.entriesOf d = entries := by
  rw [entriesOf, h]
  rfl

lemma hasEntry_iff {x : ℕ} : fs.HasEntry x ↔ ∃ n ∈ fs.inodes, ∃ e ∈ fs.entriesOf n.1, e.2 = x := by
  refine ⟨?_, fun ⟨n, _, e, he, hx⟩ => ⟨n.1, e, he, hx⟩⟩
  rintro ⟨d, e, he, hx⟩
  cases hd : fs.inodes.find? fun n => n.1 = d with
  | none =>
    rw [entriesOf, get, Assoc.get, hd] at he
    cases he
  | some n =>
    have hkey := List.find?_some hd
    rw [decide_eq_true_eq] at hkey
    exact ⟨n, mem_of_find?_eq_some hd, e, hkey ▸ he, hx⟩

instance HasEntry.decidable (fs : RamFs) (x : ℕ) :
    Decidable (fs.HasEntry x) := decidable_of_iff' _ hasEntry_iff

lemma get_update (p : ℕ) (f : List (Text × ℕ) → List (Text × ℕ)) (x : ℕ) :
    (fs.update p f).get x = if x = p then (fs.get x).map (RamInode.mapEntries f) else fs.get x :=
  Assoc.get_modify ..

lemma get_removeInode (t x : ℕ) :
    (fs.removeInode t).get x = if x = t then none else fs.get x := Assoc.get_erase ..

lemma body_update (p : ℕ) (f : List (Text × ℕ) → List (Text × ℕ)) (x : ℕ) :
    ((fs.update p f).get x).map RamInode.body = (fs.get x).map RamInode.body := by
  rw [get_update]
  split
  · rw [Option.map_map]
    congr 1
    funext n
    exact RamInode.body_mapEntries f n
  · rfl

variable {p ino : ℕ} {e : Text × ℕ} {gone gone' lost lost' : ℕ → Prop}

lemma entriesOf_update_self (f : List (Text × ℕ) → List (Text × ℕ))
    (h : fs.get p = some (.dir entries)) : (fs.update p f).entriesOf p = f entries := by
  rw [entriesOf, get_update, if_pos rfl, h]
  rfl

/-- Entries that are filtered out; a missing directory has none anyway. -/
lemma entriesOf_update_without (p : ℕ) (name : Text) (d : ℕ) :
    (fs.update p (without name)).entriesOf d =
      if d = p then without name (fs.entriesOf d) else fs.entriesOf d := by
  rw [entriesOf, get_update, entriesOf]
  split
  · cases fs.get d with
    | none => rfl
    | some n => cases n <;> rfl
  · rfl

lemma entriesOf_removeInode (t d : ℕ) :
    (fs.removeInode t).entriesOf d = if d = t then [] else fs.entriesOf d := by
  rw [entriesOf, get_removeInode]
  split <;> rfl

lemma mem_without : e ∈ without name entries ↔ e ∈ entries ∧ e.1 ≠ name := by
  simp [without]

/-- What a call does to a filesystem: the inodes outside `gone` keep their bodies, those outside
`lost` their entries. -/
structure Effect (fs fs' : RamFs) (gone lost : ℕ → Prop) : Prop where
  body : ∀ x, ¬ gone x → (fs'.get x).map RamInode.body = (fs.get x).map RamInode.body
  entry : ∀ x, ¬ lost x → fs.HasEntry x → fs'.HasEntry x
  names : fs'.NamesDistinct

/-! ## The effects of the calls -/

lemma lookup_ok (h : fs.lookup parent name = .ok t) :
    ∃ entries, fs.get parent = some (.dir entries) ∧ (name, t) ∈ entries := by
  rw [lookup] at h
  split at h
  · cases h
  next entries hparent =>
    split at h
    next e he =>
      cases h
      have hname := List.find?_some he
      rw [decide_eq_true_eq] at hname
      exact ⟨entries, hparent, by rw [← hname]; exact mem_of_find?_eq_some he⟩
    · cases h
  · cases h

section

variable (hnames : fs.NamesDistinct)

include hnames

lemma eq_of_entry {x : ℕ} (h : fs.lookup parent name = .ok t)
    (hx : (name, x) ∈ fs.entriesOf parent) : x = t := by
  obtain ⟨entries, hparent, hmem⟩ := lookup_ok h
  rw [← entriesOf_of_get hparent] at hmem
  exact (Prod.mk.inj (inj_on_of_nodup_map (hnames parent) hx hmem rfl)).2

lemma effect_without (parent : ℕ) (name : Text) :
    Effect fs (fs.update parent (without name)) (fun _ => False)
    (fun x => (name, x) ∈ fs.entriesOf parent) where
  body x _ := body_update ..
  entry x hx := by
    rintro ⟨d, e, he, rfl⟩
    refine ⟨d, e, ?_, rfl⟩
    rw [entriesOf_update_without]
    split
    next hd =>
      refine mem_without.mpr ⟨he, fun hname => hx ?_⟩
      rw [← hname, ← hd]
      exact he
    · exact he
  names d := by
    rw [entriesOf_update_without]
    split
    · exact (hnames d).sublist ((filter_sublist ..).map _)
    · exact hnames d

lemma effect_append (x : ℕ) (hparent : fs.get parent = some (.dir entries))
    (hname : ∀ e ∈ fs.entriesOf parent, e.1 ≠ name) :
    Effect fs (fs.update parent fun es => es ++ [(name, x)]) (fun _ => False) (fun _ => False) ∧
      (fs.update parent fun es => es ++ [(name, x)]).HasEntry x := by
  have hentries : ∀ d, (fs.update parent fun es => es ++ [(name, x)]).entriesOf d
      = if d = parent then fs.entriesOf d ++ [(name, x)] else fs.entriesOf d := by
    intro d
    split
    next hd => rw [hd, entriesOf_update_self _ hparent, entriesOf_of_get hparent]
    next hd => rw [entriesOf, get_update, if_neg hd, entriesOf]
  refine ⟨⟨fun x _ => body_update .., ?_, fun d => ?_⟩, parent, (name, x), ?_, rfl⟩
  · rintro - - ⟨d, e, he, rfl⟩
    refine ⟨d, e, ?_, rfl⟩
    rw [hentries]
    split
    · simp [he]
    · exact he
  · rw [hentries]
    split
    next hd =>
      rw [map_append, nodup_append]
      refine ⟨hnames d, nodup_singleton _, fun a ha b hb => ?_⟩
      rw [map_singleton, mem_singleton] at hb
      obtain ⟨e, he, rfl⟩ := mem_map.mp ha
      rw [hb]
      exact hname e (hd ▸ he)
    · exact hnames d
  · rw [hentries, if_pos rfl]
    simp

lemma effect_removeInode (hempty : fs.entriesOf t = []) :
    Effect fs (fs.removeInode t) (fun x => x = t) (fun _ => False) where
  body x hx := by rw [get_removeInode, if_neg hx]
  entry x _ := by
    rintro ⟨d, e, he, rfl⟩
    refine ⟨d, e, ?_, rfl⟩
    rw [entriesOf_removeInode]
    split
    next hd =>
      rw [hd, hempty] at he
      cases he
    · exact he
  names d := by
    rw [entriesOf_removeInode]
    split
    · exact nodup_nil
    · exact hnames d

end

lemma Effect.trans {fs₁ fs₂ fs₃ : RamFs} (h : Effect fs₁ fs₂ gone lost)
    (h' : Effect fs₂ fs₃ gone' lost') :
    Effect fs₁ fs₃ (fun x => gone x ∨ gone' x) (fun x => lost x ∨ lost' x) where
  body x hx := (h'.body x fun hg => hx (.inr hg)).trans (h.body x fun hg => hx (.inl hg))
  entry x hx he := h'.entry x (fun hl => hx (.inr hl)) (h.entry x (fun hl => hx (.inl hl)) he)
  names := h'.names

lemma Effect.mono {fs : RamFs} (h : Effect fs fs' gone lost) (hgone : ∀ x, gone x → gone' x)
    (hlost : ∀ x, lost x → lost' x) : Effect fs fs' gone' lost' where
  body x hx := h.body x fun hg => hx (hgone x hg)
  entry x hx := h.entry x fun hl => hx (hlost x hl)
  names := h.names

/-- What `remove` does: the inode that the name names goes, and nothing else does. -/
lemma remove_ok (hnames : fs.NamesDistinct) (h : fs.remove parent name = .ok fs') :
    ∃ t, fs.lookup parent name = .ok t ∧ fs.rdonly = false ∧ fs.entriesOf t = [] ∧
      fs'.get t = none ∧
      Effect fs fs' (fun x => x = t) (fun x => x = t) := by
  rw [remove] at h
  split at h
  · cases h
  rename_i hrdonly
  split at h
  · cases h
  rename_i t hlookup
  split at h
  · cases h
  rename_i node hnode
  split at h
  · cases h
  rename_i hempty
  rw [not_not] at hempty
  cases h
  have hentries : fs.entriesOf t = [] := by
    rw [entriesOf, hnode]
    exact hempty
  have hunlink := effect_without hnames parent name
  have hentries' : (fs.update parent (without name)).entriesOf t = [] := by
    rw [entriesOf_update_without, hentries]
    split <;> rfl
  refine ⟨t, hlookup, Bool.eq_false_iff.mpr hrdonly, hentries, by simp [get_removeInode], ?_⟩
  exact (hunlink.trans (effect_removeInode hunlink.names hentries')).mono
    (fun x hx => hx.resolve_left id)
    fun x hx => eq_of_entry hnames hlookup (hx.resolve_right id)

lemma unlinkEntry_ok (hnames : fs.NamesDistinct)
    (hlookup : fs.lookup parent name = .ok t) (h : fs.unlinkEntry parent name = .ok fs') :
    Effect fs fs' (fun _ => False) (fun x => x = t) := by
  obtain ⟨entries, hparent, -⟩ := lookup_ok hlookup
  rw [unlinkEntry, hparent] at h
  split at h
  · cases h
  dsimp only at h
  split at h
  · cases h
  · cases h
    exact (effect_without hnames parent name).mono (fun _ => id) fun x => eq_of_entry hnames hlookup

/-- What creating does: there is one inode more, with an entry. -/
lemma create_ok (hnames : fs.NamesDistinct) {node : RamInode} (hfresh : fs.get ino = none)
    (hnode : node.entries = []) (h : fs.create parent name ino node = .ok fs') :
    fs'.get ino = some node ∧ fs'.HasEntry ino ∧
    Effect fs fs' (fun x => x = ino) (fun _ => False) := by
  rw [create] at h
  split at h
  · cases h
  split at h
  · cases h
  swap
  · cases h
  rename_i entries hparent
  split at h
  · cases h
  rename_i hname
  cases h
  -- first the table gets the inode, then the directory its entry
  obtain ⟨pushed, hpushed⟩ :
      ∃ pushed : RamFs, pushed = { fs with inodes := fs.inodes ++ [(ino, node)] } := ⟨_, rfl⟩
  rw [← hpushed]
  have hget : ∀ x, pushed.get x = if x = ino then some node else fs.get x := by
    intro x
    rw [hpushed, get, Assoc.get_append, Assoc.get_cons]
    by_cases hx : x = ino
    · rw [hx]
      rw [get] at hfresh
      rw [hfresh]
      simp
    · rw [if_neg hx, if_neg fun heq => hx heq.symm, get]
      simp [Assoc.get]
  have hentries : ∀ d, pushed.entriesOf d = fs.entriesOf d := by
    intro d
    rw [entriesOf, hget]
    split
    next hd =>
      rw [hd, entriesOf, hfresh]
      exact hnode
    · rfl
  have hpush : Effect fs pushed (fun x => x = ino) (fun _ => False) := by
    refine ⟨fun x hx => by rw [hget, if_neg hx], ?_, fun d => by rw [hentries]; exact hnames d⟩
    rintro x - ⟨d, e, he, rfl⟩
    exact ⟨d, e, by rwa [hentries], rfl⟩
  have hne : parent ≠ ino := by
    rintro rfl
    rw [hparent] at hfresh
    cases hfresh
  have hparent' : pushed.get parent = some (.dir entries) := by rw [hget, if_neg hne, hparent]
  obtain ⟨happend, hentry⟩ := effect_append hpush.names ino hparent' fun e he heq => hname <| by
    rw [hentries, entriesOf_of_get hparent] at he
    exact any_eq_true.mpr ⟨e, he, decide_eq_true heq⟩
  refine ⟨?_, hentry, (hpush.trans happend).mono (fun x hx => hx.resolve_right id) fun x hx =>
    hx.elim id id⟩
  simp [get_update, hne.symm, hget]

lemma get_setData (ino : ℕ) (f : List UInt8 → List UInt8) (x : ℕ) :
    (fs.setData ino f).get x = if x = ino then (fs.get x).map fun node => match node with
          | .file data => .file (f data)
          | node => node else fs.get x := Assoc.get_modify ..

lemma effect_setData (hnames : fs.NamesDistinct) (ino : ℕ) (f : List UInt8 → List UInt8) :
    Effect fs (fs.setData ino f) (fun x => x = ino) (fun _ => False) := by
  have hentries : ∀ d, (fs.setData ino f).entriesOf d = fs.entriesOf d := by
    intro d
    rw [entriesOf, get_setData, entriesOf]
    split
    · cases fs.get d with
      | none => rfl
      | some n => cases n <;> rfl
    · rfl
  refine ⟨fun x hx => ?_, ?_, fun d => ?_⟩
  · rw [get_setData, if_neg hx]
  · rintro - - ⟨d, e, he, rfl⟩
    exact ⟨d, e, by rwa [hentries], rfl⟩
  · rw [hentries]
    exact hnames d

/-! ### The effect of a rename -/

/-- What a successful check says. -/
structure Renames (fs : RamFs) (oldParent : ℕ) (oldName : Text) (newParent : ℕ) (newName : Text)
    (target : ℕ) (existing : Option ℕ) : Prop where
  source : fs.lookup oldParent oldName = .ok target
  parent : ∃ entries, fs.get newParent = some (.dir entries)
  found : (fs.entriesOf newParent).find? (fun e => e.1 = newName) = existing.map fun ino =>
    (newName, ino)
  empty : ∀ ino ∈ existing, fs.entriesOf ino = []

lemma renameCheck_ok (h : fs.renameCheck oldParent oldName newParent newName =
    .ok (some (target, existing))) :
    Renames fs oldParent oldName newParent newName target existing := by
  rw [renameCheck] at h
  simp only [bind, Except.bind, pure, Except.pure, throw, throwThe, MonadExceptOf.throw] at h
  split at h
  · cases h
  split at h
  · cases h
  split at h
  · cases h
  rename_i source hsource
  split at h
  · cases h
  swap
  · cases h
  rename_i entries hparent
  have hentries := entriesOf_of_get hparent
  split at h
  · cases h
  split at h
  · cases h
  split at h
  · cases h
  split at h
  next hfind =>
    cases h
    exact ⟨hsource, ⟨entries, hparent⟩, by rw [hentries, hfind]; rfl, by simp⟩
  next e hfind =>
    split at h
    · cases h
    rename_i node hnode
    split at h
    · cases h
    split at h
    · cases h
    split at h
    · cases h
    rename_i hempty
    rw [not_not] at hempty
    cases h
    have hname := List.find?_some hfind
    rw [decide_eq_true_eq] at hname
    refine ⟨hsource, ⟨entries, hparent⟩, by rw [hentries, hfind, ← hname]; rfl, ?_⟩
    rintro - ⟨⟩
    rw [entriesOf, hnode]
    exact hempty

/-- The parents of a rename are not what it displaces: they have entries. -/
lemma Renames.ne_existing (h : Renames fs oldParent oldName newParent newName target existing)
    (hino : ino ∈ existing) : oldParent ≠ ino ∧ newParent ≠ ino := by
  have hempty := h.empty ino hino
  constructor
  · rintro rfl
    obtain ⟨entries, hparent, hmem⟩ := lookup_ok h.source
    rw [entriesOf_of_get hparent] at hempty
    rw [hempty] at hmem
    exact not_mem_nil hmem
  rintro rfl
  have hfound := h.found
  rw [hempty, Option.mem_def.mp hino] at hfound
  cases hfound

lemma effect_displace (hnames : fs.NamesDistinct)
    (h : Renames fs oldParent oldName newParent newName target existing) :
    Effect fs (fs.displace newParent newName existing) (fun x => x ∈ existing)
    (fun x => x ∈ existing) ∧
      (∀ ino ∈ existing, (fs.displace newParent newName existing).get ino = none) ∧
      ∀ e ∈ (fs.displace newParent newName existing).entriesOf newParent, e.1 ≠ newName := by
  cases existing with
  | none =>
    refine ⟨⟨fun _ _ => rfl, fun _ _ he => he, hnames⟩, by simp, ?_⟩
    intro e he heq
    have hfound := List.find?_eq_none.mp h.found e he
    exact hfound (decide_eq_true heq)
  | some ino =>
    have hne := (h.ne_existing rfl).2
    have hempty := h.empty ino rfl
    have hunlink := effect_without hnames newParent newName
    have hexisting : ∀ x, (newName, x) ∈ fs.entriesOf newParent → x = ino := fun x hx => by
      have hmem := mem_of_find?_eq_some h.found
      exact (Prod.mk.inj (inj_on_of_nodup_map (hnames newParent) hx hmem rfl)).2
    have hempty' : (fs.update newParent (without newName)).entriesOf ino = [] := by
      rw [entriesOf_update_without, if_neg hne.symm, hempty]
    have heffect := hunlink.trans (effect_removeInode hunlink.names hempty')
    refine ⟨heffect.mono ?_ ?_, ?_, ?_⟩
    · exact fun x hx => Option.mem_some.mpr (hx.resolve_left id).symm
    · exact fun x hx => Option.mem_some.mpr (hexisting x (hx.resolve_right id)).symm
    · rintro _ ⟨⟩
      exact (get_removeInode ..).trans (if_pos rfl)
    intro e he
    rw [displace, entriesOf_removeInode, if_neg hne, entriesOf_update_without, if_pos rfl] at he
    exact (mem_without.mp he).2

/-- A rename takes entries out of directories before it adds the new one. -/
lemma mem_displace (h : e ∈ (fs.displace newParent newName existing).entriesOf d) :
    e ∈ fs.entriesOf d := by
  cases existing with
  | none => exact h
  | some ino =>
    rw [displace, entriesOf_removeInode] at h
    split at h
    · cases h
    rw [entriesOf_update_without] at h
    split at h
    · exact (mem_without.mp h).1
    · exact h

lemma dir_of_body {fs : RamFs} (h : fs.get d = some (.dir entries))
    (hbody : (fs'.get d).map RamInode.body = (fs.get d).map RamInode.body) :
    ∃ entries', fs'.get d = some (.dir entries') := by
  rw [h] at hbody
  obtain ⟨node, hnode, heq⟩ := Option.map_eq_some_iff.mp hbody
  cases node with
  | dir entries' => exact ⟨entries', hnode⟩
  | file => cases heq
  | symLink => cases heq

/-- What `rename` does: what the new name named goes, the rest stays and keeps its entries. -/
lemma rename_ok (hnames : fs.NamesDistinct)
    (h : fs.rename oldParent oldName newParent newName = .ok fs') :
    fs' = fs ∨ ∃ target existing, fs.rdonly = false ∧
      fs.renameCheck oldParent oldName newParent newName = .ok (some (target, existing)) ∧
      Effect fs fs' (fun x => x ∈ existing) (fun x => x ∈ existing) ∧
      ∀ ino ∈ existing, fs'.get ino = none := by
  rw [rename] at h
  split at h
  · cases h
  rename_i hrdonly
  split at h
  · cases h
  · cases h
    exact .inl rfl
  rename_i target existing hcheck
  cases h
  have hr := renameCheck_ok hcheck
  obtain ⟨hdisplace, hgone, hfree⟩ := effect_displace hnames hr
  have hunlink := effect_without hdisplace.names oldParent oldName
  have hmoved := hdisplace.trans hunlink
  obtain ⟨entries, hparent⟩ := hr.parent
  have hstays : ∀ ino ∈ existing, newParent ≠ ino := fun ino hino => (hr.ne_existing hino).2
  obtain ⟨entries', hparent'⟩ := dir_of_body hparent
    (hmoved.body newParent fun hg => hg.elim (fun hg => hstays newParent hg rfl) id)
  have hfree' :
    ∀ e ∈ ((fs.displace newParent newName existing).update oldParent
      (without oldName)).entriesOf newParent,
      e.1 ≠ newName := by
    intro e he
    rw [entriesOf_update_without] at he
    split at he
    · exact hfree e (mem_without.mp he).1
    · exact hfree e he
  obtain ⟨happend, hentry⟩ := effect_append hmoved.names target hparent' hfree'
  refine .inr ⟨target, existing, Bool.eq_false_iff.mpr hrdonly, hcheck,
    ⟨fun x hx => ?_, fun x hx he => ?_, happend.names⟩, ?_⟩
  · exact (happend.body x id).trans (hmoved.body x fun hg => hg.elim hx id)
  · -- only the inode that moves loses an entry, and it gets the new one
    by_cases htarget : x = target
    · rw [htarget]
      exact hentry
    · refine happend.entry x id (hmoved.entry x (fun hl => hl.elim hx fun hl => htarget ?_) he)
      exact eq_of_entry hnames hr.source (mem_displace hl)
  intro ino hino
  have hne := hr.ne_existing hino
  rw [get_update, if_neg hne.2.symm, get_update, if_neg hne.1.symm]
  exact hgone ino hino

end RamFs

end Astryx.Vfs
