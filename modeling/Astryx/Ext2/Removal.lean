import Astryx.Ext2.Arrays
import Astryx.Ext2.Directories
import Astryx.Ext2.Strays

/-!
# Removing a file

`Ext2Fs::remove` takes a name out of a directory and, when the object has no links left, frees its
blocks and its inode. In a consistent image that is exact for every object but two kinds.

* A directory has a link from its own `.`, which `unlink_entry` does not take away: one link is
  left, and neither the blocks nor the inode of an empty directory are freed.
* The slots of a symbolic link of up to 60 bytes hold the text of its target, and `destroy_inode`
  frees the blocks that the text names.

Times and the cache of names are left out.

## Main results

* `remove_freesExactly_iff` — which objects are removed exactly
* `remove_not_exact` — an image with both kinds
-/

namespace Astryx.Ext2

open PointerForest Vfs Function Finset

/-- The volume with `free_inodes_count` and `used_dirs_count` of the groups, and `free_inodes_count`
of the superblock. -/
structure Mounted where
  fs : Fs
  inodeFree : ℕ → ℕ
  usedDirs : ℕ → ℕ
  totalInodeFree : ℕ

namespace Mounted

variable (l : Geometry) (c : Naming)

/-- The bit of an inode is cleared and counted. -/
def freeInode (v : Mounted) (n : ℕ) (wasDir : Bool) : Mounted :=
  match l.locate .inode n with
  | none => v
  | some (group, bitIdx) =>
    let bitmap := l.bitmapBlock .inode group
    if Bytes.bit (v.fs.dev bitmap) bitIdx then
      { fs := v.fs.writeBlock bitmap (Bytes.clearBit (v.fs.dev bitmap) bitIdx)
        inodeFree := update v.inodeFree group ((v.inodeFree group + 1) % 2 ^ 16)
        usedDirs := if wasDir then update v.usedDirs group (v.usedDirs group - 1) else v.usedDirs
        totalInodeFree := v.totalInodeFree + 1 }
    else v

/-- Frees the blocks of an inode and then the inode. -/
def destroyInode (v : Mounted) (n : ℕ) (ino : Inode) : Mounted :=
  let w := Work.freeBlocksFrom l { ino := ino, fs := v.fs } 0
  let fs := w.fs.writeInode n { w.ino with size := 0, linksCount := 0 }
  freeInode l { v with fs := fs } n (ino.fileType = .directory)

/-- Frees an inode without links. -/
def removeInode (v : Mounted) (n : ℕ) : Except VfsError Mounted :=
  match v.fs.readInode l n with
  | none => .error .notFound
  | some ino => if 0 < ino.linksCount then .ok v else .ok (v.destroyInode l n ino)

/-- The parent is written in any case in the source; but for its times it changes for a directory
only. -/
def unlinkEntry (v : Mounted) (p : ℕ) (name : List UInt8) : Except VfsError Mounted :=
  match v.fs.readInode l p with
  | none => .error .notFound
  | some parent =>
    if parent.fileType ≠ .directory then .error .notADirectory
    else
      match v.fs.removeDirEntry l parent name with
      | .error e => .error e
      | .ok (dead, fs) =>
        match fs.readInode l dead with
        | none => .ok { v with fs := fs }
        | some target =>
          let fs := fs.writeInode dead { target with linksCount := target.linksCount - 1 }
          if target.fileType = .directory then
            match fs.readInode l p with
            | none => .ok { v with fs := fs }
            | some parent =>
              .ok { v with
                fs := fs.writeInode p { parent with linksCount := parent.linksCount - 1 } }
          else .ok { v with fs := fs }

/-- Unlinks a name; the last link frees the inode. -/
def remove (v : Mounted) (p : ℕ) (name : List UInt8) : Except VfsError Mounted :=
  match v.fs.readInode l p with
  | none => .error .notFound
  | some parent =>
    if parent.fileType ≠ .directory then .error .notADirectory
    else
      let (entries, fs) := v.fs.readDirEntries l c parent
      match entries.find? fun e => e.name = name with
      | none => .error .notFound
      | some e =>
        match fs.readInode l e.inode with
        | none => .error .notFound
        | some target =>
          let (blocked, fs) := if target.fileType = .directory then
              let (empty, fs) := fs.dirIsEmpty l c target
              (!empty, fs)
            else (false, fs)
          if blocked then .error .notEmpty
          else
            match unlinkEntry l { v with fs := fs } p name with
            | .error e => .error e
            | .ok v => v.removeInode l e.inode

end Mounted

/-! ## The statement -/

/-- A consistent image. `owners` are the inodes in use that have a tree of blocks, `fast` are the
short symbolic links, whose slots have the bytes of the target. An image with a device node, whose
slots have neither, or with a name that is not UTF-8 is none of these. -/
structure Image (l : Geometry) (c : Naming) (owners fast : Finset ℕ) (s : Fs) : Prop where
  consistent : Consistent l owners s
  disjoint : Disjoint owners fast
  bitmaps : ∀ k, ∀ g < l.numGroups, s.used l .block (l.bitmapBlock k g)
  inodes : ∀ n, n ∈ owners ∨ n ∈ fast → s.used l .inode n
  text : ∀ n ∈ fast, (s.inodes n).fileType = .symLink ∧ (s.inodes n).blocks = 0 ∧
    ∃ target : List UInt8, target.length ≤ 60 ∧
    (s.inodes n).size = target.length ∧
      ∀ slot < 15, (s.inodes n).block slot = Bytes.word (fun k => target.getD k 0) slot
  tiled : ∀ d ∈ owners, (s.inodes d).fileType = .directory → Tiled l c owners s d
  names : ∀ d ∈ owners, (s.inodes d).fileType = .directory →
    ((s.entries l c owners d).map DirEntry.name).Nodup
  targets : ∀ d ∈ owners, (s.inodes d).fileType = .directory →
    ∀ e ∈ s.entries l c owners d, e.inode ∈ owners ∨ e.inode ∈ fast
  self : ∀ d ∈ owners, (s.inodes d).fileType = .directory →
    ∃ e ∈ s.entries l c owners d, e.inode = d ∧ e.name = dot
  /-- A link is an entry of a directory. -/
  links : ∀ n, n ∈ owners ∨ n ∈ fast → (s.inodes n).linksCount
    = ∑ d ∈ owners.filter (fun d => (s.inodes d).fileType = .directory),
      (s.entries l c owners d).countP fun e => e.inode = n

/-- A name of a directory is the last one of an inode, but for the `.` of a directory. -/
structure LastName (l : Geometry) (c : Naming) (owners : Finset ℕ) (s : Fs) (p : ℕ)
    (name : List UInt8) (n : ℕ) : Prop where
  named : ∃ e ∈ s.entries l c owners p, e.inode = n ∧ e.name = name
  last : ∀ d ∈ owners, (s.inodes d).fileType = .directory →
    ∀ e ∈ s.entries l c owners d, e.inode = n →
    d = p ∧ e.name = name ∨ d = n ∧ e.name = dot

/-- A cell of the inode names the block. -/
def Fs.Holds (l : Geometry) (owners : Finset ℕ) (s : Fs) (n x : ℕ) : Prop :=
  ∃ slot is, l.IsCell (n, slot) is ∧ s.blockAt owners (n, slot) is = x ∧ x ≠ 0

/-- The blocks of an object and its inode are freed, and nothing else. -/
structure FreesExactly (l : Geometry) (owners : Finset ℕ) (s s' : Fs) (n : ℕ) : Prop where
  blocks : ∀ x, s'.used l .block x ↔ s.used l .block x ∧ ¬ s.Holds l owners n x
  inodes : ∀ m, s'.used l .inode m ↔ s.used l .inode m ∧ m ≠ n
  others : ∀ m x, m ≠ n → s.Holds l owners m x → s'.used l .block x

variable {l : Geometry} {c : Naming} {owners fast : Finset ℕ} {s t : Fs} {v v' : Mounted}
  {n p m : ℕ} {name : List UInt8}
  {ino : Inode} {k : Kind} {x : ℕ}

/-! ## Taking the name out -/

/-- The volume without the name: bitmaps and trees are the same. -/
structure Unlinked (l : Geometry) (owners : Finset ℕ) (s t : Fs) : Prop where
  owned : Owned l owners t
  coherent : Coherent l owners t t
  blockAt : ∀ r is, l.IsCell r is → t.blockAt owners r is = s.blockAt owners r is
  bitmaps : ∀ k, ∀ g < l.numGroups, t.dev (l.bitmapBlock k g) = s.dev (l.bitmapBlock k g)
  unused : ∀ x, ¬ s.used l .block x → t.dev x = s.dev x
  block : ∀ m, (t.inodes m).block = (s.inodes m).block

lemma DataWritten.unlinked (h : DataWritten l owners s t) (ho : Owned l owners s) :
    Unlinked l owners s t := by
  obtain ⟨r, is, b, -, cache, ⟨hcell, hfull⟩, ⟨hb, hb0⟩, hco, rfl⟩ := h
  have hplaced := ho.placed r is hcell (hb.symm ▸ hb0)
  rw [hb] at hplaced
  obtain ⟨hfile, g, i, hat⟩ := hplaced
  have hused : s.used l .block b := ⟨g, i, hat, (ho.marks b g i hat).mpr (.inr ⟨r, is, hcell, hb⟩)⟩
  refine ⟨(ho.withCache cache).writeData hcell hfull hb hb0,
    Coherent.writeData (ho.withCache cache) hcell hfull hb hb0 hco,
    fun _ _ hc => (ho.withCache cache).writeData_blockAt hcell hfull hb hb0 hc, fun k g hg => ?_,
      fun x hx => ?_, fun _ => rfl⟩
  · exact update_of_ne (ne_bitmapBlock hfile k hg).symm ..
  refine update_of_ne ?_ ..
  rintro rfl
  exact hx hused

lemma Unlinked.writeInode (h : Unlinked l owners s t) (hblock : ino.block = (t.inodes m).block) :
    Unlinked l owners s (t.writeInode m ino) := by
  have hat : ∀ r is, (t.writeInode m ino).blockAt owners r is =
      t.blockAt owners r is := fun r is => by
    rw [Fs.blockAt, Fs.blockAt, writeInode_forest hblock]
  refine ⟨h.owned.congr (fun r is _ => hat r is) fun _ _ _ => rfl, ?_, fun r is hc =>
    (hat r is).trans (h.blockAt r is hc),
    h.bitmaps, h.unused, fun m' => ?_⟩
  · exact h.coherent.congr hat
  rw [← h.block m', Fs.writeInode]
  dsimp only
  rw [update_apply]
  split
  next hm => rw [hm, hblock]
  · rfl

lemma used_congr (hbm : ∀ g < l.numGroups, t.dev (l.bitmapBlock k g) = s.dev (l.bitmapBlock k g))
    (x : ℕ) : t.used l k x ↔ s.used l k x := by
  refine exists₂_congr fun g i => and_congr_right fun hat => ?_
  rw [hbm g hat.group]

/-! ## Freeing an inode -/

lemma used_iff {g i : ℕ} (hat : l.At k x g i) :
    s.used l k x ↔ Bytes.bit (s.dev (l.bitmapBlock k g)) i := by
  constructor
  · rintro ⟨g', i', hat', hset⟩
    obtain ⟨rfl, rfl⟩ := hat.unique hat'
    exact hset
  · exact fun hset => ⟨g, i, hat, hset⟩

lemma locate_of_used (h : s.used l .inode n) : (l.locate .inode n).isSome := by
  obtain ⟨g, i, hat, -⟩ := h
  have hnumber := hat.number
  have hpos : l.number .inode g i ≠ 0 := by
    rw [Layout.number, Layout.base]
    omega
  rw [← hnumber, Layout.locate_number hpos hat.group hat.bit]
  rfl

lemma freeInode_used (wasDir : Bool) (k : Kind) (x : ℕ) :
    (v.freeInode l n wasDir).fs.used l k x ↔ v.fs.used l k x ∧ ¬ (k = .inode ∧ x = n) := by
  rw [Mounted.freeInode]
  split
  next hnone =>
    refine (and_iff_left_of_imp ?_).symm
    rintro hused ⟨rfl, rfl⟩
    have hsome := locate_of_used hused
    rw [hnone] at hsome
    cases hsome
  rename_i g i hlocate
  have hn := Layout.at_of_locate hlocate
  dsimp only
  split
  swap
  next hclear =>
    refine (and_iff_left_of_imp ?_).symm
    rintro hused ⟨rfl, rfl⟩
    exact hclear ((used_iff hn).mp hused)
  · have hbit : ∀ g' i', l.At k x g' i' → ((v.fs.writeBlock (l.bitmapBlock .inode g)
        (Bytes.clearBit (v.fs.dev (l.bitmapBlock .inode g)) i)).used l k x ↔ v.fs.used l k x ∧
          ¬ (k = .inode ∧ x = n)) := by
      intro g' i' hat
      rw [used_iff hat, used_iff hat, Fs.writeBlock]
      dsimp only
      rw [update_apply]
      split
      next hsame =>
        obtain ⟨rfl, rfl⟩ := l.bitmapBlock_inj k g' .inode g hat.group hn.group hsame
        have hiff : x = n ↔ i' = i := by
          rw [← hat.number, ← hn.number, Layout.number, Layout.number]
          omega
        rw [Bytes.bit_clearBit, Bool.and_eq_true, Bool.not_eq_true', decide_eq_false_iff_not,
          and_comm, hiff, and_iff_right rfl]
      next hother =>
        refine (and_iff_left_of_imp ?_).symm
        rintro - ⟨rfl, rfl⟩
        exact hother (congrArg _ (hat.unique hn).1)
    constructor
    · rintro ⟨g', i', hat, hset⟩
      exact (hbit g' i' hat).mp ⟨g', i', hat, hset⟩
    · rintro ⟨⟨g', i', hat, hset⟩, hne⟩
      exact (hbit g' i' hat).mpr ⟨⟨g', i', hat, hset⟩, hne⟩

/-! ## Destroying an inode -/

lemma destroyInode_used (k : Kind) (x : ℕ) : (v.destroyInode l n ino).fs.used l k x
    ↔ (Work.freeBlocksFrom l ⟨ino, v.fs⟩ 0).fs.used l k x ∧ ¬ (k = .inode ∧ x = n) := by
  rw [Mounted.destroyInode, freeInode_used]
  exact Iff.rfl

lemma Fs.Holds.cell (h : s.Holds l owners n x) :
    n ∈ owners ∧ x ≠ 0 ∧
    ∃ slot < 15, ∃ is, l.IsCell (n, slot) is ∧ s.blockAt owners (n, slot) is = x := by
  obtain ⟨slot, is, hc, hx, hx0⟩ := h
  by_cases howner : n ∈ owners ∧ slot < 15
  · exact ⟨howner.1, hx0, slot, howner.2, is, hc, hx⟩
  · have hroot : s.blockAt owners (n, slot) [] = 0 := if_neg howner
    exact absurd (hx.symm.trans (blockAt_append_of_zero hroot is)) hx0

lemma Owned.of_holds (h : Owned l owners s) (hx : s.Holds l owners n x) :
    l.own x = false ∧ s.used l .block x := by
  obtain ⟨slot, is, hc, rfl, hx0⟩ := hx
  obtain ⟨hfile, g, i, hat⟩ := h.placed _ is hc hx0
  exact ⟨hfile, g, i, hat, (h.marks _ g i hat).mpr (.inr ⟨_, is, hc, rfl⟩)⟩

lemma Owned.holds_unique (h : Owned l owners s) (hn : s.Holds l owners n x)
    (hm : s.Holds l owners m x) : n = m := by
  obtain ⟨slot, is, hc, hx, hx0⟩ := hn
  obtain ⟨slot', is', hc', hx', -⟩ := hm
  exact congrArg Prod.fst (h.distinct _ is _ is' hc hc' (hx.symm ▸ hx0) (hx.trans hx'.symm)).1

/-- The blocks of a tree are freed, and nothing else. -/
lemma Unlinked.freeBlocksFrom_used (h : Unlinked l owners s t) (hs : Owned l owners s)
    (hn : n ∈ owners) (k : Kind) (x : ℕ) :
    (Work.freeBlocksFrom l ⟨t.inodes n, t⟩ 0).fs.used l k x ↔ s.used l k x ∧
    ¬ (k = .block ∧ s.Holds l owners n x) := by
  have hstart : Pruning l owners n (fun _ => False) ⟨t.inodes n, t⟩ t :=
    ⟨h.owned, h.coherent, (update_eq_self n t.inodes).symm, rfl, rfl, fun _ _ => rfl⟩
  obtain ⟨u, hu, hcut, -⟩ := hstart.freeBlocksFrom_spec 0 hn
  have hdev : ∀ y, (Work.freeBlocksFrom l ⟨t.inodes n, t⟩ 0).fs.dev y = u.dev y := fun y =>
    (hu.dev y id).symm
  rw [used_congr fun g _ => hdev _]
  cases k with
  | inode =>
    have hsame : ∀ g < l.numGroups, u.dev (l.bitmapBlock .inode g) =
        s.dev (l.bitmapBlock .inode g) := by
      intro g hg
      rw [hcut.data, h.bitmaps .inode g hg]
      · intro g' hg' heq
        cases (l.bitmapBlock_inj .inode g .block g' hg hg' heq).1
      · intro hindex
        exact ne_bitmapBlock (h.owned.not_own_of_isIndex hindex) .inode hg rfl
    rw [used_congr hsame]
    exact (and_iff_left fun hand => by cases hand.1).symm
  | block =>
    have hblock : ∀ r is, l.IsCell r is →
        u.blockAt owners r is = if r.1 = n ∧ r.2 < 15 then 0 else s.blockAt owners r is := by
      intro r is hc
      split
      next hr => exact hcut.empty r is hc ⟨hr.1, hr.2, Nat.zero_le _⟩
      next hr => rw [hcut.other r is hc fun hP => hr ⟨hP.1, hP.2.1⟩, h.blockAt r is hc]
    rw [and_iff_right rfl]
    constructor
    · rintro ⟨g, i, hat, hset⟩
      rcases (hu.owned.marks x g i hat).mp hset with hown | ⟨r, is, hc, hx⟩
      · refine ⟨⟨g, i, hat, (hs.marks x g i hat).mpr (.inl hown)⟩, fun hholds => ?_⟩
        rw [(hs.of_holds hholds).1] at hown
        cases hown
      rw [hblock r is hc] at hx
      split at hx
      · -- block 0 is the volume's own
        rw [← hx] at hat ⊢
        exact ⟨⟨g, i, hat, (hs.marks 0 g i hat).mpr (.inl l.own_zero)⟩, fun hholds =>
          hholds.cell.2.1 rfl⟩
      next hother =>
        refine ⟨⟨g, i, hat, (hs.marks x g i hat).mpr (.inr ⟨r, is, hc, hx⟩)⟩,
          fun hholds => hother ?_⟩
        obtain ⟨-, hx0, slot, hslot, is', hc', hx'⟩ := hholds.cell
        obtain ⟨rfl, -⟩ := hs.distinct r is _ is' hc hc' (hx.symm ▸ hx0) (hx.trans hx'.symm)
        exact ⟨rfl, hslot⟩
    rintro ⟨⟨g, i, hat, hset⟩, hfree⟩
    refine ⟨g, i, hat, (hu.owned.marks x g i hat).mpr ?_⟩
    rcases (hs.marks x g i hat).mp hset with hown | ⟨r, is, hc, hx⟩
    · exact .inl hown
    by_cases hx0 : x = 0
    · exact .inl (hx0 ▸ l.own_zero)
    refine .inr ⟨r, is, hc, ?_⟩
    rw [hblock r is hc, if_neg]
    · exact hx
    · rintro ⟨rfl, -⟩
      exact hfree ⟨r.2, is, hc, hx, hx0⟩

lemma Unlinked.freesExactly (h : Unlinked l owners s v.fs) (hs : Owned l owners s)
    (hn : n ∈ owners) :
    FreesExactly l owners s (v.destroyInode l n (v.fs.inodes n)).fs n := by
  have hblocks : ∀ x, (v.destroyInode l n (v.fs.inodes n)).fs.used l .block x ↔ s.used l .block x ∧
      ¬ s.Holds l owners n x := by
    intro x
    rw [destroyInode_used, h.freeBlocksFrom_used hs hn, and_iff_right rfl]
    exact and_iff_left fun hand => by cases hand.1
  refine ⟨hblocks, fun m => ?_, fun m x hm hx => ?_⟩
  · rw [destroyInode_used, h.freeBlocksFrom_used hs hn, and_iff_right rfl]
    exact and_congr_left fun _ => and_iff_left fun hand => by cases hand.1
  · exact (hblocks x).mpr ⟨(hs.of_holds hx).2, fun hholds => hm (hs.holds_unique hx hholds)⟩

lemma Unlinked.freesExactly_iff_strays (h : Unlinked l owners s v.fs) (hs : Owned l owners s)
    (hn : n ∉ owners) (hbitmaps : ∀ k, ∀ g < l.numGroups, s.used l .block (l.bitmapBlock k g)) :
    FreesExactly l owners s (v.destroyInode l n (v.fs.inodes n)).fs n ↔
    ∀ b ∈ s.strays l (s.inodes n), ¬ s.used l .block b := by
  have hstart : Mirror l s ⟨[], []⟩ ⟨v.fs.inodes n, v.fs⟩ := by
    refine ⟨fun b hb => (by cases hb), h.bitmaps, fun x hx j _ => ?_⟩
    rw [h.unused x hx]
    exact (if_neg List.not_mem_nil).symm
  have hfollows := Follows.freeBlocksFrom hbitmaps hstart
  have htrail : s.trail l (v.fs.inodes n) 15 = s.trail l (s.inodes n) 15 := by
    rw [Fs.trail, Fs.trail, h.block n]
  rw [htrail] at hfollows
  have hnone : ∀ x, ¬ s.Holds l owners n x := fun x hholds => hn hholds.cell.1
  rcases hfollows with hmirror | ⟨⟨b, hb, hused⟩, x, g, i, hat, hset, hclear⟩
  · refine iff_of_true ?_ hmirror.unused
    have hused : ∀ k x, (v.destroyInode l n (v.fs.inodes n)).fs.used l k x ↔ s.used l k x ∧
        ¬ (k = .inode ∧ x = n) := fun k x => by
      rw [destroyInode_used, used_congr (hmirror.bitmaps k)]
    refine ⟨fun x => ?_, fun m => ?_, fun m x _ hx => ?_⟩
    · rw [hused]
      exact and_congr_right fun _ => iff_of_true (fun hand => by cases hand.1) (hnone x)
    · simp [hused]
    rw [hused]
    exact ⟨(hs.of_holds hx).2, fun hand => by cases hand.1⟩
  refine iff_of_false (fun hexact => ?_) fun hclean => hclean b hb hused
  -- a block in use lost its bit
  have hstill := (hexact.blocks x).mpr ⟨⟨g, i, hat, hset⟩, hnone x⟩
  rw [destroyInode_used, used_iff hat] at hstill
  rw [Fs.marked, hstill.1] at hclear
  cases hclear

/-! ## Links -/

lemma countP_eq_one {entries : List DirEntry} {q : DirEntry → Bool} {e : DirEntry}
    (hnames : (entries.map DirEntry.name).Nodup) (he : e ∈ entries) (hq : q e)
    (hname : ∀ e' ∈ entries, q e' → e'.name = e.name) : entries.countP q = 1 := by
  have honly : ∀ e' ∈ entries, q e' ↔ (e' == e) := fun e' he' => by
    rw [beq_iff_eq]
    exact ⟨fun hq' => List.inj_on_of_nodup_map hnames he' he (hname e' he' hq'),
      fun heq => heq ▸ hq⟩
  rw [List.countP_congr honly]
  exact List.count_eq_one_of_mem hnames.of_map he

section

variable (h : Image l c owners fast s) (hlast : LastName l c owners s p name n) (hp : p ∈ owners)
  (hdir : (s.inodes p).fileType = .directory)

include h hlast hp hdir

/-- The last name of an object that is no directory is its only link. -/
lemma Image.linksCount_eq_one (hn : (s.inodes n).fileType ≠ .directory) :
    (s.inodes n).linksCount = 1 := by
  obtain ⟨e, he, rfl, hname⟩ := hlast.named
  have hmem : p ∈ owners.filter fun d =>
      (s.inodes d).fileType = .directory := mem_filter.mpr ⟨hp, hdir⟩
  rw [h.links _ (h.targets p hp hdir e he), sum_eq_single_of_mem p hmem]
  · refine countP_eq_one (h.names p hp hdir) he (decide_eq_true rfl) fun e' he' hq => ?_
    rcases hlast.last p hp hdir e' he' (of_decide_eq_true hq) with ⟨-, hsame⟩ | ⟨rfl, -⟩
    · rw [hsame, hname]
    · exact absurd hdir hn
  intro d hd hne
  obtain ⟨hd, hddir⟩ := mem_filter.mp hd
  rw [List.countP_eq_zero]
  intro e' he' hq
  rcases hlast.last d hd hddir e' he' (of_decide_eq_true hq) with ⟨rfl, -⟩ | ⟨rfl, -⟩
  · exact hne rfl
  · exact hn hddir

/-- A directory has its own `.` as well. -/
lemma Image.two_le_linksCount (hn : n ∈ owners) (hndir : (s.inodes n).fileType = .directory)
    (hne : p ≠ n) : 2 ≤ (s.inodes n).linksCount := by
  have hone : ∀ d, (∃ e ∈ s.entries l c owners d, e.inode = n) →
      1 ≤ (s.entries l c owners d).countP fun e => e.inode = n := by
    rintro d ⟨e, he, heq⟩
    exact List.countP_pos_iff.mpr ⟨e, he, decide_eq_true heq⟩
  obtain ⟨e, he, hino, -⟩ := hlast.named
  obtain ⟨e', he', hself, -⟩ := h.self n hn hndir
  have hpair : ({p, n} : Finset ℕ) ⊆ owners.filter fun d => (s.inodes d).fileType = .directory :=
    insert_subset (by simp [hp, hdir]) (singleton_subset_iff.mpr (by simp [hn, hndir]))
  rw [h.links n (.inl hn)]
  calc 2 ≤ ∑ d ∈ {p, n}, (s.entries l c owners d).countP fun e => e.inode = n := by
        rw [sum_pair hne]
        exact Nat.add_le_add (hone p ⟨e, he, hino⟩) (hone n ⟨e', he', hself⟩)
    _ ≤ _ := sum_le_sum_of_subset hpair

end

/-! ## Removing -/

lemma Image.readInode_eq (h : Image l c owners fast s) (hn : n ∈ owners ∨ n ∈ fast)
    (hinodes : t.inodes = s.inodes) : t.readInode l n = some (s.inodes n) := by
  rw [readInode_eq_some (locate_of_used (h.inodes n hn)), hinodes]

lemma DataWritten.inodes (h : DataWritten l owners s t) : t.inodes = s.inodes := by
  obtain ⟨-, -, -, -, -, -, -, -, rfl⟩ := h
  rfl

section

variable (h : Image l c owners fast s) (hp : p ∈ owners) (hdir : (s.inodes p).fileType = .directory)

include h hp hdir

lemma Image.inode_eq {e e' : DirEntry} (he : e ∈ s.entries l c owners p)
    (he' : e' ∈ s.entries l c owners p) (hname : e.name = e'.name) : e.inode = e'.inode :=
  congrArg DirEntry.inode (List.inj_on_of_nodup_map (h.names p hp hdir) he he' hname)

lemma Image.unlinkEntry_spec {cache : ℕ → Option (ℕ × Block)} (hname : c.utf8 name)
    (hnamed : ∃ e ∈ s.entries l c owners p, e.inode = n ∧ e.name = name)
    (hco : Coherent l owners (s.withCache cache) s) (hfs : v.fs = s.withCache cache)
    (hrun : v.unlinkEntry l p name = .ok v') :
    ¬ (name = dot ∨ name = dotDot) ∧ Unlinked l owners s v'.fs ∧
      (p ≠ n → v'.fs.inodes n = { s.inodes n with
        linksCount := (s.inodes n).linksCount - 1 }) := by
  have hread : v.fs.readInode l p = some (s.inodes p) := h.readInode_eq (.inl hp) (by rw [hfs]; rfl)
  rw [Mounted.unlinkEntry, hread] at hrun
  dsimp only at hrun
  rw [if_neg (not_not.mpr hdir), hfs] at hrun
  split at hrun
  · cases hrun
  rename_i dead fs hremove
  obtain ⟨hdots, ⟨fileType, hmem⟩, hwritten⟩ :=
    (h.tiled p hp hdir).removeDirEntry_spec hp hname hco hremove
  obtain ⟨e, he, rfl, hename⟩ := hnamed
  obtain rfl : dead = e.inode := h.inode_eq hp hdir hmem he hename.symm
  have hinodes := hwritten.inodes
  have hunlinked := hwritten.unlinked h.consistent.owned
  rw [h.readInode_eq (h.targets p hp hdir e he) hinodes] at hrun
  dsimp only at hrun
  have hblock : (s.inodes e.inode).block = (fs.inodes e.inode).block := by rw [hinodes]
  have hself : ∀ ino, (fs.writeInode e.inode ino).inodes e.inode = ino := fun ino => update_self ..
  have hone : Unlinked l owners s
      (fs.writeInode e.inode { s.inodes e.inode with
        linksCount := (s.inodes e.inode).linksCount - 1 }) :=
    hunlinked.writeInode hblock
  refine ⟨hdots, ?_⟩
  split at hrun
  · split at hrun
    · cases hrun
      exact ⟨hone, fun _ => hself _⟩
    next parent hparent =>
      cases hrun
      have hparent' : parent =
          (fs.writeInode e.inode { s.inodes e.inode with
            linksCount := (s.inodes e.inode).linksCount - 1 }).inodes p := by
        rw [Fs.readInode, Option.map_eq_some_iff] at hparent
        obtain ⟨-, -, rfl⟩ := hparent
        rfl
      refine ⟨hone.writeInode (by rw [hparent']), fun hne => ?_⟩
      dsimp only [Fs.writeInode]
      rw [update_of_ne (Ne.symm hne)]
      exact hself _
  · cases hrun
    exact ⟨hone, fun _ => hself _⟩

end

lemma dirIsEmpty_spec {cache : ℕ → Option (ℕ × Block)}
    (hco : Coherent l owners (s.withCache cache) s) (hn : n ∈ owners)
    (hsize : (s.inodes n).size < 2 ^ 32) :
    ∃ cache', (s.withCache cache).dirIsEmpty l c (s.inodes n)
        = ((s.entries l c owners n).all fun e => e.name = dot ∨ e.name = dotDot, s.withCache cache')
      ∧ Coherent l owners (s.withCache cache') s := by
  obtain ⟨cache', hentries, hco'⟩ := readDirEntries_spec hco hn hsize
  refine ⟨cache', ?_, hco'⟩
  have hread : (s.withCache cache).readDirEntries l c (s.inodes n) =
      (s.entries l c owners n, s.withCache cache') := hentries
  rw [Fs.dirIsEmpty, hread]

/-- Reading goes before: in between only the cache changes. -/
lemma Image.remove_spec (h : Image l c owners fast v.fs) (hp : p ∈ owners) (hname : c.utf8 name)
    (hnamed : ∃ e ∈ v.fs.entries l c owners p, e.inode = n ∧ e.name = name)
    (hrun : v.remove l c p name = .ok v') :
    (v.fs.inodes p).fileType = .directory ∧
    ∃ u : Mounted, Unlinked l owners v.fs u.fs ∧ u.removeInode l n = .ok v' ∧
      u.fs.inodes n = { v.fs.inodes n with
        linksCount := (v.fs.inodes n).linksCount - 1 } ∧ p ≠ n := by
  have hread : v.fs.readInode l p = some (v.fs.inodes p) := h.readInode_eq (.inl hp) rfl
  rw [Mounted.remove, hread] at hrun
  dsimp only at hrun
  split at hrun
  · cases hrun
  rename_i hdir
  have hdir := not_not.mp hdir
  refine ⟨hdir, ?_⟩
  obtain ⟨cache, hentries, hco⟩ :=
    readDirEntries_spec h.consistent.coherent hp (h.tiled p hp hdir).size_lt
  rw [hentries] at hrun
  split at hrun
  · cases hrun
  rename_i e hfind
  obtain ⟨e', he', rfl, hename⟩ := hnamed
  have he := List.mem_of_find?_eq_some hfind
  have hfound := List.find?_some hfind
  rw [decide_eq_true_eq] at hfound
  have hino : e.inode = e'.inode := h.inode_eq hp hdir he he' (hfound.trans hename.symm)
  have hin := h.targets p hp hdir e' he'
  rw [hino, h.readInode_eq (t := v.fs.withCache cache) hin rfl] at hrun
  dsimp only at hrun
  -- what is left when the check of a directory is done
  have hfinish : ∀ cache', Coherent l owners (v.fs.withCache cache') v.fs →
      (match Mounted.unlinkEntry l { v with fs := v.fs.withCache cache' } p name with
        | .error e => Except.error e
        | .ok v => v.removeInode l e'.inode) = .ok v' →
      ¬ (name = dot ∨ name = dotDot) ∧
        ∃ u : Mounted, Unlinked l owners v.fs u.fs ∧ u.removeInode l e'.inode = .ok v' ∧
        (p ≠ e'.inode → u.fs.inodes e'.inode
          = { v.fs.inodes e'.inode with linksCount := (v.fs.inodes e'.inode).linksCount - 1 }) := by
    intro cache' hco' hrun
    split at hrun
    · cases hrun
    next u hunlink =>
      obtain ⟨hdots, hunlinked, hself⟩ :=
        h.unlinkEntry_spec hp hdir hname ⟨e', he', rfl, hename⟩ hco' rfl hunlink
      exact ⟨hdots, u, hunlinked, hrun, hself⟩
  by_cases htarget : (v.fs.inodes e'.inode).fileType = .directory
  · have howner : e'.inode ∈ owners := hin.resolve_right fun hfast => by
      rw [(h.text _ hfast).1] at htarget
      cases htarget
    obtain ⟨cache', hempty, hco'⟩ := dirIsEmpty_spec hco howner (h.tiled _ howner htarget).size_lt
    rw [if_pos htarget, hempty] at hrun
    split at hrun
    · cases hrun
    rename_i hdotsOnly
    rw [Bool.not_eq_true', Bool.not_eq_false, List.all_eq_true] at hdotsOnly
    obtain ⟨hdots, u, hunlinked, hremove, hself⟩ := hfinish cache' hco' hrun
    have hne : p ≠ e'.inode := by
      intro heq
      have hdot := hdotsOnly e' (heq ▸ he')
      rw [decide_eq_true_eq, hename] at hdot
      exact hdots hdot
    exact ⟨u, hunlinked, hremove, hself hne, hne⟩
  rw [if_neg htarget] at hrun
  obtain ⟨-, u, hunlinked, hremove, hself⟩ := hfinish cache hco hrun
  have hne : p ≠ e'.inode := fun heq => htarget (heq ▸ hdir)
  exact ⟨u, hunlinked, hremove, hself hne, hne⟩

/-- Removing the last name of an object frees its blocks and its inode, and nothing else, unless it
is a directory or a short symbolic link whose text names a block in use. -/
theorem remove_freesExactly_iff (l : Geometry) (c : Naming) (owners fast : Finset ℕ)
    (v v' : Mounted) (p n : ℕ) (name : List UInt8) (h : Image l c owners fast v.fs)
    (hp : p ∈ owners) (hname : c.utf8 name = true) (hlast : LastName l c owners v.fs p name n)
    (hrun : v.remove l c p name = .ok v') :
    FreesExactly l owners v.fs v'.fs n
      ↔ (v.fs.inodes n).fileType ≠ .directory ∧
      (n ∈ fast → ∀ b ∈ v.fs.strays l (v.fs.inodes n), ¬ v.fs.used l .block b) := by
  obtain ⟨hdir, u, hunlinked, hremove, hself, hne⟩ := h.remove_spec hp hname hlast.named hrun
  obtain ⟨e, he, rfl, -⟩ := hlast.named
  have hin := h.targets p hp hdir e he
  have hused := h.inodes _ hin
  have hlinks : (u.fs.inodes e.inode).linksCount = (v.fs.inodes e.inode).linksCount - 1 := by
    rw [hself]
  rw [Mounted.removeInode, readInode_eq_some (locate_of_used hused)] at hremove
  dsimp only at hremove
  by_cases htarget : (v.fs.inodes e.inode).fileType = .directory
  · -- a link is left
    have howner : e.inode ∈ owners := hin.resolve_right fun hfast => by
      rw [(h.text _ hfast).1] at htarget
      cases htarget
    have htwo := h.two_le_linksCount hlast hp hdir howner htarget hne
    rw [if_pos (by omega), Except.ok.injEq] at hremove
    refine iff_of_false (fun hexact => ?_) fun hand => hand.1 htarget
    have hstill := (used_congr (hunlinked.bitmaps .inode) e.inode).mpr hused
    rw [hremove] at hstill
    exact ((hexact.inodes e.inode).mp hstill).2 rfl
  have hone := h.linksCount_eq_one hlast hp hdir htarget
  rw [if_neg (by omega), Except.ok.injEq] at hremove
  rw [← hremove, and_iff_right htarget]
  by_cases hfast : e.inode ∈ fast
  · have hnot : e.inode ∉ owners := fun howner => disjoint_left.mp h.disjoint howner hfast
    rw [hunlinked.freesExactly_iff_strays h.consistent.owned hnot h.bitmaps]
    exact ⟨fun hall _ => hall, fun hall => hall hfast⟩
  · exact iff_of_true (hunlinked.freesExactly h.consistent.owned (hin.resolve_right hfast))
      (absurd · hfast)

/-! ## A small image -/

/-- The root with `s`, a symbolic link to `0`, with `f`, a regular file of a byte, and with `d`, an
empty directory. -/
def rootBlock : List UInt8 :=
  [2, 0, 0, 0, 12, 0, 1, 2, 46, 0, 0, 0, 2, 0, 0, 0, 12, 0, 2, 2, 46, 46, 0, 0, 12, 0, 0, 0, 12, 0,
    1, 7, 115, 0, 0, 0,
    13, 0, 0, 0, 12, 0, 1, 1, 102, 0, 0, 0, 14, 0, 0, 0, 208, 3, 1, 2, 100]

/-- A directory with `.` and `..` only. -/
def emptyDirBlock : List UInt8 :=
  [14, 0, 0, 0, 12, 0, 1, 2, 46, 0, 0, 0, 2, 0, 0, 0, 244, 3, 2, 2, 46, 46]

/-- The root has block 48, `f` has block 50 and `d` has block 51. The text of `s` is 48 as a
word. -/
def sampleInode : ℕ → Inode
  | 2 => ⟨.directory, 1024, 3, 2, update (fun _ => 0) 0 48⟩
  | 12 => ⟨.symLink, 1, 1, 0, update (fun _ => 0) 0 48⟩
  | 13 => ⟨.regularFile, 1, 1, 2, update (fun _ => 0) 0 50⟩
  | 14 => ⟨.directory, 1024, 2, 2, update (fun _ => 0) 0 51⟩
  | _ => ⟨.regularFile, 0, 0, 0, fun _ => 0⟩

/-- The blocks of the image. -/
def sampleBlock : ℕ → List UInt8
  | 3 => [255, 0, 0, 0, 0, 128, 6]
  | 4 => [255, 59]
  | 48 => rootBlock
  | 51 => emptyDirBlock
  | _ => []

/-- A volume with a file and an empty directory. -/
def sampleMounted : Mounted where
  fs := {
    dev := fun b k => (sampleBlock b).getD k 0, inodes := sampleInode, groupFree := fun _ => 53,
    totalFree := 53, indirectCache := fun _ => none }
  inodeFree _ := 3
  usedDirs _ := 2
  totalInodeFree := 3

/-- Sixteen inodes; all names of the image are plain. -/
def sampleNaming : Naming where
  inodesCount := 16
  utf8 name := name.all (· < 128)

/-- The first block of each inode. -/
def sampleFirst : ℕ → ℕ
  | 2 => 48
  | 13 => 50
  | 14 => 51
  | _ => 0

lemma sample_consistent : Consistent smallGeometry {2, 13, 14} sampleMounted.fs := by
  refine flat_consistent (c := sampleFirst) ?_ rfl ?_ ?_ ?_ ?_ ?_ rfl ?_ fun _ => rfl
  · decide +kernel
  · decide +kernel
  · decide +kernel
  · intro n hn _
    have hall : ∀ n ∈ ({2, 13, 14} : Finset ℕ), smallGeometry.own (sampleFirst n) = false ∧
        smallGeometry.number .block 0 (sampleFirst n - 1) = sampleFirst n ∧
          sampleFirst n - 1 < 64 := by decide +kernel
    obtain ⟨hown, hnumber, hlt⟩ := hall n hn
    exact ⟨hown, _, hnumber, zero_lt_one, hlt⟩
  · decide +kernel
  · decide +kernel
  · decide +kernel

lemma sample_entries :
    sampleMounted.fs.entries smallGeometry sampleNaming {2, 13, 14} 2
        = [⟨2, dot, 2⟩, ⟨2, dotDot, 2⟩, ⟨12, [115], 7⟩, ⟨13, [102], 1⟩, ⟨14, [100], 2⟩] ∧
      sampleMounted.fs.entries smallGeometry sampleNaming {2, 13, 14} 14 =
        [⟨14, dot, 2⟩, ⟨2, dotDot, 2⟩] := by
  decide +kernel

lemma sample_dir {d : ℕ} (hd : d ∈ ({2, 13, 14} : Finset ℕ))
    (hdir : (sampleMounted.fs.inodes d).fileType = .directory) : d = 2 ∨ d = 14 := by
  have hall : ∀ d ∈ ({2, 13, 14} : Finset ℕ), (sampleMounted.fs.inodes d).fileType = .directory →
      d = 2 ∨ d = 14 := by decide
  exact hall d hd hdir

lemma sample_tiled :
    ∀ d, d = 2 ∨ d = 14 → Tiled smallGeometry sampleNaming {2, 13, 14} sampleMounted.fs d := by
  have hone : ∀ d, (sampleMounted.fs.inodes d).size = 1024 → sampleNaming.chained
      (fun k => sampleMounted.fs.byte smallGeometry {2, 13, 14} d (0 * 1024 + k)) 1024 9 0 →
      Tiled smallGeometry sampleNaming {2, 13, 14} sampleMounted.fs d := by
    intro d hsize hchain
    refine ⟨by rw [hsize]; decide, by rw [hsize]; rfl, fun idx hidx => ?_⟩
    rw [hsize] at hidx
    obtain rfl := Nat.lt_one_iff.mp hidx
    exact chain_of_chained hchain
  rintro - (rfl | rfl)
  · exact hone 2 rfl (by decide +kernel)
  · exact hone 14 rfl (by decide +kernel)

lemma sample_mem (hn : n ∈ ({2, 13, 14} : Finset ℕ) ∨ n ∈ ({12} : Finset ℕ)) :
    n ∈ ({2, 13, 14, 12} : Finset ℕ) :=
  hn.elim (mem_of_subset (by decide)) (mem_of_subset (by decide))

lemma sample_image : Image smallGeometry sampleNaming {2, 13, 14} {12} sampleMounted.fs where
  consistent := sample_consistent
  disjoint := by decide
  bitmaps k g hg := by
    obtain rfl := Nat.lt_one_iff.mp hg
    cases k with
    | block => exact ⟨0, 2, ⟨rfl, hg, by decide⟩, by decide +kernel⟩
    | inode => exact ⟨0, 3, ⟨rfl, hg, by decide⟩, by decide +kernel⟩
  inodes n hn := by
    have hall : ∀ n ∈ ({2, 13, 14, 12} : Finset ℕ),
      smallGeometry.number .inode 0 (n - 1) = n ∧ n - 1 < 16 ∧
        Bytes.bit (sampleMounted.fs.dev 4) (n - 1) := by decide +kernel
    obtain ⟨hnumber, hlt, hset⟩ := hall n (sample_mem hn)
    exact ⟨0, n - 1, ⟨hnumber, zero_lt_one, hlt⟩, hset⟩
  text n hn := by
    rw [mem_singleton.mp hn]
    exact ⟨rfl, rfl, [48], by decide, rfl, by decide⟩
  tiled d hd hdir := sample_tiled d (sample_dir hd hdir)
  names d hd hdir := by
    rcases sample_dir hd hdir with rfl | rfl
    · rw [sample_entries.1]
      decide
    · rw [sample_entries.2]
      decide
  targets d hd hdir := by
    rcases sample_dir hd hdir with rfl | rfl
    · rw [sample_entries.1]
      decide
    · rw [sample_entries.2]
      decide
  self d hd hdir := by
    rcases sample_dir hd hdir with rfl | rfl
    · rw [sample_entries.1]
      decide
    · rw [sample_entries.2]
      decide
  links n hn := by
    have hdirs : ({2, 13, 14} : Finset ℕ).filter
        (fun d => (sampleMounted.fs.inodes d).fileType = .directory) = {2, 14} := by decide
    rw [hdirs, sum_pair (by decide), sample_entries.1, sample_entries.2]
    have hall : ∀ n ∈ ({2, 13, 14, 12} : Finset ℕ), (sampleMounted.fs.inodes n).linksCount
        = List.countP (fun e => decide (e.inode = n))
            [(⟨2, dot, 2⟩ : DirEntry), ⟨2, dotDot, 2⟩, ⟨12, [115], 7⟩, ⟨13, [102], 1⟩,
              ⟨14, [100], 2⟩]
          + List.countP (fun e => decide (e.inode = n))
            [(⟨14, dot, 2⟩ : DirEntry), ⟨2, dotDot, 2⟩] := by decide
    exact hall n (sample_mem hn)

lemma sample_lastName : ∀ e ∈ [((12, [115]) : ℕ × List UInt8), (13, [102]), (14, [100])],
    LastName smallGeometry sampleNaming {2, 13, 14} sampleMounted.fs 2 e.2 e.1 := by
  have hroot := sample_entries.1
  have hd := sample_entries.2
  intro e he
  refine ⟨?_, fun d hmem hdir => ?_⟩
  · rw [hroot]
    revert e
    decide
  rcases sample_dir hmem hdir with rfl | rfl
  · rw [hroot]
    revert e
    decide
  rw [hd]
  revert e
  decide

lemma exists_ok {ε α β : Type} {a : Except ε α} {f : α → β} {b : β}
    (h : a.toOption.map f = some b) : ∃ v, a = .ok v ∧ f v = b := by
  cases a with
  | error e => cases h
  | ok v => exact ⟨v, rfl, Option.some.inj h⟩

/-- Removing `f`. -/
theorem remove_freesExactly_iff_of_f :
    ∃ v', sampleMounted.remove smallGeometry sampleNaming 2 [102] = .ok v' ∧
    FreesExactly smallGeometry {2, 13, 14} sampleMounted.fs v'.fs 13 := by
  have hok : (sampleMounted.remove smallGeometry sampleNaming 2 [102]).toOption.map (fun _ => ()) =
      some () := by decide +kernel
  obtain ⟨v', hrun, -⟩ := exists_ok hok
  refine ⟨v', hrun, ?_⟩
  exact (remove_freesExactly_iff _ _ _ {12} _ _ _ _ _ sample_image (by decide) (by decide)
    (sample_lastName (13, [102]) (by decide))
    hrun).mpr ⟨by decide, fun hfast => absurd hfast (by decide)⟩

/-- Removing `s` frees the block of the root, and after removing `d` its inode is still in use. -/
theorem remove_not_exact :
    Image smallGeometry sampleNaming {2, 13, 14} {12} sampleMounted.fs ∧
      (LastName smallGeometry sampleNaming {2, 13, 14} sampleMounted.fs 2 [115] 12 ∧
        ∃ v', sampleMounted.remove smallGeometry sampleNaming 2 [115] = .ok v' ∧
          sampleMounted.fs.Holds smallGeometry {2, 13, 14} 2 48 ∧
          ¬ v'.fs.used smallGeometry .block 48 ∧
          ¬ FreesExactly smallGeometry {2, 13, 14} sampleMounted.fs v'.fs 12) ∧
      LastName smallGeometry sampleNaming {2, 13, 14} sampleMounted.fs 2 [100] 14 ∧
        ∃ v', sampleMounted.remove smallGeometry sampleNaming 2 [100] = .ok v' ∧
          v'.fs.used smallGeometry .inode 14 ∧
          ¬ FreesExactly smallGeometry {2, 13, 14} sampleMounted.fs v'.fs 14 := by
  refine ⟨sample_image, ⟨sample_lastName (12, [115]) (by decide), ?_⟩,
    sample_lastName (14, [100]) (by decide), ?_⟩
  · have hok : (sampleMounted.remove smallGeometry sampleNaming 2 [115]).toOption.map
      (fun v => v.fs.marked smallGeometry 0 47)
        = some false := by decide +kernel
    obtain ⟨v', hrun, hclear⟩ := exists_ok hok
    have hat : smallGeometry.At .block 48 0 47 := ⟨rfl, zero_lt_one, by decide⟩
    have hheld : sampleMounted.fs.Holds smallGeometry {2, 13, 14} 2 48 :=
      ⟨0, [], cell_nil, rfl, by decide⟩
    have hlost : ¬ v'.fs.used smallGeometry .block 48 := fun hused => by
      rw [used_iff hat] at hused
      rw [Fs.marked, hused] at hclear
      cases hclear
    exact ⟨v', hrun, hheld, hlost, fun hexact => hlost (hexact.others 2 48 (by decide) hheld)⟩
  have hok : (sampleMounted.remove smallGeometry sampleNaming 2 [100]).toOption.map
    (fun v => Bytes.bit (v.fs.dev 4) 13)
      = some true := by decide +kernel
  obtain ⟨v', hrun, hset⟩ := exists_ok hok
  have hused : v'.fs.used smallGeometry .inode 14 := ⟨0, 13, ⟨rfl, zero_lt_one, by decide⟩, hset⟩
  exact ⟨v', hrun, hused, fun hexact => ((hexact.inodes 14).mp hused).2 rfl⟩

end Astryx.Ext2
