import Astryx.Vma.Coverage

/-!
# Four-level page tables and the helpers that edit them

`mm/vmm.rs`. A table is modelled as the tree that a walk descends: `PML4` entries lead to `PDPT`s,
those to page directories, and a directory entry is absent, a 2 MiB leaf, or a table of 512 raw 4
KiB entries. Tables of one tree do not overlap, and there are no 1 GiB leaves.

The helpers do not agree on 2 MiB leaves. `read_pte` and `virt_to_phys_in` stop at one and translate
through it; `write_pte` and `unmap_page_in` do not look at the bit, take the first frame of the leaf
for a page table and store into it; `map_page_in` splits the leaf into a fresh table.

A helper indexes with nine bits of the address at each level and ignores the bits above, so the
address alone decides which half of the table it works on: `inKernelHalf` is bit 47.

`Machine.effects` records what is done on the way, and `LocalAt va` is the one specification that
all helpers share.
-/

namespace Astryx

open Function

/-- `PAGE_PRESENT` -/
def pagePresent : ℕ := 1

/-- `PAGE_WRITABLE` -/
def pageWritable : ℕ := 2

/-- `PAGE_USER` -/
def pageUser : ℕ := 4

/-- `PAGE_HUGE` -/
def pageHuge : ℕ := 0x80

/-- `PAGE_NO_EXECUTE` -/
def pageNoExecute : ℕ := 0x8000000000000000

/-- The address bits of an entry. -/
def addrMask : ℕ := 0x000FFFFFFFFFF000

/-- The address bits of a 2 MiB leaf. -/
def hugeMask : ℕ := 0x000FFFFFFFE00000

/-- The index into the top level. -/
def pml4Idx (va : ℕ) : ℕ := va / 2 ^ 39 % 512

/-- The index into the second level. -/
def pdptIdx (va : ℕ) : ℕ := va / 2 ^ 30 % 512

/-- The index into the third level. -/
def pdIdx (va : ℕ) : ℕ := va / 2 ^ 21 % 512

/-- The index into the lowest level. -/
def ptIdx (va : ℕ) : ℕ := va / 2 ^ 12 % 512

/-- The walk of the address enters `PML4[256..512]`; among canonical addresses, those from
`USER_VA_LIMIT` on. -/
def inKernelHalf (va : ℕ) : Bool := pml4Idx va ≥ 256

/-- The present bit of an entry. -/
def isPresent (pte : ℕ) : Bool := pte &&& pagePresent ≠ 0

/-- An entry of a page directory. -/
inductive PdEntry where
  | absent
  | huge (pte : ℕ)
  | table (user : Bool) (pt : ℕ → ℕ)

/-- An entry of the second level. -/
inductive PdptEntry where
  | absent
  | table (user : Bool) (pd : ℕ → PdEntry)

/-- An entry of the top level. -/
inductive Pml4Entry where
  | absent
  | table (user : Bool) (pdpt : ℕ → PdptEntry)

/-- A whole tree of tables. -/
abbrev Root := ℕ → Pml4Entry

/-- What is done on the walk of `va`. -/
inductive Effect where
  /-- An entry of a table is stored to. -/
  | entry (va level : ℕ)
  /-- A frame is stored to as if it were a table. -/
  | frame (va phys : ℕ)
  /-- Bytes are stored at `va`. -/
  | bytes (va : ℕ)
  /-- A frame is handed to `free_page`. -/
  | free (va phys : ℕ)
  deriving DecidableEq, Repr

/-- The address an effect is at. -/
def Effect.va : Effect → ℕ
  | .entry va _ | .frame va _ | .bytes va | .free va _ => va

/-- A process's page table, the reference counts by frame number, the answers the page allocator
will give, whether the caller already holds the process table, and the effects so far. -/
structure Machine where
  root : Root
  count : ℕ → ℕ
  frames : ℕ → Option ℕ
  tableHeld : Bool
  effects : List Effect

namespace Machine

variable (m : Machine)

/-- An effect is recorded. -/
def log (e : Effect) : Machine := { m with effects := e :: m.effects }

/-- The next free frame, if there is one. -/
def allocPage : Option ℕ × Machine := (m.frames 0, { m with frames := fun n => m.frames (n + 1) })

/-- The count of a frame is set. -/
def pageRefSet (phys n : ℕ) : Machine := { m with count := update m.count (phys / 4096) n }

/-- `page_ref_dec`, with the count it returns. -/
def pageRefDec (phys : ℕ) : ℕ × Machine :=
  (m.count (phys / 4096) - 1, m.pageRefSet phys (m.count (phys / 4096) - 1))

/-! ## Reading -/

/-- The directory entry on the walk of `va`. -/
def pdAt (va : ℕ) : PdEntry :=
  match m.root (pml4Idx va) with
  | .absent => .absent
  | .table _ pdpt =>
    match pdpt (pdptIdx va) with
    | .absent => .absent
    | .table _ pd => pd (pdIdx va)

/-- The leaf of an address, 0 if there is none. -/
def readPte (va : ℕ) : ℕ :=
  match m.pdAt va with
  | .absent => 0
  | .huge pte => pte
  | .table _ pt => pt (ptIdx va)

/-- The physical address behind a virtual one. -/
def virtToPhysIn (va : ℕ) : Option ℕ :=
  match m.pdAt va with
  | .absent => none
  | .huge pte => some ((pte &&& hugeMask) ||| (va &&& 0x1FFFFF))
  | .table _ pt =>
    if isPresent (pt (ptIdx va))
      then some ((pt (ptIdx va) &&& addrMask) ||| (va &&& 0xFFF)) else none

/-! ## Writing -/

/-- Replace the directory entry on the walk of `va`. -/
def setPd (va : ℕ) (e : PdEntry) : Machine :=
  match m.root (pml4Idx va) with
  | .absent => m
  | .table u pdpt =>
    match pdpt (pdptIdx va) with
    | .absent => m
    | .table u' pd =>
      let pdpt := update pdpt (pdptIdx va) (.table u' (update pd (pdIdx va) e))
      { m with root := update m.root (pml4Idx va) (.table u pdpt) }

/-- The common body of `write_pte_impl` and `unmap_page_in_at`: the leaf is stored to without a look
at `PAGE_HUGE`. -/
def storeLeaf (va pte : ℕ) : Machine :=
  match m.pdAt va with
  | .absent => m
  | .huge base => m.log (.frame va (base &&& addrMask))
  | .table u pt => (m.setPd va (.table u (update pt (ptIdx va) pte))).log (.entry va 1)

/-- A leaf is overwritten. -/
def writePte (va pte : ℕ) : Machine := m.storeLeaf va pte

/-- A leaf is cleared. -/
def unmapPageIn (va : ℕ) : Machine := m.storeLeaf va 0

/-- `get_or_create_entry` on the root. -/
def getOrCreatePml4 (va : ℕ) (user : Bool) : Machine × Bool :=
  match m.root (pml4Idx va) with
  | .table u pdpt =>
    if user && !u then
      ({ m with root := update m.root (pml4Idx va) (.table true pdpt) }.log (.entry va 4), true)
    else (m, true)
  | .absent =>
    match m.allocPage with
    | (none, m) => (m, false)
    | (some _, m) =>
      let entry : Pml4Entry := .table user fun _ => .absent
      ({ m with root := update m.root (pml4Idx va) entry }.log (.entry va 4), true)

/-- Replace the entry of the `PDPT` on the walk of `va`. -/
def setPdpt (va : ℕ) (e : PdptEntry) : Machine :=
  match m.root (pml4Idx va) with
  | .absent => m
  | .table u pdpt =>
    let entry : Pml4Entry := .table u (update pdpt (pdptIdx va) e)
    { m with root := update m.root (pml4Idx va) entry }

/-- The entry of the `PDPT` on the walk of `va`. -/
def pdptAt (va : ℕ) : PdptEntry :=
  match m.root (pml4Idx va) with
  | .absent => .absent
  | .table _ pdpt => pdpt (pdptIdx va)

/-- `get_or_create_entry` on the second level. -/
def getOrCreatePdpt (va : ℕ) (user : Bool) : Machine × Bool :=
  match m.pdptAt va with
  | .table u pd =>
    if user && !u then ((m.setPdpt va (.table true pd)).log (.entry va 3), true) else (m, true)
  | .absent =>
    match m.allocPage with
    | (none, m) => (m, false)
    | (some _, m) => ((m.setPdpt va (.table user fun _ => .absent)).log (.entry va 3), true)

/-- The entries that a 2 MiB leaf is split into. -/
def splitHuge (pte : ℕ) (i : ℕ) : ℕ :=
  ((pte &&& hugeMask) + i * 0x1000) ||| (pte &&& (2 ^ 64 - 1 - addrMask - pageHuge))

/-- `get_or_create_entry` on a page directory; a 2 MiB leaf is split. -/
def getOrCreatePd (va : ℕ) (user : Bool) : Machine × Bool :=
  match m.pdAt va with
  | .table u pt =>
    if user && !u then ((m.setPd va (.table true pt)).log (.entry va 2), true) else (m, true)
  | .huge pte =>
    match m.allocPage with
    | (none, m) => (m, false)
    | (some _, m) =>
      let user := user || pte &&& pageUser ≠ 0
      ((m.setPd va (.table user (splitHuge pte))).log (.entry va 2), true)
  | .absent =>
    match m.allocPage with
    | (none, m) => (m, false)
    | (some _, m) => ((m.setPd va (.table user fun _ => 0)).log (.entry va 2), true)

/-- The three calls of `get_or_create_entry` that every installing helper begins with. -/
def walkCreate (va : ℕ) (user : Bool) : Machine × Bool :=
  match m.getOrCreatePml4 va user with
  | (m, false) => (m, false)
  | (m, true) =>
    match m.getOrCreatePdpt va user with
    | (m, false) => (m, false)
    | (m, true) => m.getOrCreatePd va user

/-- Maps a page, with tables as needed. -/
def mapPageIn (va phys flags : ℕ) : Machine × Bool :=
  match m.walkCreate va (flags &&& pageUser ≠ 0) with
  | (m, false) => (m, false)
  | (m, true) => (m.storeLeaf va ((phys &&& addrMask) ||| flags ||| pagePresent), true)

/-- Maps a page where there is none. -/
def mapPageInIfAbsent (va phys flags : ℕ) : Machine × Bool :=
  match m.walkCreate va (flags &&& pageUser ≠ 0) with
  | (m, false) => (m, false)
  | (m, true) =>
    if isPresent (m.readPte va) then (m, false)
    else (m.storeLeaf va ((phys &&& addrMask) ||| flags ||| pagePresent), true)

/-- The leaf still names the frame. -/
def leafUnchanged (va expectedPhys : ℕ) : Bool :=
  isPresent (m.readPte va) ∧ m.readPte va &&& addrMask = expectedPhys &&& addrMask

/-- `cow_break_if_unchanged`: the leaf is cleared, flushed and then set to the new frame. -/
def cowBreakIfUnchanged (va newPhys flags expectedPhys : ℕ) : Machine × Bool :=
  match m.walkCreate va (flags &&& pageUser ≠ 0) with
  | (m, false) => (m, false)
  | (m, true) =>
    if m.leafUnchanged va expectedPhys then
      ((m.storeLeaf va 0).storeLeaf va ((newPhys &&& addrMask) ||| flags ||| pagePresent), true)
    else (m, false)

/-- Makes a leaf writable if it still names the frame and no other leaf does. -/
def flipWritableIfSoleOwner (va expectedPhys flags : ℕ) : Machine × Bool :=
  match m.walkCreate va (flags &&& pageUser ≠ 0) with
  | (m, false) => (m, false)
  | (m, true) =>
    if m.leafUnchanged va expectedPhys ∧ m.count (expectedPhys / 4096) ≤ 1 then
      (m.storeLeaf va ((expectedPhys &&& addrMask) ||| flags ||| pagePresent), true)
    else (m, false)

/-- The bits of a leaf in the area. -/
def toPageFlags (vma : VmArea) : ℕ :=
  pagePresent ||| (if vma.prot &&& protWrite ≠ 0 then pageWritable else 0) |||
    (if vma.prot &&& protExec = 0 then pageNoExecute else 0) |||
    (if vma.base < 0x800000000000 then pageUser else 0)

/-- One attempt of `resolve_user_write_page`; `none` sends it into the next one. -/
def resolveAttempt (areas : List VmArea) (va : ℕ) : Machine × Option Bool :=
  let pte := m.readPte va
  let writableVma := (findVma areas va).filter fun vma => vma.prot &&& protWrite ≠ 0
  if isPresent pte then
    -- present but read-only: break copy-on-write
    if pte &&& pageWritable ≠ 0 then (m, some true)
    else if writableVma.isNone then (m, some false)
    else
      let oldPhys := pte &&& addrMask
      let flags := (pte &&& (2 ^ 64 - 1 - addrMask)) ||| pagePresent ||| pageWritable ||| pageUser
      if m.count (oldPhys / 4096) > 1 then
        match m.allocPage with
        | (none, m) => (m, some false)
        | (some newPhys, m) =>
          match (m.pageRefSet newPhys 1).cowBreakIfUnchanged va newPhys flags oldPhys with
          | (m, true) => ((m.pageRefDec oldPhys).2, some true)
          | (m, false) => ((m.pageRefDec newPhys).2, none)
      else
        match m.flipWritableIfSoleOwner va oldPhys flags with
        | (m, true) => (m, some true)
        | (m, false) => (m, none)
  else
    -- not present: a zeroed frame for a writable area
    match writableVma with
    | none => (m, some false)
    | some vma =>
      let flags := toPageFlags vma ||| pagePresent ||| pageWritable ||| pageUser
      match m.allocPage with
      | (none, m) => (m, some false)
      | (some phys, m) =>
        match m.mapPageInIfAbsent va phys flags with
        | (m, true) => (m.pageRefSet phys 1, some true)
        | (m, false) => (m, none)

/-- `resolve_user_write_page` with `attempts` left. -/
def resolveUserWritePage (areas : List VmArea) (va : ℕ) : ℕ → Machine → Machine × Bool
  | 0, m => (m, isPresent (m.readPte va) && m.readPte va &&& pageWritable ≠ 0)
  | attempts + 1, m =>
    match m.resolveAttempt areas va with
    | (m, some done) => (m, done)
    | (m, none) => resolveUserWritePage areas va attempts m

end Machine

/-! ## What the helpers have in common -/

/-- From `m` to `m'` everything was done at `va`. -/
structure LocalAt (va : ℕ) (m m' : Machine) : Prop where
  effects : ∃ es, m'.effects = es ++ m.effects ∧ ∀ e ∈ es, e.va = va
  root : ∀ i, i ≠ pml4Idx va → m'.root i = m.root i
  held : m'.tableHeld = m.tableHeld

namespace LocalAt

variable {va : ℕ} {m m' m'' : Machine}

lemma refl (va : ℕ) (m : Machine) : LocalAt va m m :=
  ⟨⟨[], rfl, fun _ he => absurd he List.not_mem_nil⟩, fun _ _ => rfl, rfl⟩

lemma trans (h : LocalAt va m m') (h' : LocalAt va m' m'') : LocalAt va m m'' := by
  obtain ⟨es, hes, hva⟩ := h.effects
  obtain ⟨es', hes', hva'⟩ := h'.effects
  refine ⟨⟨es' ++ es, by simp [hes', hes], List.forall_mem_append.mpr ⟨hva', hva⟩⟩,
    fun i hi => (h'.root i hi).trans (h.root i hi), h'.held.trans h.held⟩

/-- A step that only changes the root entry of `va`, or nothing that is tracked. -/
lemma of_root {m m' : Machine} (he : m'.effects = m.effects) (hh : m'.tableHeld = m.tableHeld)
    (hr : ∀ i, i ≠ pml4Idx va → m'.root i = m.root i) : LocalAt va m m' :=
  ⟨⟨[], he, fun _ he => absurd he List.not_mem_nil⟩, hr, hh⟩

lemma setRoot (x : Pml4Entry) : LocalAt va m { m with root := update m.root (pml4Idx va) x } :=
  .of_root rfl rfl fun _ hi => update_of_ne hi _ _

lemma alloc {o : Option ℕ} (h : m.allocPage = (o, m')) : LocalAt va m m' := by
  rw [← (Prod.mk.inj h).2]
  exact .of_root rfl rfl fun _ _ => rfl

lemma pageRefSet (phys n : ℕ) : LocalAt va m (m.pageRefSet phys n) :=
  .of_root rfl rfl fun _ _ => rfl

/-- The specification of a helper, read off the equation for its result. -/
lemma of_eq {β : Type*} {p : Machine × β} {b : β} (h : LocalAt va m p.1) (heq : p = (m', b)) :
    LocalAt va m m' := by
  rw [heq] at h
  exact h

lemma log {e : Effect} (h : LocalAt va m m') (he : e.va = va) : LocalAt va m (m'.log e) := by
  refine h.trans ⟨⟨[e], rfl, fun e' he' => ?_⟩, fun _ _ => rfl, rfl⟩
  rw [List.mem_singleton.mp he', he]

end LocalAt

namespace Machine

variable (m : Machine) (va : ℕ)

lemma setPd_local (e : PdEntry) : LocalAt va m (m.setPd va e) := by
  rw [setPd]
  split
  · exact .refl va m
  split
  · exact .refl va m
  · exact .setRoot _

lemma setPdpt_local (e : PdptEntry) : LocalAt va m (m.setPdpt va e) := by
  rw [setPdpt]
  split
  · exact .refl va m
  · exact .setRoot _

lemma storeLeaf_local (pte : ℕ) : LocalAt va m (m.storeLeaf va pte) := by
  rw [storeLeaf]
  split
  · exact .refl va m
  · exact (LocalAt.refl va m).log rfl
  · exact (m.setPd_local va _).log rfl

lemma getOrCreatePml4_local (user : Bool) : LocalAt va m (m.getOrCreatePml4 va user).1 := by
  rw [getOrCreatePml4]
  split
  · split
    · exact (LocalAt.setRoot _).log rfl
    · exact .refl va m
  split
  next halloc => exact .alloc halloc
  next halloc => exact ((LocalAt.alloc halloc).trans (.setRoot _)).log rfl

lemma getOrCreatePdpt_local (user : Bool) : LocalAt va m (m.getOrCreatePdpt va user).1 := by
  rw [getOrCreatePdpt]
  split
  · split
    · exact (m.setPdpt_local va _).log rfl
    · exact .refl va m
  split
  next halloc => exact .alloc halloc
  next halloc => exact ((LocalAt.alloc halloc).trans (setPdpt_local _ va _)).log rfl

lemma getOrCreatePd_local (user : Bool) : LocalAt va m (m.getOrCreatePd va user).1 := by
  rw [getOrCreatePd]
  split
  · split
    · exact (m.setPd_local va _).log rfl
    · exact .refl va m
  all_goals
    split
    next halloc => exact .alloc halloc
    next halloc => exact ((LocalAt.alloc halloc).trans (setPd_local _ va _)).log rfl

lemma walkCreate_local (user : Bool) : LocalAt va m (m.walkCreate va user).1 := by
  rw [walkCreate]
  split
  next h => exact (m.getOrCreatePml4_local va user).of_eq h
  next h =>
    have h1 := (m.getOrCreatePml4_local va user).of_eq h
    split
    next h' => exact h1.trans ((getOrCreatePdpt_local _ va user).of_eq h')
    next h' =>
      exact (h1.trans ((getOrCreatePdpt_local _ va user).of_eq h')).trans
        (getOrCreatePd_local _ va user)

lemma mapPageIn_local (phys flags : ℕ) : LocalAt va m (m.mapPageIn va phys flags).1 := by
  rw [mapPageIn]
  split
  next h => exact (m.walkCreate_local va _).of_eq h
  next h => exact ((m.walkCreate_local va _).of_eq h).trans (storeLeaf_local _ va _)

lemma mapPageInIfAbsent_local (phys flags : ℕ) :
    LocalAt va m (m.mapPageInIfAbsent va phys flags).1 := by
  rw [mapPageInIfAbsent]
  split
  next h => exact (m.walkCreate_local va _).of_eq h
  next h =>
    have h1 := (m.walkCreate_local va _).of_eq h
    split
    · exact h1
    · exact h1.trans (storeLeaf_local _ va _)

lemma cowBreakIfUnchanged_local (newPhys flags expectedPhys : ℕ) :
    LocalAt va m (m.cowBreakIfUnchanged va newPhys flags expectedPhys).1 := by
  rw [cowBreakIfUnchanged]
  split
  next h => exact (m.walkCreate_local va _).of_eq h
  next h =>
    have h1 := (m.walkCreate_local va _).of_eq h
    split
    · exact (h1.trans (storeLeaf_local _ va _)).trans (storeLeaf_local _ va _)
    · exact h1

lemma flipWritableIfSoleOwner_local (expectedPhys flags : ℕ) :
    LocalAt va m (m.flipWritableIfSoleOwner va expectedPhys flags).1 := by
  rw [flipWritableIfSoleOwner]
  split
  next h => exact (m.walkCreate_local va _).of_eq h
  next h =>
    have h1 := (m.walkCreate_local va _).of_eq h
    split
    · exact h1.trans (storeLeaf_local _ va _)
    · exact h1

lemma resolveAttempt_local (areas : List VmArea) : LocalAt va m (m.resolveAttempt areas va).1 := by
  rw [resolveAttempt]
  dsimp only
  split
  · split
    · exact .refl va m
    split
    · exact .refl va m
    split
    · split
      next halloc => exact .alloc halloc
      next newPhys m₁ halloc =>
        have h1 : LocalAt va m (m₁.pageRefSet newPhys 1) :=
          (LocalAt.alloc halloc).trans (.pageRefSet _ 1)
        split
        next h =>
          exact (h1.trans ((cowBreakIfUnchanged_local _ va ..).of_eq h)).trans (.pageRefSet _ _)
        next h =>
          exact (h1.trans ((cowBreakIfUnchanged_local _ va ..).of_eq h)).trans (.pageRefSet _ _)
    split
    next h => exact (m.flipWritableIfSoleOwner_local va _ _).of_eq h
    next h => exact (m.flipWritableIfSoleOwner_local va _ _).of_eq h
  split
  · exact .refl va m
  split
  next halloc => exact .alloc halloc
  next m₁ halloc =>
    have h1 : LocalAt va m m₁ := .alloc halloc
    split
    next h => exact (h1.trans ((mapPageInIfAbsent_local _ va _ _).of_eq h)).trans (.pageRefSet _ _)
    next h => exact h1.trans ((mapPageInIfAbsent_local _ va _ _).of_eq h)

lemma resolveUserWritePage_local (areas : List VmArea) (attempts : ℕ) :
    LocalAt va m (resolveUserWritePage areas va attempts m).1 := by
  induction attempts generalizing m with
  | zero => exact .refl va m
  | succ attempts ih =>
    rw [resolveUserWritePage]
    split
    next h => exact (m.resolveAttempt_local va areas).of_eq h
    next h => exact ((m.resolveAttempt_local va areas).of_eq h).trans (ih _)

end Machine

end Astryx
