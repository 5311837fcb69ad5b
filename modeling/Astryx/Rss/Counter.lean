import Astryx.Lib.Transition
import Astryx.Rss.Walk

/-!
# The resident-set counters

`mm/rss.rs` keeps one signed counter for each tracked address space, in a table of 256 slots with
linear probing. `account_leaf_pte` stands beside the writes of `mm/vmm.rs` that may make a leaf
present or absent and moves the counter by one; `clone_for_fork` writes the leaves of the child
itself and seeds the child's counter with the number it wrote.

Two rules decide what is counted. `walk_resident_pages` passes over a leaf whose physical address is
its virtual address below 4 GiB, whatever address space it is in. `account_leaf_pte` looks at
present bits first, and at the identity rule only when they differ; it applies the rule to the
address it was called with. `clone_for_fork` applies it only when the parent runs on the kernel's
own page table.

A system is the page tables of the live address spaces, the slot table and the reference counts.
Every call runs to its end before the next (the address space's lock is held throughout).
-/

namespace Astryx

/-! ## The slot table -/

/-- `RSS_SLOTS` -/
def rssSlots : ℕ := 256

/-- `KEY_EMPTY` -/
def keyEmpty : ℕ := 0

/-- `KEY_TOMBSTONE` -/
def keyTombstone : ℕ := 2 ^ 64 - 1

/-- `RSS_KEYS` and `RSS_PAGES`. -/
structure RssTable where
  keys : List ℕ
  pages : List ℤ
  deriving DecidableEq, Repr

namespace RssTable

variable (t : RssTable) (cr3 : ℕ)

/-- The table at boot. -/
def empty : RssTable :=
  { keys := List.replicate rssSlots keyEmpty, pages := List.replicate rssSlots 0 }

/-- Where the search for a key begins. -/
def slotFor : ℕ := cr3 / 2 ^ 12 * 2654435761 % 2 ^ 64 % rssSlots

/-- The slots in the order of the search. -/
def probes : List ℕ := (List.range rssSlots).map fun i => (slotFor cr3 + i) % rssSlots

/-- The loop of `find`. -/
def findIn (keys : List ℕ) (cr3 : ℕ) : List ℕ → Option ℕ
  | [] => none
  | idx :: rest =>
    if keys.getD idx 0 = keyEmpty then none
    else if keys.getD idx 0 = cr3 then some idx
    else findIn keys cr3 rest

/-- The slot of a key. -/
def find : Option ℕ := findIn t.keys cr3 (probes cr3)

/-- Takes the first free slot, unless the key has one. -/
def attach : Bool × RssTable :=
  if cr3 = 0 then (false, t)
  else if (t.find cr3).isSome then (true, t)
  else
    match (probes cr3).find? fun idx =>
      t.keys.getD idx 0 = keyEmpty ∨ t.keys.getD idx 0 = keyTombstone with
    | some idx => (true, { keys := t.keys.set idx cr3, pages := t.pages.set idx 0 })
    | none => (false, t)

/-- The slot of a key becomes a tombstone. -/
def detach : RssTable :=
  if cr3 = 0 then t
  else
    match t.find cr3 with
    | some idx => { keys := t.keys.set idx keyTombstone, pages := t.pages.set idx 0 }
    | none => t

/-- Addition in `i64`. -/
def addI64 (a b : ℤ) : ℤ := Int.bmod (a + b) (2 ^ 64)

/-- Adds to the count of a key. -/
def account (delta : ℤ) : RssTable :=
  if cr3 = 0 ∨ delta = 0 then t
  else
    match t.find cr3 with
    | some idx => { t with pages := t.pages.set idx (addI64 (t.pages.getD idx 0) delta) }
    | none => t

/-- The count of a key. -/
def residentPages : Option ℕ := (t.find cr3).map fun idx => (t.pages.getD idx 0).toNat

end RssTable

/-! ## The three rules -/

/-- What `account_leaf_pte` adds to the counter. -/
def accountLeafPte (va oldPte newPte : ℕ) : ℤ :=
  if 2 ^ 47 ≤ va then 0
  else if isPresent oldPte = isPresent newPte then 0
  else
    let livePte := if isPresent newPte then newPte else oldPte
    if isIdentityMapPhys va (livePte &&& addrMask) then 0
    else if isPresent newPte then 1 else -1

/-- What `clone_for_fork` adds to `child_resident`. -/
def countedWeight (forkOnKernelCr3 : Bool) : LeafWeight where
  leaf va pte :=
    if isPresent pte ∧ ¬ (forkOnKernelCr3 ∧ isIdentityMapPhys va (pte &&& addrMask)) then 1 else 0
  huge va pte := if forkOnKernelCr3 ∧ isIdentityMapPhys va (pte &&& hugeMask) then 0 else 512

/-! ## `clone_for_fork` on a table -/

/-- Every leaf of the user half is rewritten, given its address. -/
def mapLeaves (leaf huge : ℕ → ℕ → ℕ) (root : Root) : Root := fun i =>
  if 256 ≤ i then root i
  else
    match root i with
    | .absent => .absent
    | .table u pdpt => .table u fun j =>
      match pdpt j with
      | .absent => .absent
      | .table u' pd => .table u' fun k =>
        match pd k with
        | .absent => .absent
        | .huge pte => .huge (huge (i * 2 ^ 39 + j * 2 ^ 30 + k * 2 ^ 21) pte)
        | .table u'' pt =>
          .table u'' fun l => leaf (i * 2 ^ 39 + j * 2 ^ 30 + k * 2 ^ 21 + l * 2 ^ 12) (pt l)

/-- What a fork needs to know: whether the parent runs on the kernel's page table, the ranges of
`Device` areas, and how far the walk gets; a failed allocation stops it at a table of the child. -/
structure ForkWalk where
  onKernelCr3 : Bool
  deviceRanges : List (ℕ × ℕ)
  limit : ℕ

namespace ForkWalk

variable (f : ForkWalk)

/-- The identity leaves and the leaves of shared segments are left writable and take no
reference. -/
def skips (va phys : ℕ) : Bool :=
  (f.onKernelCr3 && isIdentityMapPhys va phys) || f.deviceRanges.any fun r => r.1 ≤ va ∧ va < r.2

/-- `(pte & !ADDR_MASK) & !PAGE_WRITABLE`, with the address. -/
def writeProtect (pte : ℕ) : ℕ :=
  (pte &&& addrMask) ||| (pte &&& (2 ^ 64 - 1 - addrMask - pageWritable))

/-- The entry that parent and child both get for a present leaf. -/
def entry (va pte : ℕ) : ℕ := if f.skips va (pte &&& addrMask) then pte else writeProtect pte

/-- A 2 MiB leaf after a fork. -/
def hugeEntry (va pte : ℕ) : ℕ :=
  if f.onKernelCr3 ∧ isIdentityMapPhys va (pte &&& hugeMask) then pte
  else (pte &&& hugeMask) ||| (pte &&& (2 ^ 64 - 1 - addrMask - pageWritable))

/-- The parent's table after a fork that stopped at `limit`. -/
def parentRoot (root : Root) : Root :=
  mapLeaves (fun va pte => if va < f.limit ∧ isPresent pte then f.entry va pte else pte)
    (fun va pte => if va < f.limit then f.hugeEntry va pte else pte) root

/-- The child's table. -/
def childRoot (root : Root) : Root :=
  mapLeaves (fun va pte => if isPresent pte then f.entry va pte else 0) f.hugeEntry root

/-- How often the walk calls `page_ref_inc` on a frame. -/
def refWeight (frame : ℕ) : LeafWeight where
  leaf va pte :=
    if va < f.limit ∧ isPresent pte ∧ ¬ f.skips va (pte &&& addrMask) ∧
      (pte &&& addrMask) / 4096 = frame then 1 else 0
  huge va pte :=
    if va < f.limit ∧ ¬ (f.onKernelCr3 ∧ isIdentityMapPhys va (pte &&& hugeMask)) ∧
      (pte &&& hugeMask) / 4096 ≤ frame ∧ frame < (pte &&& hugeMask) / 4096 + 512 then 1 else 0

/-- The 16-bit reference counts after the walk; frames from 4 GiB on have none. -/
def countAfter (root : Root) (count : ℕ → ℕ) (frame : ℕ) : ℕ :=
  if frame < 2 ^ 20 then (count frame + (f.refWeight frame).walk root) % 2 ^ 16 else count frame

end ForkWalk

/-! ## The system -/

/-- `attached` is a ghost: the address spaces for which `attach` found a slot. -/
structure RssSystem where
  kernelCr3 : ℕ
  roots : ℕ → Option Root
  table : RssTable
  count : ℕ → ℕ
  attached : ℕ → Bool

namespace RssSystem

variable (s : RssSystem)

/-- No process, and the given counts of frames. -/
def boot (kernelCr3 : ℕ) (count : ℕ → ℕ) : RssSystem :=
  { kernelCr3, roots := fun _ => none, table := .empty, count, attached := fun _ => false }

/-- A page table with the reference counts and an allocator that has `allocs` pages left. -/
def machine (root : Root) (allocs : ℕ) : Machine where
  root := root
  count := s.count
  frames n := if n < allocs then some 0 else none
  tableHeld := false
  effects := []

/-- A process has a new table. -/
def commit (cr3 : ℕ) (m : Machine) : RssSystem :=
  { s with roots := Function.update s.roots cr3 (some m.root), count := m.count }

/-- The count of a process changes. -/
def account (cr3 : ℕ) (delta : ℤ) : RssSystem := { s with table := s.table.account cr3 delta }

/-- A leaf is written and `account_leaf_pte` called beside it. -/
def storeLeaf (cr3 : ℕ) (m : Machine) (va pte : ℕ) : RssSystem :=
  match m.pdAt va with
  | .table _ _ =>
    (s.commit cr3 (m.storeLeaf va pte)).account cr3 (accountLeafPte va (m.readPte va) pte)
  | _ => s.commit cr3 (m.storeLeaf va pte)

/-- The leaf of a new mapping. -/
def newPte (phys flags : ℕ) : ℕ := (phys &&& addrMask) ||| flags ||| pagePresent

/-- `map_page_in`, with its accounting. -/
def mapPageIn (cr3 : ℕ) (root : Root) (va phys flags allocs : ℕ) : RssSystem :=
  match (s.machine root allocs).walkCreate va (flags &&& pageUser ≠ 0) with
  | (m, false) => s.commit cr3 m
  | (m, true) => s.storeLeaf cr3 m va (newPte phys flags)

/-- `map_page_in_if_absent`, with its accounting. -/
def mapPageInIfAbsent (cr3 : ℕ) (root : Root) (va phys flags allocs : ℕ) : RssSystem :=
  match (s.machine root allocs).walkCreate va (flags &&& pageUser ≠ 0) with
  | (m, false) => s.commit cr3 m
  | (m, true) =>
    if isPresent (m.readPte va) then s.commit cr3 m else s.storeLeaf cr3 m va (newPte phys flags)

/-- `map_page_in_cow_if_unchanged`, and `cow_break_if_unchanged`, which clears the leaf and flushes
before it writes: neither calls `account_leaf_pte`. -/
def cowIfUnchanged (cr3 : ℕ) (root : Root) (va phys flags expectedPhys allocs : ℕ) (break_ : Bool) :
    RssSystem :=
  match (s.machine root allocs).walkCreate va (flags &&& pageUser ≠ 0) with
  | (m, false) => s.commit cr3 m
  | (m, true) =>
    if m.leafUnchanged va expectedPhys then
      s.commit cr3 ((if break_ then m.storeLeaf va 0 else m).storeLeaf va (newPte phys flags))
    else s.commit cr3 m

/-- `flip_writable_if_sole_owner`, which changes no count. -/
def flipWritableIfSoleOwner (cr3 : ℕ) (root : Root) (va expectedPhys flags allocs : ℕ) :
    RssSystem :=
  match (s.machine root allocs).walkCreate va (flags &&& pageUser ≠ 0) with
  | (m, false) => s.commit cr3 m
  | (m, true) =>
    if m.leafUnchanged va expectedPhys ∧ m.count (expectedPhys / 4096) ≤ 1 then
      s.commit cr3 (m.storeLeaf va (newPte expectedPhys flags))
    else s.commit cr3 m

/-- One page of `unmap_and_free_range_in`. -/
def unmapAndFreePage (cr3 : ℕ) (s : RssSystem) (va : ℕ) : RssSystem :=
  match s.roots cr3 with
  | none => s
  | some root =>
    match (s.machine root 0).virtToPhysIn va with
    | none => s
    | some phys =>
      let s' := s.storeLeaf cr3 (s.machine root 0) va 0
      { s' with count := ((s.machine root 0).pageRefDec phys).2.count }

/-- The pages of `unmap_and_free_range_in`. -/
def rangePages (base length : ℕ) : List ℕ :=
  (List.range ((length + 0xFFF) / 0x1000)).map fun i => base + i * 0x1000

/-- The walk of a fork of `cr3`. -/
def forkWalk (cr3 : ℕ) (deviceRanges : List (ℕ × ℕ)) (limit : ℕ) : ForkWalk where
  onKernelCr3 := s.kernelCr3 ≠ 0 ∧ cr3 = s.kernelCr3
  deviceRanges := deviceRanges
  limit := limit

/-- The parent as a fork leaves it. -/
def protectParent (cr3 : ℕ) (root : Root) (f : ForkWalk) : RssSystem :=
  { s with
    roots := Function.update s.roots cr3 (some (f.parentRoot root)),
    count := f.countAfter root s.count }

/-- `attach` for a new address space, whose pages it then counts. -/
def publish (cr3 : ℕ) (root : Root) (pages : ℤ) : RssSystem :=
  { s with
    roots := Function.update s.roots cr3 (some root)
    table := (s.table.attach cr3).2.account cr3 pages
    attached := Function.update s.attached cr3 (s.table.attach cr3).1 }

/-- The child of a fork that got through: its table is published under `child` and its counter
seeded. -/
def addChild (child : ℕ) (root : Root) (f : ForkWalk) : RssSystem :=
  s.publish child (f.childRoot root) ((countedWeight f.onKernelCr3).walk root)

/-- What `/proc` shows of a process. -/
def residentPages (cr3 : ℕ) : Option ℕ := s.table.residentPages cr3

end RssSystem

/-- A call that changes tables or counts. -/
inductive RssOp where
  /-- `VmSpace::new_user`, with a table whose user half is empty. -/
  | newUser (cr3 : ℕ) (root : Root)
  | mapPageIn (cr3 va phys flags allocs : ℕ)
  | mapPageInIfAbsent (cr3 va phys flags allocs : ℕ)
  | mapPageInCowIfUnchanged (cr3 va phys flags expectedPhys allocs : ℕ)
  | cowBreakIfUnchanged (cr3 va newPhys flags expectedPhys allocs : ℕ)
  | flipWritableIfSoleOwner (cr3 va expectedPhys flags allocs : ℕ)
  | writePte (cr3 va pte : ℕ)
  | unmapPageIn (cr3 va : ℕ)
  | unmapAndFreeRangeIn (cr3 base length : ℕ)
  | cloneForFork (cr3 child : ℕ) (deviceRanges : List (ℕ × ℕ))
  /-- A `clone_for_fork` that runs out of memory when its walk has passed the leaves below
  `limit`. -/
  | cloneForForkFails (cr3 : ℕ) (deviceRanges : List (ℕ × ℕ)) (limit : ℕ)

/-- An address space that is not in use: a page-aligned table that nothing is counted for yet. -/
def RssSystem.fresh (s : RssSystem) (cr3 : ℕ) : Bool :=
  cr3 % 4096 = 0 ∧ (s.roots cr3).isNone ∧ (s.table.find cr3).isNone

/-- No leaf is below the upper half. -/
def userHalfEmpty (root : Root) : Bool :=
  (List.range 256).all fun i =>
    match root i with
    | .absent => true
    | .table _ _ => false

/-- One call. -/
def rssStep (s : RssSystem) : RssOp → Option RssSystem
  | .newUser cr3 root =>
    if s.fresh cr3 ∧ userHalfEmpty root then some (s.publish cr3 root 0) else none
  | .mapPageIn cr3 va phys flags allocs =>
    if va < 2 ^ 47 then (s.roots cr3).map fun root =>
      s.mapPageIn cr3 root va phys flags allocs else none
  | .mapPageInIfAbsent cr3 va phys flags allocs =>
    if va < 2 ^ 47 then (s.roots cr3).map fun root =>
      s.mapPageInIfAbsent cr3 root va phys flags allocs else none
  | .mapPageInCowIfUnchanged cr3 va phys flags expectedPhys allocs =>
    if va < 2 ^ 47 then
      (s.roots cr3).map fun root =>
        s.cowIfUnchanged cr3 root va phys flags expectedPhys allocs false
    else none
  | .cowBreakIfUnchanged cr3 va newPhys flags expectedPhys allocs =>
    if va < 2 ^ 47 then
      (s.roots cr3).map fun root =>
        s.cowIfUnchanged cr3 root va newPhys flags expectedPhys allocs true
    else none
  | .flipWritableIfSoleOwner cr3 va expectedPhys flags allocs =>
    if va < 2 ^ 47 then
      (s.roots cr3).map fun root => s.flipWritableIfSoleOwner cr3 root va expectedPhys flags allocs
    else none
  | .writePte cr3 va pte =>
    if va < 2 ^ 47 then (s.roots cr3).map fun root =>
      s.storeLeaf cr3 (s.machine root 0) va pte else none
  | .unmapPageIn cr3 va =>
    if va < 2 ^ 47 then (s.roots cr3).map fun root =>
      s.storeLeaf cr3 (s.machine root 0) va 0 else none
  | .unmapAndFreeRangeIn cr3 base length =>
    if base + length ≤ 2 ^ 47 then
      some ((RssSystem.rangePages base length).foldl (RssSystem.unmapAndFreePage cr3) s)
    else none
  | .cloneForFork cr3 child deviceRanges =>
    match s.roots cr3 with
    | none => none
    | some root =>
      if s.fresh child then
        let f := s.forkWalk cr3 deviceRanges (2 ^ 48)
        some ((s.protectParent cr3 root f).addChild child root f)
      else none
  | .cloneForForkFails cr3 deviceRanges limit =>
    (s.roots cr3).map fun root => s.protectParent cr3 root (s.forkWalk cr3 deviceRanges limit)

end Astryx
