import Astryx.Rss.Counter

/-!
# Forking without memory

`clone_for_fork` walks the user half of the parent's page table and builds the child's beside it: it
allocates a table of the child for each one of the parent, write-protects the leaves of the parent
as it copies them and takes a reference on each frame. Every allocation on the way ends in a `?`.
Nothing is undone, and the child's root is among what is lost, so a failure leaves no trace only
when not even the root could be allocated.

The walk is the literal one, over tables in physical memory, 1 GiB leaves included.
-/

namespace Astryx.ForkFailure

open Function List

/-- The entries of the tables by physical address, the reference counts by frame, and the frames
that `alloc_page` has left, in the order in which it hands them out. -/
structure Memory where
  entry : ℕ → ℕ → ℕ
  count : ℕ → ℕ
  free : List ℕ

/-- A failure ends the walk and keeps what was done. -/
abbrev Walk := OptionT (StateM Memory)

/-- An entry is read. -/
def load (table i : ℕ) : Walk ℕ := return (← get).entry table i

/-- An entry is written. -/
def store (table i pte : ℕ) : Walk Unit :=
  modify fun s => { s with entry := update s.entry table (update (s.entry table) i pte) }

/-- `alloc_page` and the `write_bytes` that follows it. -/
def allocTable : Walk ℕ := do
  match (← get).free with
  | [] => failure
  | p :: free =>
    modify fun s => { s with entry := update s.entry p fun _ => 0, free }
    return p

/-- A frame has one more user. -/
def pageRefInc (phys : ℕ) : Walk Unit :=
  modify fun s =>
    if phys / 4096 < 2 ^ 20 then
      { s with count := update s.count (phys / 4096) ((s.count (phys / 4096) + 1) % 2 ^ 16) }
    else s

/-- An entry with its address replaced. -/
def retarget (pte phys : ℕ) : ℕ := phys ||| (pte &&& (2 ^ 64 - 1 - addrMask))

section

variable (f : ForkWalk) (va parent child i : ℕ)

/-- An entry of the lowest level is copied. -/
def forkPte : Walk Unit := do
  let pte ← load parent i
  if isPresent pte then
    store parent i (f.entry va pte)
    store child i (f.entry va pte)
    if !f.skips va (pte &&& addrMask) then pageRefInc (pte &&& addrMask)

/-- An entry of the third level, with what is below. -/
def forkPde : Walk Unit := do
  let pde ← load parent i
  if isPresent pde then
    if pde &&& pageHuge ≠ 0 then
      store parent i (f.hugeEntry va pde)
      store child i (f.hugeEntry va pde)
      if !(f.onKernelCr3 && isIdentityMapPhys va (pde &&& hugeMask)) then
        (range 512).forM fun sub => pageRefInc ((pde &&& hugeMask) + sub * 0x1000)
    else
      let pt ← allocTable
      store child i (retarget pde pt)
      (range 512).forM fun j => forkPte f (va + j * 2 ^ 12) (pde &&& addrMask) pt j

/-- The entry of a 1 GiB leaf. Its address is masked with `!0x3FFF_FFFF`, which keeps the bits above
51. -/
def gigEntry (pdpte : ℕ) : ℕ :=
  if f.onKernelCr3 && isIdentityMapPhys va (pdpte &&& (2 ^ 64 - 2 ^ 30)) then pdpte
  else (pdpte &&& (2 ^ 64 - 2 ^ 30)) ||| (pdpte &&& (2 ^ 64 - 1 - addrMask - pageWritable))

/-- An entry of the second level, with what is below. -/
def forkPdpte : Walk Unit := do
  let pdpte ← load parent i
  if isPresent pdpte then
    if pdpte &&& pageHuge ≠ 0 then
      store parent i (gigEntry f va pdpte)
      store child i (gigEntry f va pdpte)
    else
      let pd ← allocTable
      store child i (retarget pdpte pd)
      (range 512).forM fun j => forkPde f (va + j * 2 ^ 21) (pdpte &&& addrMask) pd j

/-- An entry of the top level, with what is below. -/
def forkPml4e : Walk Unit := do
  let pml4e ← load parent i
  if isPresent pml4e then
    let pdpt ← allocTable
    store child i (retarget pml4e pdpt)
    (range 512).forM fun j => forkPdpte f (va + j * 2 ^ 30) (pml4e &&& addrMask) pdpt j

end

/-- The walk of `clone_for_fork` below a root for the child. -/
def forkInto (f : ForkWalk) (cr3 child : ℕ) : Walk ℕ := do
  (range' 256 256).forM fun i => do store child i (← load cr3 i)
  (range 256).forM fun i => forkPml4e f (i * 2 ^ 39) cr3 child i
  return child

/-- The walk of a fork. -/
def forkWalk (kernelCr3 cr3 : ℕ) (areas : List VmArea) : ForkWalk where
  onKernelCr3 := kernelCr3 ≠ 0 ∧ cr3 = kernelCr3
  deviceRanges := (areas.filter (·.backing.isDevice)).map fun v =>
    (v.base, Word.add v.base v.length)
  limit := 2 ^ 47

/-- The child's table, or nothing when frames run out. -/
def cloneForFork (kernelCr3 cr3 : ℕ) (areas : List VmArea) : Walk ℕ := do
  forkInto (forkWalk kernelCr3 cr3 areas) cr3 (← allocTable)

/-! ## No frame is given back -/

lemma run_bind {α β : Type} (w : Walk α) (k : α → Walk β) (s : Memory) :
    (w >>= k).run s = match w.run s with
      | (none, t) => (none, t)
      | (some a, t) => (k a).run t := by
  rw [OptionT.run_bind, Option.elimM]
  show (match w.run s with | (r, t) => (r.elim (pure none) fun a => (k a).run) t) = _
  rcases w.run s with ⟨_ | -, -⟩ <;> rfl

lemma allocTable_cons (entry : ℕ → ℕ → ℕ) (count : ℕ → ℕ) (p : ℕ) (free : List ℕ) :
    allocTable.run ⟨entry, count, p :: free⟩ = (some p, ⟨update entry p fun _ => 0, count, free⟩) :=
  rfl

/-- Whether or not it fails, the walk only takes frames. -/
def Takes {α : Type} (w : Walk α) : Prop := ∀ s, (w.run s).2.free <:+ s.free

namespace Takes

variable {α β : Type} {w : Walk α}

lemma suffix (hw : Takes w) {s t : Memory} {r : Option α} (h : w.run s = (r, t)) :
    t.free <:+ s.free := by
  have hs := hw s
  rwa [h] at hs

lemma pure (a : α) : Takes (Pure.pure a) := fun _ => suffix_rfl

lemma bind {k : α → Walk β} (hw : Takes w) (hk : ∀ a, Takes (k a)) : Takes (w >>= k) := by
  intro s
  rw [run_bind]
  rcases hrun : w.run s with ⟨_ | a, t⟩
  · exact hw.suffix hrun
  · exact (hk a t).trans (hw.suffix hrun)

lemma ite {p : Prop} [Decidable p] {w' : Walk α} (hw : Takes w) (hw' : Takes w') :
    Takes (if p then w else w') := by
  split <;> assumption

lemma forM {k : β → Walk PUnit} (hk : ∀ b, Takes (k b)) (l : List β) : Takes (l.forM k) := by
  induction l with
  | nil => exact .pure _
  | cons b l ih => exact (hk b).bind fun _ => ih

lemma load {table i : ℕ} : Takes (load table i) := fun _ => suffix_rfl

lemma store {table i pte : ℕ} : Takes (store table i pte) := fun _ => suffix_rfl

lemma pageRefInc {phys : ℕ} : Takes (pageRefInc phys) := by
  intro s
  show (if phys / 4096 < 2 ^ 20 then _ else s : Memory).free <:+ s.free
  split <;> exact suffix_rfl

lemma allocTable : Takes allocTable := by
  rintro ⟨-, -, free⟩
  cases free with
  | nil => exact suffix_rfl
  | cons p free => exact suffix_cons p free

variable {f : ForkWalk} {va parent child i : ℕ}

lemma forkPte : Takes (forkPte f va parent child i) := by
  refine load.bind fun pte => .ite (store.bind fun _ => store.bind fun _ => ?_) (.pure _)
  exact .ite .pageRefInc (.pure _)

lemma forkPde : Takes (forkPde f va parent child i) := by
  refine load.bind fun pde => .ite (.ite ?_ ?_) (.pure _)
  · exact store.bind fun _ => store.bind fun _ => .ite (.forM (fun _ => .pageRefInc) _) (.pure _)
  · exact allocTable.bind fun pt => store.bind fun _ => .forM (fun j => .forkPte) _

lemma forkPdpte : Takes (forkPdpte f va parent child i) := by
  refine load.bind fun pdpte => .ite (.ite ?_ ?_) (.pure _)
  · exact store.bind fun _ => store
  · exact allocTable.bind fun pd => store.bind fun _ => .forM (fun j => .forkPde) _

lemma forkPml4e : Takes (forkPml4e f va parent child i) := by
  refine load.bind fun pml4e => .ite ?_ (.pure _)
  exact allocTable.bind fun pdpt => store.bind fun _ => .forM (fun j => .forkPdpte) _

lemma forkInto {cr3 : ℕ} : Takes (forkInto f cr3 child) :=
  bind (.forM (fun _ => load.bind fun _ => store) _) fun _ =>
    bind (.forM (fun _ => .forkPml4e) _) fun _ => .pure _

end Takes

/-- A walk that fails leaves the frames, the counts and the parent's tables as they were exactly
when there was no free frame to begin with. -/
theorem cloneForFork_atomic_iff {kernelCr3 cr3 : ℕ} {areas : List VmArea} {s t : Memory}
    (hfree : s.free.Nodup) (h : (cloneForFork kernelCr3 cr3 areas).run s = (none, t)) :
    ((∀ p, p ∈ t.free ↔ p ∈ s.free) ∧ t.count = s.count ∧
      ∀ table ∉ s.free, t.entry table = s.entry table) ↔ s.free = [] := by
  obtain ⟨entry, count, free⟩ := s
  cases free with
  | nil =>
    obtain rfl : (⟨entry, count, []⟩ : Memory) = t := congrArg Prod.snd h
    exact iff_of_true ⟨fun _ => .rfl, rfl, fun _ _ => rfl⟩ rfl
  | cons p free =>
    refine iff_of_false (fun hsame => ?_) (cons_ne_nil p free)
    -- the child's root is gone, and the walk after it brings nothing back
    rw [cloneForFork, run_bind, allocTable_cons] at h
    have htakes := Takes.forkInto.suffix h
    exact (nodup_cons.mp hfree).1 (htakes.mem ((hsame.1 p).mpr mem_cons_self))

/-- Two page tables below one directory: a writable page in the first, nothing in the second. -/
def twoTables (free : List ℕ) : Memory where
  entry table i :=
    if i = 0 ∧ table ∈ [0x1000, 0x2000, 0x3000] then table + 0x1007
    else if table = 0x3000 ∧ i = 1 then 0x5007
    else if table = 0x4000 ∧ i = 0 then 0x9007
    else 0
  count _ := 1
  free := free

theorem cloneForFork_atomic_of_full :
    ((cloneForFork 0 0x1000 []).run (twoTables [])).2.count = (twoTables []).count :=
  ((@cloneForFork_atomic_iff 0 0x1000 [] (twoTables []) _ (by decide) rfl).mpr rfl).2.1

/-- Without a frame for the second page table the child's four tables are lost, the page stays
write-protected and keeps a reference from a child that never was. -/
theorem cloneForFork_not_atomic :
    let r := (cloneForFork 0 0x1000 []).run (twoTables [0x6000, 0x7000, 0x8000, 0xa000])
    r.1 = none ∧ r.2.free = [] ∧ r.2.count 9 = 2 ∧ r.2.entry 0x4000 0 = 0x9005 := by
  decide +kernel

end Astryx.ForkFailure
