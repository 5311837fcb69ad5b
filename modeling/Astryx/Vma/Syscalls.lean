import Astryx.Vma.Space

/-!
# The system calls that edit the area list

`sys_mmap` with its three phases, `sys_munmap`, `sys_brk` (`syscall/mod.rs`), the area-list half of
`sys_mprotect` (`subsys/linux/syscall.rs`) and of `shmat` and `shmdt` (`ipc/sysv_shm.rs`).

Each phase of `sys_mmap` that runs under the process-table lock is a function of its own
(`mmapPhase1`, `mmapPhase2`, `mmapPhase3`), so that the same definitions serve a single call run to
its end (`sysMmap`) and the interleaved system of several threads.
-/

namespace Astryx

open Option

/-- No such device. -/
def ENXIO : ℤ := -6

/-- Bad descriptor. -/
def EBADF : ℤ := -9

/-- Out of memory. -/
def ENOMEM : ℤ := -12

/-- The range is in use. -/
def EEXIST : ℤ := -17

/-- Invalid argument. -/
def EINVAL : ℤ := -22

/-- `x as i64`. -/
def asI64 (x : ℕ) : ℤ := if x < 2 ^ 63 then x else x - 2 ^ 64

/-- An address space together with the teardown table it consults. -/
structure Mm where
  space : VmSpace
  tds : Teardowns
  deriving DecidableEq, Repr

/-! ## `sys_mmap` -/

/-- The paths `sys_mmap` recognises. -/
inductive FdPath where
  | fb0 | dri | other
  deriving DecidableEq, Repr

/-- The fields of an open file that `sys_mmap` reads. -/
structure FdEntry where
  openPath : FdPath
  isConsole : Bool
  mountIdx : ℕ
  inode : ℕ
  deriving DecidableEq, Repr

/-- The arguments of one `sys_mmap` call and what it reads outside the address space: the open
files, the framebuffer base, and the random words of its `k`-th stack placement. -/
structure MmapCall where
  addrHint : ℕ
  length : ℕ
  prot : ℕ
  flags : ℕ
  fd : ℕ
  offset : ℕ
  files : ℕ → Option FdEntry
  framebuffer : Option ℕ
  draws : ℕ → ℕ → ℕ

namespace MmapCall

variable (c : MmapCall)

/-- `MAP_FIXED` or `MAP_FIXED_NOREPLACE`. -/
def isFixed : Bool := c.flags &&& (mapFixed ||| mapFixedNoreplace) ≠ 0

/-- `MAP_FIXED_NOREPLACE` -/
def isNoreplace : Bool := c.flags &&& mapFixedNoreplace ≠ 0

/-- A stack, to be placed at random. -/
def isStackAlloc : Bool :=
  !c.isFixed && c.flags &&& mapStack ≠ 0 && c.flags &&& mapAnonymous ≠ 0

/-- Without a file. -/
def isAnon : Bool := c.flags &&& mapAnonymous ≠ 0 || c.fd = 2 ^ 64 - 1

/-- The length in whole pages. -/
def roundedLength : ℕ := pageAlignUp c.length

/-- The kernel's choice of a base address, for the `k`-th time in this call. -/
def pick (k : ℕ) (m : Mm) : Option ℕ :=
  if c.isStackAlloc then m.space.findFreeStackRange m.tds c.roundedLength (c.draws k)
  else m.space.findFreeRange m.tds c.roundedLength

variable {m : Mm}

lemma pick_le {c : MmapCall} {k : ℕ} {b : ℕ} (h : c.pick k m = some b) :
    b + c.roundedLength ≤ stackAslrMax := by
  rw [pick] at h
  split at h
  · have := findFreeStackRange_le h
    rwa [roundedLength, pageAlignUp_idem] at this
  have := findFreeRange_le h
  rw [roundedLength, pageAlignUp_idem] at this
  simp only [mmapBase, stackAslrMax, roundedLength] at this ⊢
  omega

/-- The address of the mapping. -/
def chooseBase (m : Mm) : Except ℤ ℕ :=
  if c.isFixed then
    let b := pageAlignDown c.addrHint
    if b = 0 then .error EINVAL
    else if c.isNoreplace && m.space.areas.any (·.overlaps b c.roundedLength) then .error EEXIST
    else .ok b
  else match c.pick 0 m with
    | some b => .ok b
    | none => .error ENOMEM

/-- What is behind the mapping. -/
def resolveBacking (base : ℕ) : Except ℤ (VmBacking × AreaName) :=
  if c.isAnon then .ok (.anonymous, .mmap)
  else match c.files c.fd with
    | none => .error EBADF
    | some e =>
      if e.openPath = .fb0 then
        match c.framebuffer with
        | some physBase => .ok (.device physBase, .fb0)
        | none => .error ENXIO
      else if e.openPath = .dri then .ok (.anonymous, .driStub)
      else if !e.isConsole then
        let pageOffset := pageAlignDown c.offset
        let delta := if c.isFixed then Word.sub base pageOffset else 0
        .ok (.file e.mountIdx e.inode pageOffset delta, .mmapFile)
      else .error EBADF

/-- Phase 1, under the lock: the base, backing and label of the area to be made. -/
def mmapPhase1 (m : Mm) : Except ℤ (ℕ × VmBacking × AreaName) := do
  let base ← c.chooseBase m
  let backing ← c.resolveBacking base
  return (base, backing)

lemma mmapPhase1_ok {c : MmapCall} {base : ℕ} {backing : VmBacking × AreaName}
    (h : c.mmapPhase1 m = .ok (base, backing)) : c.chooseBase m = .ok base := by
  rw [mmapPhase1] at h
  rcases hb : c.chooseBase m with e | b
  · rw [hb] at h
    cases h
  have h : (c.resolveBacking b >>= fun backing => pure (b, backing)) = .ok (base, backing) := by
    rw [hb] at h
    exact h
  rcases hr : c.resolveBacking b with e | r
  · rw [hr] at h
    cases h
  rw [hr] at h
  cases h
  rfl

lemma mmapPhase1_error {c : MmapCall} {e : ℤ} (h : c.mmapPhase1 m = .error e) : e < 0 := by
  have hchoose : ∀ e, c.chooseBase m = .error e → e < 0 := by
    intro e he
    rw [chooseBase] at he
    dsimp only at he
    split at he
    · split at he
      · rw [← Except.error.inj he]
        decide
      split at he
      · rw [← Except.error.inj he]
        decide
      · cases he
    split at he
    · cases he
    · rw [← Except.error.inj he]
      decide
  have hback : ∀ b e, c.resolveBacking b = .error e → e < 0 := by
    intro b e he
    rw [resolveBacking] at he
    split at he
    · cases he
    split at he
    · rw [← Except.error.inj he]
      decide
    split at he
    · split at he
      · cases he
      · rw [← Except.error.inj he]
        decide
    split at he
    · cases he
    split at he
    · cases he
    · rw [← Except.error.inj he]
      decide
  rw [mmapPhase1] at h
  rcases hb : c.chooseBase m with e' | b
  · rw [hb] at h
    exact Except.error.inj h ▸ hchoose e' hb
  rw [hb] at h
  rcases hr : c.resolveBacking b with e' | r
  · have h : (c.resolveBacking b >>= fun backing => pure (b, backing)) = .error e := h
    rw [hr] at h
    exact Except.error.inj h ▸ hback b e' hr
  have h : (c.resolveBacking b >>= fun backing => pure (b, backing)) = .error e := h
  rw [hr] at h
  cases h

end MmapCall

/-- Drop the records of `[base, base + length)` and reserve the range until its pages are unmapped:
the critical section shared by `sys_munmap`, phase 2 of `sys_mmap` and its evictions. -/
def Mm.beginTeardown (m : Mm) (base length : ℕ) : Mm × Option ℕ :=
  let (tds, slot) := teardownPublish m.tds m.space.cr3 base (Word.satAdd base length)
  ({ space := m.space.removeRange base length, tds := tds }, slot)

/-- The end of a teardown, once its pages are unmapped. -/
def Mm.endTeardown (m : Mm) (slot : Option ℕ) : Mm := { m with tds := teardownRetire m.tds slot }

/-- How one critical section of phase 3 ends. -/
inductive Phase3Step where
  /-- The area was committed at this base, or the call gives up. -/
  | done (base : Option ℕ)
  /-- The overlapping records were dropped; the range is to be swept and the slot retired. -/
  | evict (slot : Option ℕ)
  /-- A teardown of the fixed range is in flight. -/
  | awaitTeardown
  deriving DecidableEq, Repr

namespace MmapCall

variable (c : MmapCall)

/-- The area committed at `base`. -/
def newArea (base : ℕ) (backing : VmBacking) (name : AreaName) : VmArea :=
  { base, length := c.roundedLength, prot := c.prot, flags := c.flags, backing, name }

/-- One round of the inner loop of phase 3 at `curBase`. `none` sends the loop to a re-pick, which
both a reservation and an overlap do to a base the kernel chose. -/
def mmapAttempt (backing : VmBacking) (name : AreaName) (evictsLeft curBase : ℕ) (m : Mm) :
    Option (Mm × Phase3Step) :=
  let underTeardown :=
    (teardownConflict m.tds m.space.cr3 curBase (Word.satAdd curBase c.roundedLength)).isSome
  if underTeardown && c.isNoreplace then some (m, .done none)
  else if underTeardown && c.isFixed then some (m, .awaitTeardown)
  else if underTeardown then none
  else match m.space.insertVma (c.newArea curBase backing name) with
    | some space =>
      some ({ m with space := space.noteMmapPlacement curBase c.isFixed c.isStackAlloc },
        .done (some curBase))
    | none =>
      if !c.isFixed then none
      else if !c.isNoreplace && evictsLeft ≠ 0 then
        some ((m.beginTeardown curBase c.roundedLength).1,
          .evict (m.beginTeardown curBase c.roundedLength).2)
      else some (m, .done none)

/-- One critical section of phase 3, with `left` of the 8 re-picks and `evictsLeft` of the 2
evictions remaining. The result names the base the section ended at. -/
def mmapPhase3 (backing : VmBacking) (name : AreaName) (evictsLeft : ℕ) :
    ℕ → ℕ → Mm → Mm × ℕ × Phase3Step
  | left, curBase, m =>
    match c.mmapAttempt backing name evictsLeft curBase m with
    | some (m', step) => (m', curBase, step)
    | none =>
      match left with
      | 0 => (m, curBase, .done none)
      | left + 1 =>
        match c.pick (8 - left) m with
        | some nb => mmapPhase3 backing name evictsLeft left nb m
        | none => (m, curBase, .done none)

variable {c} {m m' : Mm} {evictsLeft base : ℕ} {name : AreaName} {backing : VmBacking}

/-- What one round of the inner loop can do when it ends the section: nothing, commit the area on a
range clear of areas and reservations, or evict. -/
lemma mmapAttempt_cases {step : Phase3Step}
    (h : c.mmapAttempt backing name evictsLeft base m = some (m', step)) :
    (m' = m ∧ (step = .done none ∨ step = .awaitTeardown)) ∨
    (∃ space, teardownConflict m.tds m.space.cr3 base (Word.satAdd base c.roundedLength) = none ∧
      m.space.insertVma (c.newArea base backing name) = some space ∧
      m' = { m with space := space.noteMmapPlacement base c.isFixed c.isStackAlloc } ∧
      step = .done (some base)) ∨
    ((c.isFixed ∧ ¬ c.isNoreplace ∧ evictsLeft ≠ 0) ∧
      m' = (m.beginTeardown base c.roundedLength).1 ∧
      step = .evict (m.beginTeardown base c.roundedLength).2) := by
  unfold mmapAttempt at h
  simp only at h
  split at h
  · cases h
    exact .inl ⟨rfl, .inl rfl⟩
  split at h
  · cases h
    exact .inl ⟨rfl, .inr rfl⟩
  split at h
  · cases h
  rename_i hclear
  rw [Bool.not_eq_true, isSome_eq_false_iff, isNone_iff_eq_none] at hclear
  split at h
  next space hins =>
    cases h
    exact .inr (.inl ⟨space, hclear, hins, rfl, rfl⟩)
  split at h
  · cases h
  split at h
  next hf hev =>
    cases h
    simp only [Bool.not_eq_true', Bool.not_eq_false, Bool.and_eq_true, decide_eq_true_eq] at hf hev
    exact .inr (.inr ⟨⟨hf, by simp [hev.1], hev.2⟩, rfl, rfl⟩)
  · cases h
    exact .inl ⟨rfl, .inl rfl⟩

/-- A section of phase 3 ends at the base it started at or one the kernel picked in it, either
giving up or by an attempt at that base; until then it changes nothing. -/
lemma mmapPhase3_cases {left base' : ℕ} {step : Phase3Step}
    (h : c.mmapPhase3 backing name evictsLeft left base m = (m', base', step)) :
    (base' = base ∨ ∃ k, c.pick k m = some base') ∧
      ((m' = m ∧ step = .done none) ∨ c.mmapAttempt backing name evictsLeft base' m =
        some (m', step)) := by
  induction left generalizing base with
  | zero =>
    unfold mmapPhase3 at h
    split at h
    next hatt =>
      cases h
      exact ⟨.inl rfl, .inr hatt⟩
    · cases h
      exact ⟨.inl rfl, .inl ⟨rfl, rfl⟩⟩
  | succ left ih =>
    unfold mmapPhase3 at h
    split at h
    next hatt =>
      cases h
      exact ⟨.inl rfl, .inr hatt⟩
    · simp only at h
      split at h
      next nb hnb =>
        obtain ⟨hb, hstep⟩ := ih h
        refine ⟨.inr ?_, hstep⟩
        rcases hb with rfl | hk
        · exact ⟨_, hnb⟩
        · exact hk
      · cases h
        exact ⟨.inl rfl, .inl ⟨rfl, rfl⟩⟩

/-- A section that commits does so at the base it ended at. -/
lemma mmapPhase3_done {left base' b : ℕ}
    (h : c.mmapPhase3 backing name evictsLeft left base m = (m', base', .done (some b))) :
    b = base' := by
  rcases (mmapPhase3_cases h).2 with ⟨-, hstep⟩ | hatt
  · cases hstep
  rcases mmapAttempt_cases hatt with ⟨-, h | h⟩ | ⟨_, -, -, -, hdone⟩ | ⟨-, -, h⟩
  · cases h
  · cases h
  · exact some.inj (Phase3Step.done.inj hdone)
  · cases h

/-- A fixed mapping is tried at its own base only. -/
lemma mmapPhase3_fixed (hf : c.isFixed) (backing : VmBacking) (name : AreaName)
    (evictsLeft left base : ℕ) (m : Mm) :
    ∃ m' step, c.mmapPhase3 backing name evictsLeft left base m = (m', base, step) ∧
      c.mmapAttempt backing name evictsLeft base m = some (m', step) := by
  have hsome : c.mmapAttempt backing name evictsLeft base m ≠ none := by
    rw [mmapAttempt, hf, Bool.and_true]
    split
    · exact some_ne_none _
    split
    · exact some_ne_none _
    split
    · exact some_ne_none _
    · rw [if_neg (by decide)]
      split <;> exact some_ne_none _
  obtain ⟨⟨m', step⟩, hatt⟩ := ne_none_iff_exists'.mp hsome
  refine ⟨m', step, ?_, hatt⟩
  rw [mmapPhase3.eq_def]
  dsimp only
  rw [hatt]

variable (c) in
/-- Phase 3 of a call that runs alone. Nobody retires the teardown a fixed mapping waits for, so the
wait ends at its deadline. -/
def mmapCommit (backing : VmBacking) (name : AreaName) : ℕ → ℕ → Mm → Mm × ℤ
  | evictsLeft, base, m =>
    match c.mmapPhase3 backing name evictsLeft 8 base m with
    | (m', _, .done (some b)) => (m', asI64 b)
    | (m', _, .done none) => (m', ENOMEM)
    | (m', _, .awaitTeardown) => (m', ENOMEM)
    | (m', curBase, .evict slot) =>
      match evictsLeft with
      | 0 => (m', ENOMEM)
      | n + 1 => mmapCommit backing name n curBase (m'.endTeardown slot)

end MmapCall

/-- `sys_mmap`, run to its end. -/
def sysMmap (c : MmapCall) (m : Mm) : Mm × ℤ :=
  if c.length = 0 then (m, EINVAL)
  else match c.mmapPhase1 m with
    | .error e => (m, e)
    | .ok (base, backing, name) =>
      if c.isFixed && !c.isNoreplace then
        let (m', slot) := m.beginTeardown base c.roundedLength
        c.mmapCommit backing name 2 base (m'.endTeardown slot)
      else c.mmapCommit backing name 2 base m

/-! ## `sys_munmap`, `sys_brk` and `sys_mprotect` -/

/-- `sys_munmap`, run to its end. -/
def sysMunmap (addr length : ℕ) (m : Mm) : Mm × ℤ :=
  if length = 0 ∨ addr % 4096 ≠ 0 then (m, EINVAL)
  else
    let (m', slot) := m.beginTeardown addr (pageAlignUp length)
    (m'.endTeardown slot, 0)

/-- Asks for the break, or moves it. -/
def sysBrk (newBrk : ℕ) (m : Mm) : Mm × ℤ :=
  if newBrk = 0 then (m, asI64 m.space.brk)
  else
    let space := (m.space.adjustBrk newBrk).1
    ({ m with space }, asI64 space.brk)

/-- What `sys_mprotect` makes of one area: up to three pieces, the middle one retagged. -/
def retag (base rangeEnd newProt : ℕ) (vma : VmArea) : List VmArea :=
  if vma.endAddr ≤ base ∨ vma.base ≥ rangeEnd then [vma]
  else if vma.base ≥ base ∧ vma.endAddr ≤ rangeEnd then [{ vma with prot := newProt }]
  else
    let piece (lo hi prot : ℕ) : VmArea :=
      { vma with
        base := lo, length := Word.sub hi lo, prot
        backing := vma.backing.advance (Word.sub lo vma.base) }
    let overlapStart := max vma.base base
    let overlapEnd := min vma.endAddr rangeEnd
    (if vma.base < base then [piece vma.base base vma.prot] else []) ++
      [piece overlapStart overlapEnd newProt] ++
      (if vma.endAddr > rangeEnd then [piece rangeEnd vma.endAddr vma.prot] else [])

/-- `sys_mprotect` on the area list. The guard for a caller on the kernel's own root table, which
only the in-kernel test runner is, does not apply to a user process. -/
def sysMprotect (addr len prot : ℕ) (m : Mm) : Mm × ℤ :=
  if len = 0 then (m, 0)
  else if addr % 4096 ≠ 0 then (m, EINVAL)
  else
    let rangeEnd := pageAlignUp (Word.add addr len)
    let areas := m.space.areas.flatMap (retag (pageAlignDown addr) rangeEnd prot)
    ({ m with space := { m.space with areas } }, 0)

/-! ## `shmat` and `shmdt` on the area list -/

/-- The extent of a shared memory segment. `shmget` rounds the size up to whole pages, rejects zero
and takes the frames from the page allocator, which has `2 ^ 20` of them. -/
structure ShmExtent where
  size : ℕ
  physBase : ℕ
  size_pos : 0 < size
  size_pages : size % 4096 = 0
  size_le : size ≤ 2 ^ 32

/-- Where `shmat` begins to look for room. -/
def shmHintBase : ℕ := 0x60000000

/-- Where `shmat` ends to look for room. -/
def shmHintEnd : ℕ := 0x70000000

/-- The scan of `pick_vaddr` from `candidate`, `n` candidates left. -/
def pickVaddrFrom (areas : List VmArea) (size : ℕ) : ℕ → ℕ → ℕ
  | 0, _ => 0
  | n + 1, candidate =>
    if candidate + size < shmHintEnd then
      if areas.any fun a => candidate < a.endAddr ∧ candidate + size > a.base then
        pickVaddrFrom areas size n (candidate + size)
      else candidate
    else 0

/-- `pick_vaddr`. Sizes are whole pages, so the window holds at most 65536 candidates. -/
def pickVaddr (areas : List VmArea) (size : ℕ) : ℕ :=
  pickVaddrFrom areas size 65536 shmHintBase

/-- The area `shmat` records. -/
def shmArea (base size physBase : ℕ) : VmArea :=
  { base, length := size, prot := protRead ||| protWrite, flags := mapShared
    backing := .device physBase, name := .shm }

/-- Where `shmat` attaches: the page of the hint, or a picked address. `0` is the failure. -/
def shmTarget (areas : List VmArea) (size shmaddr : ℕ) : ℕ :=
  if shmaddr ≠ 0 then pageAlignDown shmaddr else pickVaddr areas size

/-- `shmat` of an existing segment: the area is inserted at its sorted place without an overlap
check. -/
def shmat (seg : ShmExtent) (shmaddr : ℕ) (m : Mm) : Mm × ℤ :=
  let mapVaddr := shmTarget m.space.areas seg.size shmaddr
  if mapVaddr = 0 then (m, ENOMEM)
  else
    let areas := Extents.place VmArea.base (shmArea mapVaddr seg.size seg.physBase) m.space.areas
    ({ m with space := { m.space with areas } }, asI64 mapVaddr)

/-- The area `shmdt` looks for. -/
def VmArea.isDeviceAt (shmaddr : ℕ) (a : VmArea) : Bool :=
  a.base = shmaddr ∧ a.backing.isDevice

/-- `shmdt` on the area list. -/
def shmdt (shmaddr : ℕ) (m : Mm) : Mm × ℤ :=
  if m.space.areas.any (·.isDeviceAt shmaddr) then
    ({ m with space := { m.space with areas := m.space.areas.eraseP (·.isDeviceAt shmaddr) } }, 0)
  else (m, EINVAL)

end Astryx
