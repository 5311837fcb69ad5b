import Mathlib

/-!
# The DACL and the mode bits

`security/mod.rs` keeps two descriptions of who may do what to an object: the mode bits, and an
access control list that `SecurityDescriptor::new` and the three setters generate from them.
`check_access` adds up the entries of the list that name the caller, and users and groups share one
number space; `check_mode_bits` reads the one class the caller falls in. The two agree exactly when
the classes whose entries name the caller have no letter that the caller's own class withholds.
-/

namespace Astryx.Security

open List

/-- `SecurityId`, the number of a user or of a group. -/
abbrev SecurityId := BitVec 32

/-- A set of access rights. -/
abbrev AccessMask := BitVec 32

/-- `SID_EVERYONE` -/
def sidEveryone : SecurityId := 0xFFFFFFFF

/-- `FILE_READ_DATA` -/
def fileReadData : AccessMask := 1 <<< 0

/-- `FILE_WRITE_DATA` -/
def fileWriteData : AccessMask := 1 <<< 1

/-- `FILE_APPEND_DATA` -/
def fileAppendData : AccessMask := 1 <<< 2

/-- `FILE_EXECUTE` -/
def fileExecute : AccessMask := 1 <<< 3

/-- `FILE_READ_ATTRIBUTES` -/
def fileReadAttributes : AccessMask := 1 <<< 4

/-- `FILE_WRITE_ATTRIBUTES` -/
def fileWriteAttributes : AccessMask := 1 <<< 5

/-- `FILE_READ_EA` -/
def fileReadEa : AccessMask := 1 <<< 6

/-- `FILE_WRITE_EA` -/
def fileWriteEa : AccessMask := 1 <<< 7

/-- `READ_CONTROL` -/
def readControl : AccessMask := 1 <<< 17

/-- `ACE_INHERIT_ONLY` -/
def aceInheritOnly : BitVec 8 := 1 <<< 2

/-- Whether an entry grants or refuses. -/
inductive AceType where
  | allow | deny
  deriving DecidableEq

/-- An entry: whom it is for and the rights it is about. -/
structure AccessControlEntry where
  aceType : AceType
  sid : SecurityId
  mask : AccessMask
  flags : BitVec 8

/-- The system list is left out: no access check reads it. -/
structure SecurityDescriptor where
  owner : SecurityId
  group : SecurityId
  dacl : Option (List AccessControlEntry)
  mode : BitVec 32

/-- Who asks for access. -/
structure SecuritySubject where
  uid : SecurityId
  gid : SecurityId
  groups : List SecurityId
  isPrivileged : Bool

/-- `mode_to_mask` of the three letters of a class. -/
def modeToMask (rwx : BitVec 3) : AccessMask :=
  (if rwx &&& 4 ≠ 0 then fileReadData ||| fileReadAttributes ||| fileReadEa |||
    readControl else 0) |||
  (if rwx &&& 2 ≠ 0 then fileWriteData ||| fileAppendData ||| fileWriteAttributes ||| fileWriteEa
    else 0) |||
  (if rwx &&& 1 ≠ 0 then fileExecute else 0)

/-- The letters of one class, `(mode >> shift) & 0o7`. -/
def letters (mode : BitVec 32) (shift : ℕ) : BitVec 3 := (mode >>> shift).setWidth 3

/-- The entry of one class in `Acl::from_mode`, absent when the class may do nothing. -/
def modeAce (mode : BitVec 32) (sid : SecurityId) (shift : ℕ) : List AccessControlEntry :=
  let mask := modeToMask (letters mode shift)
  if mask ≠ 0 then [{ aceType := .allow, sid, mask, flags := 0 }] else []

/-- `Acl::from_mode`. -/
def fromMode (owner group : SecurityId) (mode : BitVec 32) : List AccessControlEntry :=
  modeAce mode owner 6 ++ modeAce mode group 3 ++ modeAce mode sidEveryone 0

namespace SecurityDescriptor

/-- The descriptor of a new object. -/
def new (owner group : SecurityId) (mode : BitVec 32) : SecurityDescriptor :=
  { owner, group, dacl := some (fromMode owner group mode), mode }

/-- `chmod`, which makes a new list. -/
def setMode (sd : SecurityDescriptor) (mode : BitVec 32) : SecurityDescriptor :=
  { sd with mode, dacl := some (fromMode sd.owner sd.group mode) }

/-- The owner changes, which makes a new list. -/
def setOwner (sd : SecurityDescriptor) (owner : SecurityId) : SecurityDescriptor :=
  { sd with owner, dacl := some (fromMode owner sd.group sd.mode) }

/-- The group changes, which makes a new list. -/
def setGroup (sd : SecurityDescriptor) (group : SecurityId) : SecurityDescriptor :=
  { sd with group, dacl := some (fromMode sd.owner group sd.mode) }

end SecurityDescriptor

/-- A change to a descriptor. -/
inductive SdOp where
  | setMode (mode : BitVec 32)
  | setOwner (owner : SecurityId)
  | setGroup (group : SecurityId)

/-- The change. -/
def SdOp.apply (sd : SecurityDescriptor) : SdOp → SecurityDescriptor
  | .setMode mode => sd.setMode mode
  | .setOwner owner => sd.setOwner owner
  | .setGroup group => sd.setGroup group

section

variable (subject : SecuritySubject) (sd : SecurityDescriptor)

/-- By the primary group or one of the others. -/
def SecuritySubject.isMemberOf (group : SecurityId) : Bool :=
  subject.gid = group ∨ group ∈ subject.groups

/-- The entry is for the subject. -/
def aceMatchesSubject (ace : AccessControlEntry) : Bool :=
  ace.sid = sd.owner ∧ subject.uid = sd.owner ∨ ace.sid = sd.group ∧ subject.isMemberOf sd.group ∨
    ace.sid = sidEveryone ∨ ace.sid = subject.uid ∨ subject.isMemberOf ace.sid

/-- The test both passes of `evaluate_dacl` make before they look at an entry's mask. -/
def aceApplies (aceType : AceType) (ace : AccessControlEntry) : Bool :=
  ace.aceType = aceType ∧ ace.flags &&& aceInheritOnly = 0 ∧ aceMatchesSubject subject sd ace

/-- The second pass of `evaluate_dacl`. -/
def allowPass : List AccessControlEntry → AccessMask → Bool
  | [], _ => false
  | ace :: entries, remaining =>
    if aceApplies subject sd .allow ace then
      if remaining &&& ~~~ace.mask = 0 then true else allowPass entries (remaining &&& ~~~ace.mask)
    else allowPass entries remaining

/-- No entry refuses a right asked for, and the granting ones add up to all of them. -/
def evaluateDacl (dacl : List AccessControlEntry) (desired : AccessMask) : Bool :=
  if dacl.any fun ace => aceApplies subject sd .deny ace && ace.mask &&& desired ≠ 0 then false
  else allowPass subject sd dacl desired

/-- Where `check_mode_bits` finds the letters of the caller's class: owner, group or other. -/
def modeShift : ℕ :=
  if subject.uid = sd.owner then 6 else if subject.isMemberOf sd.group then 3 else 0

/-- The first class that fits the subject decides by its three bits. -/
def checkModeBits (desired : AccessMask) : Bool :=
  desired &&& modeToMask (letters sd.mode (modeShift subject sd)) = desired

/-- A privileged subject is refused only execution of what nobody may execute. -/
def checkAccess (desired : AccessMask) : Bool :=
  if subject.isPrivileged then ¬ (desired &&& fileExecute ≠ 0 ∧ sd.mode &&& 0o111 = 0)
  else match sd.dacl with
    | some dacl => evaluateDacl subject sd dacl desired
    | none => checkModeBits subject sd desired

/-! ## What a list grants -/

/-- The rights in the entries of a list that apply to the caller. -/
def granted : List AccessControlEntry → AccessMask
  | [] => 0#32
  | ace :: entries =>
    (if aceApplies subject sd .allow ace then ace.mask else 0#32) ||| granted entries

variable {subject sd}

lemma granted_append (l₁ l₂ : List AccessControlEntry) :
    granted subject sd (l₁ ++ l₂) = granted subject sd l₁ ||| granted subject sd l₂ := by
  induction l₁ with
  | nil => simp [granted]
  | cons ace l₁ ih => rw [cons_append, granted, granted, ih, BitVec.or_assoc]

lemma and_not_eq_zero_iff {a b : AccessMask} : a &&& ~~~b = 0#32 ↔ a &&& b = a := by
  simp only [BitVec.eq_of_getElem_eq_iff, BitVec.getElem_and, BitVec.getElem_not,
    BitVec.getElem_zero]
  refine forall₂_congr fun i hi => ?_
  cases a[i] <;> cases b[i] <;> simp

/-- The second pass succeeds when nothing that is wanted lies outside what the list grants. -/
lemma allowPass_eq (entries : List AccessControlEntry) :
    ∀ {remaining : AccessMask}, remaining ≠ 0 →
      allowPass subject sd entries remaining =
        decide (remaining &&& ~~~granted subject sd entries = 0) := by
  induction entries with
  | nil =>
    intro remaining hne
    rw [allowPass, granted, BitVec.not_zero, BitVec.and_allOnes]
    exact (decide_eq_false hne).symm
  | cons ace entries ih =>
    intro remaining hne
    rw [allowPass, granted]
    split
    · rw [BitVec.not_or, ← BitVec.and_assoc]
      split
      next hz => simp [hz]
      next hz => exact ih hz
    · rw [BitVec.zero_or]
      exact ih hne

/-- The identifiers an entry can have to apply to the caller. -/
def SecuritySubject.isNamed (subject : SecuritySubject) (sid : SecurityId) : Bool :=
  sid = subject.uid ∨ subject.isMemberOf sid ∨ sid = sidEveryone

lemma aceMatchesSubject_eq (ace : AccessControlEntry) :
    aceMatchesSubject subject sd ace = subject.isNamed ace.sid := by
  rw [aceMatchesSubject, SecuritySubject.isNamed, decide_eq_decide]
  grind

/-! ## Letters and rights -/

lemma modeToMask_or : ∀ a b : BitVec 3, modeToMask (a ||| b) = modeToMask a ||| modeToMask b := by
  decide

lemma modeToMask_injective : ∀ a b : BitVec 3, modeToMask a = modeToMask b → a = b := by
  decide

/-- The letters of a class, if its entry names the caller. -/
def namedLetters (subject : SecuritySubject) (mode : BitVec 32) (sid : SecurityId)
    (shift : ℕ) : BitVec 3 :=
  if subject.isNamed sid then letters mode shift else 0

lemma granted_modeAce (mode : BitVec 32) (sid : SecurityId) (shift : ℕ) :
    granted subject sd (modeAce mode sid shift) =
      modeToMask (namedLetters subject mode sid shift) := by
  rw [modeAce, namedLetters]
  split
  · simp only [granted, aceApplies, aceMatchesSubject_eq]
    split <;> simp_all
    rfl
  next hz =>
    rw [ne_eq, not_not] at hz
    split
    · exact hz.symm
    · rfl

/-- The letters of all the classes whose entries name the caller. -/
def SecuritySubject.allLetters (subject : SecuritySubject) (sd : SecurityDescriptor) : BitVec 3 :=
  namedLetters subject sd.mode sd.owner 6 ||| namedLetters subject sd.mode sd.group 3 |||
    namedLetters subject sd.mode sidEveryone 0

lemma letters_modeShift_or (subject : SecuritySubject) (sd : SecurityDescriptor) :
    letters sd.mode (modeShift subject sd) ||| subject.allLetters sd = subject.allLetters sd := by
  have hnamed : ∀ {s : SecurityId} {shift : ℕ}, subject.isNamed s →
      namedLetters subject sd.mode s shift = letters sd.mode shift := fun h => if_pos h
  rw [modeShift, SecuritySubject.allLetters]
  split
  next h =>
    rw [hnamed (by simp [SecuritySubject.isNamed, h])]
    grind
  split
  next h =>
    rw [hnamed (s := sd.group) (by simp [SecuritySubject.isNamed, h])]
    grind
  · rw [hnamed (s := sidEveryone) (by simp [SecuritySubject.isNamed])]
    grind

/-- The list is the one `from_mode` makes of the other fields. -/
def SecurityDescriptor.Generated (sd : SecurityDescriptor) : Prop :=
  sd.dacl = some (fromMode sd.owner sd.group sd.mode)

lemma checkAccess_of_generated (hp : subject.isPrivileged = false) (hsd : sd.Generated)
    {desired : AccessMask} (hne : desired ≠ 0) :
    checkAccess subject sd desired =
      decide (desired &&& ~~~modeToMask (subject.allLetters sd) = 0) := by
  have hdeny : ¬ (fromMode sd.owner sd.group sd.mode).any fun ace =>
      aceApplies subject sd .deny ace && ace.mask &&& desired ≠ 0 := by
    simp [fromMode, modeAce, aceApplies]
  rw [checkAccess, hp, hsd]
  dsimp only
  rw [evaluateDacl, if_neg hdeny, if_neg nofun, allowPass_eq _ hne, fromMode, granted_append,
    granted_append,
    granted_modeAce, granted_modeAce, granted_modeAce, ← modeToMask_or, ← modeToMask_or]
  rfl

end

lemma generated_foldl (ops : List SdOp) :
    ∀ sd : SecurityDescriptor, sd.Generated → (ops.foldl SdOp.apply sd).Generated := by
  induction ops with
  | nil => exact fun _ => id
  | cons op ops ih =>
    intro sd _
    apply ih
    cases op <;> rfl

theorem checkAccess_eq_checkModeBits_iff (owner group : SecurityId) (mode : BitVec 32)
    (ops : List SdOp) (subject : SecuritySubject) (hp : subject.isPrivileged = false) :
    (∀ desired, desired ≠ 0 →
      checkAccess subject (ops.foldl SdOp.apply (.new owner group mode)) desired =
        checkModeBits subject (ops.foldl SdOp.apply (.new owner group mode)) desired) ↔
      letters (ops.foldl SdOp.apply (.new owner group mode)).mode
        (modeShift subject (ops.foldl SdOp.apply (.new owner group mode))) =
        subject.allLetters (ops.foldl SdOp.apply (.new owner group mode)) := by
  have hsd := generated_foldl ops (.new owner group mode) rfl
  generalize ops.foldl SdOp.apply (.new owner group mode) = sd at hsd
  have hle := congrArg modeToMask (letters_modeShift_or subject sd)
  rw [modeToMask_or] at hle
  constructor
  · -- ask for everything the list grants
    intro h
    apply modeToMask_injective
    by_cases hz : modeToMask (subject.allLetters sd) = 0#32
    · rw [hz, BitVec.or_zero] at hle
      rw [hle, hz]
    have hall := h _ hz
    rw [checkAccess_of_generated hp hsd hz, BitVec.and_not_self, checkModeBits,
      decide_eq_decide] at hall
    grind
  intro h desired hne
  rw [checkAccess_of_generated hp hsd hne, checkModeBits, h, decide_eq_decide]
  exact and_not_eq_zero_iff

theorem checkAccess_eq_checkModeBits_of_0755 :
    checkAccess ⟨5, 6, [], false⟩ (.new 5 6 0o755) fileWriteData =
      checkModeBits ⟨5, 6, [], false⟩ (.new 5 6 0o755) fileWriteData :=
  (checkAccess_eq_checkModeBits_iff 5 6 0o755 [] ⟨5, 6, [], false⟩ rfl).mpr (by decide)
    fileWriteData (by decide)

/-- The owner of an object of mode 0007, and a stranger whose group has the owner's number at mode
0700, are let in by the list and kept out by the mode. -/
theorem checkAccess_ne_checkModeBits :
    (checkAccess ⟨5, 9, [], false⟩ (.new 5 6 0o007) fileReadData = true ∧
      checkModeBits ⟨5, 9, [], false⟩ (.new 5 6 0o007) fileReadData = false) ∧
    (checkAccess ⟨7, 5, [], false⟩ (.new 5 6 0o700) fileReadData = true ∧
      checkModeBits ⟨7, 5, [], false⟩ (.new 5 6 0o700) fileReadData = false) := by
  decide

end Astryx.Security
