import Astryx.Security.Dacl

/-!
# Access tokens

`check_token_access` makes a subject of a token. Every SID becomes the last of its sub-authorities,
and a group that is disabled or `deny_only` is left out, also for the deny entries, although its
field says that it is used in these. So a token may be granted what a deny entry refuses it once the
group is marked. The primary group counts whether or not it is an enabled group of the token, and a
user whose last sub-authority is 0, such as Everyone (S-1-1-0), is privileged like LocalSystem.

## Main results

* `checkTokenAccess_restrictive` — when the marking of groups grants nothing, and when a grant is
  that of the user and the enabled groups
-/

namespace Astryx.Security

/-- A security identifier. -/
structure Sid where
  revision : BitVec 8
  authority : Vector (BitVec 8) 6
  subAuthorities : List (BitVec 32)
  deriving DecidableEq

/-- S-1-5-18 -/
def sidLocalSystem : Sid := ⟨1, #v[0, 0, 0, 0, 0, 5], [18]⟩

/-- The number that stands for the identifier in an access check. -/
def Sid.lastId (sid : Sid) : SecurityId := sid.subAuthorities.getLast?.getD 0xFFFFFFFF

/-- No access check reads whether a group is mandatory or an owner. -/
structure TokenGroup where
  sid : Sid
  enabled : Bool
  denyOnly : Bool

/-- The fields that `check_token_access` reads. -/
structure AccessToken where
  user : Sid
  groups : List TokenGroup
  primaryGroup : Sid

namespace AccessToken

variable (tok : AccessToken)

/-- The numbers of the enabled groups. -/
def groupIds : List SecurityId :=
  (tok.groups.filter fun g => g.enabled && !g.denyOnly).filterMap fun g =>
    g.sid.subAuthorities.getLast?

/-- The subject that `check_token_access` makes of the token. -/
def subject : SecuritySubject where
  uid := tok.user.lastId
  gid := tok.primaryGroup.lastId
  groups := tok.groupIds
  isPrivileged := tok.user.lastId = 0 ∨ tok.user = sidLocalSystem

/-- The groups at some places are marked `deny_only`. -/
def markDenyOnly (marked : ℕ → Bool) : AccessToken :=
  { tok with groups := tok.groups.mapIdx fun i g => { g with denyOnly := g.denyOnly || marked i } }

end AccessToken

/-- LocalSystem is granted everything, and any other token what its subject is. -/
def checkTokenAccess (tok : AccessToken) (sd : SecurityDescriptor) (desired : AccessMask) : Bool :=
  if tok.user = sidLocalSystem then true else checkAccess tok.subject sd desired

open List

/-! ## One right at a time -/

namespace SecuritySubject

variable (subject : SecuritySubject) (sd : SecurityDescriptor)

/-- The right is in an allow entry that applies to the caller; with no list, the letters of the
caller's class have it. -/
def HasRight (i : ℕ) : Prop :=
  match sd.dacl with
  | some dacl => ∃ ace ∈ dacl, aceApplies subject sd .allow ace = true ∧ ace.mask.getLsbD i = true
  | none => (modeToMask (letters sd.mode (modeShift subject sd))).getLsbD i = true

/-- The right is in a deny entry that applies to the caller. -/
def Refused (i : ℕ) : Prop :=
  ∃ ace ∈ sd.dacl.getD [], aceApplies subject sd .deny ace = true ∧ ace.mask.getLsbD i = true

/-- If there is a list, some allow entry applies to the caller. -/
def HasEntry : Prop :=
  ∀ dacl ∈ sd.dacl, ∃ ace ∈ dacl, aceApplies subject sd .allow ace = true

end SecuritySubject

variable {subject subject' : SecuritySubject} {sd : SecurityDescriptor} {desired : AccessMask}

lemma getLsbD_and_not (a b : AccessMask) (i : ℕ) :
    (a &&& ~~~b).getLsbD i = (a.getLsbD i && !b.getLsbD i) := by
  cases ha : a.getLsbD i with
  | false => simp [ha]
  | true => simp [ha, BitVec.lt_of_getLsbD ha]

lemma eq_zero_iff_getLsbD (a : AccessMask) : a = 0 ↔ ∀ i, a.getLsbD i = false := by
  refine ⟨fun h i => by simp [h], fun h => BitVec.eq_of_getLsbD_eq fun i _ => ?_⟩
  simp [h i]

lemma allowPass_iff (entries : List AccessControlEntry) : ∀ {remaining : AccessMask},
    allowPass subject sd entries remaining ↔ (∃ ace ∈ entries, aceApplies subject sd .allow ace) ∧
      ∀ i, remaining.getLsbD i = true →
        ∃ ace ∈ entries, aceApplies subject sd .allow ace = true ∧ ace.mask.getLsbD i = true := by
  induction entries with
  | nil => simp [allowPass]
  | cons ace entries ih =>
    intro remaining
    have hbit := getLsbD_and_not remaining ace.mask
    rw [allowPass]
    split_ifs with _ hz
    · rw [hz] at hbit
      grind
    · -- what is left is allowed by a later entry
      obtain ⟨i, hi⟩ : ∃ i, (remaining &&& ~~~ace.mask).getLsbD i := by
        by_contra hnone
        exact hz ((eq_zero_iff_getLsbD _).mpr fun i => by simpa using not_exists.mp hnone i)
      rw [ih]
      grind
    · rw [ih]
      grind

lemma checkModeBits_iff : checkModeBits subject sd desired ↔ ∀ i, desired.getLsbD i = true →
    (modeToMask (letters sd.mode (modeShift subject sd))).getLsbD i = true := by
  rw [checkModeBits, decide_eq_true_eq, ← and_not_eq_zero_iff]
  refine (eq_zero_iff_getLsbD _).trans (forall_congr' fun i => ?_)
  rw [getLsbD_and_not]
  grind

/-- A caller without privilege is granted the rights that it has and is not refused. -/
lemma checkAccess_iff (hp : subject.isPrivileged = false) : checkAccess subject sd desired ↔
    subject.HasEntry sd ∧
      ∀ i, desired.getLsbD i = true → subject.HasRight sd i ∧ ¬ subject.Refused sd i := by
  rw [checkAccess, hp, if_neg Bool.false_ne_true]
  unfold SecuritySubject.HasEntry SecuritySubject.HasRight SecuritySubject.Refused
  cases sd.dacl with
  | none => simp [checkModeBits_iff]
  | some dacl =>
    have hmask : ∀ ace : AccessControlEntry, ace.mask &&& desired = 0 ↔
        ∀ i, desired.getLsbD i = true → ace.mask.getLsbD i = false := by
      intro ace
      refine (eq_zero_iff_getLsbD _).trans (forall_congr' fun i => ?_)
      rw [BitVec.getLsbD_and]
      grind
    dsimp only
    rw [evaluateDacl]
    split_ifs with hdeny <;> simp only [any_eq_true, Bool.and_eq_true, decide_eq_true_eq,
      allowPass_iff, Option.getD_some, Option.mem_def, Option.some.injEq, forall_eq'] at hdeny ⊢
      <;> grind

lemma SecuritySubject.HasRight.lt {i : ℕ} (h : subject.HasRight sd i) : i < 32 := by
  rw [SecuritySubject.HasRight] at h
  split at h
  · obtain ⟨ace, -, -, hbit⟩ := h
    exact BitVec.lt_of_getLsbD hbit
  · exact BitVec.lt_of_getLsbD h

lemma not_refused_of_none (hdacl : sd.dacl = none) (i : ℕ) : ¬ subject.Refused sd i := by
  rintro ⟨ace, hace, -⟩
  rw [hdacl] at hace
  cases hace

/-- Something holds of all that a caller without privilege is granted if it holds of each right. -/
lemma forall_checkAccess_iff (hp : subject.isPrivileged = false) {P : ℕ → Prop} :
    (∀ desired, checkAccess subject sd desired → ∀ i, desired.getLsbD i = true → P i) ↔
      ∀ i, subject.HasRight sd i → ¬ subject.Refused sd i → P i := by
  constructor
  · intro h i hright hrefused
    have hi := hright.lt
    have honly : ∀ j, (BitVec.twoPow 32 i).getLsbD j = true → i = j := by
      intro j hj
      simpa [hi] using hj
    refine h (.twoPow 32 i) ((checkAccess_iff hp).mpr ⟨fun dacl hdacl => ?_, fun j hj => ?_⟩) i
      (by simp [hi])
    · rw [SecuritySubject.HasRight, Option.mem_def.mp hdacl] at hright
      exact hright.imp fun ace hace => ⟨hace.1, hace.2.1⟩
    · exact honly j hj ▸ ⟨hright, hrefused⟩
  · intro h desired hgranted i hi
    obtain ⟨hright, hrefused⟩ := ((checkAccess_iff hp).mp hgranted).2 i hi
    exact h i hright hrefused

/-- The rights of one class are rights of the other if its letters are. -/
lemma forall_modeToMask_iff (a b : BitVec 3) :
    (∀ i, (modeToMask a).getLsbD i = true → (modeToMask b).getLsbD i = true) ↔ a &&& b = a := by
  have hmask : ∀ a b : BitVec 3, modeToMask a &&& ~~~modeToMask b = 0 ↔ a &&& b = a := by decide
  rw [← hmask, eq_zero_iff_getLsbD]
  refine forall_congr' fun i => ?_
  rw [getLsbD_and_not]
  grind

/-! ## Tokens -/

namespace AccessToken

variable (tok : AccessToken) (sd : SecurityDescriptor)

/-- The right is in an allow entry for the user, an enabled group or Everyone; with no list, the
letters of the class that the user and the enabled groups put the token in have it. -/
def OwnRight (i : ℕ) : Prop :=
  match sd.dacl with
  | some dacl => ∃ ace ∈ dacl, ace.aceType = .allow ∧ ace.flags &&& aceInheritOnly = 0 ∧
      (ace.sid = tok.user.lastId ∨ ace.sid ∈ tok.groupIds ∨ ace.sid = sidEveryone) ∧
      ace.mask.getLsbD i = true
  | none => (modeToMask (letters sd.mode (if tok.user.lastId = sd.owner then 6
      else if tok.groupIds.contains sd.group then 3 else 0))).getLsbD i = true

/-- What deny entries refuse the token they refuse it with the groups marked, or the allow entries
no longer give it that. With no list, the token stays in its class, or the letters that others have
the object's group has. -/
def KeepsDenials (marked : ℕ → Bool) : Prop :=
  tok.user.lastId = 0 ∨ match sd.dacl with
    | some _ => ∀ i < 32, tok.subject.Refused sd i →
        (tok.markDenyOnly marked).subject.Refused sd i ∨
          ¬ (tok.markDenyOnly marked).subject.HasRight sd i
    | none => tok.user.lastId = sd.owner ∨
        (tok.subject.isMemberOf sd.group = true →
          (tok.markDenyOnly marked).subject.isMemberOf sd.group = true) ∨
        letters sd.mode 0 &&& letters sd.mode 3 = letters sd.mode 0

/-- The user's number is not 0, or the entries give its token all that is not refused to everybody;
and what entries for the primary group allow is refused, or allowed by others too. With no list, the
user's number is not 0 and the primary group does not put the token in the object's group, or gives
it no letter that others do not have. -/
def OwnRights : Prop :=
  match sd.dacl with
  | some _ =>
    (tok.user.lastId = 0 → ∀ i < 32, (i = 3 → sd.mode &&& 0o111 ≠ 0) → tok.OwnRight sd i) ∧
    (tok.user.lastId ≠ 0 →
      ∀ i < 32, tok.subject.HasRight sd i → tok.subject.Refused sd i ∨ tok.OwnRight sd i)
  | none => tok.user.lastId ≠ 0 ∧ (tok.user.lastId = sd.owner ∨
      (tok.subject.isMemberOf sd.group = true → sd.group ∈ tok.groupIds) ∨
      letters sd.mode 3 &&& letters sd.mode 0 = letters sd.mode 3)

variable {tok sd} {marked : ℕ → Bool}

lemma isMemberOf_of_marked {sid : SecurityId}
    (h : (tok.markDenyOnly marked).subject.isMemberOf sid) : tok.subject.isMemberOf sid := by
  simp only [SecuritySubject.isMemberOf, decide_eq_true_eq] at h ⊢
  refine h.imp id fun h => ?_
  obtain ⟨g, hg, hid⟩ := mem_filterMap.mp h
  obtain ⟨hmem, hon⟩ := mem_filter.mp hg
  obtain ⟨i, hi, rfl⟩ := mem_mapIdx.mp hmem
  refine mem_filterMap.mpr ⟨tok.groups[i], mem_filter.mpr ⟨getElem_mem hi, ?_⟩, hid⟩
  simp_all

lemma aceApplies_of_marked {aceType : AceType} {ace : AccessControlEntry}
    (h : aceApplies (tok.markDenyOnly marked).subject sd aceType ace) :
    aceApplies tok.subject sd aceType ace := by
  simp only [aceApplies, aceMatchesSubject_eq, SecuritySubject.isNamed, decide_eq_true_eq] at h ⊢
  exact ⟨h.1, h.2.1, h.2.2.imp id (Or.imp isMemberOf_of_marked id)⟩

lemma marking_iff (hplain : tok.user.lastId ≠ 0) (hsystem : tok.user ≠ sidLocalSystem) :
    (∀ desired, checkAccess (tok.markDenyOnly marked).subject sd desired = true →
      checkAccess tok.subject sd desired = true) ↔ tok.KeepsDenials sd marked := by
  have hp : tok.subject.isPrivileged = false := decide_eq_false (not_or.mpr ⟨hplain, hsystem⟩)
  have hp' : (tok.markDenyOnly marked).subject.isPrivileged = false := hp
  have hentry : ∀ desired, checkAccess (tok.markDenyOnly marked).subject sd desired = true →
      tok.subject.HasEntry sd := by
    intro desired h dacl hdacl
    obtain ⟨ace, hace, happlies⟩ := ((checkAccess_iff hp').mp h).1 dacl hdacl
    exact ⟨ace, hace, aceApplies_of_marked happlies⟩
  have hrights : (∀ desired, checkAccess (tok.markDenyOnly marked).subject sd desired = true →
      checkAccess tok.subject sd desired = true) ↔
      ∀ i, (tok.markDenyOnly marked).subject.HasRight sd i →
        ¬ (tok.markDenyOnly marked).subject.Refused sd i →
          tok.subject.HasRight sd i ∧ ¬ tok.subject.Refused sd i := by
    rw [← forall_checkAccess_iff hp']
    exact forall₂_congr fun desired h =>
      (checkAccess_iff hp).trans (and_iff_right (hentry desired h))
  rw [hrights, KeepsDenials, or_iff_right hplain]
  cases hdacl : sd.dacl with
  | some dacl =>
    have hkeeps : ∀ i, (tok.markDenyOnly marked).subject.HasRight sd i →
        tok.subject.HasRight sd i := by
      intro i h
      rw [SecuritySubject.HasRight, hdacl] at h ⊢
      exact h.imp fun ace hace => ⟨hace.1, aceApplies_of_marked hace.2.1, hace.2.2⟩
    exact ⟨fun h i _ hrefused => by grind, fun h i hright hrefused =>
      ⟨hkeeps i hright, fun hdeny => (h i hright.lt hdeny).elim hrefused (absurd hright)⟩⟩
  | none =>
    have hmember : (tok.markDenyOnly marked).subject.isMemberOf sd.group →
        tok.subject.isMemberOf sd.group := isMemberOf_of_marked
    have huid : (tok.markDenyOnly marked).subject.uid = tok.subject.uid := rfl
    simp only [not_refused_of_none hdacl, not_false_eq_true, and_true, forall_const,
      SecuritySubject.HasRight, hdacl, forall_modeToMask_iff, modeShift, huid]
    show _ ↔ tok.subject.uid = sd.owner ∨ _
    split_ifs <;> grind

/-- A privileged token is granted every right, but not to execute what nobody may. -/
lemma forall_privileged_iff (hzero : tok.user.lastId = 0) {P : ℕ → Prop} :
    (∀ desired, checkAccess tok.subject sd desired = true → ∀ i, desired.getLsbD i = true → P i) ↔
      ∀ i < 32, (i = 3 → sd.mode &&& 0o111 ≠ 0) → P i := by
  have hp : tok.subject.isPrivileged := decide_eq_true (.inl hzero)
  have hcheck : ∀ desired : AccessMask, checkAccess tok.subject sd desired = true ↔
      (desired.getLsbD 3 = true → sd.mode &&& 0o111 ≠ 0) := by
    intro desired
    have hexec : desired &&& fileExecute ≠ 0 ↔ desired.getLsbD 3 = true := by
      rw [ne_eq, eq_zero_iff_getLsbD, show fileExecute = .twoPow 32 3 from rfl]
      simp only [BitVec.getLsbD_and, BitVec.getLsbD_twoPow]
      grind
    rw [checkAccess, if_pos hp, decide_eq_true_eq, hexec]
    exact not_and
  simp only [hcheck]
  constructor
  · intro h i hi hmode
    refine h (.twoPow 32 i) (fun hthree => hmode ?_) i (by simp [hi])
    simpa [hi, eq_comm] using hthree
  · intro h desired hgranted i hi
    exact h i (BitVec.lt_of_getLsbD hi) fun hthree => hgranted (hthree ▸ hi)

lemma ownRight_iff (hsystem : tok.user ≠ sidLocalSystem) :
    (∀ desired, checkAccess tok.subject sd desired = true →
      ∀ i, desired.getLsbD i = true → tok.OwnRight sd i) ↔ tok.OwnRights sd := by
  rw [OwnRights]
  by_cases hzero : tok.user.lastId = 0
  · rw [forall_privileged_iff hzero]
    cases hdacl : sd.dacl with
    | some dacl =>
      simp only [hzero, forall_const, ne_eq, not_true_eq_false, IsEmpty.forall_iff, and_true]
    | none =>
      -- no letter has the last right
      have hlast : ∀ a : BitVec 3, (modeToMask a).getLsbD 31 = false := by decide
      refine iff_of_false (fun h => ?_) fun h => h.1 hzero
      have hright := h 31 (by decide) nofun
      rw [OwnRight, hdacl] at hright
      exact absurd hright (Bool.eq_false_iff.mp (hlast _))
  have hp : tok.subject.isPrivileged = false := decide_eq_false (not_or.mpr ⟨hzero, hsystem⟩)
  rw [forall_checkAccess_iff hp]
  cases hdacl : sd.dacl with
  | some dacl =>
    simp only [hzero, IsEmpty.forall_iff, ne_eq, not_false_eq_true, forall_const, true_and]
    exact ⟨fun h i _ hright => or_iff_not_imp_left.mpr (h i hright), fun h i hright hrefused =>
      (h i hright.lt hright).resolve_left hrefused⟩
  | none =>
    have hmember : sd.group ∈ tok.groupIds → tok.subject.isMemberOf sd.group := fun h =>
      decide_eq_true (.inr h)
    have huid : tok.subject.uid = tok.user.lastId := rfl
    simp only [not_refused_of_none hdacl, not_false_eq_true, forall_const, ne_eq, hzero, true_and,
      SecuritySubject.HasRight, OwnRight, hdacl, forall_modeToMask_iff, modeShift, huid]
    split_ifs <;> grind

end AccessToken

/-- **Restricting a token never grants**: marking groups grants nothing exactly if the denials are
kept, a deny entry never does, and what is granted the user, the enabled groups or Everyone are
allowed exactly under `OwnRights`. -/
theorem checkTokenAccess_restrictive (tok : AccessToken) (hsystem : tok.user ≠ sidLocalSystem)
    (sd : SecurityDescriptor) :
    (∀ marked, (∀ desired, checkTokenAccess (tok.markDenyOnly marked) sd desired = true →
      checkTokenAccess tok sd desired = true) ↔ tok.KeepsDenials sd marked) ∧
    (∀ l₁ l₂ ace desired, ace.aceType = .deny →
      checkTokenAccess tok { sd with dacl := some (l₁ ++ ace :: l₂) } desired = true →
      checkTokenAccess tok { sd with dacl := some (l₁ ++ l₂) } desired = true) ∧
    ((∀ desired, checkTokenAccess tok sd desired = true →
      ∀ i, desired.getLsbD i = true → tok.OwnRight sd i) ↔ tok.OwnRights sd) := by
  have hcheck : ∀ tok : AccessToken, tok.user ≠ sidLocalSystem → ∀ sd desired,
      checkTokenAccess tok sd desired = checkAccess tok.subject sd desired :=
    fun _ h _ _ => if_neg h
  have hmarked : ∀ marked, (tok.markDenyOnly marked).user ≠ sidLocalSystem := fun _ => hsystem
  simp only [hcheck _ hsystem, hcheck _ (hmarked _)]
  refine ⟨fun marked => ?_, fun l₁ l₂ ace desired hace h => ?_, AccessToken.ownRight_iff hsystem⟩
  · by_cases hzero : tok.user.lastId = 0
    · -- the user is privileged whatever the groups are
      have hp : tok.subject.isPrivileged := decide_eq_true (.inl hzero)
      have hp' : (tok.markDenyOnly marked).subject.isPrivileged := hp
      refine iff_of_true (fun desired => ?_) (.inl hzero)
      rw [checkAccess, checkAccess, if_pos hp, if_pos hp']
      exact id
    · exact AccessToken.marking_iff hzero hsystem
  · by_cases hp : tok.subject.isPrivileged
    · rw [checkAccess, if_pos hp] at h ⊢
      exact h
    rw [Bool.not_eq_true] at hp
    rw [checkAccess_iff hp] at h ⊢
    simp only [SecuritySubject.HasEntry, SecuritySubject.HasRight, SecuritySubject.Refused,
      aceApplies, aceMatchesSubject_eq, decide_eq_true_eq, Option.mem_def, Option.some.injEq,
      forall_eq', Option.getD_some] at h ⊢
    grind

/-- A user with one enabled group. -/
def aUser (group primary : BitVec 32) : AccessToken :=
  ⟨⟨1, #v[0, 0, 0, 0, 0, 5], [21, 1000]⟩, [⟨⟨1, #v[0, 0, 0, 0, 0, 5], [32, group]⟩, true, false⟩],
    ⟨1, #v[0, 0, 0, 0, 0, 5], [32, primary]⟩⟩

/-- Everyone may read but the members of group 545. -/
def readable : SecurityDescriptor :=
  ⟨0, 0, some [⟨.deny, 545, fileReadData, 0⟩, ⟨.allow, sidEveryone, fileReadData, 0⟩], 0⟩

theorem checkTokenAccess_restrictive_of_otherGroup :
    checkTokenAccess (aUser 546 513) readable fileReadData = true := by
  have hmark := (checkTokenAccess_restrictive (aUser 546 513) (by decide) readable).1
  refine (hmark fun _ => true).mpr ?_ fileReadData (by decide)
  unfold AccessToken.KeepsDenials SecuritySubject.Refused SecuritySubject.HasRight readable
  decide

/-- Marking the group that is refused grants; a user with the number 0 may read what no entry
allows; and an entry for the primary group allows, though it is an enabled group no more. -/
theorem denyOnly_grants :
    (checkTokenAccess (aUser 545 513) readable fileReadData = false ∧
      checkTokenAccess ((aUser 545 513).markDenyOnly fun _ => true) readable fileReadData = true) ∧
    checkTokenAccess { aUser 545 513 with user := ⟨1, #v[0, 0, 0, 0, 0, 1], [0]⟩ }
      { readable with dacl := some [] } fileReadData = true ∧
    checkTokenAccess ((aUser 545 545).markDenyOnly fun _ => true)
      { readable with dacl := some [⟨.allow, 545, fileReadData, 0⟩] } fileReadData = true := by
  decide

end Astryx.Security
