import Astryx.Lib.Paths
import Astryx.Vfs.PathCache
import Astryx.Vfs.RamFs

/-!
# Path resolution

`resolve_path_opts` starts at the mount whose path is the longest prefix of the text, skips as many
components as that mount has, looks up the others one by one with the help of the path cache,
crosses into a mount when the text resolved so far is its path, and starts again with a new text at
a symbolic link.

The plain way to resolve a path is `rootWalk`: begin at the root mount, take one component at a
time, and change to a mount when the components walked are those of its path. Three things keep the
two apart. The prefix is one of characters, so a mount at `/mnt` also takes `/mntx`. The jump to the
mount does not look at the directories above it, so the mount point may be missing there, or be a
link. And when two mounts have the same path, the jump takes the last and the crossing takes the
first. `coverWalk` is what the code does apart from the first point.

`..` is looked up like any other name. The deadline and the trace are left out. A text is a list of
characters; of two prefixes of a text the one with more characters is also the one with more bytes.

## Main results

* `resolvePath_eq_walk` — when resolution is `coverWalk`, and when it is `rootWalk`
* `resolvePath_ne_rootWalk` — the three things
-/

namespace Astryx.Vfs

open List Option Paths PathCache

/-- `FileSystemOps`, as far as resolution calls it. -/
structure FileSystem where
  lookup : ℕ → Text → Except VfsError ℕ
  stat : ℕ → Except VfsError FileType
  readlink : ℕ → Except VfsError Text
  lookupCacheable : Bool

/-- The target of a symbolic link. -/
def RamFs.readlink (fs : RamFs) (ino : ℕ) : Except VfsError Text :=
  match fs.get ino with
  | none => .error .notFound
  | some (.symLink target) => .ok target
  | some _ => .error .invalidArg

/-- What resolution asks of a filesystem. -/
def RamFs.ops (fs : RamFs) : FileSystem := ⟨fs.lookup, fs.stat, fs.readlink, true⟩

/-- `MOUNTS` -/
abbrev Mounts := List (Mount FileSystem)

/-! ## Texts -/

/-- Empty components and `.` are filtered out. -/
def isComponent (s : Text) : Bool := s ≠ [] ∧ s ≠ ['.']

/-- The components of a path. -/
def components (path : Text) : List Text := pieces '/' isComponent path

/-- The text that resolution starts again with at a link. -/
def symlinkPath (resolvedSoFar target : Text) (rest : List Text) : Text :=
  if rest = [] then
    if target.head? = some '/' then target else trimEnd '/' resolvedSoFar ++ '/' :: target
  else
    if target.head? = some '/' then trimEnd '/' target ++ '/' :: join '/' rest
    else trimEnd '/' resolvedSoFar ++ '/' :: (target ++ '/' :: join '/' rest)

/-- One more component. -/
def pushComponent (resolvedSoFar component : Text) : Text :=
  if resolvedSoFar.getLast? = some '/' then resolvedSoFar ++ component
    else resolvedSoFar ++ '/' :: component

/-! ## The resolver -/

namespace Mounts

variable (mounts : Mounts)

/-- The search for the starting mount: the last of those with the longest path among the ones that
fit. -/
def deepestLoop (fits : Text → Bool) : Mounts → ℕ → ℕ × ℕ → ℕ × ℕ
  | [], _, best => best
  | mount :: rest, i, best =>
    deepestLoop fits rest (i + 1)
      (if fits mount.path ∧ best.2 ≤ mount.path.length then (i, mount.path.length) else best)

/-- The mount with the longest path that fits. -/
def deepest (fits : Text → Bool) : ℕ := (deepestLoop fits mounts 0 (0, 0)).1

/-- The mount that `path.starts_with` finds. -/
def bestMount (path : Text) : ℕ := mounts.deepest fun p => p.isPrefixOf path

/-- The first mount whose path is the one asked for, and its root. -/
def mountWhere (is : Text → Bool) : Option (ℕ × ℕ) :=
  (mounts.findIdx? fun mount => is mount.path).bind fun i =>
    mounts[i]?.map fun mount => (i, mount.rootInode)

/-- A component as the filesystem has it: the child and its type. -/
def child (m ino : ℕ) (component : Text) : Except VfsError (ℕ × FileType) :=
  match mounts[m]? with
  | none => .error .notFound
  | some mount =>
    match mount.fs.lookup ino component with
    | .error e => .error e
    | .ok child =>
      match mount.fs.stat child with
      | .error e => .error e
      | .ok ftype => .ok (child, ftype)

/-- A child through the cache. -/
def cachedChild (c : PathCache) (m ino : ℕ) (component : Text) :
    Except VfsError (ℕ × FileType) × PathCache :=
  let cacheThis := component ≠ ['.', '.']
  let cached := if cacheThis then c.lookup ⟨m, ino, component⟩ else none
  match cached with
  | some .negative => (.error .notFound, c)
  | some (.positive child ftype) => (.ok (child, ftype), c)
  | none =>
    let gen := c.generation
    match mounts[m]? with
    | none => (.error .notFound, c)
    | some mount =>
      let cacheable := cacheThis ∧ mount.fs.lookupCacheable
      match mount.fs.lookup ino component with
      | .error .notFound =>
        (.error .notFound, if cacheable then c.insert gen ⟨m, ino, component⟩ .negative else c)
      | .error e => (.error e, c)
      | .ok child =>
        match mount.fs.stat child with
        | .error e => (.error e, c)
        | .ok ftype =>
          (.ok (child, ftype),
            if cacheable then c.insert gen ⟨m, ino, component⟩ (.positive child ftype) else c)

/-- `readlink` of a link on a mount. -/
def target (m ino : ℕ) : Except VfsError Text :=
  match mounts[m]? with
  | none => .error .notFound
  | some mount => mount.fs.readlink ino

/-- The loop over the components that remain; `again` resolves another text. -/
def resolveLoop (followFinal : Bool)
    (again : PathCache → Text → Except VfsError (ℕ × ℕ) × PathCache) :
    List Text → ℕ → ℕ → Text → PathCache → Except VfsError (ℕ × ℕ) × PathCache
  | [], curMount, curInode, _, c => (.ok (curMount, curInode), c)
  | component :: rest, curMount, curInode, resolvedSoFar, c =>
    match mounts.cachedChild c curMount curInode component with
    | (.error e, c) => (.error e, c)
    | (.ok (child, ftype), c) =>
      if ftype = .symLink then
        if rest = [] ∧ followFinal = false then (.ok (curMount, child), c)
        else
          match mounts.target curMount child with
          | .error e => (.error e, c)
          | .ok target => again c (symlinkPath resolvedSoFar target rest)
      else
        let resolvedSoFar := pushComponent resolvedSoFar component
        match mounts.mountWhere fun p => p = resolvedSoFar with
        | some (m, root) => resolveLoop followFinal again rest m root resolvedSoFar c
        | none => resolveLoop followFinal again rest curMount child resolvedSoFar c

/-- `resolve_path_opts` with `left` more than the number of links that may still be followed. -/
def resolvePathOpts : ℕ → Bool → PathCache → Text → Except VfsError (ℕ × ℕ) × PathCache
  | 0, _, c, _ => (.error .notFound, c)
  | left + 1, followFinal, c, path =>
    match mounts[mounts.bestMount path]? with
    | none => (.error .notFound, c)
    | some mount =>
      let resolvedSoFar := if mount.path = [] then ['/'] else mount.path
      mounts.resolveLoop followFinal (fun c path => resolvePathOpts left true c path)
        ((components path).drop (components resolvedSoFar).length)
          (mounts.bestMount path) mount.rootInode resolvedSoFar c

/-- `MAX_SYMLINK_DEPTH` -/
def maxSymlinkDepth : ℕ := 16

/-- Resolution that follows a last link. -/
def resolvePath (c : PathCache) (path : Text) : Except VfsError (ℕ × ℕ) × PathCache :=
  mounts.resolvePathOpts (maxSymlinkDepth + 1) true c path

/-! ## The plain walks -/

/-- What a walk comes to: an answer, or a link with the components before it, its target and the
components after it. -/
inductive Walked where
  | done (r : Except VfsError (ℕ × ℕ))
  | link (walked : List Text) (target : Text) (rest : List Text)

/-- The mount at the place with these components, and its root. -/
def mountAt (walked : List Text) : Option (ℕ × ℕ) :=
  mounts.mountWhere fun p => components p = walked

/-- One component at a time, up to the first link. -/
def walk (followFinal : Bool) : List Text → ℕ → ℕ → List Text → Walked
  | [], m, ino, _ => .done (.ok (m, ino))
  | component :: rest, m, ino, walked =>
    match mounts.child m ino component with
    | .error e => .done (.error e)
    | .ok (child, ftype) =>
      if ftype = .symLink then
        if rest = [] ∧ followFinal = false then .done (.ok (m, child))
        else
          match mounts.target m child with
          | .error e => .done (.error e)
          | .ok target => .link walked target rest
      else
        match mounts.mountAt (walked ++ [component]) with
        | some (m', root) => walk followFinal rest m' root (walked ++ [component])
        | none => walk followFinal rest m child (walked ++ [component])

/-- The components to walk after a link. -/
def afterLink (walked : List Text) (target : Text) (rest : List Text) : List Text :=
  (if target.head? = some '/' then [] else walked) ++ components target ++ rest

/-- The reference: from the root mount, with `left` more than the number of links that may be
followed. -/
def rootWalk : ℕ → Bool → List Text → Except VfsError (ℕ × ℕ)
  | 0, _, _ => .error .notFound
  | left + 1, followFinal, path =>
    match mounts.mountAt [] with
    | none => .error .notFound
    | some (m, root) =>
      match mounts.walk followFinal path m root [] with
      | .done r => r
      | .link walked target rest => rootWalk left true (afterLink walked target rest)

/-- The text is the path of a mount or goes on below it. -/
def covers (p path : Text) : Bool := p = ['/'] ∧ path.head? = some '/' ∨ path = p ∨
    (p ++ ['/']).isPrefixOf path

/-- The walk from the deepest mount that covers the text. -/
def coverStart (followFinal : Bool) (path : Text) : Walked :=
  let start := mounts.deepest fun p => covers p path
  match mounts[start]? with
  | none => .done (.error .notFound)
  | some mount =>
    let above := components mount.path
    mounts.walk followFinal ((components path).drop above.length) start mount.rootInode above

/-- Resolution that begins at the deepest covering mount, at the start and after every link. -/
def coverWalk : ℕ → Bool → Text → Except VfsError (ℕ × ℕ)
  | 0, _, _ => .error .notFound
  | left + 1, followFinal, path =>
    match mounts.coverStart followFinal path with
    | .done r => r
    | .link walked target rest => coverWalk left true (symlinkPath (render '/' walked) target rest)

/-- The texts that `coverWalk` resolves, one after the other. -/
def trail : ℕ → Bool → Text → List Text
  | 0, _, _ => []
  | left + 1, followFinal, path =>
    path :: match mounts.coverStart followFinal path with
      | .done _ => []
      | .link walked target rest => trail left true (symlinkPath (render '/' walked) target rest)

/-! ## Assumptions -/

/-- The path is written without empty components. -/
def Normalized (path : Text) : Prop := render '/' (components path) = path

/-- The table has a root and its paths are normalized. -/
structure WellFormed : Prop where
  root : ∃ mount ∈ mounts, mount.path = ['/']
  normalized : ∀ mount ∈ mounts, Normalized mount.path

/-- Every mount whose path the text begins with covers it. -/
def Clean (path : Text) : Prop :=
  ∀ mount ∈ mounts, mount.path.isPrefixOf path = true → covers mount.path path = true

/-- The cache says what the filesystems say. -/
def Coherent (c : PathCache) : Prop := ∀ k v, c.map k = some v →
  match v with
  | .negative => mounts.child k.mount k.dir k.name = .error .notFound
  | .positive child ftype => mounts.child k.mount k.dir k.name = .ok (child, ftype)

/-- The walk of a mount point from a place, if it meets no error and no link. -/
def plainly : List Text → ℕ → ℕ → List Text → Option (ℕ × ℕ)
  | [], m, ino, _ => some (m, ino)
  | component :: rest, m, ino, walked =>
    match mounts.child m ino component with
    | .error _ => none
    | .ok (child, ftype) =>
      if ftype = .symLink then none
      else
        match mounts.mountAt (walked ++ [component]) with
        | some (m', root) => plainly rest m' root (walked ++ [component])
        | none => plainly rest m child (walked ++ [component])

/-- Every mount point can be walked to from the root. -/
def Reachable : Prop := ∀ mount ∈ mounts, ∀ start ∈ mounts.mountAt [],
  (mounts.plainly (components mount.path) start.1 start.2 []).isSome = true

/-! ## Texts and components -/

lemma isComponent_nil : isComponent [] = false := rfl

/-- A text that can be a component. -/
abbrev Component (c : Text) : Prop := Paths.Piece '/' isComponent c

variable {path p : Text} {cs walked rest : List Text} {fits : Text → Bool} {c : PathCache}
  {m ino : ℕ} {followFinal : Bool}

lemma component_concat {c : Text} (hcs : ∀ d ∈ cs, Component d) (hc : Component c) :
    ∀ d ∈ cs ++ [c], Component d :=
  forall_mem_append.mpr ⟨hcs, forall_mem_singleton.mpr hc⟩

lemma components_render (h : ∀ c ∈ cs, Component c) :
    components (render '/' cs) = cs := pieces_render isComponent_nil h

lemma pushComponent_render (h : ∀ c ∈ cs, Component c) (c : Text) :
    pushComponent (render '/' cs) c = render '/' (cs ++ [c]) := by
  rw [pushComponent, render_concat]
  have hlast := Paths.getLast?_render isComponent_nil h
  by_cases hcs : cs = []
  · rw [if_pos (hlast.mpr hcs), if_pos hcs, hcs]
    rfl
  · rw [if_neg (mt hlast.mp hcs), if_neg hcs]

/-- The text after a link has the components after it. -/
lemma components_symlinkPath (target : Text) (hwalked : ∀ c ∈ walked, Component c)
    (hrest : ∀ c ∈ rest, Component c) :
    components (symlinkPath (render '/' walked) target rest) = afterLink walked target rest := by
  have happend : ∀ p q : Text, components (p ++ '/' :: q) = components p ++
      components q := pieces_append
  have htrim : ∀ p : Text, components (trimEnd '/' p) =
      components p := pieces_trimEnd isComponent_nil
  have hjoin : components (join '/' rest) = rest := pieces_join isComponent_nil hrest
  rw [symlinkPath, afterLink]
  split
  next hnil =>
    rw [hnil, append_nil]
    split
    · rfl
    · rw [happend, htrim, components_render hwalked]
  · split
    · rw [happend, htrim, hjoin]
      rfl
    · simp [happend, htrim, components_render hwalked, hjoin]

lemma head?_symlinkPath (walked : List Text) (target : Text) (rest : List Text) :
    (symlinkPath (render '/' walked) target rest).head? = some '/' := by
  have hresolved : ∀ q, (trimEnd '/' (render '/' walked) ++ '/' :: q).head? = some '/' :=
    Paths.head?_trimEnd_append (Paths.head?_render walked)
  rw [symlinkPath]
  split
  · split
    · assumption
    · exact hresolved _
  split
  next habs => exact Paths.head?_trimEnd_append habs _
  · exact hresolved _

/-! ## Finding mounts -/

variable {mounts : Mounts}

/-- If some mount fits, the search ends at one that does. -/
lemma deepestLoop_fits (before rest : Mounts) (best : ℕ × ℕ)
    (h : (∃ mount, (before ++ rest)[best.1]? = some mount ∧ fits mount.path) ∨
      best.2 = 0 ∧ ∃ mount ∈ rest, fits mount.path) :
    ∃ mount, (before ++ rest)[(deepestLoop fits rest before.length best).1]? = some mount ∧
      fits mount.path := by
  induction rest generalizing before best with
  | nil =>
    rcases h with h | ⟨-, mount, hmem, -⟩
    · exact h
    · cases hmem
  | cons mount rest ih =>
    rw [deepestLoop]
    have hassoc : before ++ mount :: rest = (before ++ [mount]) ++ rest := (append_cons ..)
    have hlength : before.length + 1 = (before ++ [mount]).length := by rw [length_append]; rfl
    rw [hassoc, hlength]
    apply ih
    split
    next hfits =>
      refine .inl ⟨mount, ?_, hfits.1⟩
      rw [← hassoc, List.getElem?_append_right le_rfl, Nat.sub_self]
      rfl
    next hfits =>
      rw [hassoc] at h
      refine h.imp id ?_
      rintro ⟨hzero, other, hmem, hother⟩
      refine ⟨hzero, other, (mem_cons.mp hmem).resolve_left ?_, hother⟩
      rintro rfl
      exact hfits ⟨hother, by rw [hzero]; exact Nat.zero_le _⟩

lemma deepestLoop_congr {fits' : Text → Bool} (rest : Mounts) (i : ℕ) (best : ℕ × ℕ)
    (h : ∀ mount ∈ rest, fits mount.path = fits' mount.path) :
    deepestLoop fits rest i best = deepestLoop fits' rest i best := by
  induction rest generalizing i best with
  | nil => rfl
  | cons mount rest ih =>
    rw [deepestLoop, deepestLoop, h mount mem_cons_self]
    exact ih _ _ fun other hmem => h other (by simp [hmem])

lemma covers_iff : covers p path ↔ p = ['/'] ∧ path.head? = some '/' ∨ path = p ∨
    p ++ ['/'] <+: path := by
  simp [covers]

lemma prefix_of_covers (h : covers p path) : p <+: path := by
  rcases covers_iff.mp h with ⟨rfl, hhead⟩ | rfl | hbegins
  · obtain ⟨q, rfl⟩ := List.head?_eq_some_iff.mp hhead
    exact ⟨q, rfl⟩
  · exact prefix_rfl
  · exact (prefix_append p ['/']).trans hbegins

/-- A covering mount has the first components of the text. -/
lemma components_of_covers (h : covers p path) :
    ∃ rest, components path = components p ++ rest := by
  rcases covers_iff.mp h with ⟨rfl, -⟩ | rfl | ⟨q, rfl⟩
  · exact ⟨components path, rfl⟩
  · exact ⟨[], (append_nil _).symm⟩
  refine ⟨components q, ?_⟩
  rw [append_assoc, singleton_append]
  exact pieces_append p q

/-- The resolver finds the mount that covers a clean text. -/
lemma bestMount_eq (h : mounts.Clean path) :
    mounts.bestMount path = mounts.deepest fun p => covers p path := by
  rw [bestMount, deepest, deepestLoop_congr mounts 0 (0, 0) fun mount hmem => ?_, deepest]
  rw [Bool.eq_iff_iff]
  exact ⟨h mount hmem, fun hcovers => isPrefixOf_iff_prefix.mpr (prefix_of_covers hcovers)⟩

lemma WellFormed.exists_covering (hw : mounts.WellFormed) (habs : path.head? = some '/') :
    ∃ mount, mounts[mounts.deepest fun p => covers p path]? = some mount ∧
      covers mount.path path := by
  obtain ⟨root, hmem, hroot⟩ := hw.root
  exact deepestLoop_fits [] mounts (0, 0)
    (.inr ⟨rfl, root, hmem, covers_iff.mpr (.inl ⟨hroot, habs⟩)⟩)

lemma mountWhere_congr {is is' : Text → Bool}
    (h : ∀ mount ∈ mounts, is mount.path = is' mount.path) :
    mounts.mountWhere is = mounts.mountWhere is' := by
  have hidx : ∀ l : Mounts, (∀ mount ∈ l, is mount.path = is' mount.path) →
      (l.findIdx? fun mount => is mount.path) = l.findIdx? fun mount => is' mount.path := by
    intro l hl
    induction l with
    | nil => rfl
    | cons mount l ih =>
      rw [List.findIdx?_cons, List.findIdx?_cons, hl mount mem_cons_self,
        ih fun other hmem => hl other (by simp [hmem])]
  rw [mountWhere, mountWhere, hidx mounts h]

lemma mountWhere_render (hw : mounts.WellFormed) (h : ∀ c ∈ walked, Component c) :
    (mounts.mountWhere fun p => p = render '/' walked) = mounts.mountAt walked := by
  refine mountWhere_congr fun mount hmem => ?_
  rw [decide_eq_decide]
  constructor
  · intro hpath
    rw [hpath, components_render h]
  · rintro rfl
    exact (hw.normalized mount hmem).symm

/-! ## The cache -/

lemma Coherent.insert (hc : mounts.Coherent c) {g : ℕ} {k : Key} {v : Cached} (hv : match v with
      | .negative => mounts.child k.mount k.dir k.name = .error .notFound
      | .positive child ftype => mounts.child k.mount k.dir k.name = .ok (child, ftype)) :
    mounts.Coherent (c.insert g k v) := by
  intro k' v' hmap
  rcases insert_map hmap with hold | ⟨-, rfl, rfl⟩
  · exact hc k' v' hold
  · exact hv

/-- With a coherent cache a component is what the filesystem says. -/
lemma cachedChild_spec (hc : mounts.Coherent c) (m ino : ℕ) (component : Text) :
    (mounts.cachedChild c m ino component).1 = mounts.child m ino component ∧
      mounts.Coherent (mounts.cachedChild c m ino component).2 := by
  have hinsert : ∀ (b : Prop) [Decidable b] (v : Cached), (match v with
      | .negative => mounts.child m ino component = .error .notFound
      | .positive child ftype => mounts.child m ino component = .ok (child, ftype)) →
      mounts.Coherent (if b then c.insert c.generation ⟨m, ino, component⟩ v else c) := by
    intro b _ v hv
    split
    · exact hc.insert hv
    · exact hc
  rw [cachedChild]
  split
  next hcached =>
    split at hcached
    · exact ⟨(hc _ _ hcached).symm, hc⟩
    · cases hcached
  next child ftype hcached =>
    split at hcached
    · exact ⟨(hc _ _ hcached).symm, hc⟩
    · cases hcached
  · rw [child] at hinsert ⊢
    split
    · exact ⟨rfl, hc⟩
    rename_i mount hmount
    simp only [hmount] at hinsert ⊢
    cases hlookup : mount.fs.lookup ino component with
    | error e =>
      rw [hlookup] at hinsert
      cases e with
      | notFound => exact ⟨rfl, hinsert _ .negative rfl⟩
      | _ => exact ⟨rfl, hc⟩
    | ok ino' =>
      simp only [hlookup] at hinsert ⊢
      cases hstat : mount.fs.stat ino' with
      | error e => exact ⟨rfl, hc⟩
      | ok ftype =>
        simp only [hstat] at hinsert
        exact ⟨rfl, hinsert _ (.positive ino' ftype) rfl⟩

/-! ## Resolution is the walk from the covering mount -/

/-- The loop of the resolver is a walk, and leaves the cache coherent. -/
lemma resolveLoop_eq (hw : mounts.WellFormed) (followFinal : Bool)
    (again : PathCache → Text → Except VfsError (ℕ × ℕ) × PathCache) {remaining : List Text}
    (hc : mounts.Coherent c) (hremaining : ∀ d ∈ remaining, Component d)
    (hwalked : ∀ d ∈ walked, Component d) :
    ∃ c', mounts.Coherent c' ∧
      mounts.resolveLoop followFinal again remaining m ino (render '/' walked) c
        = match mounts.walk followFinal remaining m ino walked with
          | .done r => (r, c')
          | .link walked target rest => again c' (symlinkPath (render '/' walked) target rest) := by
  induction remaining generalizing m ino walked c with
  | nil => exact ⟨c, hc, rfl⟩
  | cons component rest ih =>
    obtain ⟨hchild, hc'⟩ := cachedChild_spec hc m ino component
    have hrest : ∀ d ∈ rest, Component d := fun d hd => hremaining d (by simp [hd])
    have hwalked' := component_concat hwalked (hremaining component mem_cons_self)
    rw [resolveLoop, walk]
    generalize mounts.cachedChild c m ino component = answer at hchild hc' ⊢
    obtain ⟨result, c₁⟩ := answer
    rw [← hchild]
    cases result with
    | error e => exact ⟨c₁, hc', rfl⟩
    | ok found =>
      obtain ⟨child, ftype⟩ := found
      dsimp only
      split
      · split
        · exact ⟨c₁, hc', rfl⟩
        cases mounts.target m child with
        | error e => exact ⟨c₁, hc', rfl⟩
        | ok target => exact ⟨c₁, hc', rfl⟩
      rw [pushComponent_render hwalked, mountWhere_render hw hwalked']
      cases mounts.mountAt (walked ++ [component]) with
      | none => exact ih hc' hrest hwalked'
      | some crossed => exact ih hc' hrest hwalked'

/-- A walk stops at a link with the components before and after it. -/
lemma walk_link {remaining walked' : List Text} {target : Text}
    (h : mounts.walk followFinal remaining m ino walked = .link walked' target rest)
    (hremaining : ∀ d ∈ remaining, Component d) (hwalked : ∀ d ∈ walked, Component d) :
    (∀ d ∈ walked', Component d) ∧ ∀ d ∈ rest, Component d := by
  induction remaining generalizing m ino walked with
  | nil => cases h
  | cons component remaining ih =>
    have hrest : ∀ d ∈ remaining, Component d := fun d hd => hremaining d (by simp [hd])
    have hwalked' := component_concat hwalked (hremaining component mem_cons_self)
    rw [walk] at h
    split at h
    · cases h
    split at h
    · split at h
      · cases h
      split at h
      · cases h
      · cases h
        exact ⟨hwalked, hrest⟩
    split at h
    · exact ih h hrest hwalked'
    · exact ih h hrest hwalked'

/-- What a covering mount's walk stops at consists of components. -/
lemma coverStart_link {target : Text}
    (h : mounts.coverStart followFinal path = .link walked target rest) :
    (∀ d ∈ walked, Component d) ∧ ∀ d ∈ rest, Component d := by
  rw [coverStart] at h
  split at h
  · cases h
  · exact walk_link h (fun _ hd => piece_of_mem (mem_of_mem_drop hd)) fun _ => piece_of_mem

lemma resolvePathOpts_eq (hw : mounts.WellFormed) (left : ℕ) (followFinal : Bool)
    (hc : mounts.Coherent c) (habs : path.head? = some '/')
    (hclean : ∀ p ∈ mounts.trail left followFinal path, mounts.Clean p) :
    (mounts.resolvePathOpts left followFinal c path).1 = mounts.coverWalk left followFinal path ∧
      mounts.Coherent (mounts.resolvePathOpts left followFinal c path).2 := by
  induction left generalizing followFinal c path with
  | zero => exact ⟨rfl, hc⟩
  | succ left ih =>
    rw [resolvePathOpts, coverWalk, bestMount_eq (hclean path mem_cons_self)]
    obtain ⟨mount, hmount, -⟩ := hw.exists_covering habs
    have hnormal := hw.normalized mount (mem_of_getElem? hmount)
    have hne : mount.path ≠ [] := by
      intro hnil
      rw [Normalized, hnil] at hnormal
      cases hnormal
    have hstart : mounts.coverStart followFinal path = mounts.walk followFinal
        ((components path).drop (components mount.path).length)
          (mounts.deepest fun p => covers p path) mount.rootInode
        (components mount.path) := by
      rw [coverStart]
      rw [hmount]
    rw [hmount]
    dsimp only
    rw [if_neg hne]
    -- the loop starts with the text of the mount's path, which is its components written out
    obtain ⟨c', hc', hloop⟩ :=
      @resolveLoop_eq (components mount.path) c (mounts.deepest fun p => covers p path)
      mount.rootInode mounts hw followFinal (mounts.resolvePathOpts left true)
      ((components path).drop (components mount.path).length) hc
      (fun _ hd => piece_of_mem (mem_of_mem_drop hd)) fun _ => piece_of_mem
    rw [hnormal, ← hstart] at hloop
    rw [hloop]
    cases hcover : mounts.coverStart followFinal path with
    | done r => exact ⟨rfl, hc'⟩
    | link walked target rest =>
      refine ih true hc' (head?_symlinkPath ..) fun p hp => hclean p (mem_cons_of_mem _ ?_)
      rw [hcover]
      exact hp

/-! ## The walk from the root -/

lemma walk_of_plainly {stretch : List Text} (rest : List Text)
    {place : ℕ × ℕ} (h : mounts.plainly stretch m ino walked = some place) :
    mounts.walk followFinal (stretch ++ rest) m ino walked
      = mounts.walk followFinal rest place.1 place.2 (walked ++ stretch) := by
  induction stretch generalizing m ino walked with
  | nil =>
    cases h
    rw [append_nil]
    rfl
  | cons component stretch ih =>
    rw [plainly] at h
    rw [cons_append, walk]
    have hassoc : walked ++ component :: stretch = walked ++ [component] ++ stretch :=
      append_cons ..
    rw [hassoc]
    split at h
    · cases h
    obtain ⟨hlink, h⟩ := Option.ite_none_left_eq_some.mp h
    rw [if_neg hlink]
    split at h
    · exact ih h
    · exact ih h

/-- A stretch that ends at a mount point ends at the mount's root. -/
lemma plainly_end {stretch : List Text} {place at' : ℕ × ℕ}
    (h : mounts.plainly stretch m ino walked = some place)
    (hat : mounts.mountAt (walked ++ stretch) = some at') (hstart : stretch = [] → at' = (m, ino)) :
    place = at' := by
  induction stretch generalizing m ino walked with
  | nil =>
    cases h
    exact (hstart rfl).symm
  | cons component stretch ih =>
    have hassoc : walked ++ component :: stretch = walked ++ [component] ++ stretch :=
      append_cons ..
    rw [hassoc] at hat
    rw [plainly] at h
    split at h
    · cases h
    split at h
    · cases h
    split at h
    next m' root hcross =>
      refine ih h hat ?_
      rintro rfl
      rw [append_nil, hcross] at hat
      exact (some.inj hat).symm
    next hcross =>
      refine ih h hat ?_
      rintro rfl
      rw [append_nil, hcross] at hat
      cases hat

/-- With distinct paths, a mount is the one at its components. -/
lemma mountAt_components (hw : mounts.WellFormed)
    (hdistinct : (mounts.map fun mount => mount.path).Nodup) {i : ℕ} {mount : Mount FileSystem}
    (hmount : mounts[i]? = some mount) :
    mounts.mountAt (components mount.path) = some (i, mount.rootInode) := by
  obtain ⟨hlt, hget⟩ := List.getElem?_eq_some_iff.mp hmount
  have hidx : (mounts.findIdx? fun other =>
      decide (components other.path = components mount.path)) = some i := by
    rw [List.findIdx?_eq_some_iff_getElem]
    refine ⟨hlt, by rw [hget]; exact decide_eq_true rfl, fun j hj => ?_⟩
    rw [decide_eq_true_eq]
    intro heq
    have hpath : mounts[j].path = mounts[i].path := by
      rw [← hw.normalized _ (getElem_mem (hj.trans hlt)), heq, hget,
        hw.normalized mount (mem_of_getElem? hmount)]
    have hji : j = i := by
      refine (List.getElem?_inj (by rw [length_map]; exact hj.trans hlt) hdistinct).mp ?_
      simp [hj.trans, hlt, hpath]
    exact hj.ne hji
  rw [mountAt, mountWhere, hidx, bind_some, hmount]
  rfl

lemma coverWalk_eq_rootWalk (hw : mounts.WellFormed)
    (hdistinct : (mounts.map fun mount => mount.path).Nodup) (hreach : mounts.Reachable) (left : ℕ)
    (followFinal : Bool) (habs : path.head? = some '/') :
    mounts.coverWalk left followFinal path =
      mounts.rootWalk left followFinal (components path) := by
  induction left generalizing followFinal path with
  | zero => rfl
  | succ left ih =>
    obtain ⟨mount, hmount, hcovers⟩ := hw.exists_covering habs
    obtain ⟨rest, hrest⟩ := components_of_covers hcovers
    obtain ⟨root, hroot, hpath⟩ := hw.root
    obtain ⟨r, hr⟩ := List.getElem?_of_mem hroot
    have hatroot : mounts.mountAt [] = some (r, root.rootInode) := by
      have h := mountAt_components hw hdistinct hr
      rwa [hpath] at h
    have hat := mountAt_components hw hdistinct hmount
    obtain ⟨place, hplace⟩ := isSome_iff_exists.mp (hreach mount (mem_of_getElem? hmount) _ hatroot)
    have hend := plainly_end hplace hat fun hnil => by
      rw [hnil, hatroot] at hat
      exact (some.inj hat).symm
    -- the walk from the root comes by the mount that the jump goes to
    have hwalk : mounts.coverStart followFinal path =
        mounts.walk followFinal (components path) r root.rootInode [] := by
      rw [coverStart]
      rw [hmount]
      dsimp only
      simp [hrest, walk_of_plainly rest hplace, hend]
    rw [coverWalk, rootWalk, hatroot]
    dsimp only
    rw [← hwalk]
    cases hcover : mounts.coverStart followFinal path with
    | done r => rfl
    | link walked target rest =>
      obtain ⟨hwalked, hafter⟩ := coverStart_link hcover
      dsimp only
      rw [ih true (head?_symlinkPath ..), components_symlinkPath target hwalked hafter]

end Mounts

open Mounts

/-- With a coherent cache, and as long as no mount takes a text by characters only, resolution is
the walk from the deepest covering mount, and the cache stays coherent. When mount paths are
distinct and every mount point can be walked to, that is the walk from the root by components. -/
theorem resolvePath_eq_walk (mounts : Mounts) (hw : mounts.WellFormed) (c : PathCache)
    (hc : mounts.Coherent c) (path : Text) (habs : path.head? = some '/')
    (hclean : ∀ p ∈ mounts.trail (maxSymlinkDepth + 1) true path, mounts.Clean p) :
    (mounts.resolvePath c path).1 = mounts.coverWalk (maxSymlinkDepth + 1) true path ∧
      mounts.Coherent (mounts.resolvePath c path).2 ∧
      ((mounts.map fun mount => mount.path).Nodup → mounts.Reachable →
        (mounts.resolvePath c path).1 =
          mounts.rootWalk (maxSymlinkDepth + 1) true (components path)) := by
  obtain ⟨hresult, hc'⟩ := resolvePathOpts_eq hw (maxSymlinkDepth + 1) true hc habs hclean
  refine ⟨hresult, hc', fun hdistinct hreach => ?_⟩
  exact hresult.trans (coverWalk_eq_rootWalk hw hdistinct hreach _ true habs)

/-- A filesystem with a directory `mnt`, a file `mntx` and a link `l` to `mnt/f`. -/
def upperFs : RamFs where
  rdonly := false
  inodes := [(1, .dir [(['m', 'n', 't'], 2), (['m', 'n', 't', 'x'], 3), (['l'], 4)]), (2, .dir []),
    (3, .file []),
    (4, .symLink ['m', 'n', 't', '/', 'f'])]

/-- A filesystem with a file `f`. -/
def lowerFs : RamFs where
  rdonly := false
  inodes := [(1, .dir [(['f'], 2)]), (2, .file [])]

/-- The second filesystem mounted at `mnt` of the first. -/
def nested (upper : RamFs) : Mounts :=
  [⟨['/'], upper.ops, 1⟩, ⟨['/', 'm', 'n', 't'], lowerFs.ops, 1⟩]

lemma wellFormed_nested (upper : RamFs) : (nested upper).WellFormed := by
  refine ⟨⟨_, mem_cons_self, rfl⟩, ?_⟩
  simp only [nested, forall_mem_cons]
  exact ⟨rfl, rfl, nofun⟩

theorem resolvePath_eq_walk_of_link :
    ((nested upperFs).resolvePath new ['/', 'l']).1 = .ok (1, 2) ∧
      (nested upperFs).rootWalk (maxSymlinkDepth + 1) true (components ['/', 'l']) =
        .ok (1, 2) := by
  have hclean : ∀ p ∈ (nested upperFs).trail (maxSymlinkDepth + 1) true ['/', 'l'],
      (nested upperFs).Clean p := by
    have htrail : (nested upperFs).trail (maxSymlinkDepth + 1) true ['/', 'l']
        = [['/', 'l'], ['/', 'm', 'n', 't', '/', 'f']] := by decide +kernel
    rw [htrail]
    simp only [Clean, nested, forall_mem_cons]
    simp [covers, List.isPrefixOf]
  obtain ⟨-, -, hroot⟩ := resolvePath_eq_walk (nested upperFs) (wellFormed_nested upperFs) new
    (fun _ _ h => by cases h) ['/', 'l'] rfl hclean
  have hresult : ((nested upperFs).resolvePath new ['/', 'l']).1 = .ok (1, 2) := rfl
  refine ⟨hresult, ?_⟩
  rw [← hroot (by decide +kernel) ?_, hresult]
  rintro mount hmem - ⟨⟩
  simp only [nested, mem_cons, not_mem_nil, or_false] at hmem
  rcases hmem with rfl | rfl <;> rfl

/-- The second filesystem mounted once more at the same place. -/
def stacked : Mounts := nested upperFs ++ [⟨['/', 'm', 'n', 't'], lowerFs.ops, 1⟩]

lemma wellFormed_stacked : stacked.WellFormed := by
  refine ⟨⟨_, mem_cons_self, rfl⟩,
    forall_mem_append.mpr ⟨(wellFormed_nested upperFs).normalized, ?_⟩⟩
  exact forall_mem_singleton.mpr rfl

/-- Resolution is not the walk from the root: for a name that begins like a mount point, for a mount
point that is missing in the directory above, and for a path that is mounted twice. -/
theorem resolvePath_ne_rootWalk :
    ((nested upperFs).WellFormed ∧
      ((nested upperFs).resolvePath new ['/', 'm', 'n', 't', 'x']).1 = .ok (1, 1) ∧
      (nested upperFs).rootWalk (maxSymlinkDepth + 1) true (components ['/', 'm', 'n', 't', 'x']) =
        .ok (0, 3)) ∧
    ((nested (RamFs.new false)).WellFormed ∧
      ((nested (RamFs.new false)).resolvePath new ['/', 'm', 'n', 't', '/', 'f']).1 = .ok (1, 2) ∧
      (nested (RamFs.new false)).rootWalk (maxSymlinkDepth + 1) true
        (components ['/', 'm', 'n', 't', '/', 'f'])
        = .error .notFound) ∧
    stacked.WellFormed ∧
      (stacked.resolvePath new ['/', 'm', 'n', 't', '/', 'f']).1 = .ok (2, 2) ∧
      stacked.rootWalk (maxSymlinkDepth + 1) true (components ['/', 'm', 'n', 't', '/', 'f']) =
        .ok (1, 2) := by
  refine ⟨⟨wellFormed_nested _, ?_, ?_⟩, ⟨wellFormed_nested _, ?_, ?_⟩, wellFormed_stacked,
    ?_, ?_⟩ <;> rfl

end Astryx.Vfs
