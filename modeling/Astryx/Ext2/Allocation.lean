import Astryx.Ext2.Layout
import Astryx.Lib.Toggle
import Astryx.Lib.Transition

/-!
# Allocating and freeing at the same time

Any number of threads call `alloc_block`, `free_block`, `alloc_inode` and `free_inode`. A step is
one section under a lock or one access to the device, which may fail. An allocation reads the bitmap
of a group, picks a clear bit, and writes the bitmap back, all under the lock of the group. A free
reads the bitmap, clears its bit and writes the bitmap back, and takes no lock. So a free that
overlaps with another change of the same bitmap undoes it, or is undone by it.

`BitmapOk` asks of the write of a free that nobody else is in the middle of changing that bitmap: it
was not written since the free read it, and no allocation that has read it is about to write it.
Allocations need no condition.

What is flushed at the end of each call goes to the descriptor table and to the superblock, and is
left out.

## Main results

* `bitmapRun_exclusive` — under `BitmapOk` no number is given out twice, and what was freed stays
  free
* `free_races` — a free that undoes an allocation, and one that an allocation undoes
-/

namespace Astryx.Ext2

open Toggle Transition Function Option Bytes

/-- Where a thread is in one of the four calls. -/
inductive Phase where
  | idle
  | allocGroup (k : Kind) (group : ℕ)
  | allocLock (k : Kind) (group : ℕ)
  | allocRead (k : Kind) (group : ℕ)
  | allocScan (k : Kind) (group : ℕ) (bitmap : Block)
  | allocUnlock (k : Kind) (group x : ℕ)
  | allocZero (k : Kind) (group x : ℕ)
  | allocCount (k : Kind) (group x : ℕ)
  | allocReturn (k : Kind) (x : ℕ)
  | freeRead (k : Kind) (group bitIdx x : ℕ)
  | freeWrite (k : Kind) (group bitIdx x : ℕ) (bitmap : Block)
  | freeCount (k : Kind) (group : ℕ)

/-- Who has a number: nobody has dealt with it, it belongs to a caller, it is in the hands of a
thread that takes or frees it, or its free has succeeded and no allocation has taken it since. -/
inductive Holder where
  | nobody
  | caller
  | thread (tid : ℕ)
  | freed
  deriving DecidableEq

/-- A number is returned by an allocation, or given to a free. -/
structure Event where
  kind : Kind
  number : ℕ
  returned : Bool
  deriving DecidableEq

/-- What the event is about. -/
def Event.key (e : Event) : Kind × ℕ := (e.kind, e.number)

lemma Event.mem_of_key {k : Kind} {x : ℕ} {b : Bool} {e : Event} {es : List Event} (he : e ∈ es)
    (hkey : e.key = (k, x)) (hval : e.returned = b) : ⟨k, x, b⟩ ∈ es := by
  obtain ⟨kind, number, returned⟩ := e
  obtain ⟨rfl, rfl⟩ := hkey
  exact hval ▸ he

/-- The bitmaps, the counts and the threads. -/
structure Volume where
  dev : ℕ → Block
  /-- The free counts of the groups and of the volume. -/
  groupFree : Kind → ℕ → ℕ
  totalFree : Kind → ℕ
  /-- Who holds the lock of a group. -/
  lock : ℕ → Option ℕ
  phase : ℕ → Phase
  /-- Who has what, and the history of that, for the statements only. -/
  holder : Kind → ℕ → Holder
  log : List Event

namespace Volume

variable (s : Volume)

/-- A thread goes on. -/
def goto (tid : ℕ) (ph : Phase) : Volume := { s with phase := update s.phase tid ph }

/-- A block is written. -/
def write (b : ℕ) (data : Block) : Volume := { s with dev := update s.dev b data }

/-- A lock is taken or given back. -/
def setLock (g : ℕ) (holder : Option ℕ) : Volume := { s with lock := update s.lock g holder }

/-- Who has a number changes. -/
def setHolder (k : Kind) (x : ℕ) (who : Holder) : Volume :=
  { s with holder := update s.holder k (update (s.holder k) x who) }

/-- An event is recorded. -/
def record (e : Event) : Volume := { s with log := s.log ++ [e] }

/-- A caller has the number. -/
def owned (p : Kind × ℕ) : Bool := s.holder p.1 p.2 = .caller

/-- The counts of a group and of the volume, of 16 and of 32 bits, change. -/
def count (k : Kind) (g : ℕ) (f : ℕ → ℕ → ℕ) : Volume :=
  { s with
    groupFree := update s.groupFree k (update (s.groupFree k) g (f 16 (s.groupFree k g)))
    totalFree := update s.totalFree k (f 32 (s.totalFree k)) }

/-- The search goes on in the next group. -/
def nextGroup (tid : ℕ) (k : Kind) (g : ℕ) : Volume :=
  (s.setLock g none).goto tid (.allocGroup k (g + 1))

end Volume

/-- `alloc` and `free` begin a call, `step` goes on with it; the flag says whether the device access
succeeds. -/
inductive BitmapOp where
  | alloc (tid : ℕ) (k : Kind)
  | free (tid : ℕ) (k : Kind) (x : ℕ)
  | step (tid : ℕ) (ok : Bool)

section

variable (l : Layout)

/-- The next lock, access or count of a thread. -/
def bitmapAdvance (s : Volume) (tid : ℕ) (ok : Bool) : Phase → Option Volume
  | .idle => none
  | .allocGroup k g =>
    some (s.goto tid (if l.numGroups ≤ g then .idle
      else if s.groupFree k g = 0 then .allocGroup k (g + 1) else .allocLock k g))
  | .allocLock k g =>
    match s.lock g with
    | none => some ((s.setLock g (some tid)).goto tid (.allocRead k g))
    | some _ => none
  | .allocRead k g =>
    some (if ok then s.goto tid (.allocScan k g (s.dev (l.bitmapBlock k g)))
      else s.nextGroup tid k g)
  | .allocScan k g bitmap =>
    match l.pick k g bitmap with
    | none => some (s.nextGroup tid k g)
    | some i =>
      some (if ok then
        ((s.write (l.bitmapBlock k g) (setBit bitmap i)).setHolder k (l.number k g i)
          (.thread tid)).goto tid
          (.allocUnlock k g (l.number k g i))
      else s.nextGroup tid k g)
  | .allocUnlock k g x =>
    some ((s.setLock g none).goto tid (match k with
      | .block => .allocZero k g x
      | .inode => .allocCount k g x))
  | .allocZero k g x => some ((if ok then s.write x fun _ => 0 else s).goto tid (.allocCount k g x))
  | .allocCount k g x => some ((s.count k g fun _ c => c - 1).goto tid (.allocReturn k x))
  | .allocReturn k x => some (((s.setHolder k x .caller).record ⟨k, x, true⟩).goto tid .idle)
  | .freeRead k g i x =>
    some (s.goto tid (if ok then .freeWrite k g i x (s.dev (l.bitmapBlock k g)) else .idle))
  | .freeWrite k g i x bitmap =>
    -- a bit that is clear already is left alone
    some (if ok && bit bitmap i then
      ((s.write (l.bitmapBlock k g) (clearBit bitmap i)).setHolder k x .freed).goto tid
        (.freeCount k g)
    else s.goto tid .idle)
  | .freeCount k g => some ((s.count k g fun width c => (c + 1) % 2 ^ width).goto tid .idle)

/-- One step of one of `n` threads. A free is of a number that the caller owns. -/
def bitmapStep (n : ℕ) (s : Volume) : BitmapOp → Option Volume
  | .alloc tid k =>
    match s.phase tid with
    | .idle =>
      if tid < n then some
        (s.goto tid (if s.totalFree k = 0 then .idle else .allocGroup k 0)) else none
    | _ => none
  | .free tid k x =>
    match s.phase tid with
    | .idle =>
      if tid < n ∧ s.holder k x = .caller then
        some (((s.setHolder k x (.thread tid)).record ⟨k, x, false⟩).goto tid
          (match l.locate k x with
          | none => .idle
          | some (g, i) => .freeRead k g i x))
      else none
    | _ => none
  | .step tid ok => if tid < n then bitmapAdvance l s tid ok (s.phase tid) else none

end

/-- The bit that a thread is about to clear. -/
def Phase.clearing : Phase → Option (Kind × ℕ × Block)
  | .freeWrite k g i _ bitmap => if bit bitmap i then some (k, g, bitmap) else none
  | _ => none

/-- The group that a thread searches. -/
def Phase.scanning : Phase → Option (Kind × ℕ)
  | .allocScan k g _ => some (k, g)
  | _ => none

/-- What a step must meet: when a free writes a bitmap back, the bits on the device are those it
read, and no allocation has read the bitmap and not yet written it. -/
def BitmapOk (l : Layout) (n : ℕ) (s : Volume) : BitmapOp → Prop
  | .step tid true => ∀ c ∈ (s.phase tid).clearing,
      (∀ i < l.perGroup c.1, bit (s.dev (l.bitmapBlock c.1 c.2.1)) i = bit c.2.2 i) ∧
        ∀ u < n, (s.phase u).scanning ≠ some (c.1, c.2.1)
  | _ => True

instance BitmapOk.decidable (l : Layout) (n : ℕ) (s : Volume) (op : BitmapOp) :
    Decidable (BitmapOk l n s op) := by
  unfold BitmapOk
  split <;> infer_instance

/-- A volume at rest: what callers own is marked in the bitmaps, and so are the bitmap blocks
themselves, which no caller owns. -/
structure Volume.AtRest (l : Layout) (s : Volume) : Prop where
  idle : ∀ tid, s.phase tid = .idle
  fresh : s.log = []
  unlocked : ∀ g, s.lock g = none
  holders : ∀ k x, s.holder k x = .nobody ∨ s.holder k x = .caller
  marked : ∀ k x, s.holder k x = .caller →
    ∃ g i, l.locate k x = some (g, i) ∧ bit (s.dev (l.bitmapBlock k g)) i = true
  reserved : ∀ k g, g < l.numGroups → s.holder .block (l.bitmapBlock k g) = .nobody ∧
    ∀ g' i, g' < l.numGroups → i < l.blocksPerGroup → l.number .block g' i = l.bitmapBlock k g →
      bit (s.dev (l.bitmapBlock .block g')) i = true

/-! ## The invariant -/

namespace Volume

variable {l : Layout} {n : ℕ} {owned₀ : Kind × ℕ → Bool} {s t : Volume} {tid : ℕ}

/-- The bit of a number. -/
def mark (l : Layout) (s : Volume) (k : Kind) (g i : ℕ) : Bool := bit (s.dev (l.bitmapBlock k g)) i

/-- What holds of a thread inside a call: it holds the lock it needs, what an allocation has read is
still on the device, and the number it is about is in its hands. -/
def PhaseOk (l : Layout) (s : Volume) (tid : ℕ) : Phase → Prop
  | .allocLock _ g => g < l.numGroups
  | .allocRead _ g => g < l.numGroups ∧ s.lock g = some tid
  | .allocScan k g bitmap =>
    g < l.numGroups ∧ s.lock g = some tid ∧ bitmap = s.dev (l.bitmapBlock k g)
  | .allocUnlock k g x => g < l.numGroups ∧ s.lock g = some tid ∧ s.holder k x = .thread tid
  | .allocZero k _ x => k = .block ∧ s.holder k x = .thread tid
  | .allocCount k _ x => s.holder k x = .thread tid
  | .allocReturn k x => s.holder k x = .thread tid
  | .freeRead k g i x => l.At k x g i ∧ s.holder k x = .thread tid
  | .freeWrite k g i x _ => l.At k x g i ∧ s.holder k x = .thread tid
  | _ => True

/-- What holds in every state. -/
structure Inv (l : Layout) (n : ℕ) (owned₀ : Kind × ℕ → Bool) (s : Volume) : Prop where
  phases : ∀ u, PhaseOk l s u (s.phase u)
  quiet : ∀ u, n ≤ u → s.phase u = .idle
  /-- What somebody has is marked. -/
  marked : ∀ k x, s.holder k x ≠ .nobody → s.holder k x ≠ .freed →
    ∃ g i, l.At k x g i ∧ s.mark l k g i = true
  clear : ∀ k x, s.holder k x = .freed → ∀ g i, l.At k x g i → s.mark l k g i = false
  /-- The bitmap blocks are marked and nobody has them. -/
  reserved : ∀ k g, g < l.numGroups → s.holder .block (l.bitmapBlock k g) = .nobody ∧
    ∀ g' i, l.At .block (l.bitmapBlock k g) g' i → s.mark l .block g' i = true
  /-- A number is returned only when no caller owns it, and freed only when one does. -/
  history : Toggles Event.key Event.returned owned₀ s.log s.owned

lemma setHolder_self (k : Kind) (x : ℕ) (who : Holder) :
    (s.setHolder k x who).holder k x = who := by
  rw [setHolder]
  dsimp only
  simp

variable {x g i : ℕ} {k : Kind} {ph : Phase}

lemma setHolder_of_ne {k' : Kind} {x' : ℕ} (h : ¬ (k' = k ∧ x' = x)) (who : Holder) :
    (s.setHolder k x who).holder k' x' = s.holder k' x' := by
  rw [setHolder]
  dsimp only
  by_cases hk : k' = k
  · simp [hk, update_of_ne fun hx => h ⟨hk, hx⟩]
  · simp [hk]

/-- A thread whose locks, bitmap and number are not touched. -/
lemma PhaseOk.congr {u : ℕ} (h : PhaseOk l s u ph)
    (hlock : ∀ g, s.lock g = some u → t.lock g = some u)
    (hdev : ∀ k g, ph.scanning = some (k, g) → g < l.numGroups → s.lock g = some u →
      t.dev (l.bitmapBlock k g) = s.dev (l.bitmapBlock k g))
    (hholder : ∀ k x, s.holder k x = .thread u → t.holder k x = .thread u) : PhaseOk l t u ph := by
  cases ph with
  | allocLock k g => exact h
  | allocRead k g => exact ⟨h.1, hlock g h.2⟩
  | allocScan k g bitmap => exact ⟨h.1, hlock g h.2.1, h.2.2.trans (hdev k g rfl h.1 h.2.1).symm⟩
  | allocUnlock k g x => exact ⟨h.1, hlock g h.2.1, hholder k x h.2.2⟩
  | allocZero k g x | freeRead k g i x | freeWrite k g i x bitmap => exact ⟨h.1, hholder k x h.2⟩
  | allocCount k g x => exact hholder k x h
  | allocReturn k x => exact hholder k x h
  | _ => trivial

/-- **One change.** A thread goes on. The numbers in `c` may change hands and bits: no other thread
has them, they are no bitmap blocks, and who has them then agrees with their bits. The other numbers
are as before. -/
lemma Inv.change (h : s.Inv l n owned₀) (c : Kind → ℕ → Prop) (htid : tid < n)
    (hphase : t.phase = update s.phase tid ph) (hok : PhaseOk l t tid ph)
    (hlock : ∀ u, u ≠ tid → ∀ g, s.lock g = some u → t.lock g = some u)
    (hdev : ∀ u, u ≠ tid →
      ∀ k g, (s.phase u).scanning = some (k, g) → g < l.numGroups → s.lock g = some u →
      t.dev (l.bitmapBlock k g) = s.dev (l.bitmapBlock k g))
    (hsame : ∀ k x, ¬ c k x → t.holder k x = s.holder k x ∧
      ∀ g i, l.At k x g i → t.mark l k g i = s.mark l k g i)
    (hnew : ∀ k x, c k x → (∀ u, u ≠ tid → s.holder k x ≠ .thread u) ∧
      (t.holder k x ≠ .freed → ∃ g i, l.At k x g i ∧ t.mark l k g i) ∧
      (t.holder k x = .freed → ∀ g i, l.At k x g i → t.mark l k g i = false))
    (hreserved : ∀ k g, g < l.numGroups → ¬ c .block (l.bitmapBlock k g))
    (hhistory : Toggles Event.key Event.returned owned₀ t.log t.owned) : t.Inv l n owned₀ := by
  refine ⟨fun u => ?_, fun u hu => ?_, fun k x hx hx' => ?_, fun k x hx g i hat => ?_, fun k g hg =>
    ?_, hhistory⟩
  · rw [hphase]
    by_cases hu : u = tid
    · rw [hu, update_self]
      exact hok
    rw [update_of_ne hu]
    refine (h.phases u).congr (hlock u hu) (hdev u hu) fun k x hx => ?_
    by_cases hc : c k x
    · exact absurd hx ((hnew k x hc).1 u hu)
    · exact (hsame k x hc).1.trans hx
  · rw [hphase, update_of_ne (by omega)]
    exact h.quiet u hu
  · by_cases hc : c k x
    · exact (hnew k x hc).2.1 hx'
    obtain ⟨hholder, hmark⟩ := hsame k x hc
    rw [hholder] at hx hx'
    obtain ⟨g, i, hat, hset⟩ := h.marked k x hx hx'
    exact ⟨g, i, hat, (hmark g i hat).trans hset⟩
  · by_cases hc : c k x
    · exact (hnew k x hc).2.2 hx g i hat
    obtain ⟨hholder, hmark⟩ := hsame k x hc
    rw [hholder] at hx
    exact (hmark g i hat).trans (h.clear k x hx g i hat)
  obtain ⟨hholder, hmark⟩ := hsame _ _ (hreserved k g hg)
  obtain ⟨hnobody, hset⟩ := h.reserved k g hg
  exact ⟨hholder.trans hnobody, fun g' i hat => (hmark g' i hat).trans (hset g' i hat)⟩

/-! ### Steps that write no bitmap -/

lemma Inv.goto (h : s.Inv l n owned₀) (htid : tid < n) (hphase : t.phase = update s.phase tid ph)
    (hdev : t.dev = s.dev) (hholder : t.holder = s.holder) (hlog : t.log = s.log)
    (hok : PhaseOk l t tid ph) (hlock : ∀ u, u ≠ tid → ∀ g, s.lock g = some u → t.lock g = some u) :
    t.Inv l n owned₀ := by
  refine h.change (fun _ _ => False) htid hphase hok hlock (fun _ _ _ _ _ _ _ => by rw [hdev])
    (fun k x _ => ⟨by rw [hholder], fun g i _ => by rw [mark, hdev]; rfl⟩) (fun _ _ => False.elim)
      (fun _ _ _ => id) ?_
  have howned : t.owned = s.owned := by
    funext p
    rw [owned, hholder]
    rfl
  rw [hlog, howned]
  exact h.history

lemma Inv.hand (h : s.Inv l n owned₀) (htid : tid < n) {returned : Bool} {who : Holder}
    (hbefore : s.holder k x = if returned then .thread tid else .caller)
    (hwho : who = if returned then .caller else .thread tid)
    (hok : PhaseOk l (((s.setHolder k x who).record ⟨k, x, returned⟩).goto tid ph) tid ph) :
    (((s.setHolder k x who).record ⟨k, x, returned⟩).goto tid ph).Inv l n owned₀ := by
  have hheld : s.holder k x ≠ .nobody ∧ s.holder k x ≠ .freed := by
    rw [hbefore]
    cases returned <;> exact ⟨nofun, nofun⟩
  have hnew : who ≠ .freed := by
    rw [hwho]
    cases returned <;> exact nofun
  refine h.change (fun k' x' => k' = k ∧ x' = x) htid rfl hok (fun _ _ _ => id)
    (fun _ _ _ _ _ _ _ => rfl)
    (fun k' x' hne => ⟨setHolder_of_ne hne who, fun _ _ _ => rfl⟩) ?_ ?_ ?_
  · rintro _ _ ⟨rfl, rfl⟩
    refine ⟨fun u hu hx => ?_, fun _ => h.marked _ _ hheld.1 hheld.2, fun hx =>
      absurd ((setHolder_self ..).symm.trans hx) hnew⟩
    rw [hbefore] at hx
    cases returned with
    | false => cases hx
    | true => exact hu (Holder.thread.inj hx).symm
  · rintro k' g hg ⟨rfl, rfl⟩
    exact hheld.1 (h.reserved k' g hg).1
  -- the flag of the number changes, and no other
  have howned : ((s.setHolder k x who).record ⟨k, x, returned⟩).owned =
      update s.owned (k, x) returned := by
    funext p
    by_cases hp : p = (k, x)
    · have hnow : ((s.setHolder k x who).record ⟨k, x, returned⟩).holder k x = who :=
        setHolder_self ..
      rw [hp, update_self, owned, hnow, hwho]
      cases returned <;> rfl
    · rw [update_of_ne hp, owned, owned]
      exact congrArg (decide <| · = Holder.caller)
        (setHolder_of_ne (fun heq => hp (Prod.ext heq.1 heq.2)) who)
  have hflag : s.owned (k, x) = !returned := by
    rw [owned, hbefore]
    cases returned <;> rfl
  exact toggles_append.mpr ⟨s.owned, h.history, hflag, howned⟩

/-! ### Steps that write to the device -/

lemma mark_write (k : Kind) (hg : g < l.numGroups) (data : Block) (k' : Kind) {g' : ℕ}
    (hg' : g' < l.numGroups) (i : ℕ) :
    (s.write (l.bitmapBlock k g) data).mark l k' g' i =
      if k' = k ∧ g' = g then bit data i else s.mark l k' g' i := by
  rw [mark, mark, write]
  dsimp only
  by_cases heq : k' = k ∧ g' = g
  · simp [heq]
  · rw [if_neg heq, update_of_ne fun hb => heq (l.bitmapBlock_inj k' g' k g hg' hg hb)]

lemma zero_inv (h : s.Inv l n owned₀) (htid : tid < n) (hph : s.phase tid = .allocZero k g x)
    (data : Block) : (s.write x data).Inv l n owned₀ := by
  have hphase := h.phases tid
  have hphase' := hphase
  rw [hph] at hphase'
  obtain ⟨rfl, hholder⟩ := hphase'
  have hother : ∀ k g, g < l.numGroups →
      (s.write x data).dev (l.bitmapBlock k g) = s.dev (l.bitmapBlock k g) := by
    intro k g hg
    refine update_of_ne ?_ ..
    rintro rfl
    rw [(h.reserved k g hg).1] at hholder
    cases hholder
  refine h.change (fun _ _ => False) htid (update_eq_self ..).symm
    (hphase.congr (fun _ => id) (fun k g _ hg _ => hother k g hg) fun _ _ => id) (fun _ _ _ => id)
    (fun _ _ k g _ hg _ => hother k g hg) (fun k x _ => ⟨rfl, fun g i hat => ?_⟩)
      (fun _ _ => False.elim) (fun _ _ _ => id)
    h.history
  rw [mark, hother k g hat.group]
  rfl

section

variable (h : s.Inv l n owned₀) (htid : tid < n)

include h htid

/-- The bit of one number of a bitmap is rewritten, and the number changes hands accordingly. -/
lemma Inv.remark {data : Block} {who : Holder} (hat : l.At k x g i)
    (hdata : ∀ j < l.perGroup k, j ≠ i → bit data j = s.mark l k g j)
    (hset : (who = .freed ∧ bit data i = false) ∨ (who = .thread tid ∧ bit data i))
    (hfree : s.holder k x = .nobody ∨ s.holder k x = .freed ∨ s.holder k x = .thread tid)
    (hreserved : ∀ k' g', g' < l.numGroups → ¬ (k = .block ∧ x = l.bitmapBlock k' g'))
    (hscan : ∀ u, u ≠ tid → (s.phase u).scanning = some (k, g) → s.lock g ≠ some u)
    (hok : PhaseOk l (((s.write (l.bitmapBlock k g) data).setHolder k x who).goto tid ph) tid ph) :
    (((s.write (l.bitmapBlock k g) data).setHolder k x who).goto tid ph).Inv l n owned₀ := by
  have hmark : ∀ k' g' j, g' < l.numGroups →
    (((s.write (l.bitmapBlock k g) data).setHolder k x who).goto tid ph).mark l k' g' j =
      if k' = k ∧ g' = g then bit data j else s.mark l k' g' j :=
    fun k' g' j hg' => mark_write k hat.group data k' hg' j
  have hnow : (((s.write (l.bitmapBlock k g) data).setHolder k x who).goto tid ph).holder k x =
      who := setHolder_self ..
  refine h.change (fun k' x' => k' = k ∧ x' = x) htid rfl hok (fun _ _ _ => id)
    (fun u hu k' g' hs hg' hl => ?_)
    (fun k' x' hne => ⟨setHolder_of_ne hne who, fun g' j hat' => ?_⟩) ?_
    (fun k' g' hg' heq => hreserved k' g' hg' ⟨heq.1.symm, heq.2.symm⟩) ?_
  · refine update_of_ne (fun hb => ?_) ..
    obtain ⟨rfl, rfl⟩ := l.bitmapBlock_inj k' g' k g hg' hat.group hb
    exact hscan u hu hs hl
  · -- the other numbers keep their bits
    rw [hmark k' g' j hat'.group]
    split
    next heq =>
      obtain ⟨rfl, rfl⟩ := heq
      refine hdata j hat'.bit ?_
      rintro rfl
      exact hne ⟨rfl, hat'.number.symm.trans hat.number⟩
    · rfl
  · rintro _ _ ⟨rfl, rfl⟩
    refine ⟨fun u hu hx => ?_, fun hx => ?_, fun hx g' j hat' => ?_⟩
    · rcases hfree with hf | hf | hf <;> rw [hf] at hx
      · cases hx
      · cases hx
      · exact hu (Holder.thread.inj hx).symm
    · rw [hnow] at hx
      refine ⟨g, i, hat, ?_⟩
      rw [hmark _ g i hat.group, if_pos ⟨rfl, rfl⟩]
      exact (hset.resolve_left fun hfreed => hx hfreed.1).2
    obtain ⟨rfl, rfl⟩ := hat.unique hat'
    rw [hnow] at hx
    rw [hmark _ g i hat.group, if_pos ⟨rfl, rfl⟩]
    refine (hset.resolve_right fun hthread => ?_).2
    rw [hthread.1] at hx
    cases hx
  have howned : ((s.write (l.bitmapBlock k g) data).setHolder k x who).owned = s.owned := by
    funext p
    by_cases hp : p.1 = k ∧ p.2 = x
    · have hnow' : ((s.write (l.bitmapBlock k g) data).setHolder k x who).holder k x = who := hnow
      rw [owned, owned, hp.1, hp.2, hnow']
      rcases hset with ⟨hw, -⟩ | ⟨hw, -⟩ <;> rcases hfree with hf | hf | hf <;> rw [hw, hf] <;> rfl
    · rw [owned, owned, setHolder_of_ne hp]
      rfl
  exact howned ▸ h.history

lemma scan_inv {bitmap : Block} (hph : s.phase tid = .allocScan k g bitmap)
    (hpick : l.pick k g bitmap = some i) :
    (((s.write (l.bitmapBlock k g) (setBit bitmap i)).setHolder k (l.number k g i)
      (.thread tid)).goto tid
      (.allocUnlock k g (l.number k g i))).Inv l n owned₀ := by
  have hphase := h.phases tid
  rw [hph] at hphase
  obtain ⟨hg, hlock, rfl⟩ := hphase
  obtain ⟨hi, hclear⟩ := Layout.pick_spec hpick
  have hclear : s.mark l k g i = false := hclear
  have hat : l.At k (l.number k g i) g i := ⟨rfl, hg, hi⟩
  refine h.remark htid hat (fun j _ hj => ?_) (.inr ⟨rfl, ?_⟩) ?_ (fun k' g' hg' => ?_)
    (fun u hu _ hl => ?_)
    ⟨hg, hlock, setHolder_self k _ _⟩
  · rw [bit_setBit, decide_eq_false hj, Bool.false_or]
    rfl
  · simp [bit_setBit]
  · -- a number that somebody has is marked
    by_contra hheld
    rw [not_or, not_or] at hheld
    obtain ⟨g', i', hat', hset⟩ := h.marked k _ hheld.1 hheld.2.1
    obtain ⟨rfl, rfl⟩ := hat.unique hat'
    rw [hclear] at hset
    cases hset
  · rintro ⟨rfl, hx⟩
    rw [hx] at hat
    rw [(h.reserved k' g' hg').2 g i hat] at hclear
    cases hclear
  · rw [hlock] at hl
    exact hu (some.inj hl).symm

lemma clear_inv {bitmap : Block} (hph : s.phase tid = .freeWrite k g i x bitmap)
    (hbit : bit bitmap i) (hok : BitmapOk l n s (.step tid true)) :
    (((s.write (l.bitmapBlock k g) (clearBit bitmap i)).setHolder k x .freed).goto tid
      (.freeCount k g)).Inv l n owned₀ := by
  have hphase := h.phases tid
  rw [hph] at hphase
  obtain ⟨hat, hholder⟩ := hphase
  obtain ⟨hsame, hnone⟩ := hok (k, g, bitmap) (by rw [hph, Phase.clearing, hbit]; rfl)
  refine h.remark htid hat (fun j hj hne => ?_) (.inl ⟨rfl, ?_⟩) (.inr (.inr hholder))
    (fun k' g' hg' => ?_)
    (fun u _ hs _ => ?_) trivial
  · rw [bit_clearBit, decide_eq_false hne, Bool.not_false, Bool.true_and]
    exact (hsame j hj).symm
  · simp [bit_clearBit]
  · rintro ⟨rfl, rfl⟩
    rw [(h.reserved k' g' hg').1] at hholder
    cases hholder
  by_cases hu : u < n
  · exact hnone u hu hs
  · rw [h.quiet u (not_lt.mp hu)] at hs
    cases hs

end

lemma unlock_other {u : ℕ} (hg : s.lock g = some tid) (hu : u ≠ tid) (g' : ℕ)
    (hl : s.lock g' = some u) : update s.lock g none g' = some u := by
  rw [update_of_ne, hl]
  rintro rfl
  rw [hg] at hl
  exact hu (some.inj hl).symm

lemma nextGroup_inv (h : s.Inv l n owned₀) (htid : tid < n) (hg : s.lock g = some tid) :
    (s.nextGroup tid k g).Inv l n owned₀ :=
  h.goto htid rfl rfl rfl rfl trivial fun _ => unlock_other hg

lemma advance_inv (h : s.Inv l n owned₀) (htid : tid < n) {ok : Bool}
    (hok : BitmapOk l n s (.step tid ok)) (ht : bitmapAdvance l s tid ok (s.phase tid) = some t) :
    t.Inv l n owned₀ := by
  have hphase := h.phases tid
  cases hph : s.phase tid with
  | idle => rw [hph] at ht; cases ht
  | allocGroup k g =>
    rw [hph] at ht
    cases ht
    refine h.goto htid rfl rfl rfl rfl ?_ fun _ _ _ hl => hl
    split
    · trivial
    rename_i hg
    split
    · trivial
    · exact not_le.mp hg
  | allocLock k g =>
    rw [hph] at ht hphase
    rw [bitmapAdvance] at ht
    split at ht
    next hnone =>
      cases ht
      refine h.goto htid rfl rfl rfl rfl ⟨hphase, update_self ..⟩ fun u _ g' hl => ?_
      refine Eq.trans (update_of_ne ?_ ..) hl
      rintro rfl
      rw [hnone] at hl
      cases hl
    · cases ht
  | allocRead k g =>
    rw [hph] at ht hphase
    cases ht
    split
    · exact h.goto htid rfl rfl rfl rfl ⟨hphase.1, hphase.2, rfl⟩ fun _ _ _ hl => hl
    · exact nextGroup_inv h htid hphase.2
  | allocScan k g bitmap =>
    rw [hph] at ht hphase
    rw [bitmapAdvance] at ht
    split at ht
    · cases ht
      exact nextGroup_inv h htid hphase.2.1
    next i hpick =>
      cases ht
      split
      · exact scan_inv h htid hph hpick
      · exact nextGroup_inv h htid hphase.2.1
  | allocUnlock k g x =>
    rw [hph] at ht hphase
    cases ht
    refine h.goto htid rfl rfl rfl rfl ?_ fun _ hu g' hl => unlock_other hphase.2.1 hu g' hl
    cases k with
    | block => exact ⟨rfl, hphase.2.2⟩
    | inode => exact hphase.2.2
  | allocZero k g x =>
    rw [hph] at ht hphase
    cases ht
    split
    · exact (zero_inv h htid hph _).goto htid rfl rfl rfl rfl hphase.2 fun _ _ _ hl => hl
    · exact h.goto htid rfl rfl rfl rfl hphase.2 fun _ _ _ hl => hl
  | allocCount k g x =>
    rw [hph] at ht hphase
    cases ht
    exact h.goto htid rfl rfl rfl rfl hphase fun _ _ _ hl => hl
  | allocReturn k x =>
    rw [hph] at ht hphase
    cases ht
    exact h.hand htid hphase rfl trivial
  | freeRead k g i x =>
    rw [hph] at ht hphase
    cases ht
    refine h.goto htid rfl rfl rfl rfl ?_ fun _ _ _ hl => hl
    split
    · exact hphase
    · trivial
  | freeWrite k g i x bitmap =>
    rw [hph] at ht
    cases ht
    split
    next hboth =>
      rw [Bool.and_eq_true] at hboth
      obtain ⟨rfl, hbit⟩ := hboth
      exact clear_inv h htid hph hbit hok
    · exact h.goto htid rfl rfl rfl rfl trivial fun _ _ _ hl => hl
  | freeCount k g =>
    rw [hph] at ht
    cases ht
    exact h.goto htid rfl rfl rfl rfl trivial fun _ _ _ hl => hl

lemma AtRest.inv (h : s.AtRest l) : s.Inv l n s.owned where
  phases u := by rw [h.idle u]; trivial
  quiet u _ := h.idle u
  marked k x hx _ := by
    obtain ⟨g, i, hlocate, hset⟩ := h.marked k x ((h.holders k x).resolve_left hx)
    exact ⟨g, i, Layout.at_of_locate hlocate, hset⟩
  clear k x hx := by
    rcases h.holders k x with hh | hh <;> rw [hh] at hx <;> cases hx
  reserved k g hg :=
    ⟨(h.reserved k g hg).1, fun g' i hat => (h.reserved k g hg).2 g' i hat.group hat.bit hat.number⟩
  history := by
    rw [h.fresh]
    rfl

end Volume

lemma bitmapStep_inv {l : Layout} {n : ℕ} {owned₀ : Kind × ℕ → Bool} {s t : Volume} {op : BitmapOp}
    (h : s.Inv l n owned₀) (hok : BitmapOk l n s op) (ht : bitmapStep l n s op = some t) :
    t.Inv l n owned₀ := by
  cases op with
  | alloc tid k =>
    rw [bitmapStep] at ht
    split at ht
    · rw [ite_none_right_eq_some] at ht
      obtain ⟨htid, ht⟩ := ht
      cases ht
      refine h.goto htid rfl rfl rfl rfl ?_ fun _ _ _ hl => hl
      split <;> trivial
    · cases ht
  | free tid k x =>
    rw [bitmapStep] at ht
    split at ht
    · rw [ite_none_right_eq_some] at ht
      obtain ⟨⟨htid, hcaller⟩, ht⟩ := ht
      cases ht
      have hbefore : s.holder k x = if false then .thread tid else .caller := hcaller
      refine h.hand htid hbefore rfl ?_
      split
      · trivial
      next g i hlocate => exact ⟨Layout.at_of_locate hlocate, Volume.setHolder_self k x _⟩
    · cases ht
  | step tid ok =>
    rw [bitmapStep, ite_none_right_eq_some] at ht
    exact Volume.advance_inv h ht.1 hok ht.2

/-- In a run from a volume at rest whose steps all meet `BitmapOk`, after every step: between two
times that a number was returned it was given to a free, and a number that a caller owned from the
start was given to a free before it was returned; and what was freed and not taken again is clear in
the bitmap on the device. -/
theorem bitmapRun_exclusive (l : Layout) (n : ℕ) (s₀ : Volume) (hrest : s₀.AtRest l)
    (ops : List BitmapOp) (hok : Guarded (bitmapStep l n) (BitmapOk l n) s₀ ops) (m : ℕ)
    (s : Volume) (hs : run (bitmapStep l n) s₀ (ops.take m) = some s) :
    (∀ k x l₁ l₂ l₃, s.log = l₁ ++ ⟨k, x, true⟩ :: (l₂ ++ ⟨k, x, true⟩ :: l₃) →
      ⟨k, x, false⟩ ∈ l₂) ∧
    (∀ k x l₁ l₂, s.log = l₁ ++ ⟨k, x, true⟩ :: l₂ → s₀.holder k x = .caller → ⟨k, x, false⟩ ∈ l₁) ∧
    ∀ k x g i, s.holder k x = .freed → l.locate k x = some (g, i) →
      bit (s.dev (l.bitmapBlock k g)) i = false := by
  have hinv : s.Inv l n s₀.owned :=
    run_guarded (fun _ _ _ => bitmapStep_inv) hrest.inv (guarded_take hok m) hs
  have hhistory := hinv.history
  refine ⟨fun k x l₁ l₂ l₃ hlog => ?_, fun k x l₁ l₂ hlog hcaller => ?_,
    fun k x g i hx hlocate => hinv.clear k x hx g i (Layout.at_of_locate hlocate)⟩
  · rw [hlog] at hhistory
    obtain ⟨e, he, hkey, hval⟩ := hhistory.between rfl rfl
    exact Event.mem_of_key he hkey hval
  rw [hlog] at hhistory
  obtain ⟨c, hbefore, hflag, -⟩ := toggles_append.mp hhistory
  by_contra hno
  have hstays := hbefore.stays (decide_eq_true hcaller) fun e he hkey => by
    by_contra hval
    exact hno (Event.mem_of_key he hkey (Bool.not_eq_true _ ▸ hval))
  rw [Event.key, hstays] at hflag
  cases hflag

/-- One group of eight blocks and eight inodes, the bitmaps in blocks 1 and 2. -/
def smallLayout : Layout := .oneGroup 1024 1 8 8 3 1 (by decide) (by decide)

/-- Blocks 1, 2 and 3 are in use, and 3 belongs to a caller. -/
def smallVolume : Volume where
  dev b := if b = 1 then fun i => if i = 0 then 7 else 0 else fun _ => 0
  groupFree _ _ := 5
  totalFree _ := 5
  lock _ := none
  phase _ := .idle
  holder k x := if k = .block ∧ x = 3 then .caller else .nobody
  log := []

lemma smallVolume_atRest : smallVolume.AtRest smallLayout where
  idle _ := rfl
  fresh := rfl
  unlocked _ := rfl
  holders k x := by
    by_cases h : k = .block ∧ x = 3
    · exact .inr (if_pos h)
    · exact .inl (if_neg h)
  marked k x h := by
    by_cases hx : k = .block ∧ x = 3
    · obtain ⟨rfl, rfl⟩ := hx
      exact ⟨0, 2, by decide, by decide⟩
    have hnobody : smallVolume.holder k x = .nobody := if_neg hx
    rw [hnobody] at h
    cases h
  reserved k g hg := by
    have hblock : smallLayout.bitmapBlock k g = 1 ∨ smallLayout.bitmapBlock k g = 2 := by
      cases k
      · exact .inl rfl
      · exact .inr rfl
    refine ⟨if_neg ?_, fun g' i hg' hi hnumber => ?_⟩
    · rintro ⟨-, hthree⟩
      omega
    have hg0 : g' = 0 := by
      have hlt : g' < 1 := hg'
      omega
    have hone : i = 0 ∨ i = 1 := by
      have hsum : 1 + g' * 8 + i = smallLayout.bitmapBlock k g := hnumber
      omega
    rw [hg0]
    rcases hone with rfl | rfl <;> decide

/-- The sections of an allocation that finds a clear bit in group 0. -/
def allocSteps (tid : ℕ) (k : Kind) : List BitmapOp :=
  .alloc tid k :: List.replicate 8 (.step tid true)

/-- Two allocations of blocks and the free of one, each after the other, with a third waiting for
the lock. -/
def takeAndFree : List BitmapOp :=
  [.alloc 1 .block, .step 1 true] ++ allocSteps 0 .block ++
    [.free 0 .block 4, .step 0 true, .step 0 true, .step 0 true] ++
    allocSteps 0 .block ++ [.step 1 true, .step 1 true, .step 1 true]

theorem bitmapRun_exclusive_of_takeAndFree :
    ∃ s, run (bitmapStep smallLayout 2) smallVolume takeAndFree = some s ∧
      s.log = [⟨.block, 4, true⟩, ⟨.block, 4, false⟩, ⟨.block, 4, true⟩] ∧
      ⟨.block, 4, false⟩ ∈ ([⟨.block, 4, false⟩] : List Event) := by
  obtain ⟨s, hrun, hlog⟩ : ∃ s, run (bitmapStep smallLayout 2) smallVolume takeAndFree = some s ∧
      s.log = [⟨.block, 4, true⟩, ⟨.block, 4, false⟩, ⟨.block, 4, true⟩] :=
        exists_of_decide (by decide +kernel)
  have hok : Guarded (bitmapStep smallLayout 2)
      (BitmapOk smallLayout 2) smallVolume takeAndFree := by decide +kernel
  have hall := bitmapRun_exclusive smallLayout 2 smallVolume smallVolume_atRest takeAndFree hok
    takeAndFree.length s
    (by rw [List.take_length]; exact hrun)
  exact ⟨s, hrun, hlog, hall.1 .block 4 [] _ [] hlog⟩

/-- First: a free of block 3 reads the bitmap, an allocation takes and returns block 4, and the free
writes back what it read, without the bit of block 4. Block 4 is returned again although nobody has
freed it. Second: an allocation reads the bitmap, block 3 is freed, and the allocation writes back
what it read, with the bit of block 3. -/
theorem free_races :
    (∃ s, run (bitmapStep smallLayout 2) smallVolume
        ([.free 0 .block 3, .step 0 true] ++ allocSteps 1 .block ++ [.step 0 true, .step 0 true] ++
          allocSteps 1 .block ++
          allocSteps 1 .block) = some s ∧
      s.log = [⟨.block, 3, false⟩, ⟨.block, 4, true⟩, ⟨.block, 3, true⟩, ⟨.block, 4, true⟩]) ∧
    ∃ s, run (bitmapStep smallLayout 2) smallVolume
      ([.alloc 1 .block, .step 1 true, .step 1 true, .step 1 true] ++
          [.free 0 .block 3, .step 0 true, .step 0 true, .step 0 true] ++ [.step 1 true]) = some s ∧
      s.holder .block 3 = .freed ∧ smallLayout.locate .block 3 = some (0, 2) ∧
      bit (s.dev (smallLayout.bitmapBlock .block 0)) 2 = true := by
  refine ⟨⟨_, rfl, ?_⟩, ⟨_, rfl, ?_⟩⟩
  all_goals decide +kernel

end Astryx.Ext2
