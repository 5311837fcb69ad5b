import Astryx.Pmm.State

/-!
# The counters of the physical memory manager

What a call can do is said once, as a list of events: `Extends s es s'` when the call moves the bits
along `es` and the counters by as many as there are events of each kind. Every call is such a step,
whatever address it is given (`pmmStep_reaches`), and the counters then follow from the log alone.

`RESERVED_PAGES` goes up at every withdrawal and never comes down, so it is the number of
withdrawals and not of withdrawn frames: a reserved frame that is given to `free_page` and reserved
again is counted twice. The count is that of the frames as long as no withdrawn frame is freed.

## Main results

* `pmmRun_accounts` — what the counters are in every reachable state
* `pmmRun_miscounts` — a frame that is withdrawn twice, and a free of frames the firmware never
  offered
-/

namespace Astryx.Pmm

open Toggle Function List PmmEvent

/-! ## Sweeps -/

/-- The sweep turned the bits of `ps`, in this order. -/
structure Sweep.Adds (mk : ℕ → PmmEvent) (w : Sweep) (ps : List ℕ) (w' : Sweep) : Prop where
  log : w'.log = w.log ++ ps.map mk
  bits : Toggles PmmEvent.page PmmEvent.used w.bitmap (ps.map mk) w'.bitmap
  count : w'.count = w.count + ps.length

lemma sweep_adds (mk : ℕ → PmmEvent) (hmk : ∀ p, (mk p).page = p) (l : List ℕ) (w : Sweep) :
    ∃ ps, (∀ p ∈ ps, p ∈ l) ∧ Sweep.Adds mk w ps (l.foldl (sweepPage mk) w) := by
  induction l generalizing w with
  | nil => exact ⟨[], fun _ => id, by simp, rfl, rfl⟩
  | cons p l ih =>
    obtain ⟨ps, hps, hadds⟩ := ih (sweepPage mk w p)
    rw [foldl_cons]
    by_cases hp : w.bitmap p = (mk p).used
    · have hsame : sweepPage mk w p = w := if_pos hp
      rw [hsame] at hadds ⊢
      exact ⟨ps, fun q hq => mem_cons_of_mem p (hps q hq), hadds⟩
    have hmoved : sweepPage mk w p = _ := if_neg hp
    rw [hmoved] at hadds ⊢
    refine ⟨p :: ps, ?_, ?_, ?_, ?_⟩
    · rintro q (_ | ⟨_, hq⟩)
      · simp
      · exact mem_cons_of_mem p (hps q hq)
    · simp [hadds.log]
    · have hbits := hadds.bits
      constructor
      · rw [hmk]
        exact Bool.eq_not_of_ne hp
      · rw [hmk]
        exact hbits
    rw [hadds.count, length_cons]
    show w.count + 1 + ps.length = w.count + (ps.length + 1)
    omega

variable {p : ℕ}

lemma pagesIn_lt {a b : ℕ} (h : p ∈ pagesIn a b) : p < maxPages := by
  rw [pagesIn, mem_range'_1] at h
  omega

/-! ## What a call can do -/

namespace PmmState

/-- The ranges of the statics. -/
structure Wf (s : PmmState) : Prop where
  total : s.totalPages ≤ maxPages
  used : s.usedPages < 2 ^ 64
  reserved : s.reservedPages < 2 ^ 64
  cursor : s.nextFitByte < bitmapSize

/-- From `s` to `s'` the bits change along `es`, and the counters with them. -/
structure Extends (s : PmmState) (es : List PmmEvent) (s' : PmmState) : Prop where
  log : s'.log = s.log ++ es
  bits : Toggles PmmEvent.page PmmEvent.used s.bitmap es s'.bitmap
  bound : ∀ e ∈ es, e.page < maxPages
  late : ∀ e ∈ es, e.isOffer = false
  total : s'.totalPages = s.totalPages
  used : s'.usedPages + es.countP (·.isFree) ≡ s.usedPages + es.countP (·.used) [MOD 2 ^ 64]
  reserved : s'.reservedPages ≡ s.reservedPages + es.countP (·.isWithdraw) [MOD 2 ^ 64]
  wf : s'.Wf

/-- `s'` comes from `s` by changes that the counters follow. -/
def Reaches (s s' : PmmState) : Prop := s.Wf → ∃ es, Extends s es s'

variable {s s' s'' : PmmState}

lemma Reaches.trans (h : Reaches s s') (h' : Reaches s' s'') : Reaches s s'' := by
  intro hwf
  obtain ⟨es, hes⟩ := h hwf
  obtain ⟨es', hes'⟩ := h' hes.wf
  refine ⟨es ++ es', ?_, ?_, ?_, ?_, ?_, ?_, ?_, hes'.wf⟩
  · simp [hes'.log, hes.log]
  · exact toggles_append.mpr ⟨s'.bitmap, hes.bits, hes'.bits⟩
  · intro e he
    exact (mem_append.mp he).elim (hes.bound e) (hes'.bound e)
  · intro e he
    exact (mem_append.mp he).elim (hes.late e) (hes'.late e)
  · rw [hes'.total, hes.total]
  · have hfirst := hes.used
    have hsecond := hes'.used
    rw [countP_append, countP_append]
    rw [Nat.ModEq] at *
    omega
  have hfirst := hes.reserved
  have hsecond := hes'.reserved
  rw [countP_append]
  rw [Nat.ModEq] at *
  omega

lemma Reaches.of_same (hlog : s'.log = s.log) (hbits : s'.bitmap = s.bitmap)
    (htotal : s'.totalPages = s.totalPages) (hused : s'.usedPages = s.usedPages)
    (hreserved : s'.reservedPages = s.reservedPages) (hcursor : s'.nextFitByte = s.nextFitByte) :
    Reaches s s' := by
  intro hwf
  refine ⟨[], ?_, hbits, by simp, by simp, htotal, ?_, ?_, ?_⟩
  · simp [hlog]
  · rw [hused]
    exact Nat.ModEq.refl _
  · rw [hreserved]
    exact Nat.ModEq.refl _
  · exact ⟨htotal ▸ hwf.total, hused ▸ hwf.used, hreserved ▸ hwf.reserved, hcursor ▸ hwf.cursor⟩

lemma Reaches.refl (s : PmmState) : Reaches s s := .of_same rfl rfl rfl rfl rfl rfl

lemma Reaches.foldl {α : Type*} {f : PmmState → α → PmmState} (hf : ∀ s a, Reaches s (f s a))
    (l : List α) (s : PmmState) : Reaches s (l.foldl f s) := by
  induction l generalizing s with
  | nil => exact Reaches.refl s
  | cons a l ih => exact (hf s a).trans (ih (f s a))

/-! ### Freeing -/

variable {page first last byteIdx bit : ℕ}

lemma clearBit_reaches (hpage : page < maxPages) (s : PmmState) : Reaches s (s.clearBit page) := by
  by_cases hbit : s.bitmap page
  · have hclear : s.clearBit page = _ := if_pos hbit
    rw [hclear]
    intro hwf
    refine ⟨[.free page], rfl, ⟨hbit, rfl⟩, ?_, ?_, rfl, ?_, Nat.ModEq.refl _, ?_⟩
    · rintro e (_ | ⟨_, ⟨⟩⟩)
      exact hpage
    · rintro - (_ | ⟨_, ⟨⟩⟩)
      rfl
    · show Word.sub s.usedPages 1 + 1 ≡ s.usedPages [MOD 2 ^ 64]
      rw [Nat.ModEq, Word.sub]
      omega
    · exact ⟨hwf.total, Nat.mod_lt _ (by decide), hwf.reserved, hwf.cursor⟩
  have hkeep : s.clearBit page = s := if_neg hbit
  rw [hkeep]
  exact Reaches.refl s

lemma markFreePendingIfPinned_reaches (phys : ℕ) (s : PmmState) :
    Reaches s (s.markFreePendingIfPinned phys).2 := by
  rw [markFreePendingIfPinned]
  split
  · exact Reaches.refl s
  split
  · split
    · exact Reaches.refl s
    · exact Reaches.refl s
    · exact .of_same rfl rfl rfl rfl rfl rfl
  · exact Reaches.refl s

lemma freePage_reaches (s : PmmState) (phys : ℕ) : Reaches s (s.freePage phys) := by
  rw [freePage]
  split
  · exact Reaches.refl s
  next hpage =>
    split
    · exact Reaches.refl s
    split
    · exact Reaches.refl s
    have hmark := markFreePendingIfPinned_reaches phys s
    split
    next heq =>
      rw [heq] at hmark
      exact hmark
    next heq =>
      rw [heq] at hmark
      exact hmark.trans (clearBit_reaches (not_le.mp hpage) _)

/-! ### Pins -/

section

variable (s : PmmState)

lemma pin_reaches (phys : ℕ) : Reaches s (s.pin phys) := by
  rw [pin]
  split
  · exact Reaches.refl s
  split
  · exact .of_same rfl rfl rfl rfl rfl rfl
  · exact Reaches.refl s

lemma unpinLedger_reaches (phys : ℕ) : Reaches s (s.unpinLedger phys).2 := by
  rw [unpinLedger]
  split
  · exact Reaches.refl s
  split
  · exact .of_same rfl rfl rfl rfl rfl rfl
  · exact Reaches.refl s

lemma pushDeferred_reaches (phys : ℕ) : Reaches s (s.pushDeferred phys) := by
  rw [pushDeferred]
  split
  · exact Reaches.refl s
  dsimp only
  split
  · exact .of_same rfl rfl rfl rfl rfl rfl
  · exact .of_same rfl rfl rfl rfl rfl rfl

lemma drainSlot_reaches (i : ℕ) : Reaches s (s.drainSlot i) := by
  rw [drainSlot]
  split
  · exact Reaches.refl s
  · refine Reaches.trans ?_ (freePage_reaches _ _)
    exact .of_same rfl rfl rfl rfl rfl rfl

lemma drainDeferred_reaches : Reaches s s.drainDeferred := Reaches.foldl drainSlot_reaches _ s

lemma unpin_reaches (phys : ℕ) (canFreeNow : Bool) : Reaches s (s.unpin phys canFreeNow) := by
  have hledger := unpinLedger_reaches s phys
  rw [unpin]
  split <;> rename_i heq <;> rw [heq] at hledger
  · split
    · exact hledger.trans (freePage_reaches _ phys)
    · exact hledger.trans (pushDeferred_reaches _ phys)
  · exact hledger
  · exact hledger

lemma drainDeferredIfDue_reaches (now : ℕ) : Reaches s (s.drainDeferredIfDue now) := by
  rw [drainDeferredIfDue]
  split
  · exact Reaches.refl s
  · refine Reaches.trans ?_ (drainDeferred_reaches _)
    exact .of_same rfl rfl rfl rfl rfl rfl

end

/-! ### Allocating -/

/-- A pass of the search ends at a clear bit of a byte between its bounds. -/
lemma searchBytes_spec (h : s.searchBytes first last = some (byteIdx, bit)) :
    byteIdx < last ∧ bit < 8 ∧ s.bitmap (byteIdx * 8 + bit) = false := by
  obtain ⟨b, hb, hsome⟩ := exists_of_findSome?_eq_some h
  split at hsome
  · cases hsome
  obtain ⟨c, hc, heq⟩ := Option.map_eq_some_iff.mp hsome
  cases heq
  have hclear := List.find?_some hc
  have hmem := mem_of_find?_eq_some hc
  rw [mem_range'_1] at hb
  refine ⟨by omega, mem_range.mp hmem, ?_⟩
  simpa using hclear

lemma allocPageLocked_reaches (s : PmmState) : Reaches s s.allocPageLocked.2 := by
  intro hwf
  rw [allocPageLocked]
  split
  next byteIdx bit hfound =>
    have hspec : byteIdx < bitmapSize ∧ bit < 8 ∧ s.bitmap (byteIdx * 8 + bit) = false := by
      rcases Option.or_eq_some_iff.mp hfound with h | ⟨-, h⟩
      · exact searchBytes_spec h
      · obtain ⟨hlt, hrest⟩ := searchBytes_spec h
        exact ⟨hlt.trans hwf.cursor, hrest⟩
    obtain ⟨hbyte, hbit, hclear⟩ := hspec
    have hpage : byteIdx * 8 + bit < maxPages := by
      have : bitmapSize * 8 = maxPages := rfl
      omega
    refine ⟨[.hand (byteIdx * 8 + bit)], rfl, ⟨hclear, rfl⟩, ?_, ?_, rfl, ?_, Nat.ModEq.refl _, ?_⟩
    · rintro e (_ | ⟨_, ⟨⟩⟩)
      exact hpage
    · rintro - (_ | ⟨_, ⟨⟩⟩)
      rfl
    · show Word.add s.usedPages 1 ≡ s.usedPages + 1 [MOD 2 ^ 64]
      exact Nat.mod_modEq _ _
    · exact ⟨hwf.total, Word.add_lt _ _, hwf.reserved, Nat.mod_lt _ (by decide)⟩
  · exact Reaches.refl s hwf

lemma allocPage_reaches (s : PmmState) (now : ℕ) (reaped : Option (List ℕ)) :
    Reaches s (s.allocPage now reaped).2 := by
  have htry : Reaches s (s.tryAllocPage now).2 :=
    (drainDeferredIfDue_reaches s now).trans (allocPageLocked_reaches _)
  rw [allocPage]
  split <;> rename_i heq <;> rw [heq] at htry
  · exact htry
  cases reaped with
  | none => exact htry
  | some frames =>
    exact (htry.trans (Reaches.foldl freePage_reaches frames _)).trans (allocPageLocked_reaches _)

/-- The run that `alloc_pages` finds: `count` clear bits. The run so far is the last `found` of the
pages already visited. -/
lemma findRun_spec {count start : ℕ} (n k start₀ found : ℕ) (hcount : found < count)
    (hrun : 0 < found → start₀ + found = k)
    (hclear : ∀ p, k - found ≤ p → p < k → s.bitmap p = false) (hfound : found ≤ k)
    (h : s.findRun count (List.range' k n) start₀ found = some start) :
    start + count ≤ k + n ∧ ∀ p, start ≤ p → p < start + count → s.bitmap p = false := by
  induction n generalizing k start₀ found with
  | zero => cases h
  | succ n ih =>
    rw [List.range'_succ, findRun] at h
    split at h
    · have hrest := ih (k + 1) start₀ 0 (by omega) (by omega) (by omega) (by omega) h
      exact ⟨by omega, hrest.2⟩
    next hbit =>
      have hk : s.bitmap k = false := by simpa using hbit
      have hnext : ∀ p, k - found ≤ p → p < k + 1 → s.bitmap p = false := by
        intro p hlo hhi
        by_cases hp : p = k
        · rw [hp]
          exact hk
        · exact hclear p hlo (by omega)
      have hstart : (if found = 0 then k else start₀) + found = k := by
        by_cases hzero : found = 0
        · simp [hzero, add_zero]
        · rw [if_neg hzero]
          exact hrun (by omega)
      dsimp only at h
      split at h
      · cases h
        refine ⟨by omega, fun p hlo hhi => hnext p (by omega) (by omega)⟩
      have hrest := ih (k + 1) _ (found + 1) (by omega) (by omega)
        (fun p hlo hhi => hnext p (by omega) hhi) (by omega) h
      exact ⟨by omega, hrest.2⟩

lemma foldl_take {pages : List ℕ} (hnodup : pages.Nodup)
    (hclear : ∀ p ∈ pages, s.bitmap p = false) :
    ∃ bitmap, Toggles PmmEvent.page PmmEvent.used s.bitmap (pages.map .hand) bitmap ∧
      pages.foldl take s = { s with bitmap := bitmap, log := s.log ++ pages.map .hand } := by
  induction pages generalizing s with
  | nil => exact ⟨s.bitmap, rfl, by simp⟩
  | cons p pages ih =>
    rw [nodup_cons] at hnodup
    have hrest : ∀ q ∈ pages, (s.take p).bitmap q = false := by
      intro q hq
      have hne : q ≠ p := fun h => hnodup.1 (h ▸ hq)
      show update s.bitmap p true q = false
      rw [update_of_ne hne]
      simp [hclear, hq]
    obtain ⟨bitmap, hbits, heq⟩ := ih hnodup.2 hrest
    refine ⟨bitmap, ⟨hclear p mem_cons_self, hbits⟩, ?_⟩
    rw [foldl_cons, heq]
    have hlog : (s.take p).log ++ pages.map .hand = s.log ++ (p :: pages).map .hand :=
      append_assoc s.log [.hand p] (pages.map .hand)
    rw [hlog]
    rfl

lemma countP_map_hand (pages : List ℕ) :
    (pages.map PmmEvent.hand).countP (·.used) = pages.length ∧
      (pages.map PmmEvent.hand).countP (·.isFree) = 0 ∧
      (pages.map PmmEvent.hand).countP (·.isWithdraw) = 0 := by
  simp [countP_map, comp_def, PmmEvent.used, isFree, isWithdraw]

lemma allocPages_reaches (s : PmmState) (count : ℕ) : Reaches s (s.allocPages count).2 := by
  rw [allocPages]
  split
  · exact Reaches.refl s
  next hcount =>
    split
    next start hfound =>
      intro hwf
      rw [range_eq_range'] at hfound
      obtain ⟨hend, hclear⟩ := findRun_spec maxPages 0 0 0 (by omega) (by omega) (by omega)
        (le_refl 0) hfound
      obtain ⟨bitmap, hbits, heq⟩ := foldl_take nodup_range'
        (fun p hp => hclear p (mem_range'_1.mp hp).1 (mem_range'_1.mp hp).2)
      obtain ⟨hhands, hfrees, hwithdraws⟩ := countP_map_hand (List.range' start count)
      rw [heq]
      refine ⟨(List.range' start count).map .hand, rfl, hbits, ?_, ?_, rfl, ?_, ?_, ?_⟩
      · intro e he
        obtain ⟨p, hp, rfl⟩ := mem_map.mp he
        have := (mem_range'_1.mp hp).2
        show p < maxPages
        omega
      · intro e he
        obtain ⟨-, -, rfl⟩ := mem_map.mp he
        rfl
      · rw [hfrees, hhands, length_range']
        exact Nat.mod_modEq _ _
      · rw [hwithdraws]
        exact Nat.ModEq.refl _
      · exact ⟨hwf.total, Word.add_lt _ _, hwf.reserved, hwf.cursor⟩
    · exact Reaches.refl s

/-! ### Reserving -/

lemma countP_map_withdraw (pages : List ℕ) :
    (pages.map PmmEvent.withdraw).countP (·.used) = pages.length ∧
      (pages.map PmmEvent.withdraw).countP (·.isFree) = 0 ∧
      (pages.map PmmEvent.withdraw).countP (·.isWithdraw) = pages.length := by
  simp [countP_map, comp_def, PmmEvent.used, isFree, isWithdraw]

/-- The counters take over what a sweep found to reserve. -/
lemma publish_reaches {w : Sweep} {ps : List ℕ} (hps : ∀ p ∈ ps, p < maxPages)
    (hadds : Sweep.Adds .withdraw { bitmap := s.bitmap, count := 0, log := s.log } ps w) :
    Reaches s (s.publish w) := by
  intro hwf
  obtain ⟨hused, hfrees, hwithdraws⟩ := countP_map_withdraw ps
  have hcount : w.count = ps.length := by
    rw [hadds.count]
    exact zero_add _
  have hbound : ∀ e ∈ ps.map PmmEvent.withdraw, e.page < maxPages := by
    intro e he
    obtain ⟨p, hp, rfl⟩ := mem_map.mp he
    exact hps p hp
  have hlate : ∀ e ∈ ps.map PmmEvent.withdraw, e.isOffer = false := by
    intro e he
    obtain ⟨-, -, rfl⟩ := mem_map.mp he
    rfl
  refine ⟨ps.map .withdraw, ?_⟩
  by_cases hpos : 0 < w.count
  · have hpublish : s.publish w = _ := if_pos hpos
    rw [hpublish]
    refine ⟨hadds.log, hadds.bits, hbound, hlate, rfl, ?_, ?_, ?_⟩
    · rw [hfrees, hused, hcount]
      exact Nat.mod_modEq _ _
    · rw [hwithdraws, hcount]
      exact Nat.mod_modEq _ _
    · exact ⟨hwf.total, Word.add_lt _ _, Word.add_lt _ _, hwf.cursor⟩
  have hpublish : s.publish w = _ := if_neg hpos
  have hnil : ps.length = 0 := by omega
  rw [hpublish]
  refine ⟨hadds.log, hadds.bits, hbound, hlate, rfl, ?_, ?_, ?_⟩
  · rw [hfrees, hused, hnil]
  · rw [hwithdraws, hnil]
    exact Nat.ModEq.refl _
  · exact ⟨hwf.total, hwf.used, hwf.reserved, hwf.cursor⟩

lemma reserveRange_reaches (s : PmmState) (start end_ : ℕ) :
    Reaches s (s.reserveRange start end_) := by
  obtain ⟨ps, hps, hadds⟩ := sweep_adds .withdraw (fun _ => rfl)
    (pagesIn (start / pageSize) (Word.add end_ (pageSize - 1) / pageSize))
    { bitmap := s.bitmap, count := 0, log := s.log }
  exact publish_reaches (fun p hp => pagesIn_lt (hps p hp)) hadds

end PmmState

/-- Every call changes the bits only in ways the counters follow. -/
theorem pmmStep_reaches (s : PmmState) (op : PmmOp) : s.Reaches (pmmStep s op) := by
  cases op with
  | allocPage now reaped => exact s.allocPage_reaches now reaped
  | allocPages count => exact s.allocPages_reaches count
  | freePage phys => exact s.freePage_reaches phys
  | reserveRange start end_ => exact s.reserveRange_reaches start end_
  | drainDeferred => exact s.drainDeferred_reaches
  | pin phys => exact s.pin_reaches phys
  | unpin phys canFreeNow => exact s.unpin_reaches phys canFreeNow
  | initPins | setRefcount page count => exact .of_same rfl rfl rfl rfl rfl rfl

/-! ## What the log says about the counters -/

/-- The frames that `init` and `reserve_range` took out of circulation, once for each time. -/
def PmmState.withdrawals (s : PmmState) : List ℕ := (s.log.filter (·.isWithdraw)).map (·.page)

/-- The bits and the counters are those of the log, and `init` made all its offers first. -/
structure PmmState.Accounted (s : PmmState) : Prop where
  bits : Toggles PmmEvent.page PmmEvent.used (fun _ => true) s.log s.bitmap
  bound : ∀ e ∈ s.log, e.page < maxPages
  offersFirst : s.log.Pairwise fun e e' => e'.isOffer = true → e.isOffer = true
  total : s.totalPages = s.log.countP (·.isOffer)
  used : s.usedPages + s.log.countP (·.isFree) ≡ s.log.countP (·.used) [MOD 2 ^ 64]
  reserved : s.reservedPages ≡ s.log.countP (·.isWithdraw) [MOD 2 ^ 64]
  wf : s.Wf

variable {s : PmmState} {info : BootInfo}

lemma PmmState.Accounted.step {s' : PmmState} (h : s.Accounted) (hstep : s.Reaches s') :
    s'.Accounted := by
  obtain ⟨es, hes⟩ := hstep h.wf
  refine ⟨?_, ?_, ?_, ?_, ?_, ?_, hes.wf⟩
  · rw [hes.log]
    exact toggles_append.mpr ⟨s.bitmap, h.bits, hes.bits⟩
  · rw [hes.log]
    intro e he
    exact (mem_append.mp he).elim (h.bound e) (hes.bound e)
  · rw [hes.log, pairwise_append]
    have hnone : ∀ e' ∈ es, ¬ e'.isOffer := by
      intro e' he'
      rw [hes.late e' he']
      decide
    refine ⟨h.offersFirst, ?_, fun e _ e' he' ho => absurd ho (hnone e' he')⟩
    exact pairwise_of_forall_mem_list fun _ _ e' he' ho => absurd ho (hnone e' he')
  · have hzero : es.countP (·.isOffer) = 0 := by
      rw [countP_eq_zero]
      intro e he
      rw [hes.late e he]
      decide
    simp [hes.total, hes.log, hzero, h.total, add_zero]
  · have hold := h.used
    have hnew := hes.used
    rw [hes.log, countP_append, countP_append]
    rw [Nat.ModEq] at *
    omega
  have hold := h.reserved
  have hnew := hes.reserved
  rw [hes.log, countP_append]
  rw [Nat.ModEq] at *
  omega

lemma countP_map_offer (pages : List ℕ) :
    (pages.map PmmEvent.offer).countP (·.used) = 0 ∧
      (pages.map PmmEvent.offer).countP (·.isFree) = 0 ∧
      (pages.map PmmEvent.offer).countP (·.isWithdraw) = 0 ∧
      (pages.map PmmEvent.offer).countP (·.isOffer) = pages.length := by
  simp [countP_map, comp_def, PmmEvent.used, isFree, isWithdraw, isOffer]

lemma BootInfo.stackPages_lt (h : p ∈ info.stackPages) : p < maxPages := by
  rw [BootInfo.stackPages] at h
  split at h
  · exact pagesIn_lt (mem_filter.mp h).1
  · cases h

lemma BootInfo.reservations_lt (h : p ∈ info.reservations) : p < maxPages := by
  rw [BootInfo.reservations, mem_append, mem_append, mem_append] at h
  rcases h with ((h | h) | h) | h
  · exact pagesIn_lt h
  · exact pagesIn_lt h
  · exact pagesIn_lt h
  · exact BootInfo.stackPages_lt h

/-- Clear bits by the log: what was offered or freed and not taken since. -/
lemma bitmapFree_add (hbits : Toggles PmmEvent.page PmmEvent.used (fun _ => true) s.log s.bitmap)
    (hbound : ∀ e ∈ s.log, e.page < maxPages) :
    s.bitmapFree + s.log.countP (·.used) = s.log.countP (·.isOffer) + s.log.countP (·.isFree) := by
  have hcard := hbits.card_add (fun e he => Finset.mem_range.mpr (hbound e he)) false
  have hstart : ((Finset.range maxPages).filter fun _ => true = false).card = 0 := by simp
  have hclear : ∀ l : List PmmEvent, l.countP (fun e => e.used = false) = l.countP (·.isOffer) +
      l.countP (·.isFree) := by
    intro l
    induction l with
    | nil => rfl
    | cons e l ih =>
      rw [countP_cons, countP_cons, countP_cons, ih]
      cases e <;> simp [PmmEvent.used, isOffer, isFree] <;> omega
  rw [hstart, hclear, zero_add] at hcard
  simpa [PmmState.bitmapFree] using hcard

lemma init_accounted (info : BootInfo) : (init info).Accounted := by
  obtain ⟨os, hos, hoffers⟩ := sweep_adds .offer (fun _ => rfl)
    (info.memoryMap.flatMap (·.pages)) Sweep.start
  obtain ⟨ws, hws, hwithdraws⟩ := sweep_adds .withdraw (fun _ => rfl) info.reservations
    { info.offers with count := 0 }
  obtain ⟨hoUsed, hoFree, hoWithdraw, hoOffer⟩ := countP_map_offer os
  obtain ⟨hwUsed, hwFree, hwWithdraw⟩ := PmmState.countP_map_withdraw ws
  have hwOffer : (ws.map PmmEvent.withdraw).countP (·.isOffer) = 0 := by
    simp [countP_map, comp_def, isOffer]
  have hlog : (init info).log = os.map .offer ++ ws.map .withdraw := by
    have hfirst : info.offers.log = os.map .offer := hoffers.log
    have hsecond : info.bootSweep.log = info.offers.log ++ ws.map .withdraw := hwithdraws.log
    rw [← hfirst]
    exact hsecond
  have htotal : (init info).totalPages = os.length := hoffers.count.trans (zero_add _)
  have hreserved : (init info).reservedPages = ws.length := hwithdraws.count.trans (zero_add _)
  have hused : (init info).usedPages = ws.length := hreserved
  have hbits : Toggles PmmEvent.page PmmEvent.used (fun _ => true)
      (init info).log (init info).bitmap := by
    rw [hlog]
    exact toggles_append.mpr ⟨info.offers.bitmap, hoffers.bits, hwithdraws.bits⟩
  have hbound : ∀ e ∈ (init info).log, e.page < maxPages := by
    rw [hlog]
    intro e he
    rcases mem_append.mp he with he | he
    · obtain ⟨p, hp, rfl⟩ := mem_map.mp he
      obtain ⟨entry, -, hin⟩ := mem_flatMap.mp (hos p hp)
      rw [MemoryMapEntry.pages] at hin
      split at hin
      · exact pagesIn_lt hin
      · cases hin
    · obtain ⟨p, hp, rfl⟩ := mem_map.mp he
      exact BootInfo.reservations_lt (hws p hp)
  -- the offers alone clear as many bits as there are offers, so there are at most `MAX_PAGES`
  have hsmall : os.length ≤ maxPages := by
    have hcard := hoffers.bits.card_add (fun e he => Finset.mem_range.mpr
      (hbound e (by rw [hlog]; exact mem_append_left _ he))) false
    have hle : ((Finset.range maxPages).filter fun p =>
        info.offers.bitmap p = false).card ≤ maxPages :=
      (Finset.card_filter_le _ _).trans (Finset.card_range _).le
    have hall : (os.map PmmEvent.offer).countP (fun e => e.used = false) = os.length := by
      simp [countP_map, comp_def, PmmEvent.used]
    have hnone : (os.map PmmEvent.offer).countP (fun e => e.used = !false) = 0 := by
      simp [countP_map, comp_def, PmmEvent.used]
    rw [hall, hnone, add_zero] at hcard
    exact (Nat.le_add_left _ _).trans (hcard.symm.le.trans hle)
  have hfree := bitmapFree_add hbits hbound
  have hmax : maxPages < 2 ^ 64 := by decide
  rw [hlog, countP_append, countP_append, countP_append, hoUsed, hwUsed, hoOffer, hwOffer, hoFree,
    hwFree] at hfree
  refine ⟨hbits, hbound, ?_, ?_, ?_, ?_, ?_, ?_, ?_, ?_⟩
  · rw [hlog, pairwise_append]
    refine ⟨?_, ?_, ?_⟩
    · refine pairwise_of_forall_mem_list fun e he e' _ _ => ?_
      obtain ⟨p, -, rfl⟩ := mem_map.mp he
      rfl
    · refine pairwise_of_forall_mem_list fun e _ e' he' ho => ?_
      obtain ⟨p, -, rfl⟩ := mem_map.mp he'
      cases ho
    intro e he e' _ _
    obtain ⟨-, -, rfl⟩ := mem_map.mp he
    rfl
  · simp [htotal, hlog, hoOffer, hwOffer, add_zero]
  · rw [hused, hlog, countP_append, countP_append, hoFree, hwFree, hoUsed, hwUsed, Nat.add_zero,
      Nat.zero_add]
  · rw [hreserved, hlog, countP_append, hoWithdraw, hwWithdraw, zero_add]
  · rw [htotal]
    exact hsmall
  · omega
  · omega
  · show 0 < bitmapSize
    decide

lemma pmmRun_accounted (info : BootInfo) (ops : List PmmOp) : (pmmRun info ops).Accounted := by
  exact (init_accounted info).step (PmmState.Reaches.foldl pmmStep_reaches ops (init info))

/-- What the counters mean. -/
structure PmmState.Accounts (s : PmmState) : Prop where
  /-- `TOTAL_PAGES - USED_PAGES`, in 64-bit arithmetic, is the number of clear bits. -/
  clear : Word.sub s.totalPages s.usedPages = s.bitmapFree
  /-- It is so without wrapping as long as only frames of the memory map are freed. -/
  exact : (∀ p, .free p ∈ s.log → .offer p ∈ s.log) → s.usedPages + s.bitmapFree = s.totalPages
  /-- `RESERVED_PAGES` counts the withdrawals. -/
  withdrawn : s.reservedPages = s.withdrawals.length % 2 ^ 64
  /-- These are of distinct frames as long as no withdrawn frame is freed. -/
  distinct : (∀ l₁ l₂ p, s.log = l₁ ++ .withdraw p :: l₂ → .free p ∉ l₂) →
    s.reservedPages = s.withdrawals.toFinset.card
  /-- Between two allocations of a frame it is freed. -/
  handed : ∀ l₁ l₂ l₃ p, s.log = l₁ ++ .hand p :: (l₂ ++ .hand p :: l₃) → .free p ∈ l₂

lemma PmmState.bitmapFree_le (s : PmmState) : s.bitmapFree ≤ maxPages := by
  refine (Finset.card_filter_le _ _).trans ?_
  simp

namespace PmmState.Accounted

variable {s : PmmState} (h : s.Accounted)
include h

variable {e e' : PmmEvent} {l₁ l₂ : List PmmEvent}

section

variable (hlog : s.log = l₁ ++ e :: l₂) (he : e.isOffer = false) (he' : e' ∈ l₂)

include hlog he he'

lemma not_offer_of_append : e'.isOffer = false := by
  have hpair := h.offersFirst
  rw [hlog, pairwise_append] at hpair
  have hafter := (pairwise_cons.mp hpair.2.1).1 e' he'
  rw [he] at hafter
  exact Bool.eq_false_iff.mpr fun ho => Bool.false_ne_true (hafter ho)

lemma eq_free (hclear : e'.used = false) : e' = .free e'.page := by
  have hno := h.not_offer_of_append hlog he he'
  cases e' with
  | offer p => cases hno
  | withdraw p => cases hclear
  | hand p => cases hclear
  | free p => rfl

end

lemma free_add : s.usedPages + s.bitmapFree ≡ s.totalPages [MOD 2 ^ 64] := by
  have hfree := bitmapFree_add h.bits h.bound
  have hused := h.used
  rw [h.total]
  rw [Nat.ModEq] at *
  omega

/-- Only offered frames are clear, if only such frames are freed. -/
lemma bitmapFree_le_total (hoffered : ∀ p, .free p ∈ s.log → .offer p ∈ s.log) :
    s.bitmapFree ≤ s.totalPages := by
  have hsub : (Finset.range maxPages).filter (fun p => s.bitmap p = false)
      ⊆ ((s.log.filter (·.isOffer)).map (·.page)).toFinset := by
    intro p hp
    obtain ⟨-, hclear⟩ := Finset.mem_filter.mp hp
    -- a clear bit was cleared by an event: an offer, or a free of an offered frame
    have hevent : ∃ e ∈ s.log, e.page = p ∧ e.used = false := by
      by_contra hno
      have hstay := h.bits.stays rfl fun e he hk => by
        by_contra hu
        exact hno ⟨e, he, hk, by simpa using hu⟩
      rw [hstay] at hclear
      cases hclear
    obtain ⟨e, he, rfl, hu⟩ := hevent
    have hoffer : .offer e.page ∈ s.log := by
      cases e with
      | offer p => exact he
      | withdraw p => cases hu
      | hand p => cases hu
      | free p => exact hoffered p he
    rw [mem_toFinset, mem_map]
    exact ⟨.offer e.page, mem_filter.mpr ⟨hoffer, rfl⟩, rfl⟩
  calc s.bitmapFree ≤ ((s.log.filter (·.isOffer)).map (·.page)).toFinset.card :=
    Finset.card_le_card hsub
    _ ≤ ((s.log.filter (·.isOffer)).map (·.page)).length := toFinset_card_le _
    _ = s.totalPages := by rw [length_map, ← countP_eq_length_filter, h.total]

lemma withdrawals_length : s.reservedPages ≡ s.withdrawals.length [MOD 2 ^ 64] := by
  rw [withdrawals, length_map, ← countP_eq_length_filter]
  exact h.reserved

lemma withdrawals_nodup (hkeep : ∀ l₁ l₂ p, s.log = l₁ ++ .withdraw p :: l₂ → .free p ∉ l₂) :
    s.withdrawals.Nodup := by
  have hwithdraw : ∀ e : PmmEvent, e.isWithdraw → e = .withdraw e.page := by
    intro e he
    cases e <;> first | rfl | cases he
  refine h.bits.nodup (v := true) (fun e _ he => ?_) fun l₁ e l₂ hlog he e' he' hkey => ?_
  · rw [hwithdraw e he]
    rfl
  rw [hwithdraw e he] at hlog
  by_contra hclear
  have hfree := h.eq_free hlog rfl he' (by simpa using hclear)
  rw [hkey] at hfree
  exact hkeep l₁ l₂ e.page hlog (hfree ▸ he')

lemma withdrawals_lt {p : ℕ} (hp : p ∈ s.withdrawals) : p < maxPages := by
  obtain ⟨e, he, rfl⟩ := mem_map.mp hp
  exact h.bound e (mem_filter.mp he).1

end PmmState.Accounted

/-- In every state that `init` and any calls lead to, the counters agree with the bitmap and with
the log. -/
theorem pmmRun_accounts (info : BootInfo) (ops : List PmmOp) : (pmmRun info ops).Accounts := by
  have h := pmmRun_accounted info ops
  have hmax : maxPages < 2 ^ 64 := by decide
  have hfree := h.free_add
  have hle := (pmmRun info ops).bitmapFree_le
  have htotal := h.wf.total
  have hused := h.wf.used
  refine ⟨?_, fun hoffered => ?_, ?_, fun hkeep => ?_, fun l₁ l₂ l₃ p hlog => ?_⟩
  · rw [Word.sub]
    rw [Nat.ModEq] at hfree
    omega
  · have hclear := h.bitmapFree_le_total hoffered
    rw [Nat.ModEq] at hfree
    omega
  · rw [← Nat.mod_eq_of_lt h.wf.reserved]
    exact h.withdrawals_length
  · -- distinct frames are fewer than `2 ^ 64`, so the counter has not wrapped
    have hnodup := h.withdrawals_nodup hkeep
    have hcard : (pmmRun info ops).withdrawals.toFinset.card =
        (pmmRun info ops).withdrawals.length :=
      toFinset_card_of_nodup hnodup
    have hbound : (pmmRun info ops).withdrawals.toFinset.card ≤ (Finset.range maxPages).card :=
      Finset.card_le_card fun p hp =>
        Finset.mem_range.mpr (h.withdrawals_lt (mem_toFinset.mp hp))
    have hmod := h.withdrawals_length
    have hlt := h.wf.reserved
    rw [Finset.card_range] at hbound
    rw [Nat.ModEq] at hmod
    omega
  have hbits := h.bits
  rw [hlog] at hbits
  obtain ⟨e, he, hkey, hval⟩ := hbits.between rfl rfl
  have hfree : e = .free e.page := h.eq_free hlog rfl (by simp [he]) hval
  have hpage : e.page = p := hkey
  rw [hpage] at hfree
  rw [← hfree]
  exact he

/-- The frame is reserved, freed and reserved again: two withdrawals of one frame. Two frees of
frames that the map does not have take `USED_PAGES` below zero. -/
theorem pmmRun_miscounts :
    let s := pmmRun loneFrame [.reserveRange 0x1388000 0x1389000, .freePage 0x1388000,
      .reserveRange 0x1388000 0x1389000,
        .freePage 0x2000000, .freePage 0x2001000]
    s.reservedPages = 2 ∧ s.withdrawals.toFinset.card = 1 ∧ s.totalPages = 1 ∧
    s.usedPages = 2 ^ 64 - 1 := by
  decide +kernel

end Astryx.Pmm
