import Astryx.Futex.Interleaving

/-!
# A blocked waiter is where its cleanup looks

What a sleeping thread's cleanup will consult is its home (`FutexSystem.home`): the destination
recorded for it, or the key it waits on. The invariant is that the wait map is at home in the sense
of `Buckets.Homed`, and that a blocked sleeper is in it.

A requeue keeps this if it drops no blocked waiter and moves waiters of the caller's process only.
The record it leaves for the cleanup of a waiter carries the caller's process id, and the waiter
looks under its own.

## Main results

* `futexStep_inv` — every step that meets the two conditions keeps the invariant
* `futexRun_waiters` — in every run of such steps waiters are found where they should be
* `requeue_strands_waiter` — a run in which another process moves a waiter
-/

namespace Astryx.Futex

open Function List Option ThreadTable FutexState Transition

/-! ## Steps that block nobody -/

/-- The thread is dead. -/
def ThreadTable.isDead (threads : ThreadTable) (tid : ℕ) : Bool :=
  (threads tid).any (·.state == .dead)

/-- A step from `th` to `th'` that does not block it. -/
structure Thread.Calms (th th' : Thread) : Prop where
  pid : th'.pid = th.pid
  blocked : th'.state = .blocked → th.state = .blocked
  dead : th.state = .dead → th'.state = .dead

/-- No thread is newly blocked, and none comes back from the dead. -/
structure Calms (threads threads' : ThreadTable) : Prop where
  pidOf : ∀ tid, threads'.pidOf tid = threads.pidOf tid
  blocked : ∀ tid, threads'.isBlocked tid → threads.isBlocked tid
  dead : ∀ tid, threads.isDead tid → threads'.isDead tid

lemma Thread.Calms.refl (th : Thread) : th.Calms th := ⟨rfl, id, id⟩

lemma Thread.Calms.ite {th th' : Thread} {c : Prop} [Decidable c] (h : c → th.Calms th') :
    th.Calms (if c then th' else th) := by
  split
  next hc => exact h hc
  · exact refl th

lemma Thread.calms_wakeIfBlocked (th : Thread) : th.Calms th.wakeIfBlocked :=
  .ite fun h => ⟨rfl, fun _ => h, fun hd => by rw [h] at hd; cases hd⟩

lemma Thread.not_blocked_wakeIfBlocked (o : Option Thread) :
    ¬(o.map wakeIfBlocked).any (·.state == .blocked) := by
  cases o with
  | none => simp
  | some th => by_cases h : th.state = .blocked <;> simp [wakeIfBlocked, h, wake]

namespace Calms

variable {threads threads' threads'' : ThreadTable}

lemma refl (threads : ThreadTable) : Calms threads threads :=
  ⟨fun _ => rfl, fun _ => id, fun _ => id⟩

lemma trans (h : Calms threads threads') (h' : Calms threads' threads'') :
    Calms threads threads'' where
  pidOf tid := (h'.pidOf tid).trans (h.pidOf tid)
  blocked tid hb := h.blocked tid (h'.blocked tid hb)
  dead tid hd := h'.dead tid (h.dead tid hd)

lemma map {f : ℕ → Thread → Thread} (hf : ∀ tid, ∀ th : Thread, th.Calms (f tid th)) :
    Calms threads fun tid => (threads tid).map (f tid) := by
  refine ⟨fun tid => ?_, fun tid => ?_, fun tid => ?_⟩
  · cases h : threads tid with
    | none => simp [ThreadTable.pidOf, h]
    | some th => simp [ThreadTable.pidOf, h, (hf tid th).pid]
  · cases h : threads tid with
    | none => simp [ThreadTable.isBlocked, h]
    | some th => simpa [ThreadTable.isBlocked, h] using (hf tid th).blocked
  cases h : threads tid with
  | none => simp [isDead, h]
  | some th => simpa [isDead, h] using (hf tid th).dead

lemma update {f : Thread → Thread} (hf : ∀ th : Thread, th.Calms (f th)) (tid : ℕ) :
    Calms threads (Function.update threads tid ((threads tid).map f)) := by
  have hmap : Function.update threads tid ((threads tid).map f) =
      fun t => (threads t).map (if t = tid then f else id) := by
    funext t
    by_cases ht : t = tid
    · subst ht
      simp
    · simp [ht]
  rw [hmap]
  refine map fun t th => ?_
  by_cases ht : t = tid
  · simpa [ht] using hf th
  · simpa [ht] using Thread.Calms.refl th

lemma foldl {step : ThreadTable → ℕ → ThreadTable}
    (hstep : ∀ threads tid, Calms threads (step threads tid)) (l : List ℕ) (threads : ThreadTable) :
    Calms threads (l.foldl step threads) := by
  induction l generalizing threads with
  | nil => exact refl threads
  | cons tid l ih => exact (hstep threads tid).trans (ih _)

end Calms

lemma ThreadTable.calms_wake (threads : ThreadTable) (tid : ℕ) : Calms threads (threads.wake tid) :=
  Calms.update Thread.calms_wakeIfBlocked tid

lemma ThreadTable.not_isBlocked_wake (threads : ThreadTable) (tid : ℕ) :
    ¬(threads.wake tid).isBlocked tid := by
  rw [isBlocked, wake, update_self]
  exact Thread.not_blocked_wakeIfBlocked (threads tid)

/-! ## Wake-class operations -/

/-- The operation cuts entries off the front of one bucket; the threads it chose are among them, and
nobody among them is blocked afterwards. -/
structure Serves (f f' : FutexState) (woken : List ℕ) : Prop where
  calms : Calms f.threads f'.threads
  requeueDest : f'.requeueDest = f.requeueDest
  cut : ∃ key taken, f.waiters key = taken ++ f'.waiters key ∧
    (∀ k, k ≠ key → f'.waiters k = f.waiters k) ∧
    woken ⊆ taken ∧ ∀ tid ∈ taken, ¬f'.threads.isBlocked tid

lemma wakeScan_spec (list : List ℕ) (threads : ThreadTable) (n : ℕ) :
    Calms threads (wakeScan list threads n).1 ∧
      ∃ taken, list = taken ++ (wakeScan list threads n).2.2 ∧
        (wakeScan list threads n).2.1 ⊆ taken ∧
        ∀ tid ∈ taken, ¬(wakeScan list threads n).1.isBlocked tid := by
  fun_induction wakeScan list threads n with
  | case1 threads n => exact ⟨Calms.refl _, [], by simp⟩
  | case2 tid list threads => exact ⟨Calms.refl _, [], by simp⟩
  | case3 tid list threads n hb r ih =>
    obtain ⟨hcalms, taken, hlist, hwoken, htaken⟩ := ih
    refine ⟨(threads.calms_wake tid).trans hcalms, tid :: taken, by rw [cons_append, ← hlist],
      cons_subset_cons tid hwoken, ?_⟩
    rintro t (_ | ⟨_, ht⟩)
    · exact fun hbt => threads.not_isBlocked_wake tid (hcalms.blocked tid hbt)
    · exact htaken t ht
  | case4 tid list threads n hb ih =>
    obtain ⟨hcalms, taken, hlist, hwoken, htaken⟩ := ih
    refine ⟨hcalms, tid :: taken, by simp [← hlist],
      fun t ht => mem_cons_of_mem tid (hwoken ht), ?_⟩
    rintro t (_ | ⟨_, ht⟩)
    · exact fun hbt => hb (hcalms.blocked tid hbt)
    · exact htaken t ht

lemma futexWakeBucketLive_serves (f : FutexState) (key : FutexKey) (maxWake curTid : ℕ) :
    Serves f (f.futexWakeBucketLive key maxWake curTid).1
      (f.futexWakeBucketLive key maxWake curTid).2 := by
  obtain ⟨hcalms, taken, hlist, hwoken, htaken⟩ := wakeScan_spec (f.waiters key) f.threads maxWake
  refine ⟨hcalms, rfl, key, taken, ?_, fun k hk => update_of_ne hk .., hwoken, htaken⟩
  rw [show (f.futexWakeBucketLive key maxWake curTid).1.waiters key =
    (wakeScan (f.waiters key) f.threads maxWake).2.2 from update_self ..]
  exact hlist

/-- A step that leaves the queues alone and blocks nobody. -/
lemma Serves.of_calms {f f' : FutexState} (hcalms : Calms f.threads f'.threads)
    (hwaiters : f'.waiters = f.waiters) (hdest : f'.requeueDest = f.requeueDest) : Serves f f' [] :=
  ⟨hcalms, hdest, (0, 0),
    [], by simp [hwaiters], fun k _ => by rw [hwaiters], nil_subset _, by simp⟩

lemma dueWakeScan_serves (f : FutexState) (now : ℕ) : Serves f (f.dueWakeScan now) [] := by
  refine .of_calms (Calms.map fun tid th => ?_) rfl rfl
  split
  · exact ⟨rfl, nofun, fun hd => by simp_all⟩
  · exact .ite fun _ => ⟨rfl, nofun, fun hd => by simp_all⟩

lemma futexWakeForExit_serves (f : FutexState) (pid uaddr maxWake : ℕ) :
    Serves f (f.futexWakeForExit pid uaddr maxWake).state
      (f.futexWakeForExit pid uaddr maxWake).woken := by
  have hready :
      ∀ th : Thread, th.Calms (if th.state = .blocked then { th with state := .ready } else th) :=
    fun th => .ite fun _ => ⟨rfl, nofun, fun hd => by simp_all⟩
  refine ⟨Calms.foldl (fun threads => Calms.update hready) _ _, rfl, (pid, uaddr),
    (f.waiters (pid, uaddr)).take maxWake, ?_, fun k hk => update_of_ne hk .., fun _ => id, ?_⟩
  · rw [show (f.futexWakeForExit pid uaddr maxWake).state.waiters (pid, uaddr) =
      (f.waiters (pid, uaddr)).drop maxWake from update_self ..]
    exact (take_append_drop ..).symm
  -- a thread stays unblocked from its own turn on
  intro tid htid
  change ¬(List.foldl _ f.threads _ : ThreadTable).isBlocked tid
  obtain ⟨l, l', hl⟩ := append_of_mem htid
  rw [hl, foldl_append, foldl_cons]
  intro hb
  have hturn := (Calms.foldl (fun threads => Calms.update hready) l' _).blocked tid hb
  rw [isBlocked_iff] at hturn
  obtain ⟨th, hth, hblocked⟩ := hturn
  rw [update_self, map_eq_some_iff] at hth
  obtain ⟨th', -, rfl⟩ := hth
  by_cases h : th'.state = .blocked <;> simp [h] at hblocked

/-! ## The invariant -/

namespace FutexSystem

variable {tid : ℕ} (s : FutexSystem)

/-- The bucket the cleanup of a sleeper will consult, for one that nobody has chosen. -/
def home (tid : ℕ) : Option FutexKey :=
  match s.phase tid with
  | .asleep waitKey false =>
    (s.futex.threads.pidOf tid).map fun pid => (s.futex.requeueDest (pid, tid)).getD waitKey
  | _ => none

/-- What holds in every state. -/
structure Inv : Prop where
  /-- An entry of the wait map is an unchosen sleeper, in its home bucket and once. -/
  homed : Buckets.Homed s.home s.futex.waiters
  /-- The private buckets of a process hold its own threads. -/
  own : ∀ key, ∀ tid ∈ s.futex.waiters key, key.1 ≠ futexSharedNs →
    s.futex.threads.pidOf tid = some key.1
  /-- A blocked sleeper is in its home bucket. -/
  queued : ∀ tid waitKey selected, s.phase tid = .asleep waitKey selected →
    s.futex.threads.isBlocked tid →
    ∃ key, s.home tid = some key ∧ tid ∈ s.futex.waiters key
  /-- A destination is recorded for sleepers only. -/
  record : ∀ tid pid, s.futex.threads.pidOf tid = some pid →
    (∀ waitKey selected, s.phase tid ≠ .asleep waitKey selected) →
    s.futex.requeueDest (pid, tid) = none
  pid : ∀ tid, s.futex.threads.pidOf tid ≠ some futexSharedNs
  /-- While a process is being drained its threads are dead, the one that drains it apart. -/
  exiting : ∀ c pid, s.phase c = .exiting pid →
    ∀ tid, s.futex.threads.pidOf tid = some pid → s.futex.threads.isDead tid ∨ tid = c

variable {s}

lemma Fresh.inv (hs : s.Fresh) : s.Inv where
  homed := by
    rw [show s.futex.waiters = fun _ => [] from funext hs.waiters]
    exact Buckets.Homed.empty _
  own key tid hmem := by simp [hs.waiters] at hmem
  queued tid waitKey selected hphase := by simp [hs.phase] at hphase
  record tid pid _ _ := hs.requeueDest _
  pid := hs.pid
  exiting c pid hphase := by simp [hs.phase] at hphase

variable {waitKey key k : FutexKey} {pid a : ℕ} {s' : FutexSystem} {r : Reply} {t : Thread}

lemma home_asleep (hphase : s.phase tid = .asleep waitKey false)
    (hpid : s.futex.threads.pidOf tid = some pid) :
    s.home tid = some ((s.futex.requeueDest (pid, tid)).getD waitKey) := by
  rw [home, hphase]
  simp [hpid]

lemma home_eq_some (h : s.home tid = some key) :
    ∃ waitKey pid, s.phase tid = .asleep waitKey false ∧ s.futex.threads.pidOf tid = some pid ∧
      key = (s.futex.requeueDest (pid, tid)).getD waitKey := by
  rw [home] at h
  split at h
  next waitKey hphase =>
    obtain ⟨pid, hpid, hkey⟩ := map_eq_some_iff.mp h
    exact ⟨waitKey, pid, hphase, hpid, hkey.symm⟩
  · cases h

lemma home_user (h : s.phase tid = .user) : s.home tid = none := by
  rw [home, h]

/-- The home depends on the thread's own phase, process and record only. -/
lemma home_congr (hphase : s'.phase tid = s.phase tid)
    (hpid : s'.futex.threads.pidOf tid = s.futex.threads.pidOf tid)
    (hdest : ∀ pid, s.futex.threads.pidOf tid = some pid →
      s'.futex.requeueDest (pid, tid) = s.futex.requeueDest (pid, tid)) :
        s'.home tid = s.home tid := by
  rw [home, home, hphase, hpid]
  split
  · cases h : s.futex.threads.pidOf tid with
    | none => rfl
    | some pid => simp [hdest pid h]
  · rfl

/-! ## Wakes, the timer and stores -/

@[simp] lemma reply_futex (r : Reply) : (s.reply r).futex = r.state := rfl

/-- Being chosen does not change what a thread is doing. -/
lemma reply_exiting (h : (s.reply r).phase tid = .exiting pid) : s.phase tid = .exiting pid := by
  simp only [reply] at h
  split at h
  · cases hp : s.phase tid <;> simp_all [Phase.select]
  · exact h

lemma reply_asleep {selected : Bool} (h : (s.reply r).phase tid = .asleep waitKey selected) :
    ∃ b, s.phase tid = .asleep waitKey b := by
  simp only [reply] at h
  split at h
  · cases hp : s.phase tid <;> simp_all [Phase.select]
  · exact ⟨selected, h⟩

lemma asleep_reply {selected : Bool} (h : s.phase tid = .asleep waitKey selected) :
    ∃ b, (s.reply r).phase tid = .asleep waitKey b := by
  simp only [reply, h]
  split
  · exact ⟨true, rfl⟩
  · exact ⟨selected, rfl⟩

lemma Inv.reply (hi : s.Inv) (hr : Serves s.futex r.state r.woken) : (s.reply r).Inv := by
  obtain ⟨key, taken, hkey, hother, hwoken, htaken⟩ := hr.cut
  have hsub : ∀ k, (r.state.waiters k).Sublist (s.futex.waiters k) := by
    intro k
    by_cases hk : k = key
    · rw [hk, hkey]
      exact sublist_append_right ..
    · rw [hother k hk]
  -- a chosen thread has left the map, since it was in this bucket only and once
  have hgone : ∀ tid ∈ taken, ∀ k, tid ∉ r.state.waiters k := by
    intro tid ht k hmem
    have hmem' : tid ∈ s.futex.waiters key := by
      rw [hkey]
      simp [ht]
    by_cases hk : k = key
    · have hnodup := hi.homed.nodup key
      rw [hkey, ← hk] at hnodup
      exact (nodup_append.mp hnodup).2.2 tid ht tid hmem rfl
    · rw [hother k hk] at hmem
      exact hi.homed.not_mem_of_ne hmem' hk hmem
  have hhome : ∀ k, ∀ tid ∈ r.state.waiters k, (s.reply r).home tid = s.home tid := by
    intro k tid hmem
    refine home_congr (if_neg fun hw => hgone tid (hwoken hw) k hmem)
      (hr.calms.pidOf tid) fun pid _ => ?_
    exact congrFun hr.requeueDest _
  refine ⟨hi.homed.shrink hsub hhome, ?_, ?_, ?_, ?_, ?_⟩
  · intro k tid hmem hk
    exact (hr.calms.pidOf tid).trans (hi.own k tid ((hsub k).subset hmem) hk)
  · intro tid waitKey selected hphase hb
    obtain ⟨b, hasleep⟩ := reply_asleep hphase
    obtain ⟨k, hk, hmem⟩ := hi.queued tid waitKey b hasleep (hr.calms.blocked tid hb)
    have hmem' : tid ∈ r.state.waiters k := by
      by_cases hkk : k = key
      · rw [hkk, hkey] at hmem
        rw [hkk]
        exact (mem_append.mp hmem).resolve_left fun ht => htaken tid ht hb
      · rwa [hother k hkk]
    exact ⟨k, (hhome k tid hmem').trans hk, hmem'⟩
  · intro tid pid hpid hphase
    refine (congrFun hr.requeueDest _).trans
      (hi.record tid pid ((hr.calms.pidOf tid).symm.trans hpid) ?_)
    intro waitKey selected h
    obtain ⟨b, hb⟩ := asleep_reply h
    exact hphase waitKey b hb
  · intro tid
    rw [reply_futex, hr.calms.pidOf tid]
    exact hi.pid tid
  · intro c pid hc tid hpid
    exact (hi.exiting c pid (reply_exiting hc) tid ((hr.calms.pidOf tid).symm.trans hpid)).imp_left
      (hr.calms.dead tid)

lemma Inv.calm (hi : s.Inv) {f : FutexState} (hf : Serves s.futex f []) :
    ({ s with futex := f }).Inv := by
  have h := hi.reply (r := ⟨f, [], 0⟩) hf
  rwa [show s.reply ⟨f, [], 0⟩ = { s with futex := f } by simp [FutexSystem.reply]] at h

lemma Inv.store (hi : s.Inv) (mem : ℕ → BitVec 32) :
    ({ s with futex := { s.futex with mem } }).Inv :=
  hi.calm (.of_calms (Calms.refl _) rfl rfl)

lemma reply_append (f f' : FutexState) (l l' : List ℕ) (ret ret' ret'' : ℤ) :
    s.reply ⟨f', l ++ l', ret⟩ = (s.reply ⟨f, l, ret'⟩).reply ⟨f', l', ret''⟩ := by
  have hidem : ∀ p : Phase, p.select.select = p.select := by
    intro p
    cases p <;> rfl
  simp only [FutexSystem.reply, FutexSystem.mk.injEq, true_and]
  funext tid
  by_cases h : tid ∈ l <;> by_cases h' : tid ∈ l' <;> simp [h, h', hidem]

lemma Inv.wakeOp (hi : s.Inv) (isPrivate : Bool) (pid tid : ℕ) (w w2 : UserWord)
    (val val2 val3 : ℕ) :
    (s.reply (s.futex.futexWakeOp isPrivate pid tid w w2 val val2 val3)).Inv := by
  have hsame : ∀ ret, (s.reply ⟨s.futex, [], ret⟩).Inv := fun ret =>
    hi.reply (.of_calms (Calms.refl _) rfl rfl)
  rw [futexWakeOp]
  cases w2.read s.futex.mem with
  | none => exact hsame _
  | some oldval =>
    dsimp only
    cases wakeOpValue (BitVec.ofNat 32 val3) oldval with
    | none => exact hsame _
    | some newval =>
      dsimp only
      cases w2.write s.futex.mem newval with
      | none => exact hsame _
      | some mem =>
        have hfirst := (hi.store mem).reply
          (r := ⟨_, _, 0⟩)
            (futexWakeBucketLive_serves { s.futex with mem } (futexKey isPrivate pid w)
            (wakeLimit val) tid)
        cases wakeOpCompare (BitVec.ofNat 32 val3) oldval with
        | none => exact hfirst
        | some b =>
          cases b with
          | false => exact hfirst
          | true =>
            -- the second wake starts from what the first one left
            have hsecond := hfirst.reply (r := ⟨_, _, 0⟩) (futexWakeBucketLive_serves _
              (futexKey isPrivate pid w2) (wakeLimit val2) tid)
            rw [← reply_append] at hsecond
            exact hsecond

/-! ## Waiting -/

lemma caller_eq_some (h : s.caller tid = some pid) :
    s.phase tid = .user ∧ s.futex.threads.pidOf tid = some pid := by
  rw [caller] at h
  split at h
  · exact ⟨‹_ ∧ _›.1, h⟩
  · cases h

/-- A thread goes on. -/
def withPhase (s : FutexSystem) (tid : ℕ) (p : Phase) : FutexSystem :=
  { s with phase := Function.update s.phase tid p }

@[simp] lemma withPhase_self (tid : ℕ) (p : Phase) :
    (s.withPhase tid p).phase tid = p := update_self ..

lemma withPhase_of_ne {t : ℕ} (h : t ≠ tid) (p : Phase) : (s.withPhase tid p).phase t = s.phase t :=
  update_of_ne h ..

/-- A thread that is on no queue changes its phase. -/
lemma Inv.withPhase (hi : s.Inv) {p : Phase} (hnot : ∀ key, tid ∉ s.futex.waiters key)
    (hasleep : ∀ waitKey selected, p = .asleep waitKey selected → ¬s.futex.threads.isBlocked tid)
    (hrecord : (∀ waitKey selected, p ≠ .asleep waitKey selected) →
      ∀ pid, s.futex.threads.pidOf tid = some pid → s.futex.requeueDest (pid, tid) = none)
        (hexiting : ∀ pid, p = .exiting pid →
      ∀ t, s.futex.threads.pidOf t = some pid → s.futex.threads.isDead t ∨ t = tid) :
        (s.withPhase tid p).Inv := by
  have hhome : ∀ t, t ≠ tid → (s.withPhase tid p).home t = s.home t := fun t ht =>
    home_congr (withPhase_of_ne ht p) rfl fun _ _ => rfl
  have hne : ∀ key, ∀ t ∈ s.futex.waiters key, t ≠ tid := fun key t hmem ht => hnot key (ht ▸ hmem)
  refine ⟨hi.homed.shrink (fun _ => List.Sublist.refl _) fun key t hmem =>
    hhome t (hne key t hmem), hi.own, ?_,
    ?_, hi.pid, ?_⟩
  · intro t waitKey selected hp hb
    by_cases ht : t = tid
    · rw [ht, withPhase_self] at hp
      exact absurd (ht ▸ hb) (hasleep waitKey selected hp)
    rw [withPhase_of_ne ht] at hp
    obtain ⟨key, hkey, hmem⟩ := hi.queued t waitKey selected hp hb
    exact ⟨key, (hhome t ht).trans hkey, hmem⟩
  · intro t pid hpid hp
    by_cases ht : t = tid
    · subst ht
      simp only [withPhase_self] at hp
      exact hrecord hp pid hpid
    · simp only [withPhase_of_ne ht] at hp
      exact hi.record t pid hpid hp
  intro c pid hc
  by_cases hct : c = tid
  · subst hct
    rw [withPhase_self] at hc
    exact hexiting pid hc
  · rw [withPhase_of_ne hct] at hc
    exact hi.exiting c pid hc

lemma futexKey_fst (isPrivate : Bool) (pid : ℕ) (w : UserWord) :
    (futexKey isPrivate pid w).1 = futexSharedNs ∨ (futexKey isPrivate pid w).1 = pid := by
  rw [futexKey]
  cases isPrivate with
  | true => exact .inr rfl
  | false =>
    cases w.sharedPhys with
    | none => exact .inr rfl
    | some phys => exact .inl rfl

/-- A sleeper that is on no queue yet is enqueued and blocked. -/
def block (s : FutexSystem) (tid : ℕ) (key : FutexKey) (t : Thread) : FutexSystem :=
  { s with
    futex :=
      { s.futex with
        waiters := Function.update s.futex.waiters key (s.futex.waiters key ++ [tid])
        threads := Function.update s.futex.threads tid (some t) } }

lemma mem_block : a ∈ (s.block tid key t).futex.waiters k ↔ a ∈ s.futex.waiters k ∨
    (a = tid ∧ k = key) := by
  show a ∈ Function.update s.futex.waiters key (s.futex.waiters key ++ [tid]) k ↔ _
  by_cases hk : k = key
  · subst hk
    simp
  · simp [hk]

lemma Inv.block (hi : s.Inv) {t' : Thread} (hphase : s.phase tid = .asleep key false)
    (ht : s.futex.threads tid = some t) (hpid : t'.pid = t.pid) (hdead : t.state ≠ .dead)
    (hnot : ∀ k, tid ∉ s.futex.waiters k) (hdest : s.futex.requeueDest (t.pid, tid) = none)
    (hkey : key.1 = futexSharedNs ∨ key.1 = t.pid) : (s.block tid key t').Inv := by
  have hthreads : ∀ a, a ≠ tid → (s.block tid key t').futex.threads a =
      s.futex.threads a := fun a ha => update_of_ne ha ..
  have hself : (s.block tid key t').futex.threads tid = some t' := update_self ..
  have hpidOf : ∀ a, (s.block tid key t').futex.threads.pidOf a = s.futex.threads.pidOf a := by
    intro a
    by_cases ha : a = tid
    · subst ha
      simp [ThreadTable.pidOf, hself, ht, hpid]
    · simp [ThreadTable.pidOf, hthreads a ha]
  have hhome : ∀ a, (s.block tid key t').home a = s.home a := fun a =>
    home_congr rfl (hpidOf a) fun _ _ => rfl
  have hhometid : s.home tid = some key := by
    simp [home_asleep hphase
      (by simp [ThreadTable.pidOf, ht] : s.futex.threads.pidOf tid = some t.pid), hdest]
  refine ⟨hi.homed.push hnot ((hhome tid).trans hhometid) fun a _ => hhome a, ?_, ?_, ?_, ?_, ?_⟩
  · intro k a hmem hk
    rw [hpidOf a]
    rcases mem_block.mp hmem with hmem | ⟨rfl, rfl⟩
    · exact hi.own k a hmem hk
    · rw [hkey.resolve_left hk]
      simp [ThreadTable.pidOf, ht]
  · intro a waitKey selected hp hb
    by_cases ha : a = tid
    · subst ha
      exact ⟨key, (hhome a).trans hhometid, mem_block.mpr (.inr ⟨rfl, rfl⟩)⟩
    rw [ThreadTable.isBlocked, hthreads a ha] at hb
    obtain ⟨k, hk, hmem⟩ := hi.queued a waitKey selected hp hb
    exact ⟨k, (hhome a).trans hk, mem_block.mpr (.inl hmem)⟩
  · intro a pid ha hp
    exact hi.record a pid ((hpidOf a).symm.trans ha) hp
  · intro a
    rw [hpidOf a]
    exact hi.pid a
  intro c pid hc a ha
  rcases hi.exiting c pid hc a ((hpidOf a).symm.trans ha) with hd | rfl
  · -- a dead thread is not enqueued
    have hne : a ≠ tid := by
      rintro rfl
      rw [isDead, ht] at hd
      simp [hdead] at hd
    left
    rwa [isDead, hthreads a hne]
  · exact .inr rfl

lemma eraseLast_append_self (tid : ℕ) (list : List ℕ) : eraseLast tid (list ++ [tid]) = list := by
  simp [eraseLast]

/-- A wait returns and changes nothing, or sleeps: unqueued if it was marked dead, blocked
otherwise. -/
def Waits (f : FutexState) (key : FutexKey) (tid : ℕ) (t : Thread)
    (r : FutexState × WaitReply) : Prop :=
  (∃ ret, r = (f, .returns ret)) ∨ (t.state = .dead ∧ r = (f, .sleeps key)) ∨
    (t.state ≠ .dead ∧ ∃ wakeTick, r =
      ({ f with
          waiters := Function.update f.waiters key (f.waiters key ++ [tid])
          threads := Function.update f.threads tid (some { t with state := .blocked, wakeTick }) },
        .sleeps key))

lemma futexWait_cases (f : FutexState) (isPrivate : Bool) (pid tid : ℕ) (w : UserWord) (val : ℕ)
    (timeout : Timeout) (ht : f.threads tid = some t) :
    Waits f (futexKey isPrivate pid w) tid t (f.futexWait isPrivate pid tid w val timeout) := by
  have hpark :
      ∀ wakeTick, Waits f (futexKey isPrivate pid w) tid t
        (futexWait.park f isPrivate pid tid w val wakeTick) := by
    intro wakeTick
    rw [futexWait.park]
    cases w.read f.mem with
    | none => exact .inl ⟨_, rfl⟩
    | some current =>
      by_cases hval : current = BitVec.ofNat 32 val
      · by_cases hdead : t.state = .dead
        · refine .inr (.inl ⟨hdead, ?_⟩)
          simp [futexWaitCheckAndEnqueue, hval, ht, hdead, eraseLast_append_self]
        · refine .inr (.inr ⟨hdead, wakeTick, ?_⟩)
          simp [futexWaitCheckAndEnqueue, hval, ht, hdead]
      · left
        exact ⟨EAGAIN, by simp [futexWaitCheckAndEnqueue, hval]⟩
  cases timeout with
  | alreadyExpired => exact .inl ⟨_, rfl⟩
  | indefinite => exact hpark u64Max
  | relative wakeTick => exact hpark wakeTick

lemma Inv.sleep (hi : s.Inv) (hcaller : s.caller tid = some pid) (isPrivate : Bool)
    (w : UserWord) (val : ℕ) (timeout : Timeout) :
    (s.sleep tid (s.futex.futexWait isPrivate pid tid w val timeout)).Inv := by
  obtain ⟨huser, hpid⟩ := caller_eq_some hcaller
  obtain ⟨t, ht, rfl⟩ := map_eq_some_iff.mp hpid
  have hnot := hi.homed.not_mem (home_user huser)
  have hdest : s.futex.requeueDest (t.pid, tid) = none := hi.record tid t.pid hpid (by simp [huser])
  have hblocked : ¬s.futex.threads.isBlocked tid := by
    intro hb
    simp [caller, hb] at hcaller
  -- in both cases the thread first goes to sleep, on no queue
  have hasleep : (s.withPhase tid (.asleep (futexKey isPrivate t.pid w) false)).Inv :=
    hi.withPhase hnot (fun _ _ _ => hblocked) (fun h => absurd rfl (h _ _)) nofun
  rcases futexWait_cases s.futex isPrivate t.pid tid w val timeout ht with
    ⟨ret, hret⟩ | ⟨-, hret⟩ | ⟨hdead, wakeTick, hret⟩
  · rw [hret]
    exact hi
  · rw [hret]
    exact hasleep
  · rw [hret]
    exact hasleep.block (withPhase_self ..) ht rfl hdead hnot hdest (futexKey_fst ..)

/-! ## The cleanup after a sleep -/

section Cleanup

variable {selected : Bool}

section

variable (hi : s.Inv) (hphase : s.phase tid = .asleep waitKey selected)
  (hpid : s.futex.threads.pidOf tid = some pid)

include hi hphase hpid

/-- A sleeper is in no other bucket than the one its cleanup consults. -/
lemma Inv.key_eq (hmem : tid ∈ s.futex.waiters k) :
    selected = false ∧ k = (s.futex.requeueDest (pid, tid)).getD waitKey := by
  obtain ⟨waitKey', pid', hphase', hpid', hk⟩ := home_eq_some (hi.homed.home k tid hmem)
  rw [hphase] at hphase'
  rw [hpid] at hpid'
  cases hphase'
  cases hpid'
  exact ⟨rfl, hk⟩

lemma Inv.mem_cleanup :
    a ∈ (s.futex.futexWaitCleanup pid tid waitKey).1.waiters k ↔ a ∈ s.futex.waiters k ∧
    a ≠ tid := by
  show a ∈ Function.update s.futex.waiters ((s.futex.requeueDest (pid, tid)).getD waitKey) _ k ↔ _
  by_cases hk : k = (s.futex.requeueDest (pid, tid)).getD waitKey
  · subst hk
    simp
  rw [update_of_ne hk]
  refine ⟨fun hmem => ⟨hmem, ?_⟩, And.left⟩
  rintro rfl
  exact hk (hi.key_eq hphase hpid hmem).2

end

lemma cleanup_sublist (f : FutexState) (k : FutexKey) :
    ((f.futexWaitCleanup pid tid waitKey).1.waiters k).Sublist (f.waiters k) := by
  show (Function.update f.waiters ((f.requeueDest (pid, tid)).getD waitKey) _ k).Sublist _
  by_cases hk : k = (f.requeueDest (pid, tid)).getD waitKey
  · rw [hk, update_self]
    exact filter_sublist
  · simp [hk]

section

variable (hi : s.Inv) (hphase : s.phase tid = .asleep waitKey selected)
  (hpid : s.futex.threads.pidOf tid = some pid)

include hi hphase hpid

lemma Inv.cleanup (hblocked : ¬s.futex.threads.isBlocked tid) :
    ({ s with futex := (s.futex.futexWaitCleanup pid tid waitKey).1 }).Inv := by
  have hdest : ∀ p a, a ≠ tid →
      (s.futex.futexWaitCleanup pid tid waitKey).1.requeueDest (p, a) =
        s.futex.requeueDest (p, a) :=
    fun p a ha => update_of_ne (fun h => ha (Prod.mk.inj h).2) ..
  have hhome : ∀ a, a ≠ tid →
      FutexSystem.home { s with futex := (s.futex.futexWaitCleanup pid tid waitKey).1 }
        a = s.home a :=
    fun a ha => home_congr rfl rfl fun p _ => hdest p a ha
  refine ⟨hi.homed.shrink (cleanup_sublist s.futex)
      fun k a hmem => hhome a ((hi.mem_cleanup hphase hpid).mp hmem).2, ?_, ?_, ?_,
        hi.pid, hi.exiting⟩
  · intro k a hmem hk
    exact hi.own k a ((hi.mem_cleanup hphase hpid).mp hmem).1 hk
  · intro a waitKey' selected' hp hb
    have ha : a ≠ tid := fun h => hblocked (h ▸ hb)
    obtain ⟨k, hk, hmem⟩ := hi.queued a waitKey' selected' hp hb
    exact ⟨k, (hhome a ha).trans hk, (hi.mem_cleanup hphase hpid).mpr ⟨hmem, ha⟩⟩
  intro a p hp ha
  by_cases hat : a = tid
  · subst hat
    exact absurd hphase (ha waitKey selected)
  · exact (hdest p a hat).trans (hi.record a p hp ha)

/-- The cleanup reports a timeout only for a thread that nobody chose. -/
lemma Inv.not_selected_of_etimedout
    (hret : (s.futex.futexWaitCleanup pid tid waitKey).2 = ETIMEDOUT) : selected = false := by
  have hmem : tid ∈ s.futex.waiters ((s.futex.requeueDest (pid, tid)).getD waitKey) := by
    by_contra hnot
    have hkept :
      (s.futex.waiters ((s.futex.requeueDest (pid, tid)).getD waitKey)).filter (· ≠ tid) =
        s.futex.waiters ((s.futex.requeueDest (pid, tid)).getD waitKey) :=
      filter_eq_self.mpr fun a ha => decide_eq_true fun h => hnot (h ▸ ha)
    rw [futexWaitCleanup, hkept] at hret
    simp [ETIMEDOUT] at hret
  exact (hi.key_eq hphase hpid hmem).1

end

end Cleanup

lemma Inv.resume (hi : s.Inv) (h : s.resume tid = some s') : s'.Inv := by
  rw [FutexSystem.resume] at h
  split at h
  next waitKey selected th hphase hth =>
    obtain ⟨hstate, rfl⟩ := of_guard h
    have hpid : s.futex.threads.pidOf tid = some th.pid := by simp [ThreadTable.pidOf, hth]
    have hblocked : ¬s.futex.threads.isBlocked tid := by
      rw [ThreadTable.isBlocked, hth]
      rcases hstate with h | h <;> simp [h]
    refine (hi.cleanup hphase hpid hblocked).withPhase ?_ (by rintro _ _ ⟨⟩) ?_ (by rintro _ ⟨⟩)
    · exact fun k hmem => ((hi.mem_cleanup hphase hpid).mp hmem).2 rfl
    intro _ pid hpid'
    rw [show pid = th.pid from some.inj (hpid'.symm.trans hpid)]
    exact update_self ..
  · cases h

/-! ## Process exit -/

lemma Inv.exitGroup (hi : s.Inv) {p : ℕ} (hcaller : s.caller tid = some p) (pid : ℕ) :
    FutexSystem.Inv ⟨s.futex.markDead pid tid, Function.update s.phase tid (.exiting pid)⟩ := by
  obtain ⟨huser, -⟩ := caller_eq_some hcaller
  have hcalms : Calms s.futex.threads (s.futex.markDead pid tid).threads :=
    Calms.map fun _ _ => .ite fun _ => ⟨rfl, nofun, fun _ => rfl⟩
  refine (hi.calm (.of_calms hcalms rfl rfl)).withPhase
    (hi.homed.not_mem (home_user huser)) nofun ?_ ?_
  · intro _ q hq
    exact hi.record tid q ((hcalms.pidOf tid).symm.trans hq) (by simp [huser])
  rintro q ⟨⟩ t ht
  by_cases htid : t = tid
  · exact .inr htid
  -- the threads of the process are dead, the caller apart
  obtain ⟨th, hth, rfl⟩ := map_eq_some_iff.mp ((hcalms.pidOf t).symm.trans ht)
  left
  by_cases hd : th.state = .dead <;> simp [isDead, markDead, hth, htid, hd]

lemma ofPid_iff (f : FutexState) (pid tid : ℕ) :
    f.ofPid pid tid ↔ f.threads.pidOf tid = some pid := by
  cases h : f.threads tid <;> simp [ofPid, ThreadTable.pidOf, h]

/-- Draining a process takes its threads off the map, and nobody else. -/
lemma Inv.mem_drain (hi : s.Inv) :
    a ∈ (s.futex.futexDrainPid pid).waiters k ↔ a ∈ s.futex.waiters k ∧
    s.futex.threads.pidOf a ≠ some pid := by
  by_cases hns : k.1 = futexSharedNs
  · simp [futexDrainPid, hns, ← ofPid_iff]
  by_cases hk : k.1 = pid
  · rw [show (s.futex.futexDrainPid pid).waiters k = [] from if_pos ⟨hk, hns⟩]
    refine ⟨nofun, fun ⟨hmem, hne⟩ => absurd ?_ hne⟩
    rw [hi.own k a hmem hns, hk]
  rw [show (s.futex.futexDrainPid pid).waiters k = s.futex.waiters k from
    (if_neg fun h => hk h.1).trans (if_neg hns)]
  refine ⟨fun hmem => ⟨hmem, fun h => hk ?_⟩, And.left⟩
  exact some.inj ((hi.own k a hmem hns).symm.trans h)

lemma drain_sublist (f : FutexState) (pid : ℕ) (k : FutexKey) :
    ((f.futexDrainPid pid).waiters k).Sublist (f.waiters k) := by
  simp only [futexDrainPid]
  split
  · exact nil_sublist _
  split
  · exact filter_sublist
  · exact List.Sublist.refl _

lemma Inv.futexDrainPid (hi : s.Inv) {c : ℕ} (hc : s.phase c = .exiting pid) :
    ({ s with futex := s.futex.futexDrainPid pid }).Inv := by
  have hhome : ∀ a, s.futex.threads.pidOf a ≠ some pid →
      FutexSystem.home { s with futex := s.futex.futexDrainPid pid } a = s.home a := by
    intro a ha
    refine home_congr rfl rfl fun p hp => if_neg ?_
    rintro rfl
    exact ha hp
  refine ⟨hi.homed.shrink (drain_sublist s.futex pid) fun k a hmem =>
    hhome a (hi.mem_drain.mp hmem).2, ?_, ?_,
    ?_, hi.pid, hi.exiting⟩
  · intro k a hmem hk
    exact hi.own k a (hi.mem_drain.mp hmem).1 hk
  · intro a waitKey selected hp hb
    -- a thread of the process is dead, or is the one that drains it
    have ha : s.futex.threads.pidOf a ≠ some pid := by
      intro hpid
      rcases hi.exiting c pid hc a hpid with hd | rfl
      · obtain ⟨th, hth, hstate⟩ := isBlocked_iff.mp hb
        rw [isDead, show s.futex.threads a = some th from hth] at hd
        simp [hstate] at hd
      · rw [show s.phase a = _ from hp] at hc
        cases hc
    obtain ⟨k, hk, hmem⟩ := hi.queued a waitKey selected hp hb
    exact ⟨k, (hhome a ha).trans hk, hi.mem_drain.mpr ⟨hmem, ha⟩⟩
  intro a p hp ha
  show (if p = pid then none else s.futex.requeueDest (p, a)) = none
  simp [hi.record a p hp ha]

lemma Inv.drain (hi : s.Inv) (h : s.drain tid = some s') : s'.Inv := by
  rw [FutexSystem.drain] at h
  split at h
  next pid hphase =>
    cases h
    have hlast :
        ∀ th : Thread, th.Calms (if th.pid = pid then { th with state := .dead } else th) :=
      fun th => .ite fun _ => ⟨rfl, nofun, fun _ => rfl⟩
    have hdrained := hi.futexDrainPid hphase
    have hserves : Serves (s.futex.futexDrainPid pid)
        { s.futex.futexDrainPid pid with
          threads := Function.update s.futex.threads tid
            ((s.futex.threads tid).map fun th =>
              if th.pid = pid then { th with state := .dead } else th) } [] :=
      .of_calms (Calms.update hlast tid) rfl rfl
    have hnot : ∀ k, tid ∉ (s.futex.futexDrainPid pid).waiters k :=
      hdrained.homed.not_mem (by rw [home, show s.phase tid = _ from hphase])
    refine (hdrained.calm hserves).withPhase hnot nofun ?_ nofun
    intro _ p hp
    exact hdrained.record tid p ((hserves.calms.pidOf tid).symm.trans hp) (by simp [hphase])
  · cases h

/-! ## Requeueing -/

lemma mem_requeueWaiters {f : FutexState} {curTid val val2 : ℕ} {src dst : FutexKey} :
    a ∈ (f.requeueWaiters pid curTid src dst val val2).state.waiters k ↔
      (k ≠ src ∧ a ∈ f.waiters k) ∨
      (k = dst ∧ a ∈ (requeueScan f.threads (f.waiters src) val val2).2) := by
  by_cases hd : k = dst
  · subst hd
    rw [requeueWaiters_waiters_dst]
    by_cases hs : src = k
    · simp [hs]
    · simp [hs, Ne.symm hs]
  by_cases hs : k = src
  · subst hs
    simp [requeueWaiters_waiters_src f pid curTid k dst val val2 hd, hd]
  · simp [requeueWaiters_waiters_of_ne f pid curTid src dst val val2 hs hd, hd, hs]

section Requeue

variable {curTid val val2 : ℕ} {src dst : FutexKey}

lemma requeueWaiters_calms (f : FutexState) :
    Calms f.threads (f.requeueWaiters pid curTid src dst val val2).state.threads :=
  Calms.foldl calms_wake _ _

/-- The waiters of other queues stay at home. -/
lemma Inv.requeue_home_of_ne (hi : s.Inv) (hk : k ≠ src) (hmem : a ∈ s.futex.waiters k) :
    (s.reply (s.futex.requeueWaiters pid curTid src dst val val2)).home a = s.home a := by
  have hnot : a ∉ s.futex.waiters src := hi.homed.not_mem_of_ne hmem (Ne.symm hk)
  refine home_congr (if_neg fun hw => hnot (mem_of_mem_wake _ _ _ _ hw))
    ((requeueWaiters_calms s.futex).pidOf a) fun p _ => ?_
  rw [reply_futex, requeueWaiters_requeueDest, if_neg fun h => hnot (mem_of_mem_move _ _ _ _ h.2)]

/-- A moved waiter of the caller's process finds its new home: the record is under its own process
id. -/
lemma Inv.requeue_home_moved (hi : s.Inv)
    (ha : a ∈ (requeueScan s.futex.threads (s.futex.waiters src) val val2).2)
    (hpid : s.futex.threads.pidOf a = some pid) :
    (s.reply (s.futex.requeueWaiters pid curTid src dst val val2)).home a = some dst := by
  obtain ⟨waitKey, -, hphase, -, -⟩ :=
    home_eq_some (hi.homed.home src a (mem_of_mem_move _ _ _ _ ha))
  have hnodup := (requeueScan_sublist s.futex.threads (s.futex.waiters src) val val2).nodup
    (hi.homed.nodup src)
  rw [append_assoc, nodup_append] at hnodup
  have hphase' : (s.reply (s.futex.requeueWaiters pid curTid src dst val val2)).phase a =
      .asleep waitKey false := by
    rw [← hphase]
    exact if_neg fun hw => hnodup.2.2 a hw a (by simp [ha]) rfl
  simp [home_asleep hphase' (((requeueWaiters_calms s.futex).pidOf a).trans hpid),
    requeueWaiters_requeueDest, ha]

lemma Inv.requeueWaiters (hi : s.Inv) (hdst : dst.1 = futexSharedNs ∨ dst.1 = pid)
    (hdrops : ∀ t ∈ unreached s.futex.threads (s.futex.waiters src) val val2,
      ¬s.futex.threads.isBlocked t)
    (hown : ∀ t ∈ (requeueScan s.futex.threads (s.futex.waiters src) val val2).2,
      s.futex.threads.pidOf t = some pid) :
        (s.reply (s.futex.requeueWaiters pid curTid src dst val val2)).Inv := by
  have hcalms : Calms s.futex.threads
      (s.futex.requeueWaiters pid curTid src dst val val2).state.threads :=
    requeueWaiters_calms s.futex
  have hsub := requeueScan_sublist s.futex.threads (s.futex.waiters src) val val2
  refine ⟨hi.homed.move ((sublist_append_right _ _).trans ((sublist_append_left _ _).trans hsub))
    (fun a ha => hi.requeue_home_moved ha (hown a ha)) fun k hk a => hi.requeue_home_of_ne hk,
    ?_, ?_, ?_, ?_, ?_⟩
  · intro k a hmem hk
    rw [reply_futex, hcalms.pidOf a]
    rcases mem_requeueWaiters.mp hmem with ⟨-, hmem⟩ | ⟨rfl, hm⟩
    · exact hi.own k a hmem hk
    · rw [hdst.resolve_left hk]
      exact hown a hm
  · intro a waitKey selected hp hb
    obtain ⟨b, hasleep⟩ := reply_asleep hp
    have hblocked := hcalms.blocked a hb
    obtain ⟨k, hk, hmem⟩ := hi.queued a waitKey b hasleep hblocked
    by_cases hks : k = src
    · rw [hks] at hmem
      rcases mem_requeueScan _ _ val val2 hmem hblocked with hw | hm | hun
      · -- it was woken
        rw [reply_futex, ThreadTable.isBlocked, requeueWaiters_threads, if_pos hw] at hb
        exact absurd hb (Thread.not_blocked_wakeIfBlocked _)
      · exact ⟨dst, hi.requeue_home_moved hm (hown a hm), mem_requeueWaiters.mpr (.inr ⟨rfl, hm⟩)⟩
      · exact absurd hblocked (hdrops a hun)
    · exact ⟨k, (hi.requeue_home_of_ne hks hmem).trans hk,
        mem_requeueWaiters.mpr (.inl ⟨hks, hmem⟩)⟩
  · intro a p hp hphase
    have hphase' : ∀ waitKey selected, s.phase a ≠ .asleep waitKey selected := by
      intro waitKey selected h
      obtain ⟨b, hb⟩ := asleep_reply h
      exact hphase waitKey b hb
    -- a thread that is not asleep is on no queue, so it is not moved
    have hnot : a ∉ s.futex.waiters src := by
      intro hmem
      obtain ⟨waitKey, -, h, -⟩ := home_eq_some (hi.homed.home src a hmem)
      exact hphase' waitKey false h
    rw [reply_futex, requeueWaiters_requeueDest, if_neg fun h => hnot (mem_of_mem_move _ _ _ _ h.2)]
    exact hi.record a p ((hcalms.pidOf a).symm.trans hp) hphase'
  · intro a
    rw [reply_futex, hcalms.pidOf a]
    exact hi.pid a
  · intro c p hc a hp
    exact (hi.exiting c p (reply_exiting hc) a ((hcalms.pidOf a).symm.trans hp)).imp_left
      (hcalms.dead a)

end Requeue

end FutexSystem

open FutexSystem

theorem futexStep_inv {s s' : FutexSystem} {op : FutexOp} (hi : s.Inv) (hdrops : s.DropsNone op)
    (hown : s.MovesOwn op) (h : futexStep s op = some s') : s'.Inv := by
  cases op with
  | wait tid isPrivate w val timeout =>
    obtain ⟨pid, hcaller, rfl⟩ := map_eq_some_iff.mp h
    exact hi.sleep hcaller isPrivate w val timeout
  | resume tid => exact hi.resume h
  | wake tid isPrivate w val =>
    obtain ⟨pid, -, rfl⟩ := map_eq_some_iff.mp h
    exact hi.reply (futexWakeBucketLive_serves ..)
  | requeue tid isPrivate w w2 val val2 val3 =>
    obtain ⟨pid, hcaller, rfl⟩ := map_eq_some_iff.mp h
    rw [futexRequeue]
    cases hcmp : s.futex.cmpRequeueCheck w val3 with
    | some err => exact hi.reply (.of_calms (Calms.refl _) rfl rfl)
    | none =>
      exact hi.requeueWaiters (futexKey_fst ..) (hdrops pid hcaller hcmp) (hown pid hcaller hcmp)
  | wakeOp tid isPrivate w w2 val val2 val3 =>
    obtain ⟨pid, -, rfl⟩ := map_eq_some_iff.mp h
    exact hi.wakeOp isPrivate pid tid w w2 val val2 val3
  | wakeForExit tid uaddr maxWake =>
    obtain ⟨pid, -, rfl⟩ := map_eq_some_iff.mp h
    exact hi.reply (futexWakeForExit_serves ..)
  | exitGroup tid pid =>
    obtain ⟨p, hcaller, rfl⟩ := map_eq_some_iff.mp h
    exact hi.exitGroup hcaller pid
  | drain tid => exact hi.drain h
  | tick now =>
    cases h
    exact hi.calm (dueWakeScan_serves ..)
  | store phys v =>
    cases h
    exact hi.store _

/-- The tid of a blocked waiter occurs once in the wait map, in the bucket its own cleanup will
consult. -/
def FutexSystem.WaiterQueued (s : FutexSystem) (tid : ℕ) : Prop :=
  ∀ waitKey selected pid, s.phase tid = .asleep waitKey selected →
    s.futex.threads.pidOf tid = some pid →
    s.futex.threads.isBlocked tid →
      (s.futex.waiters ((s.futex.requeueDest (pid, tid)).getD waitKey)).count tid = 1 ∧
        ∀ key, key ≠ (s.futex.requeueDest (pid, tid)).getD waitKey → tid ∉ s.futex.waiters key

/-- The wait of a sleeper would time out only if no wake-class operation chose it. -/
def FutexSystem.TimesOutUnchosen (s : FutexSystem) (tid : ℕ) : Prop :=
  ∀ waitKey selected pid, s.phase tid = .asleep waitKey selected →
    s.futex.threads.pidOf tid = some pid →
    (s.futex.futexWaitCleanup pid tid waitKey).2 = ETIMEDOUT → selected = false

lemma FutexSystem.Inv.waiterQueued {s : FutexSystem} (hi : s.Inv) (tid : ℕ) :
    s.WaiterQueued tid := by
  intro waitKey selected pid hphase hpid hb
  obtain ⟨key, -, hmem⟩ := hi.queued tid waitKey selected hphase hb
  obtain ⟨-, hkey⟩ := hi.key_eq hphase hpid hmem
  rw [← hkey]
  exact ⟨count_eq_one_of_mem (hi.homed.nodup key) hmem, fun _ => hi.homed.not_mem_of_ne hmem⟩

/-- **Wait and wake safety.** From a state in which nobody waits, in every run in which no requeue
drops a blocked waiter or moves a waiter of another process. -/
theorem futexRun_waiters {s₀ s : FutexSystem} {ops : List FutexOp} (hs : s₀.Fresh)
    (hg : Guarded futexStep (fun s op => s.DropsNone op ∧ s.MovesOwn op) s₀ ops)
    (hrun : run futexStep s₀ ops = some s) (tid : ℕ) :
    s.WaiterQueued tid ∧ s.TimesOutUnchosen tid := by
  have hi : s.Inv := run_guarded (fun _ _ _ hi ok hstep => futexStep_inv hi ok.1 ok.2 hstep)
    hs.inv hg hrun
  exact ⟨hi.waiterQueued tid, fun _ _ _ => hi.not_selected_of_etimedout⟩

/-- Thread 10 of process 1 and threads 20 and 21 of process 2, all running. -/
def twoProcesses : FutexSystem where
  futex :=
    { waiters := fun _ => []
      requeueDest := fun _ => none
      threads := fun tid =>
        if tid = 10 then some ⟨1, .running, 0, 8⟩
        else if tid = 20 ∨ tid = 21 then some ⟨2, .running, 0, 8⟩ else none
      mem := fun _ => 0
      resched := false }
  phase := fun _ => .user

lemma twoProcesses_fresh : twoProcesses.Fresh where
  waiters _ := rfl
  requeueDest _ := rfl
  phase _ := rfl
  pid tid := by
    simp only [twoProcesses, ThreadTable.pidOf]
    split
    · decide
    · split <;> decide

/-- A shared word that is mapped. -/
def sharedWord (uaddr phys : ℕ) : UserWord := ⟨uaddr, some phys, some phys⟩

/-- Thread 20 waits on a shared word, and thread 21 of the same process moves it to another one. -/
def ownRequeue : List FutexOp :=
  [.wait 20 false (sharedWord 0x1000 0x5000) 0 (.relative 7),
    .requeue 21 false (sharedWord 0x1000 0x5000) (sharedWord 0x2000 0x6000) 0 1 none]

theorem futexRun_waiters_of_ownRequeue :
    ∃ s, run futexStep twoProcesses ownRequeue = some s ∧
      s.phase 20 = .asleep (futexSharedNs, 0x5000) false ∧ s.futex.threads.isBlocked 20 ∧
      s.futex.requeueDest (2, 20) = some (futexSharedNs, 0x6000) ∧ s.WaiterQueued 20 ∧
      s.TimesOutUnchosen 20 := by
  have hg : Guarded futexStep (fun s op => s.DropsNone op ∧ s.MovesOwn op) twoProcesses
      ownRequeue := by
    decide +kernel
  exact ⟨_, rfl, by decide, by decide, by decide, futexRun_waiters twoProcesses_fresh hg rfl 20⟩

/-- The same requeue made by process 1. Thread 20 is blocked on the second word while its cleanup
will look at the first; after its timeout the wait returns 0 and its entry stays behind. -/
theorem requeue_strands_waiter :
    ∃ s, run futexStep twoProcesses [.wait 20 false (sharedWord 0x1000 0x5000) 0 (.relative 7),
          .requeue 10 false (sharedWord 0x1000 0x5000)
          (sharedWord 0x2000 0x6000) 0 1 none] = some s ∧
      s.phase 20 = .asleep (futexSharedNs, 0x5000) false ∧ s.futex.threads.isBlocked 20 ∧
      20 ∈ s.futex.waiters (futexSharedNs, 0x6000) ∧ s.futex.requeueDest (2, 20) = none ∧
      ¬s.WaiterQueued 20 ∧
      ∃ s', run futexStep s [.tick 7, .resume 20] = some s' ∧
        s'.phase 20 = .user ∧ 20 ∈ s'.futex.waiters (futexSharedNs, 0x6000) := by
  refine
    ⟨_, rfl, by decide, by decide, by decide, by decide, fun h => ?_, _, rfl, by decide, by decide⟩
  have hcount := (h (futexSharedNs, 0x5000) false 2 (by decide) (by decide) (by decide)).1
  revert hcount
  decide

end Astryx.Futex
