import Astryx.Tlb.Requests

/-!
# Orderly shootdowns remove what they are to remove

A request is acknowledged when it is taken, before anything has been invalidated, and a slot holds
one request only. So a sender may return `true` while the other CPU still holds the translation: it
polls between the claim and the invalidation, or another sender overwrites or withdraws its request.
And a timer interrupt may lower a flag that was raised after it had flushed. In a run in which none
of this happens, every call keeps its promise.

## Main results

* `serviceStep_inv`, `tickStep_inv`, `callStep_inv` — the steps of a CPU keep the invariant
* `shot_of_orderly` — every call that has returned has kept its promise
-/

namespace Astryx.Shootdown

open Function List Kept Transition

variable {m : Machine} {s s' : State} {id b cpu : ℕ} {c : Call} {f : Frame}

/-! ## Steps of a CPU that serves its slot or its timer -/

variable {self cr3 iters : ℕ} {pc : Service} {l : List Frame} {field : Field}
  {done todo still : List ℕ}

lemma mem_targets (h : b ∈ m.targets self cr3) : b < m.ncpus ∧ b ≠ self ∧ m.cr3 b = cr3 := by
  obtain ⟨hb, hbit⟩ := mem_filter.mp h
  rw [Tlb.shootdownTargets, BitVec.getLsbD_and, Bool.and_eq_true, BitVec.getLsbD_not,
    Bool.and_eq_true] at hbit
  obtain ⟨hlt, heq⟩ := (m.exact cr3 b).mp hbit.1
  refine ⟨hlt, ?_, heq⟩
  rintro rfl
  rw [Tlb.getLsbD_cpuBit (mem_range.mp hb)] at hbit
  simp at hbit

lemma mem_targets_of (hself : self < Tlb.maxCpus) (hlt : b < m.ncpus) (hne : b ≠ self)
    (hcr3 : m.cr3 b = cr3) : b ∈ m.targets self cr3 := by
  refine mem_filter.mpr ⟨mem_range.mpr (lt_of_lt_of_le hlt m.online), ?_⟩
  exact ((m.exact cr3 b).mpr ⟨hlt, hcr3⟩).mem_shootdownTargets hself hne

variable {rest : List Frame}

lemma mem_setTlb {es : List Translation} {e : Translation} (he : e ∈ (s.setTlb cpu es).tlb cpu) :
    e ∈ es := by
  rwa [show (s.setTlb cpu es).tlb cpu = es from update_self ..] at he

theorem serviceStep_inv (h : Inv m s) (hstack : s.stack cpu = .service pc :: rest) :
    Inv m (serviceStep m s cpu pc rest) := by
  have htop : ∀ {t : State} {l : List Frame}, (t.setStack cpu l).stack cpu = l := update_self ..
  have hticks : ∀ {g : Service} since, .tick (.clear since) ∈ (.service g :: rest : List Frame) →
      .tick (.clear since) ∈ s.stack cpu := fun since hmem => mem_of_mem_top rfl hstack hmem nofun
  cases pc with
  | claim =>
    rw [serviceStep]
    split
    next hpending =>
      have hslot : ((s.setSlot cpu { s.slots cpu with pending := false }).setStack cpu
          (.service (.readCr3 (s.slots cpu).owner) :: rest)).slots cpu =
            { s.slots cpu with pending := false } :=
        update_self ..
      refine h.shrink cpu rfl rfl (fun b hb => ?_) (fun _ => id)
        (fun since hmem => ?_) ?_ (fun id c _ _ ha => ?_)
        (fun id c hf => .inl (hf.mono (fun hv => hv) ?_ fun since hmem => ?_))
      · exact ⟨update_of_ne hb _ _, rfl, rfl, update_of_ne hb _ _⟩
      · rw [htop] at hmem
        exact hticks since hmem
      · rw [hslot]
        exact ⟨rfl, rfl, rfl⟩
      · -- the request that is taken is that of whoever has asked
        have howner : (s.slots cpu).owner = id := by
          rcases ha.progress with hp | hp
          · exact hp.2
          · rw [hpending] at hp
            cases hp.1
        refine ⟨by rw [hslot]; exact ha.cr3, by rw [hslot]; exact ha.lo,
          by rw [hslot]; exact ha.hi, .inr ⟨?_, .inl ?_⟩⟩
        · rw [hslot]
        · exact ⟨.service (.readCr3 (s.slots cpu).owner), by rw [htop]; exact mem_cons_self, howner⟩
      · intro hmem
        exact mem_of_mem_top hstack htop hmem nofun
      · rw [htop] at hmem
        exact hticks since hmem
    · refine h.setStack (fun f hf => ?_) hticks
      by_cases hf' : f = .service .claim
      · exact .inr (hf' ▸ ⟨fun _ => rfl, nofun⟩)
      · exact .inl (mem_of_mem_top hstack rfl hf hf')
  | readCr3 request =>
    refine h.serve cpu rfl rfl (fun b => sameAt_setStack) rfl rfl hstack htop nofun (fun _ => id) ?_
    intro id c _ _ ha hserving
    refine .inl ⟨_, by rw [serviceStep, htop]; exact mem_cons_self, ?_⟩
    exact ⟨hserving, ha.cr3⟩
  | readLo request cr3 =>
    refine h.serve cpu rfl rfl (fun b => sameAt_setStack) rfl rfl hstack htop nofun (fun _ => id) ?_
    intro id c _ _ ha hserving
    refine .inl ⟨_, by rw [serviceStep, htop]; exact mem_cons_self, ?_⟩
    exact ⟨hserving.1, hserving.2, ha.lo⟩
  | readHi request cr3 lo =>
    refine h.serve cpu rfl rfl (fun b => sameAt_setStack) rfl rfl hstack htop nofun (fun _ => id) ?_
    rintro id c hc ht ha ⟨rfl, rfl, rfl⟩
    have hnext : (serviceStep m s cpu (.readHi request c.cr3 c.lo) rest).stack cpu =
        .service (Service.rest request (localInvlpgRange c.lo c.hi)) :: rest := by
      rw [serviceStep, htop, if_pos (mem_targets ht).2.2, ha.hi]
    exact serving_rest hnext fun e _ hst => covers_localInvlpgRange (h.range request c hc) hst.2.1
  | invalidate request op ops =>
    refine h.serve cpu rfl rfl (fun b hb => ?_) rfl rfl hstack htop nofun
      (fun e he => (mem_apply (mem_setTlb he)).1) ?_
    · exact ⟨rfl, rfl, update_of_ne hb _ _, update_of_ne hb _ _⟩
    rintro id c _ _ _ ⟨rfl, hcovers⟩
    refine serving_rest htop fun e he hst => ?_
    obtain ⟨hold, hnot⟩ := mem_apply (mem_setTlb he)
    exact (covers_cons (hcovers e hold hst)).resolve_left hnot
  | drain =>
    rw [serviceStep]
    have hidle : (Frame.service .drain).Idle := ⟨fun _ => rfl, nofun⟩
    split
    · refine h.shrink cpu rfl rfl (fun b hb => ?_) (fun _ => id) (fun since hmem => ?_)
        ⟨rfl, rfl, rfl⟩
        (fun id c _ _ ha => ?_) (fun id c hf => .inl ⟨.inr ?_, fun since hmem => hf.ticks since ?_⟩)
      · exact ⟨rfl, update_of_ne hb _ _, rfl, update_of_ne hb _ _⟩
      · rw [htop] at hmem
        exact hticks since hmem
      · refine Asked.kept (s := s) (fun _ he => .inl he) ha rfl fun f hf hserving =>
          mem_of_mem_top hstack htop hf ?_
        rintro rfl
        exact hidle.not_serving hserving
      · rw [htop]
        simp
      · rw [htop] at hmem
        exact hticks since hmem
    · exact h.pop hstack hidle
  | flush =>
    refine h.emptied cpu rfl rfl (fun b hb => ?_) rfl (update_self ..) fun since hmem =>
      (h.ticks cpu since ?_).1
    · exact ⟨rfl, rfl, update_of_ne hb _ _, update_of_ne hb _ _⟩
    rw [serviceStep, htop] at hmem
    rw [hstack]
    simp [hmem]

theorem tickStep_inv {pc : Tick} (h : Inv m s) (hstack : s.stack cpu = .tick pc :: rest) :
    Inv m (tickStep s cpu pc rest) := by
  have htop : ∀ {t : State} {l : List Frame}, (t.setStack cpu l).stack cpu = l := update_self ..
  have hpop : ∀ {f}, f ∈ rest → f ∈ s.stack cpu := fun hmem => by
    rw [hstack]
    simp [hmem]
  cases pc with
  | flush =>
    refine h.emptied cpu rfl rfl (fun b hb => ?_) rfl (update_self ..) fun since hmem => ?_
    · exact ⟨rfl, rfl, update_of_ne hb _ _, update_of_ne hb _ _⟩
    rw [tickStep, htop] at hmem
    rcases mem_cons.mp hmem with heq | hmem
    · cases heq
      exact le_rfl
    · exact (h.ticks cpu since (hpop hmem)).1
  | clear since =>
    have hmem : .tick (.clear since) ∈ s.stack cpu := by rw [hstack]; exact mem_cons_self
    refine h.shrink cpu rfl rfl (fun b hb => ?_) (fun _ => id) (fun since' hmem => ?_)
      ⟨rfl, rfl, rfl⟩
      (fun id c _ _ ha => ?_) (fun id c hf => .inr fun e he hst => ?_)
    · exact ⟨rfl, update_of_ne hb _ _, rfl, update_of_ne hb _ _⟩
    · rw [tickStep, htop] at hmem
      exact hpop hmem
    · refine Asked.kept (s := s) (fun _ he => .inl he) ha rfl fun f hf hserving => ?_
      rw [tickStep, htop]
      rw [hstack] at hf
      refine (mem_cons.mp hf).resolve_left ?_
      rintro rfl
      cases hserving
    -- the interrupt flushed after the call began, so nothing from before is left
    · have hborn := (h.ticks cpu since hmem).2 e he
      have hid := hf.ticks since hmem
      have hold := hst.2.2
      omega

/-! ## Steps of a call -/

lemma Kept.refl : Kept m s s id c :=
  ⟨fun _ _ he => .inl he, fun _ _ => ⟨rfl, rfl, rfl⟩, fun _ _ _ ha => ha, fun _ hf => .inl hf⟩

lemma uses_publish (b' : ℕ) (h : (Pc.publish done (b :: todo) field).uses b') :
    b' = b ∨ b' ∈ done := by
  rcases of_decide_eq_true h with hmem | ⟨-, hhead⟩
  · exact .inr hmem
  · exact .inl (Option.some.inj hhead).symm

section

variable (h : Inv m s) (hc : s.calls id = some c)

include h hc

lemma Inv.not_uses (hu : c.pc.uses b) {k : ℕ} {d : Call} (hd : s.calls k = some d) (hne : k ≠ id) :
    d.pc.uses b = false := by
  by_contra hd'
  exact hne (h.alone k id d c b hd hc (by simpa using hd') hu)

/-- A call moves on without touching anything, and uses no slot that it did not use. -/
lemma Inv.move {pc : Pc} (hphase : Phase m s id c pc) (huses : ∀ b, pc.uses b → c.pc.uses b) :
    Inv m (s.setPc id c pc) :=
  h.of_call hc rfl rfl h.toTidy (fun _ _ _ _ => refl) hphase
    (fun b hb _ _ hd hne => h.not_uses hc (huses b hb) hd hne)

/-- A call stores a field of a slot, which no other call uses. -/
lemma Inv.publish {slot : Slot} {pc : Pc} (hpc : c.pc = .publish done (b :: todo) field)
    (hothers : ∀ k d, s.calls k = some d → k ≠ id → d.pc.uses b = false)
    (hphase : (∀ b' ∈ done, Asked (s.setSlot b slot) id c b') → Phase m (s.setSlot b slot) id c pc)
    (huses : ∀ b', pc.uses b' → b' = b ∨ b' ∈ done) : Inv m ((s.setSlot b slot).setPc id c pc) := by
  have hold := h.phase id c hc
  rw [hpc] at hold
  obtain ⟨-, htargets, hdone, -⟩ := hold
  refine h.of_call hc rfl rfl ⟨h.own, h.ticks⟩
    (fun k d hd hne => setSlot (hothers k d hd hne)) ?_ ?_
  · refine hphase fun b' hb' => (hdone b' hb').same (sameAt_setSlot ?_)
    rintro rfl
    have hnodup : (m.targets c.cpu c.cr3).Nodup := nodup_range.filter _
    rw [htargets] at hnodup
    exact (nodup_append.mp hnodup).2.2 b' hb' b' mem_cons_self rfl
  intro b' hb' k d hd hne
  rcases huses b' hb' with rfl | hmem
  · exact hothers k d hd hne
  · exact h.not_uses hc (by rw [hpc]; exact decide_eq_true (.inl hmem)) hd hne

lemma Inv.store {slot : Slot} {next : Field} (hpc : c.pc = .publish done (b :: todo) field)
    (hothers : ∀ k d, s.calls k = some d → k ≠ id → d.pc.uses b = false)
    (hstored : Stored slot c next) :
    Inv m ((s.setSlot b slot).setPc id c (.publish done (b :: todo) next)) := by
  have hold := h.phase id c hc
  rw [hpc] at hold
  refine h.publish hc hpc hothers (fun hdone => ⟨hold.1, hold.2.1, hdone, ?_⟩) uses_publish
  rintro _ ⟨⟩
  show Stored (update s.slots b slot b) c next
  rw [update_self]
  exact hstored

/-- A call looks at a slot. If its request has been taken, and is not being served, it has been
served. -/
lemma Inv.poll {left : List ℕ} (hpc : c.pc = .poll (b :: left) still iters)
    (hok : (s.slots b).pending = false → ∀ f ∈ s.stack b, f.serves id = false) :
    Inv m (s.setPc id c
      (.poll left (if (s.slots b).pending then still ++ [b] else still) iters)) := by
  have hold := h.phase id c hc
  rw [hpc] at hold
  obtain ⟨hself, hasked, hrest⟩ := hold
  have huses : ∀ b', b' ∈ b :: left ∨ b' ∈ still → c.pc.uses b' := fun b' hb' => by
    rw [hpc]
    exact decide_eq_true hb'
  cases hpending : (s.slots b).pending with
  | true =>
    have hperm : ∀ b', b' ∈ left ++ (still ++ [b]) ↔ b' ∈ b :: left ++ still := fun b' => by
      simp only [mem_append, mem_cons, not_mem_nil, or_false]
      tauto
    refine h.move hc ⟨hself, fun b' hb' => hasked b' ((hperm b').mp hb'), fun b' hb' => ?_⟩
      fun b' hb' => ?_
    · exact (hrest b' hb').imp_left (hperm b').mpr
    · exact huses b' (mem_append.mp ((hperm b').mp (mem_append.mpr (of_decide_eq_true hb'))))
  | false =>
    have hclean : Clean s id c b := by
      rcases (hasked b mem_cons_self).2.progress with hp | hp
      · rw [hpending] at hp
        cases hp.1
      refine hp.2.resolve_left ?_
      rintro ⟨f, hf, hserving⟩
      have hnot := hok hpending f hf
      rw [hserving.serves] at hnot
      cases hnot
    refine h.move hc ⟨hself, fun b' hb' => hasked b' (mem_cons_of_mem b hb'), fun b' hb' => ?_⟩
      fun b' hb' => ?_
    · rcases hrest b' hb' with hmem | hc'
      · rcases mem_cons.mp hmem with rfl | hmem
        · exact .inr hclean
        · exact .inl hmem
      · exact .inr hc'
    · exact huses b' ((of_decide_eq_true hb').imp_left (mem_cons_of_mem b))

variable (hstack : s.stack cpu = .call id :: rest)

include hstack

/-- A call ends a round: it serves its own slot, and polls again or gives up. -/
lemma Inv.spin (hpc : c.pc = .poll [] (b :: still) iters) :
    Inv m ((s.setStack cpu (.service .claim :: .call id :: rest)).setPc id c
      (if iters + 1 < ackBound then .poll (b :: still) [] (iters + 1)
        else .clear (b :: still) (b :: still))) := by
  have hold := h.phase id c hc
  rw [hpc] at hold
  obtain ⟨hself, hasked, hrest⟩ := hold
  have hticks : ∀ since, .tick (.clear since) ∈ (.service .claim :: .call id :: rest : List Frame) →
      .tick (.clear since) ∈ s.stack cpu := by
    intro since hmem
    rw [hstack]
    exact (mem_cons.mp hmem).resolve_left nofun
  have hkept : ∀ k d, Kept m s (s.setStack cpu (.service .claim :: .call id :: rest)) k d := by
    refine fun k d => Kept.setStack (fun f hf => .inl ?_) hticks
    rw [hstack] at hf
    simp [hf]
  have htidy : Tidy m (s.setStack cpu (.service .claim :: .call id :: rest)) := h.push hticks
  have huses : ∀ b' ∈ b :: still, c.pc.uses b' := fun b' hb' => by
    rw [hpc]
    exact decide_eq_true (.inr hb')
  have halone : ∀ b' ∈ b :: still, ∀ k d, s.calls k = some d → k ≠ id → d.pc.uses b' = false :=
    fun b' hb' k d hd hne => h.not_uses hc (huses b' hb') hd hne
  split
  · refine h.of_call hc rfl rfl htidy (fun k d _ _ => hkept k d) ⟨hself, fun b' hb' => ?_, ?_⟩ ?_
    · rw [append_nil] at hb'
      obtain ⟨htarget, ha⟩ := hasked b' hb'
      exact ⟨htarget, (hkept id c).asked b' (huses b' hb') htarget ha⟩
    · rw [append_nil]
      exact hrest
    · exact fun b' hb' => halone b' ((of_decide_eq_true hb').resolve_right nofun)
  · refine h.of_call hc rfl rfl htidy (fun k d _ _ => hkept k d) ⟨hself, hrest⟩ ?_
    exact fun b' hb' => halone b' (of_decide_eq_true hb')

theorem callStep_inv (hok : c.pc.Orderly s id) : Inv m (callStep m s cpu id c rest) := by
  have hold := h.phase id c hc
  have hmine : ∀ {b}, c.pc.uses b → ∀ k d, s.calls k = some d → k ≠ id → d.pc.uses b = false :=
    fun hu k d => h.not_uses hc hu
  have hhead : ∀ {done b todo field}, c.pc = .publish done (b :: todo) field → field ≠ .cr3 →
      c.pc.uses b :=
    fun hpc hfield => by rw [hpc]; exact decide_eq_true (.inr ⟨hfield, rfl⟩)
  rw [callStep]
  split
  next op ops hpc =>
    rw [hpc] at hold
    refine h.of_call hc rfl rfl ?_
      (fun k d _ _ => setTlb fun e he => .inl (mem_apply he).1) ?_ nofun
    · exact h.toTidy.shrink c.cpu (fun b => sameAt_setTlb) rfl
        (fun e he => (mem_apply (mem_setTlb he)).1) fun _ hmem => hmem
    intro e he hst
    obtain ⟨hmem, hnot⟩ := mem_apply (mem_setTlb he)
    exact (covers_cons (hold e hmem hst)).resolve_left hnot
  next hpc =>
    rw [hpc] at hold
    have hclean : Clean s id c c.cpu := fun e he hst => not_covers_nil _ (hold e he hst)
    split
    next hnone =>
      refine h.move hc ⟨hclean, ?_⟩ nofun
      rw [hnone]
      exact nofun
    · refine h.move hc ⟨hclean, rfl, nofun, fun _ _ => trivial⟩ ?_
      intro b hb
      simp [Pc.uses] at hb
  next done field hpc =>
    rw [hpc] at hold
    obtain ⟨hself, htargets, hdone, -⟩ := hold
    rw [append_nil] at htargets
    refine h.move hc ⟨hself, ?_, ?_⟩ ?_
    · rw [append_nil, htargets]
      exact fun b hb => ⟨hb, hdone b hb⟩
    · rw [append_nil, htargets]
      exact fun b hb => .inl hb
    intro b hb
    rw [hpc]
    exact decide_eq_true (.inl ((of_decide_eq_true hb).resolve_right nofun))
  next done b todo hpc =>
    rw [hpc] at hok
    exact h.store hc hpc (fun k d hd _ => hok k (h.lt_begun hd) d hd) rfl
  next done b todo hpc =>
    rw [hpc] at hold
    obtain ⟨-, -, -, hstored⟩ := hold
    exact h.store hc hpc (hmine (hhead hpc nofun)) ⟨hstored b rfl, rfl⟩
  next done b todo hpc =>
    rw [hpc] at hold
    obtain ⟨-, -, -, hstored⟩ := hold
    exact h.store hc hpc (hmine (hhead hpc nofun)) ⟨(hstored b rfl).1, (hstored b rfl).2, rfl⟩
  next done b todo hpc =>
    rw [hpc] at hold
    obtain ⟨hself, htargets, -, hstored⟩ := hold
    refine h.publish hc hpc (hmine (hhead hpc nofun))
      (fun hdone => ⟨hself, ?_, ?_, fun _ _ => trivial⟩) ?_
    · rw [htargets, append_assoc]
      rfl
    · intro b' hb'
      rcases mem_append.mp hb' with hmem | hmem
      · exact hdone b' hmem
      cases mem_singleton.mp hmem
      obtain ⟨hcr3, hlo, hhi⟩ := hstored b rfl
      have hslot : (s.setSlot b { s.slots b with pending := true, owner := id }).slots b =
          { s.slots b with pending := true, owner := id } := update_self ..
      exact ⟨by rw [hslot]; exact hcr3, by rw [hslot]; exact hlo, by rw [hslot]; exact hhi,
        .inl (by rw [hslot]; exact ⟨rfl, rfl⟩)⟩
    intro b' hb'
    rcases of_decide_eq_true hb' with hmem | ⟨hne, -⟩
    · rcases mem_append.mp hmem with hmem | hmem
      · exact .inr hmem
      · exact .inl (mem_singleton.mp hmem)
    · exact absurd rfl hne
  next b left still iters hpc =>
    rw [hpc] at hok
    exact h.poll hc hpc hok
  next iters hpc =>
    rw [hpc] at hold
    obtain ⟨hself, -, hrest⟩ := hold
    exact h.move hc ⟨hself, fun b hb => (hrest b hb).resolve_left nofun⟩ nofun
  next b still iters hpc => exact h.spin hc hstack hpc
  next b left remaining hpc =>
    rw [hpc] at hold
    have huses : ∀ b' ∈ b :: left, c.pc.uses b' := fun b' hb' => by
      rw [hpc]
      exact decide_eq_true hb'
    refine h.of_call hc rfl rfl ⟨h.own, h.ticks⟩
      (fun k d hd hne => setSlot (hmine (huses b mem_cons_self) k d hd hne)) hold ?_
    exact fun b' hb' => hmine (huses b' (mem_cons_of_mem b (of_decide_eq_true hb')))
  next remaining hpc =>
    rw [hpc] at hold
    exact h.move hc ⟨hold.1, fun b hb => (hold.2 b hb).imp_right .inr⟩ nofun
  next b left hpc =>
    rw [hpc] at hold hok
    refine h.of_call hc rfl rfl ⟨h.own, h.ticks⟩ (fun k d _ _ => setForce)
      ⟨hold.1, fun b' hb' => ?_⟩ nofun
    have hflag : ∀ b', Flagged s id b' → Flagged (s.setForce b true) id b' ∨
        Clean (s.setForce b true) id c b' :=
      (setForce (m := m)).flagged
    rcases hold.2 b' hb' with hmem | hf | hcl
    · rcases mem_cons.mp hmem with rfl | hmem
      · refine .inr (.inl ⟨.inl (update_self ..), fun since hmem => ?_⟩)
        have hnot := hok _ hmem
        exact not_le.mp (of_decide_eq_false hnot)
      · exact .inl hmem
    · exact .inr (hflag b' hf)
    · exact .inr (.inr hcl)
  next hpc =>
    rw [hpc] at hold
    exact h.move hc ⟨hold.1, fun b hb => (hold.2 b hb).resolve_left nofun⟩ nofun
  · exact h.pop hstack ⟨fun _ => rfl, nofun⟩

end

/-! ## Runs -/

lemma Inv.enter (h : Inv m s) (hcpu : cpu < m.ncpus) (cr3 lo hi : ℕ)
    (hwrap : hi + (pageSize - 1) < 2 ^ 64) :
    Inv m { s with
      calls := update s.calls s.begun
        (some ⟨cpu, cr3, lo, hi, .invalidate (localInvlpgRange lo hi)⟩)
      begun := s.begun + 1 } := by
  have hcases : ∀ {k d}, update s.calls s.begun
      (some ⟨cpu, cr3, lo, hi, .invalidate (localInvlpgRange lo hi)⟩) k = some d →
      d = ⟨cpu, cr3, lo, hi, .invalidate (localInvlpgRange lo hi)⟩ ∨ s.calls k = some d := fun hd =>
    (eq_some_of_update hd).imp And.right And.right
  refine ⟨⟨h.own, fun b since hmem =>
    ⟨(h.ticks b since hmem).1.trans (Nat.le_succ _), (h.ticks b since hmem).2⟩⟩,
    ?_, ?_, ?_, ?_, ?_⟩
  · intro k hk
    replace hk : s.begun + 1 ≤ k := hk
    show update s.calls s.begun _ k = none
    rw [update_of_ne (by omega)]
    exact h.fresh k (by omega)
  · intro k d hd
    rcases hcases hd with rfl | hd
    · exact hcpu
    · exact h.home k d hd
  · intro k d hd
    rcases hcases hd with rfl | hd
    · exact hwrap
    · exact h.range k d hd
  · intro i j c d b hi' hj hu hu'
    rcases hcases hi' with rfl | hi'
    · cases hu
    rcases hcases hj with rfl | hj
    · cases hu'
    · exact h.alone i j c d b hi' hj hu hu'
  intro k d hd
  rcases hcases hd with rfl | hd
  · exact fun e _ hst => covers_localInvlpgRange hwrap hst.2.1
  refine (h.phase k d hd).kept ⟨fun _ _ he => .inl he, fun _ _ => ⟨rfl, rfl, rfl⟩, fun b _ _ ha =>
    ?_, fun b hf => .inl ?_⟩
  · exact ha.same ⟨rfl, rfl, rfl, rfl⟩
  · exact hf.same ⟨rfl, rfl, rfl, rfl⟩

lemma step_inv {e : Event} (h : Inv m s) (hok : Orderly s e) (hs : step m s e = some s') :
    Inv m s' := by
  have hon : ∀ {cpu : ℕ} {next : Option State}, m.on cpu next = some s' → cpu < m.ncpus ∧
      next = some s' := by
    exact Option.ite_none_right_eq_some.mp
  -- an activation is put on top of the others
  have hpush : ∀ {cpu : ℕ} {f : Frame}, (∀ since, f ≠ .tick (.clear since)) →
      Inv m (s.setStack cpu (f :: s.stack cpu)) := by
    intro cpu f hf
    exact h.setStack (fun g hg => .inl (by simp [hg])) fun since hmem =>
      (mem_cons.mp hmem).resolve_left fun heq => hf since heq.symm
  cases e with
  | cache cpu page =>
    obtain ⟨-, ⟨⟩⟩ := hon hs
    refine h.of_kept rfl rfl ?_ fun k d hd => setTlb fun e he => ?_
    · refine h.at cpu (fun b => sameAt_setTlb) le_rfl (fun e he => ?_)
        (fun since hmem => ⟨?_, fun e he => ?_⟩)
      · rcases mem_cons.mp (mem_setTlb he) with rfl | he
        · rfl
        · exact h.own cpu e he
      · exact (h.ticks cpu since hmem).1
      rcases mem_cons.mp (mem_setTlb he) with rfl | he
      · exact (h.ticks cpu since hmem).1
      · exact (h.ticks cpu since hmem).2 e he
    rcases mem_cons.mp he with rfl | he
    · exact .inr (h.lt_begun hd)
    · exact .inl he
  | begin cpu cr3 lo hi =>
    obtain ⟨hcpu, ⟨⟩⟩ := hon hs
    exact Inv.enter (s := s.setStack cpu (.call s.begun :: s.stack cpu))
      (hpush nofun) hcpu cr3 lo hi hok
  | serve cpu | tick cpu =>
    obtain ⟨-, ⟨⟩⟩ := hon hs
    exact hpush nofun
  | advance cpu =>
    have hs' := (hon hs).2
    rw [Orderly] at hok
    split at hs'
    · cases hs'
    next id rest hstack =>
      rw [hstack] at hok
      obtain ⟨c, hc, rfl⟩ := Option.map_eq_some_iff.mp hs'
      exact callStep_inv h hc hstack (hok c hc)
    next pc rest hstack =>
      cases hs'
      exact serviceStep_inv h hstack
    next pc rest hstack =>
      cases hs'
      exact tickStep_inv h hstack

lemma Inv.shot (h : Inv m s) : Shot m s := by
  intro id c hc
  have hself : c.cpu < Tlb.maxCpus := lt_of_lt_of_le (h.home id c hc) m.online
  have hphase := h.phase id c hc
  refine ⟨fun hret b hb hne hcr3 => ?_, fun hret b hb hstale => ?_⟩ <;> rw [hret] at hphase
  · exact hphase.2 b (mem_targets_of hself hb hne hcr3)
  have hne : b ≠ c.cpu := by
    rintro rfl
    exact hstale hphase.1
  -- a CPU on another page table holds no translation of this one
  have hcr3 : m.cr3 b = c.cr3 := by
    by_contra hother
    exact hstale fun e he hst => hother ((h.own b e he).symm.trans hst.1)
  exact ((hphase.2 b (mem_targets_of hself hb hne hcr3)).resolve_right hstale).due

/-- In an orderly run every call that has returned has removed what it was to remove, or has left a
flag for it. -/
theorem shot_of_orderly {es : List Event} (hg : Guarded (step m) Orderly boot es)
    (hrun : run (step m) boot es = some s) : Shot m s :=
  (run_guarded (fun _ _ _ hi hok hs => step_inv hi hok hs) (boot_inv m) hg hrun).shot

/-! ## Two CPUs on one page table -/

/-- Two CPUs on one page table. -/
def pair : Machine where
  ncpus := 2
  cr3 := fun _ => 1
  active := fun c => if c = 1 then some 3#64 else none
  online := by decide
  exact := by
    intro c i
    have hbits : (3#64).getLsbD i = true ↔ i < 2 := by
      rcases i with _ | _ | i
      · decide
      · decide
      · simp [BitVec.getLsbD, Nat.testBit_succ]
    by_cases hc : c = 1
    · subst hc
      simp [Tlb.Active, Tlb.snapshotActiveMask, hbits]
    · have hnone : ¬ (1 = c) := fun h => hc h.symm
      simp [Tlb.Active, Tlb.snapshotActiveMask, hc, hnone]

/-- CPU 1 caches a translation of page 5; CPU 0 begins to shoot it down, and publishes its
request. -/
def request : List Event :=
  [.cache 1 5, .begin 0 1 0x5000 0x6000, .advance 0, .advance 0, .advance 0, .advance 0, .advance 0,
    .advance 0, .advance 0]

/-- CPU 1 serves the request, and then CPU 0 looks at it. -/
theorem shot_of_orderly_pair :
    ∃ s, run (step pair) boot
        (request ++ [.serve 1, .advance 1, .advance 1, .advance 1, .advance 1, .advance 1,
          .advance 0, .advance 0]) = some s ∧
      (s.calls 0).map Call.pc = some (.ret true) ∧ s.tlb 1 = [] ∧ Shot pair s := by
  have hg : Guarded (step pair) Orderly boot
      (request ++ [.serve 1, .advance 1, .advance 1, .advance 1, .advance 1, .advance 1, .advance 0,
        .advance 0]) := by
    decide +kernel
  exact ⟨_, rfl, by decide +kernel, by decide +kernel, shot_of_orderly hg rfl⟩

/-- CPU 1 takes the request, CPU 0 looks at it and returns `true`, and CPU 1 still holds the
translation. -/
theorem not_shot_after_claim :
    ∃ s, run (step pair) boot (request ++ [.serve 1, .advance 1, .advance 0, .advance 0]) = some s ∧
      ¬ Shot pair s := by
  refine ⟨_, rfl, fun h => ?_⟩
  have hclean := (h 0 _ rfl).1 rfl 1 (by decide) (by decide) rfl
  exact hclean ⟨1, 5, 0⟩ mem_cons_self ⟨rfl, ⟨0x5000, by decide, by decide, by decide⟩, le_rfl⟩

end Astryx.Shootdown
