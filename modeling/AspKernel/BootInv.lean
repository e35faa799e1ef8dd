import AspKernel.RunInv

namespace AspKernel
set_option autoImplicit true

theorem ObjNum.mem_free {n : ObjNum} : i ∈ n.free ↔ n.tmaxS ≤ i ∧ i < n.tmax := by
  have hle := n.le
  unfold ObjNum.free
  rw [List.mem_range'_1]
  omega

theorem ObjNum.free_nodup (n : ObjNum) : n.free.Nodup := List.nodup_range' ..

theorem ObjNum.initAtr_free {n : ObjNum} {atr : Nat → ATR} (h : i ∈ n.free) :
    n.initAtr atr i = TA_NOEXS := if_neg (Nat.not_lt.2 (mem_free.1 h).1)

section
variable {cfg : Cfg} {c : Core}

theorem CoreInv.zero (cfg : Cfg) : CoreInv cfg noD (.zero cfg) where
  sched := by
    have hl : (Core.zero cfg).loc noD = fun _ => none := rfl
    rw [hl]
    refine ⟨⟨fun q => ⟨List.nodup_nil, fun t => ⟨nofun, nofun⟩⟩, nofun, fun p _ => ?_, rfl,
      fun _ => List.Pairwise.nil, nofun⟩, fun _ => rfl⟩
    change (0#16).getLsbD p = true ↔ ([] : List Nat) ≠ []
    rw [BitVec.getLsbD_zero]
    exact ⟨nofun, fun h => absurd rfl h⟩
  timer := by
    have he : (Core.zero cfg).expects noD = fun _ => false := by
      funext e
      cases e <;> rfl
    rw [he]
    have hw : BinHeap.WF (Core.zero cfg).tm.heap := fun i h1 h2 =>
      absurd (h1.trans h2) (Nat.not_succ_le_zero 0)
    refine ⟨⟨hw.holds, fun i h1 h2 => absurd (h1.trans_le h2) (Nat.not_lt_zero 1)⟩, fun p => ?_,
      nofun, rfl⟩
    refine Option.isSome_eq_false_iff.2 (Option.isNone_iff_eq_none.2 (if_neg fun h => ?_))
    exact absurd (h.1.trans h.2.1) (Nat.not_succ_le_zero 0)
  task t := by
    have hi : ((Core.zero cfg).tcb t).tinib.ipriority < TNUM_TPRI := by
      change (if t < cfg.tsk.tmaxS then cfg.tinib t
        else ⟨TA_NOEXS, 0, false, 0, 0⟩).ipriority < TNUM_TPRI
      split
      · exact cfg.ipriority_lt t
      · decide
    exact ⟨.dormant, (by decide : 0 < TNUM_TPRI), (by decide : 0 < TNUM_TPRI), hi, nofun, nofun, fun h => absurd rfl h⟩
  free := by
    refine ⟨cfg.tsk.free_nodup, fun t ht => ?_, fun f => ?_, fun f i hi => ?_, cfg.cyc.free_nodup,
      fun i hi => ⟨(ObjNum.mem_free.1 hi).2, if_neg (Nat.not_lt.2 (ObjNum.mem_free.1 hi).1), rfl⟩,
      cfg.alm.free_nodup,
      fun i hi => ⟨(ObjNum.mem_free.1 hi).2, if_neg (Nat.not_lt.2 (ObjNum.mem_free.1 hi).1), rfl⟩,
      nofun, nofun⟩
    · refine ⟨(ObjNum.mem_free.1 ht).2, rfl, ?_, rfl⟩
      change (if t < cfg.tsk.tmaxS then cfg.tinib t else ⟨TA_NOEXS, 0, false, 0, 0⟩).tskatr = TA_NOEXS
      rw [if_neg (Nat.not_lt.2 (ObjNum.mem_free.1 ht).1)]
    · simp only [Core.zero]
      cases cfg.wobj f with
      | none => exact List.nodup_nil
      | some r => exact r.1.free_nodup
    · simp only [Core.zero] at hi ⊢
      cases hw : cfg.wobj f with
      | none => rfl
      | some r =>
        simp only [hw] at hi
        exact ObjNum.initAtr_free hi
  exist := nofun
  asserts := rfl

/-- What the start of a cyclic handler leaves alone. -/
def CYCCB.times (p : CYCCB) := (p.cycatr, p.cyctim, p.cycphs)

/-- What the start of the kernel leaves alone. -/
def Core.rest (c : Core) :=
  (c.cpu, c.freeTcb, c.wobjatr, c.freeWobj, c.mtxcb, c.mutexQueue, c.freeCyccb, c.freeAlmcb,
    c.almcb, c.areas, c.freeOk, c.tm.clock, fun i => ((c.cyccb i).cyctim, (c.cyccb i).cycphs))

/-- A task while the kernel starts. -/
structure TCB.AtBoot (tinib : TINIB) (p : TCB) : Prop where
  priority : p.priority = p.bpriority
  waiting : p.tstat.waiting = false
  tinib : p.tinib = tinib
  tex : p.tex = (false, 0, [], false, 0, 0)

/-- What holds while the kernel starts. -/
structure BootInv (cfg : Cfg) (c : Core) : Prop where
  inv : CoreInv cfg noD c
  task : ∀ t, (c.tcb t).AtBoot ((Core.zero cfg).tcb t).tinib
  rest : c.rest = (Core.zero cfg).rest
  cycatr : ∀ i, (c.cyccb i).cycatr = ((Core.zero cfg).cyccb i).cycatr

theorem BootInv.zero (cfg : Cfg) : BootInv cfg (.zero cfg) :=
  ⟨.zero cfg, fun _ => ⟨rfl, rfl, rfl, rfl⟩, rfl, fun _ => rfl⟩

theorem BootInv.freeTcb (h : BootInv cfg c) : c.freeTcb = cfg.tsk.free :=
  congrArg (fun r => r.2.1) h.rest

theorem BootInv.freeCyccb (h : BootInv cfg c) : c.freeCyccb = cfg.cyc.free :=
  congrArg (fun r => r.2.2.2.2.2.2.1) h.rest

/-- A change of the control block of one task. -/
theorem BootInv.setTcb (h : BootInv cfg c) (hi : CoreInv cfg noD c')
    (ht : c'.tcb = Function.update c.tcb t p) (hr : c'.rest = c.rest) (hc : c'.cyccb = c.cyccb)
    (hp : (c.tcb t).AtBoot ((Core.zero cfg).tcb t).tinib →
      p.AtBoot ((Core.zero cfg).tcb t).tinib) : BootInv cfg c' := by
  refine ⟨hi, fun u => ?_, hr.trans h.rest, by rw [hc]; exact h.cycatr⟩
  rw [ht]
  by_cases hu : u = t
  · subst hu
    rw [Function.update_self]
    exact hp (h.task u)
  · rw [Function.update_of_ne hu]
    exact h.task u

/-- The control block that `make_dormant` leaves of a task that is dormant. -/
theorem BootInv.makeDormant (h : BootInv cfg c) (hs : (c.tcb t).tstat = .DORMANT) :
    BootInv cfg ((c.setTcb t { c.tcb t with actque := false }).makeDormant t) := by
  have ht := h.inv.task t
  have hl : (c.tcb t).loc = none := TCB.loc_idle (by rw [hs]; rfl) (by rw [hs]; rfl)
  let p : TCB := { c.tcb t with
    actque := false, tstat := .DORMANT, bpriority := (c.tcb t).tinib.ipriority,
    priority := (c.tcb t).tinib.ipriority, wupque := false, enatex := false, texptn := 0,
    texraised := 0, texpassed := 0 }
  have hp : (c.setTcb t { c.tcb t with actque := false }).makeDormant t = c.setTcb t p := by
    unfold Core.makeDormant
    simp only [Core.setTcb_self, Core.setTcb_setTcb]
    rfl
  rw [hp]
  refine h.setTcb (p := p) ?_ rfl rfl rfl fun hb => ⟨rfl, rfl, hb.tinib, ?_⟩
  · refine h.inv.setTcb (p := p) ⟨.dormant, ht.ipriority, ht.ipriority, ht.ipriority, nofun, nofun,
      fun he => absurd rfl he⟩ (fun _ => hl.symm) (fun o ho _ => ?_) (fun _ => ?_) nofun
      fun hm => ⟨(h.inv.free.tcb t hm).2.2.1, rfl⟩
    · rw [Core.loc_attached rfl, hl] at ho
      cases ho
    · exact (TCB.timed_of_not_waiting (by rw [hs]; rfl)).symm
  · have hx := hb.tex
    simp only [TCB.tex, Prod.mk.injEq] at hx
    simp only [TCB.tex, p, hx]

theorem BootInv.makeActive (h : BootInv cfg c) (hs : (c.tcb t).tstat = .DORMANT)
    (ht : t < cfg.tsk.tmaxS) : BootInv cfg (c.makeActive t).1 := by
  have hf : t ∉ c.freeTcb := fun hm => by
    rw [h.freeTcb, ObjNum.mem_free] at hm
    omega
  have hle := cfg.tsk.le
  refine h.setTcb (t := t) (p := { c.tcb t with
    tstat := .RUNNABLE, texstk := [], texloop := false })
    (h.inv.activate rfl hf (by omega) hs) rfl rfl rfl fun hb => ⟨hb.priority, rfl, hb.tinib, ?_⟩
  have hx := hb.tex
  simp only [TCB.tex, Prod.mk.injEq] at hx
  simp only [TCB.tex, hx]

theorem BootInv.initializeTsk (h : BootInv cfg c) (hs : (c.tcb t).tstat = .DORMANT)
    (ht : t < cfg.tsk.tmaxS) : BootInv cfg (c.initializeTsk t) := by
  have h1 := h.makeDormant hs
  unfold Core.initializeTsk
  simp only
  split
  · refine h1.makeActive ?_ ht
    unfold Core.makeDormant
    rw [Core.setTcb_self]
  · exact h1

theorem initializeTsk_of_ne (c : Core) (hu : u ≠ t) : (c.initializeTsk t).tcb u = c.tcb u := by
  unfold Core.initializeTsk Core.makeDormant
  simp only
  split
  · change (Core.setTcb _ t _).tcb u = _
    rw [Core.setTcb_of_ne _ _ hu, Core.setTcb_of_ne _ _ hu, Core.setTcb_of_ne _ _ hu]
  · rw [Core.setTcb_of_ne _ _ hu, Core.setTcb_of_ne _ _ hu]

theorem BootInv.foldTsk {l : List Nat} (h : BootInv cfg c) (hn : l.Nodup)
    (hl : ∀ t ∈ l, t < cfg.tsk.tmaxS ∧ (c.tcb t).tstat = .DORMANT) :
    BootInv cfg (l.foldl Core.initializeTsk c) := by
  induction l generalizing c with
  | nil => exact h
  | cons t l ih =>
    have hn := List.nodup_cons.1 hn
    obtain ⟨ht, hs⟩ := hl t (List.mem_cons_self ..)
    refine ih (h.initializeTsk hs ht) hn.2 fun u hu => ?_
    have hut : u ≠ t := by
      rintro rfl
      exact hn.1 hu
    rw [initializeTsk_of_ne c hut]
    exact hl u (List.mem_cons_of_mem _ hu)

theorem BootInv.initializeCyc (h : BootInv cfg c) (hi : i < cfg.cyc.tmaxS)
    (hs : (c.cyccb i).cycsta = false) : BootInv cfg (c.initializeCyc i) := by
  have hf : i ∉ c.freeCyccb := fun hm => by
    rw [h.freeCyccb, ObjNum.mem_free] at hm
    omega
  have hle := cfg.cyc.le
  unfold Core.initializeCyc
  split
  · have hj (j : Nat) : (((c.setCyc i { c.cyccb i with cycsta := true }).tmevtbEnqueueCyc i
        (c.cyccb i).cycphs).cyccb j).times = (c.cyccb j).times := by
      unfold Core.tmevtbEnqueueCyc Core.setCyc
      by_cases hj : j = i
      · subst hj
        simp only [Function.update_self, CYCCB.times]
      · simp only [Function.update_of_ne hj]
    refine ⟨h.inv.startCyc hf (by omega) hs _, h.task, ?_, fun j =>
      (congrArg (fun t => t.1) (hj j)).trans (h.cycatr j)⟩
    refine Eq.trans ?_ h.rest
    simp only [Core.rest, Prod.mk.injEq]
    exact ⟨rfl, rfl, rfl, rfl, rfl, rfl, rfl, rfl, rfl, rfl, rfl, rfl,
      funext fun j => congrArg (fun t => t.2) (hj j)⟩
  · exact h

theorem initializeCyc_of_ne (c : Core) (hj : j ≠ i) : (c.initializeCyc i).cyccb j = c.cyccb j := by
  unfold Core.initializeCyc Core.tmevtbEnqueueCyc Core.setCyc
  split
  · simp only [Function.update_of_ne hj]
  · rfl

theorem BootInv.foldCyc {l : List Nat} (h : BootInv cfg c) (hn : l.Nodup)
    (hl : ∀ i ∈ l, i < cfg.cyc.tmaxS ∧ (c.cyccb i).cycsta = false) :
    BootInv cfg (l.foldl Core.initializeCyc c) := by
  induction l generalizing c with
  | nil => exact h
  | cons i l ih =>
    have hn := List.nodup_cons.1 hn
    obtain ⟨hi, hs⟩ := hl i (List.mem_cons_self ..)
    refine ih (h.initializeCyc hi hs) hn.2 fun j hj => ?_
    have hji : j ≠ i := by
      rintro rfl
      exact hn.1 hj
    rw [initializeCyc_of_ne c hji]
    exact hl j (List.mem_cons_of_mem _ hj)

theorem foldTsk_cyccb (l : List Nat) (c : Core) :
    (l.foldl Core.initializeTsk c).cyccb = c.cyccb := by
  induction l generalizing c with
  | nil => rfl
  | cons t l ih =>
    rw [List.foldl_cons, ih]
    unfold Core.initializeTsk
    simp only
    split <;> rfl

theorem BootInv.all (cfg : Cfg) : BootInv cfg (Core.initializeAll cfg) := by
  have h1 : BootInv cfg (cfg.torder.foldl Core.initializeTsk (.zero cfg)) :=
    (BootInv.zero cfg).foldTsk cfg.torder_nodup fun t ht => ⟨(cfg.torder_mem t).1 ht, rfl⟩
  refine h1.foldCyc List.nodup_range fun i hi => ⟨List.mem_range.1 hi, ?_⟩
  rw [foldTsk_cyccb]
  rfl

/-- The first state of the system. -/
theorem RunInv.boot (cfg : Cfg) : RunInv cfg (boot cfg).core := by
  have h := BootInv.all cfg
  have hcpu : (Core.initializeAll cfg).cpu = (Core.zero cfg).cpu := congrArg (·.1) h.rest
  simp only [Core.cpu, Prod.mk.injEq] at hcpu
  obtain ⟨_, _, h3, h4, h5, _, _, h8⟩ := hcpu
  refine .dispatcher h.inv ?_ ?_
  · unfold Core.FlagsOk
    rw [h3, h4, h5]
    rfl
  · rw [h8]
    intro n hn
    cases hn

/-- The invariant holds in every state that the system can reach. -/
theorem Reachable.runInv (h : Reachable cfg k) : RunInv cfg k.core := by
  obtain ⟨es, hr⟩ := h
  exact hr.invariant (I := fun k => RunInv cfg k.core) (fun _ _ _ hi hs => hi.step hs) (.boot cfg)

end

end AspKernel
