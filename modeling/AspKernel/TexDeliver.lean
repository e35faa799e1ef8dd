import AspKernel.TexInv

/-! The delivery of task exceptions. -/

namespace AspKernel
set_option autoImplicit true

section
variable {cfg : Cfg} {S : Scope} {P : WQueue → Prop} {R : Nat → Prop} {c c' : Core}

theorem ipmflg_of_cpu (h : c'.cpu = c.cpu) : c'.ipmflg = c.ipmflg := congrArg (·.2.2.1) h

/-- Only the changes that are about the interrupt priority mask change it. -/
theorem Move.ipmflg (m : Move cfg S P R c b c') (h : CoreInv cfg noD c) (hI : ¬S.ipm) :
    c'.ipmflg = c.ipmflg := by
  cases m with
  | flags _ _ _ hI' => exact hI'.resolve_right hI
  | complete ht =>
    exact ipmflg_of_cpu (frame_waitComplete (N := fun _ => False) (P := P) _
      (TCB.loc_eq_wait.1 (h.of_mem ht).2).1).1.cpu
  | wakeup hO hs =>
    have hf : (c.tcb _).tstat.factor = .SLP := beq_iff_eq.1 hs
    refine ipmflg_of_cpu (frame_wakeup (N := fun _ => False) (P := P) ?_).1.cpu
    refine (h.task _).legal.not_runnable ?_
    by_contra hw
    rw [(h.task _).legal.factor (Bool.eq_false_iff.2 hw)] at hf
    cases hf
  | release hO hw =>
    exact ipmflg_of_cpu (frame_waitRelease (N := fun _ => False) (P := P)
      ((h.task _).legal.not_runnable hw)).1.cpu
  | initQueue q => exact ipmflg_of_cpu (frame_initWaitQueue (N := fun _ => False) (P := P) h q).1.cpu
  | setBpriority => exact ipmflg_of_cpu (frame_setBpriority (N := fun _ => False) (P := P) c _ _).cpu
  | lock => exact ipmflg_of_cpu (frame_mutexAcquire (N := fun _ => False) (P := P) c _ _).cpu
  | unlock => exact ipmflg_of_cpu (frame_unlock (N := fun _ => False) (P := P) h rfl _).cpu
  | disown => exact ipmflg_of_cpu (frame_disown (N := fun _ => False) (P := P) c _ _).cpu
  | terminate hO hd =>
    rename_i t hc hb ht hP hT
    have hr := frame_terminate (N := (· = t)) (P := P) (h.unlink (t := t) rfl hd) t rfl
    exact ipmflg_of_cpu (hr.cpu.trans (frame_unlink c t).1.cpu)
  | newTsk _ ht =>
    obtain ⟨l, _, rfl⟩ := takeTcb_eq ht
    rfl
  | newWobj _ _ ht =>
    obtain ⟨l, _, rfl⟩ := takeWobj_eq ht
    rfl
  | newMtx ht =>
    obtain ⟨l, _, rfl⟩ := takeWobj_eq ht
    rfl
  | stopCyc =>
    unfold Core.stopCyc
    split
    · rfl
    · rfl
  | stopAlm =>
    unfold Core.stopAlm
    split
    · rfl
    · rfl
  | _ => rfl

theorem Moves.ipmflg (m : Moves cfg S P R c b c') (h : CoreInv cfg noD c) (hI : ¬S.ipm) :
    c'.ipmflg = c.ipmflg := by
  induction m with
  | refl => rfl
  | step hs hm ih => exact (hm.ipmflg (hs.coreInv h) hI).trans ih

end

/-- Every factor that was raised has been passed to the routine or is pending. -/
def TCB.Balanced (p : TCB) : Prop := p.texraised = p.texpassed ||| p.texptn

theorem TCB.Balanced.of_tex {p p' : TCB} (h : p.Balanced) (hn : p'.texptn = p.texptn)
    (hr : p'.texraised = p.texraised) (hp : p'.texpassed = p.texpassed) : p'.Balanced := by
  unfold TCB.Balanced
  rw [hr, hp, hn]
  exact h

theorem TCB.Balanced.zero {p : TCB} (hn : p.texptn = 0) (hr : p.texraised = 0) (hp : p.texpassed = 0) :
    p.Balanced := by
  unfold TCB.Balanced
  rw [hn, hr, hp]
  rfl

theorem TCB.Balanced.life {S : Scope} {P : WQueue → Prop} (h : p.Balanced) (hX : ¬S.tex)
    (hs : TaskStep S P u run b p p') : p'.Balanced := by
  cases hs with
  | keep hs _ =>
    have hx := hs.tex
    simp only [TCB.tex, Prod.mk.injEq] at hx
    exact h.of_tex hx.2.1 hx.2.2.2.2.1 hx.2.2.2.2.2
  | tex hX' => exact absurd hX' hX
  | start hO hd hd' hi hx =>
    simp only [TCB.tex, Prod.mk.injEq] at hx
    exact h.of_tex hx.2.1 hx.2.2.2.2.1 hx.2.2.2.2.2
  | stop hO hd hd' hi hx =>
    simp only [TCB.tex, TCB.stopped, Prod.mk.injEq] at hx
    exact .zero hx.2.1 hx.2.2.2.2.1 hx.2.2.2.2.2
  | restart hO hd hd' hi hx =>
    simp only [TCB.tex, Prod.mk.injEq] at hx
    exact .zero hx.2.1 hx.2.2.2.2.1 hx.2.2.2.2.2
  | create hO hK hd hd' hr hx =>
    simp only [TCB.tex, TCB.stopped, Prod.mk.injEq] at hx
    exact .zero hx.2.1 hx.2.2.2.2.1 hx.2.2.2.2.2
  | delete hO hK hd hd' hi hx =>
    simp only [TCB.tex, Prod.mk.injEq] at hx
    exact h.of_tex hx.2.1 hx.2.2.2.2.1 hx.2.2.2.2.2

theorem TCB.Balanced.op (h : p.Balanced) (ho : TexOp (fun _ => False) p p') : p'.Balanced := by
  have hall : p.texraised = p.texpassed ||| p.texptn ||| 0 := h.trans BitVec.or_zero.symm
  cases ho with
  | cancel hC => exact hC.elim
  | raise hr ptn =>
    change p.texraised ||| ptn = p.texpassed ||| (p.texptn ||| ptn)
    rw [h, BitVec.or_assoc]
  | enter => exact hall
  | again => exact hall
  | define => exact h
  | enatex => exact h
  | leave => exact h
  | done => exact h

theorem TCB.Balanced.ops (h : p.Balanced) (ho : TaskOps (fun _ => False) p p') : p'.Balanced := by
  induction ho with
  | refl => exact h
  | tail _ hop ih =>
    cases hop with
    | life hX hs => exact ih.life hX hs
    | same hs =>
      have hx := hs.tex
      simp only [TCB.tex, Prod.mk.injEq] at hx
      exact ih.of_tex hx.2.1 hx.2.2.2.2.1 hx.2.2.2.2.2
    | tex ho => exact ih.op ho

/-- Nothing is pending while exception handling is enabled. -/
def TCB.Clear (p : TCB) : Prop := p.enatex = true → p.texptn = 0

section
variable {cfg : Cfg} {S : Scope} {P : WQueue → Prop} {R : Nat → Prop} {c c' : Core}

theorem TCB.Clear.life {S : Scope} {P : WQueue → Prop} {p p' : TCB} (h : p.Clear) (hX : ¬S.tex)
    (hs : TaskStep S P u run b p p') : p'.Clear := by
  intro he
  cases hs with
  | keep hs _ =>
    have hx := hs.tex
    simp only [TCB.tex, Prod.mk.injEq] at hx
    rw [hx.2.1]
    exact h (hx.1.symm.trans he)
  | tex hX' => exact absurd hX' hX
  | start hO hd hd' hi hx =>
    simp only [TCB.tex, Prod.mk.injEq] at hx
    rw [hx.2.1]
    exact h (hx.1.symm.trans he)
  | stop hO hd hd' hi hx =>
    simp only [TCB.tex, TCB.stopped, Prod.mk.injEq] at hx
    exact hx.2.1
  | restart hO hd hd' hi hx =>
    simp only [TCB.tex, Prod.mk.injEq] at hx
    exact hx.2.1
  | create hO hK hd hd' hr hx =>
    simp only [TCB.tex, TCB.stopped, Prod.mk.injEq] at hx
    exact hx.2.1
  | delete hO hK hd hd' hi hx =>
    simp only [TCB.tex, Prod.mk.injEq] at hx
    rw [hx.2.1]
    exact h (hx.1.symm.trans he)

/-- The running task has nothing pending that its routine may be called for. -/
def Core.Delivered (c : Core) : Prop := ∀ t, c.pRuntsk = some t → c.ipmflg = true → (c.tcb t).Clear

/-- Otherwise an interrupt handler has requested the call of the routine. -/
def Core.DeliverInv (c : Core) : Prop := c.Delivered ∨ c.senseContext = true ∧ c.reqflg = true

/-- A change of the running task after which nothing is pending while its exception handling is enabled. -/
theorem delivered_setTcb (hr : c.pRuntsk = some t) (hp : p.Clear) : (c.setTcb t p).Delivered := by
  intro u hu _
  cases hr.symm.trans hu
  rw [Core.setTcb_self]
  exact hp

theorem delivered_callTexrtn (hr : c.pRuntsk = some t) : (c.callTexrtn t).Delivered :=
  delivered_setTcb hr fun _ => rfl

theorem delivered_calltex (hr : c.pRuntsk = some t) : (c.calltex t).Delivered := by
  unfold Core.calltex
  simp only
  split
  · exact delivered_callTexrtn hr
  · rename_i hn
    intro u hu hi he
    cases hr.symm.trans hu
    rw [he, hi, Bool.true_and, Bool.and_true] at hn
    simpa using hn

theorem delivered_texLoop (hr : c.pRuntsk = some t) : (c.texLoop t).Delivered := by
  unfold Core.texLoop
  simp only
  split
  · exact delivered_setTcb hr fun _ => rfl
  · rename_i hn
    refine delivered_setTcb hr fun _ => ?_
    simpa using hn

theorem delivered_dispatcher (c : Core) : c.dispatcher.Delivered := by
  unfold Core.dispatcher
  simp only
  split
  · rename_i hn
    intro t ht
    cases hn.symm.trans ht
  · rename_i t ht
    split
    · exact delivered_texLoop (c := { c with pRuntsk := c.sched.pSchedtsk }) ht
    · exact delivered_calltex (c := { c with pRuntsk := c.sched.pSchedtsk }) ht

theorem Core.Delivered.moves (h : c.Delivered) (m : Moves cfg S P R c b c') (hc : CoreInv cfg noD c)
    (hX : ¬S.tex) (hI : ¬S.ipm) : c'.Delivered := by
  intro t ht hi
  rw [(m.keep hc).runtsk] at ht
  rw [m.ipmflg hc hI] at hi
  exact m.tasks hc (Q := TCB.Clear) (fun _ _ _ hs hp => hp.life hX hs) (h t ht hi)

theorem Core.Delivered.request (h : c.Delivered) (dspreq : Bool) : (c.request dspreq).Delivered := h

/-- The states that a result may leave. -/
def Res.Delivers (r : Res Core) : Prop := r.disp = false → r.st.DeliverInv

theorem Res.Delivers.settle {r : Res Core} (h : r.Delivers) :
    Core.DeliverInv (if r.disp then r.st.dispatcher else r.st) := by
  split
  · exact .inl (delivered_dispatcher _)
  · rename_i hd
    exact h (Bool.eq_false_iff.2 hd)

theorem Core.DeliverInv.task (h : c.DeliverInv) (hc : c.senseContext = false) : c.Delivered :=
  h.resolve_right fun hr => Bool.false_ne_true (hc.symm.trans hr.1)

theorem Core.DeliverInv.effect (h : c.DeliverInv) (he : Effect cfg S P R c r) (hc : CoreInv cfg noD c)
    (hX : ¬S.tex) (hI : ¬S.ipm) : r.Delivers := by
  intro _
  cases he with
  | task hm =>
    have hf := hm.frame hc
    refine h.imp (fun h => h.moves hm hc hX hI) fun h => ?_
    rw [senseContext_eq hf.nest, hf.reqflg]
    exact h
  | int hm hb hsense =>
    have hf := hm.frame hc
    refine h.imp (fun h => (h.moves hm hc hX hI).request _) fun h => ?_
    refine ⟨(senseContext_eq hf.nest).trans hsense, ?_⟩
    change (_ || _) = true
    rw [hf.reqflg, h.2]
    rfl

theorem Core.DeliverInv.check (h : c.DeliverInv) {body : Res Core}
    (hb : (∀ p ∈ l, p.1 = true) → body.Delivers) : (AspKernel.check l c body).Delivers := by
  rcases check_cases l c body with ⟨p, _, _, he⟩ | ⟨hl, he⟩
  · rw [he]
    exact fun _ => h
  · rw [he]
    exact hb hl

/-- A change of one task: nothing is to be delivered to it, or it is not the running one. -/
theorem Core.Delivered.setTcb (h : c.Delivered) (hp : c.pRuntsk = some t → c.ipmflg = true → p.Clear) :
    (c.setTcb t p).Delivered := by
  intro u hu hi
  by_cases hut : u = t
  · subst hut
    rw [Core.setTcb_self]
    exact hp hu hi
  · rw [Core.setTcb_of_ne _ _ hut]
    exact h u hu hi

theorem delivers_defTex (h : c.DeliverInv) : (c.defTex cfg tskid texatr texrtn).Delivers := by
  refine h.check fun hl => ?_
  simp only [List.mem_cons, List.not_mem_nil, or_false, forall_eq_or_imp, forall_eq] at hl
  have hd := h.task (ctxUnl_tsk hl.1)
  simp only
  split
  · exact fun _ => h
  · split
    · exact fun _ => h
    · split
      · split
        · exact fun _ => h
        · exact fun _ => .inl (hd.setTcb (hd _))
      · split
        · exact fun _ => .inl (hd.setTcb fun _ _ _ => rfl)
        · exact fun _ => h

theorem delivers_rasTex (h : c.DeliverInv) : (c.rasTex cfg tskid rasptn).Delivers := by
  refine h.check fun hl => ?_
  simp only [List.mem_cons, List.not_mem_nil, or_false, forall_eq_or_imp, forall_eq] at hl
  simp only
  split
  · exact fun _ => h
  · split
    · exact fun _ => h
    · split
      · rename_i hr
        exact fun _ => .inl (delivered_callTexrtn hr.1)
      · rename_i hr
        refine fun _ => .inl ((h.task (ctxUnl_tsk hl.1)).setTcb fun ht hi he => ?_)
        exact absurd ⟨ht, he, hi⟩ hr

theorem delivers_irasTex (h : c.DeliverInv) : (c.irasTex cfg tskid rasptn).Delivers := by
  refine h.check fun hl => ?_
  simp only [List.mem_cons, List.not_mem_nil, or_false, forall_eq_or_imp, forall_eq] at hl
  have hc := ctxUnl_int hl.1
  simp only
  split
  · exact fun _ => h
  · split
    · exact fun _ => h
    · intro _
      rcases h with h | h
      · by_cases hr : c.pRuntsk = some (index tskid) ∧ (c.tcb (index tskid)).enatex = true ∧ c.ipmflg = true
        · refine .inr ⟨hc, ?_⟩
          change (_ || _) = true
          simp [Core.setTcb, hr]
        · refine .inl ?_
          refine Core.Delivered.setTcb (c := c) h fun ht hi he => ?_
          exact absurd ⟨ht, he, hi⟩ hr
      · refine .inr ⟨hc, ?_⟩
        change (_ || _) = true
        simp [Core.setTcb, h.2]

theorem delivers_disTex (h : c.DeliverInv) : c.disTex.Delivers := by
  refine h.check fun hl => ?_
  simp only [List.mem_cons, List.not_mem_nil, or_false, forall_eq] at hl
  simp only
  split
  · exact fun _ => h
  · refine fun _ => .inl ((h.task (ctxUnl_tsk hl)).setTcb fun _ _ he => ?_)
    cases he

theorem delivers_enaTex (h : c.DeliverInv) (hr : c.senseContext = false → c.pRuntsk = some c.runtsk) :
    c.enaTex.Delivers := by
  refine h.check fun hl => ?_
  simp only [List.mem_cons, List.not_mem_nil, or_false, forall_eq] at hl
  simp only
  split
  · exact fun _ => h
  · exact fun _ => .inl (delivered_calltex (c := c.setTcb _ _) (hr (ctxUnl_tsk hl)))

theorem delivers_chgIpm (h : c.DeliverInv) (hr : c.senseContext = false → c.pRuntsk = some c.runtsk) :
    (c.chgIpm intpri valid).Delivers := by
  refine h.check fun hl => ?_
  simp only [List.mem_cons, List.not_mem_nil, or_false, forall_eq_or_imp, forall_eq] at hl
  simp only
  split
  · split
    · intro hd
      cases hd
    · exact fun _ => .inl (delivered_calltex (hr (ctxUnl_tsk hl.1)))
  · refine fun _ => .inl fun t _ hi => ?_
    cases hi

theorem delivers_extTsk (h : c.DeliverInv) : c.extTsk.Delivers := by
  refine h.check fun _ => ?_
  intro hd
  cases hd

/-- A service call leaves nothing undelivered. -/
theorem Core.DeliverInv.exec {k : Kernel} (h : k.core.DeliverInv) (hp : CallPre cfg k.core) (call : Call) :
    ((AspKernel.exec cfg k call).map Kernel.core).Delivers := by
  have he := effect_exec hp call
  cases call with
  | defTex tskid texatr texrtn => exact delivers_defTex h
  | rasTex tskid rasptn => exact delivers_rasTex h
  | irasTex tskid rasptn => exact delivers_irasTex h
  | disTex => exact delivers_disTex h
  | enaTex => exact delivers_enaTex h hp.runtsk
  | chgIpm intpri valid => exact delivers_chgIpm h hp.runtsk
  | extTsk => exact delivers_extTsk h
  | _ => exact h.effect he hp.inv id id

theorem delivered_intExit (h : c.DeliverInv) : c.intExit.DeliverInv := by
  unfold Core.intExit
  simp only
  split
  · split
    · exact .inl (delivered_dispatcher _)
    · rename_i t ht
      split
      · exact .inl (delivered_dispatcher _)
      · exact .inl (delivered_calltex ht)
  · rename_i hn
    refine h.imp id fun hr => ⟨?_, hr.2⟩
    by_contra hs
    have h0 : c.intnest - 1 = 0 := by simpa [Core.senseContext] using hs
    exact hn ⟨h0, hr.2⟩

theorem delivered_texReturn (hr : c.pRuntsk = some t) : (c.texReturn t).Delivered := by
  unfold Core.texReturn
  simp only
  split
  · exact delivered_dispatcher _
  · exact delivered_texLoop hr

theorem Core.DeliverInv.sigFire (h : c.DeliverInv) (hi : CoreInv cfg noD c) (hc : c.senseContext = true)
    (hf : Fire cfg c c') : c'.DeliverInv := by
  have hsame := hf.exist.1
  obtain ⟨b, c2, hst, rfl, -⟩ := hf.frame (P := fun _ => False) hi
  rcases h with h | h
  · refine .inl fun t ht hm he => ?_
    have hx := (hsame t).tex
    simp only [TCB.tex, Prod.mk.injEq] at hx
    refine hx.2.1.trans (h t (hst.runtsk.symm.trans ht) ((hst.disdsp hc).2.symm.trans hm) (hx.1.symm.trans he))
  · refine .inr ⟨(senseContext_eq hst.nest).trans hc, ?_⟩
    change (_ || _) = true
    rw [hst.reqflg, h.2]
    rfl

/-- Every step delivers what it makes deliverable. -/
theorem Core.DeliverInv.step {k k' : Kernel} (h : k.core.DeliverInv) (hr : RunInv cfg k.core)
    (hs : Step cfg k e k') : k'.core.DeliverInv := by
  unfold Step Kernel.step at hs
  cases e with
  | call call =>
    simp only at hs
    split at hs
    · rename_i hc
      cases hs
      rw [settle_core]
      exact (h.exec (hr.callPre hc.1) call).settle
    · cases hs
  | texReturn =>
    simp only at hs
    split at hs
    · cases hs
    · rename_i t ht
      split at hs
      · cases hs
      · cases hs
        exact .inl (delivered_texReturn ht)
  | intExit =>
    simp only at hs
    split at hs
    · cases hs
    · cases hs
      exact delivered_intExit h
  | sigFire =>
    simp only at hs
    split at hs
    · rename_i hc
      cases hs
      have hsense : k.core.senseContext = true := bne_iff_ne.2 (Nat.ne_of_gt (hr.sigtim _ hc.1))
      exact h.sigFire hr.inv hsense (hr.inv.fire hc.2)
    · cases hs
  | writeMsg a m =>
    cases hs
    exact h
  | intEnter =>
    simp only at hs
    split at hs
    · cases hs
    · cases hs
      exact h.imp id fun hr => ⟨bne_iff_ne.2 (Nat.succ_ne_zero _), hr.2⟩
  | sigBegin =>
    simp only at hs
    split at hs
    · cases hs
      exact h
    · cases hs
  | sigEnd =>
    simp only at hs
    split at hs
    · cases hs
      exact h
    · cases hs

end

end AspKernel
