import AspKernel.Reach
import AspKernel.RestInv

/-! Tasks without an exception routine. -/

namespace AspKernel
set_option autoImplicit true

/-- What the functions of exception handling do to a task; the routine is removed only where `C`. -/
inductive TexOp (C : TCB → Prop) (p : TCB) : TCB → Prop
  | define (hr : p.tinib.texrtn = false) : TexOp C p { p with tinib := { p.tinib with texrtn := true } }
  | cancel (hC : C p) (hr : p.tinib.texrtn = true) :
    TexOp C p { p with tinib := { p.tinib with texrtn := false }, enatex := false, texptn := 0 }
  | raise (hr : p.tinib.texrtn = true) (rasptn : TEXPTN) :
    TexOp C p { p with texptn := p.texptn ||| rasptn, texraised := p.texraised ||| rasptn }
  | enatex (hr : p.tinib.texrtn = true) (b : Bool) : TexOp C p { p with enatex := b }
  | enter (hn : p.texptn ≠ 0) (disdsp : Bool) : TexOp C p { p with
    enatex := false, texptn := 0, texstk := disdsp :: p.texstk, texpassed := p.texpassed ||| p.texptn }
  | leave (hd : p.tstat ≠ .DORMANT) (hs : p.texstk ≠ []) : TexOp C p { p with enatex := false, texloop := true }
  | again (hn : p.texptn ≠ 0) :
    TexOp C p { p with texptn := 0, texloop := false, texpassed := p.texpassed ||| p.texptn }
  | done (hn : p.texptn = 0) (hd : p.tstat ≠ .DORMANT) (hl : p.texloop = true) :
    TexOp C p { p with enatex := true, texstk := p.texstk.tail, texloop := false }

/-- A change of a task within a step. -/
inductive TaskOp (C : TCB → Prop) (p p' : TCB) : Prop
  | life {S : Scope} {P : WQueue → Prop} (hX : ¬S.tex) (h : TaskStep S P u run b p p')
  | same (h : p.Same p')
  | tex (h : TexOp C p p')

abbrev TaskOps (C : TCB → Prop) : TCB → TCB → Prop := Relation.ReflTransGen (TaskOp C)

/-- `def_tex` removes the routine of the task `u`. -/
def Core.cancels (cfg : Cfg) (c : Core) (u : Nat) : Event → Prop
  | .call (.defTex tskid texatr texrtn) =>
    texrtn = 0 ∧ u = c.tcbSelf tskid ∧ c.ctxUnl .tsk = true ∧
      (cfg.tsk.valid tskid || tskid == TSK_SELF) = true ∧ (!texatr.has (~~~TA_NULL)) = true ∧
      c.noTsk u = false ∧ cfg.tsk.dynamic u = true ∧ (c.tcb u).tinib.texrtn = true
  | _ => False

section
variable {cfg : Cfg} {C : TCB → Prop} {c c' : Core} {u : Nat}

theorem TaskOps.setTcb (h : u = t → TexOp C (c.tcb t) p) : TaskOps C (c.tcb u) ((c.setTcb t p).tcb u) := by
  by_cases hu : u = t
  · rw [hu, Core.setTcb_self]
    exact .single (.tex (h hu))
  · rw [Core.setTcb_of_ne _ _ hu]

theorem TaskOps.check {body : Res Core}
    (h : (∀ p ∈ l, p.1 = true) → TaskOps C (c.tcb u) (body.st.tcb u)) :
    TaskOps C (c.tcb u) ((AspKernel.check l c body).st.tcb u) := by
  rcases check_cases l c body with ⟨p, _, _, he⟩ | ⟨hl, he⟩
  · rw [he]
    exact .refl
  · rw [he]
    exact h hl

theorem texOps_callTexrtn (hn : (c.tcb t).texptn ≠ 0) : TaskOps C (c.tcb u) ((c.callTexrtn t).tcb u) :=
  .setTcb fun _ => .enter hn c.disdsp

theorem texOps_calltex (c : Core) (t u : Nat) : TaskOps C (c.tcb u) ((c.calltex t).tcb u) := by
  unfold Core.calltex
  simp only
  split
  · rename_i h
    simp only [Bool.and_eq_true, bne_iff_ne] at h
    exact texOps_callTexrtn h.1.2
  · exact .refl

theorem texOps_texLoop (hd : (c.tcb t).tstat ≠ .DORMANT) (hl : (c.tcb t).texloop = true) :
    TaskOps C (c.tcb u) ((c.texLoop t).tcb u) := by
  unfold Core.texLoop
  simp only
  split
  · rename_i h
    exact .setTcb fun _ => .again (bne_iff_ne.1 h)
  · rename_i h
    have hn : (c.tcb t).texptn = 0 := by simpa using h
    exact .setTcb fun _ => .done hn hd hl

theorem texOps_dispatcher (h : ∀ t, c.sched.pSchedtsk = some t → (c.tcb t).tstat ≠ .DORMANT) (u : Nat) :
    TaskOps C (c.tcb u) (c.dispatcher.tcb u) := by
  unfold Core.dispatcher
  simp only
  split
  · exact .refl
  · rename_i t ht
    split
    · rename_i hl
      exact texOps_texLoop (c := { c with pRuntsk := c.sched.pSchedtsk }) (h t ht) hl
    · exact texOps_calltex { c with pRuntsk := c.sched.pSchedtsk } t u

/-- The removal of the routine is the only change that is made only where it is allowed. -/
theorem texOps_defTex (hC : c.cancels cfg u (.call (.defTex tskid texatr texrtn)) → C (c.tcb u)) :
    TaskOps C (c.tcb u) ((c.defTex cfg tskid texatr texrtn).st.tcb u) := by
  refine .check fun hl => ?_
  simp only [List.mem_cons, List.not_mem_nil, or_false, forall_eq_or_imp, forall_eq] at hl
  simp only
  split
  · exact .refl
  · rename_i hno
    split
    · exact .refl
    · rename_i hdyn
      split
      · split
        · exact .refl
        · rename_i hr
          exact .setTcb fun _ => .define (Bool.eq_false_iff.2 hr)
      · rename_i hz
        split
        · rename_i hr
          refine .setTcb fun hu => ?_
          subst hu
          exact .cancel (hC ⟨not_not.1 hz, rfl, hl.1, hl.2.1, hl.2.2.1, Bool.eq_false_iff.2 hno,
            Bool.not_eq_false _ ▸ hdyn, hr⟩) hr
        · exact .refl

theorem texptn_raised {p : TCB} {rasptn : TEXPTN} (h : (rasptn != 0) = true) : p.texptn ||| rasptn ≠ 0 := by
  intro he
  exact bne_iff_ne.1 h (BitVec.or_eq_zero_iff.1 he).2

theorem texOps_rasTex : TaskOps C (c.tcb u) ((c.rasTex cfg tskid rasptn).st.tcb u) := by
  refine .check fun hl => ?_
  simp only [List.mem_cons, List.not_mem_nil, or_false, forall_eq_or_imp, forall_eq] at hl
  simp only
  split
  · exact .refl
  · split
    · exact .refl
    · rename_i hr
      obtain ⟨hd, hr⟩ := not_or.1 hr
      have hraise := TaskOps.setTcb (C := C) (u := u) fun _ =>
        .raise (p := c.tcb (c.tcbSelf tskid)) (Bool.not_eq_false _ ▸ hr) rasptn
      split
      · refine hraise.trans (texOps_callTexrtn ?_)
        rw [Core.setTcb_self]
        exact texptn_raised hl.2.2
      · exact hraise

theorem texOps_irasTex : TaskOps C (c.tcb u) ((c.irasTex cfg tskid rasptn).st.tcb u) := by
  refine .check fun hl => ?_
  simp only
  split
  · exact .refl
  · split
    · exact .refl
    · rename_i hr
      obtain ⟨hd, hr⟩ := not_or.1 hr
      exact .setTcb fun _ => .raise (Bool.not_eq_false _ ▸ hr) rasptn

theorem texOps_disTex : TaskOps C (c.tcb u) (c.disTex.st.tcb u) := by
  refine .check fun hl => ?_
  simp only
  split
  · exact .refl
  · rename_i hr
    exact .setTcb fun _ => .enatex (Bool.not_eq_false _ ▸ hr) false

theorem texOps_enaTex : TaskOps C (c.tcb u) (c.enaTex.st.tcb u) := by
  refine .check fun hl => ?_
  simp only
  split
  · exact .refl
  · rename_i hr
    have hena := TaskOps.setTcb (C := C) (u := u) fun _ =>
      .enatex (p := c.tcb c.runtsk) (Bool.not_eq_false _ ▸ hr) true
    exact hena.trans (texOps_calltex _ _ _)

theorem texOps_chgIpm : TaskOps C (c.tcb u) ((c.chgIpm intpri valid).st.tcb u) := by
  refine .check fun hl => ?_
  simp only
  split
  · split
    · exact .refl
    · exact texOps_calltex { c with ipmflg := true, dspflg := c.dspflg || !c.disdsp } _ _
  · exact .refl

/-- A service call that is about exception handling. -/
theorem texOps_exec {k : Kernel} (ht : call.tex)
    (hC : k.core.cancels cfg u (.call call) → C (k.core.tcb u)) :
    TaskOps C (k.core.tcb u) (((exec cfg k call).map Kernel.core).st.tcb u) := by
  cases call with
  | defTex tskid texatr texrtn => exact texOps_defTex hC
  | rasTex tskid rasptn => exact texOps_rasTex
  | irasTex tskid rasptn => exact texOps_irasTex
  | disTex => exact texOps_disTex
  | enaTex => exact texOps_enaTex
  | chgIpm intpri valid => exact texOps_chgIpm
  | _ => exact absurd ht id

theorem Effect.coreInv (he : Effect cfg S P R c r) (h : CoreInv cfg noD c) : CoreInv cfg noD r.st := by
  cases he with
  | task hm => exact hm.coreInv h
  | int hm => exact (hm.coreInv h).request _

theorem CoreInv.top_ne_dormant (h : CoreInv cfg noD c) (t : Nat) (ht : c.sched.pSchedtsk = some t) :
    (c.tcb t).tstat ≠ .DORMANT := ne_dormant_of_runnable (h.top_runnable ht)

theorem texOps_texReturn (h : RunInv cfg c) (hr : c.pRuntsk = some t) (hs : (c.tcb t).texstk ≠ []) (u : Nat) :
    TaskOps C (c.tcb u) ((c.texReturn t).tcb u) := by
  have hd : (c.tcb t).tstat ≠ .DORMANT := ne_dormant_of_runnable (h.running t hr)
  let c1 := c.setFlags true ((c.tcb t).texstk.headD false) (!(c.tcb t).texstk.headD false) false
  let p : TCB := { c.tcb t with enatex := false, texloop := true }
  have hleave : TaskOps C (c.tcb u) ((c1.setTcb t p).tcb u) :=
    TaskOps.setTcb (c := c1) fun _ => .leave hd hs
  have hp : (c1.setTcb t p).tcb t = p := Core.setTcb_self ..
  unfold Core.texReturn
  simp only
  split
  · refine hleave.trans (texOps_dispatcher (c := c1.setTcb t p) (fun v hv => ?_) u)
    by_cases hvt : v = t
    · rw [hvt, hp]
      exact hd
    · rw [Core.setTcb_of_ne _ _ hvt]
      exact h.inv.top_ne_dormant v hv
  · refine hleave.trans (texOps_texLoop (c := c1.setTcb t p) ?_ ?_)
    · rw [hp]
      exact hd
    · rw [hp]

theorem texOps_intExit (h : RunInv cfg c) (u : Nat) : TaskOps C (c.tcb u) (c.intExit.tcb u) := by
  unfold Core.intExit
  simp only
  have hdisp := texOps_dispatcher (C := C) (c := { c with
    intnest := c.intnest - 1, cpulock := false, reqflg := false }) h.inv.top_ne_dormant u
  split
  · split
    · exact hdisp
    · split
      · exact hdisp
      · exact texOps_calltex { c with intnest := c.intnest - 1, cpulock := false, reqflg := false } _ u
  · exact .refl

/-- What a step of the system does to a task. -/
theorem taskOps_step {k k' : Kernel} (h : RunInv cfg k.core) (hs : Step cfg k e k')
    (hC : k.core.cancels cfg u e → C (k.core.tcb u)) : TaskOps C (k.core.tcb u) (k'.core.tcb u) := by
  unfold Step Kernel.step at hs
  cases e with
  | call call =>
    simp only at hs
    split at hs
    · rename_i hc
      cases hs
      have he := effect_exec (h.callPre hc.1) call
      have hcall : TaskOps C (k.core.tcb u) (((exec cfg k call).map Kernel.core).st.tcb u) := by
        by_cases ht : call.tex
        · exact texOps_exec ht hC
        · generalize (exec cfg k call).map Kernel.core = r at he ⊢
          cases he with
          | task hm hb hd =>
            exact hm.tasks h.inv (Q := TaskOps C (k.core.tcb u)) (fun _ _ _ hstep hp =>
              hp.tail (.life ht hstep)) .refl
          | int hm hb hd =>
            exact hm.tasks h.inv (Q := TaskOps C (k.core.tcb u)) (fun _ _ _ hstep hp =>
              hp.tail (.life ht hstep)) .refl
      rw [settle_core]
      split
      · exact hcall.trans (texOps_dispatcher (he.coreInv h.inv).top_ne_dormant u)
      · exact hcall
    · cases hs
  | texReturn =>
    simp only at hs
    split at hs
    · cases hs
    · rename_i t ht
      split at hs
      · cases hs
      · rename_i hn
        cases hs
        exact texOps_texReturn h ht (not_or.1 hn).2 u
  | intExit =>
    simp only at hs
    split at hs
    · cases hs
    · cases hs
      exact texOps_intExit h u
  | sigFire =>
    simp only at hs
    split at hs
    · rename_i hc
      cases hs
      exact .single (.same ((h.inv.fire hc.2).exist.1 u))
    · cases hs
  | writeMsg a m =>
    cases hs
    exact .refl
  | intEnter =>
    simp only at hs
    split at hs
    · cases hs
    · cases hs
      exact .refl
  | sigBegin =>
    simp only at hs
    split at hs
    · cases hs
      exact .refl
    · cases hs
  | sigEnd =>
    simp only at hs
    split at hs
    · cases hs
      exact .refl
    · cases hs

end

/-- The task is within a call of its exception routine. -/
def TCB.Inside (p : TCB) : Prop := p.tstat ≠ .DORMANT ∧ p.texstk ≠ []

/-- What holds of the exception handling of a task whose routine is removed only outside of it. -/
structure TCB.TexInv (p : TCB) : Prop where
  without : p.tinib.texrtn = false → p.enatex = false ∧ p.texptn = 0 ∧
    (p.tstat = .DORMANT ∨ p.texstk = [] ∧ p.texloop = false)
  loop : p.tstat ≠ .DORMANT → p.texloop = true → p.texstk ≠ []

theorem TCB.TexInv.same {p p' : TCB} (h : p.TexInv) (hs : p.Same p') : p'.TexInv := by
  have hx := hs.tex
  simp only [TCB.tex, Prod.mk.injEq] at hx
  obtain ⟨h1, h2, h3, h4, -, -⟩ := hx
  constructor
  · intro hr
    rw [hs.tinib] at hr
    obtain ⟨he, hn, hst⟩ := h.without hr
    exact ⟨h1.trans he, h2.trans hn, hst.imp hs.dormant.2 fun hst => ⟨h3.trans hst.1, h4.trans hst.2⟩⟩
  · intro hd hl
    rw [h4] at hl
    rw [h3]
    exact h.loop (fun hp => hd (hs.dormant.2 hp)) hl

/-- A task whose exception handling is reset. -/
theorem TCB.TexInv.reset {p : TCB} (he : p.enatex = false) (hn : p.texptn = 0)
    (hst : p.tstat = .DORMANT ∨ p.texstk = [] ∧ p.texloop = false) : p.TexInv := by
  constructor
  · intro _
    exact ⟨he, hn, hst⟩
  · intro hd hl
    rw [(hst.resolve_left hd).2] at hl
    cases hl

theorem TCB.TexInv.life {S : Scope} {P : WQueue → Prop} (h : p.TexInv) (hX : ¬S.tex)
    (hs : TaskStep S P u run b p p') : p'.TexInv := by
  cases hs with
  | keep hs _ => exact h.same hs
  | tex hX' => exact absurd hX' hX
  | start hO hd hd' hi hx =>
    simp only [TCB.tex, Prod.mk.injEq] at hx
    obtain ⟨h1, h2, h3, h4, -, -⟩ := hx
    constructor
    · intro hr
      rw [hi] at hr
      obtain ⟨he, hn, -⟩ := h.without hr
      exact ⟨h1.trans he, h2.trans hn, .inr ⟨h3, h4⟩⟩
    · intro _ hl
      rw [h4] at hl
      cases hl
  | stop hO hd hd' hi hx =>
    simp only [TCB.tex, TCB.stopped, Prod.mk.injEq] at hx
    exact .reset hx.1 hx.2.1 (.inl hd')
  | restart hO hd hd' hi hx =>
    simp only [TCB.tex, Prod.mk.injEq] at hx
    exact .reset hx.1 hx.2.1 (.inr ⟨hx.2.2.1, hx.2.2.2.1⟩)
  | create hO hK hd hd' hr hx =>
    simp only [TCB.tex, TCB.stopped, Prod.mk.injEq] at hx
    exact .reset hx.1 hx.2.1 (.inl hd')
  | delete hO hK hd hd' hi hx =>
    simp only [TCB.tex, Prod.mk.injEq] at hx
    constructor
    · intro hr
      rw [hi] at hr
      obtain ⟨he, hn, -⟩ := h.without hr
      exact ⟨hx.1.trans he, hx.2.1.trans hn, .inl hd'⟩
    · intro hne
      exact absurd hd' hne

theorem TCB.TexInv.op {C : TCB → Prop} (h : p.TexInv) (ho : TexOp C p p') (hC : C p → ¬p.Inside) :
    p'.TexInv := by
  -- the functions that need a routine leave nothing to show for a task without one
  have hset (hr : p.tinib.texrtn = true) : ¬p.tinib.texrtn = false := fun h => by
    rw [h] at hr
    cases hr
  have hptn (hn : p.texptn ≠ 0) (hr : p.tinib.texrtn = false) : False := hn (h.without hr).2.1
  cases ho with
  | define hr =>
    constructor
    · intro hr'
      cases hr'
    · exact h.loop
  | cancel hc hr =>
    constructor
    · intro _
      refine ⟨rfl, rfl, ?_⟩
      by_cases hd : p.tstat = .DORMANT
      · exact .inl hd
      · right
        have hs : p.texstk = [] := by
          by_contra hs
          exact hC hc ⟨hd, hs⟩
        refine ⟨hs, ?_⟩
        by_contra hl
        exact h.loop hd (Bool.not_eq_false _ ▸ hl) hs
    · exact h.loop
  | raise hr ptn => exact ⟨fun hr' => absurd hr' (hset hr), h.loop⟩
  | enatex hr b => exact ⟨fun hr' => absurd hr' (hset hr), h.loop⟩
  | enter hn d =>
    constructor
    · intro hr
      exact absurd hr fun hr => hptn hn hr
    · intro _ _
      exact List.cons_ne_nil _ _
  | leave hd hs =>
    constructor
    · intro hr
      rcases (h.without hr).2.2 with hd' | ⟨hs', -⟩
      · exact absurd hd' hd
      · exact absurd hs' hs
    · intro _ _
      exact hs
  | again hn =>
    constructor
    · intro hr
      exact absurd hr fun hr => hptn hn hr
    · intro _ hl
      cases hl
  | done hn hd hl =>
    constructor
    · intro hr
      rcases (h.without hr).2.2 with hd' | ⟨-, hl'⟩
      · exact absurd hd' hd
      · rw [hl'] at hl
        cases hl
    · intro _ hl'
      cases hl'

theorem TCB.TexInv.ops {C : TCB → Prop} (h : p.TexInv) (ho : TaskOps C p p') (hC : ∀ p, C p → ¬p.Inside) :
    p'.TexInv := by
  induction ho with
  | refl => exact h
  | tail _ hop ih =>
    cases hop with
    | life hX hs => exact ih.life hX hs
    | same hs => exact ih.same hs
    | tex ho => exact ih.op ho (hC _)

/-- No routine is removed of a task that is within it. -/
def OutsideStep (cfg : Cfg) (k : Kernel) (e : Event) (k' : Kernel) : Prop :=
  Step cfg k e k' ∧ ∀ u, k.core.cancels cfg u e → ¬(k.core.tcb u).Inside

theorem texOps_boot (cfg : Cfg) (C : TCB → Prop) (t : Nat) :
    TaskOps C ((Core.initializeAll cfg).tcb t) ((boot cfg).core.tcb t) :=
  texOps_dispatcher (BootInv.all cfg).inv.top_ne_dormant t

theorem texInv_boot (cfg : Cfg) (t : Nat) : ((boot cfg).core.tcb t).TexInv := by
  have hx := ((BootInv.all cfg).task t).tex
  simp only [TCB.tex, Prod.mk.injEq] at hx
  have h0 : ((Core.initializeAll cfg).tcb t).TexInv := .reset hx.1 hx.2.1 (.inr ⟨hx.2.2.1, hx.2.2.2.1⟩)
  exact h0.ops (texOps_boot cfg (fun _ => False) t) fun _ => False.elim

theorem check_ok {c : Core} {body : Res Core} (hl : E_OK ∉ l.map Prod.snd)
    (he : (AspKernel.check l c body).ercd = some E_OK) : AspKernel.check l c body = body := by
  rcases check_cases l c body with ⟨p, hp, _, hc⟩ | ⟨_, hc⟩
  · rw [hc] at he
    exact absurd (List.mem_map.2 ⟨p, hp, Option.some.inj he⟩) hl
  · exact hc

/-- Where a routine is defined the exception handling is disabled, and nothing is pending. -/
theorem defTex_disabled {c : Core} (h : ∀ t, (c.tcb t).TexInv) (hr : texrtn ≠ 0)
    (he : (c.defTex cfg tskid texatr texrtn).ercd = some E_OK) :
    (c.defTex cfg tskid texatr texrtn).disp = false ∧
    let p := (c.defTex cfg tskid texatr texrtn).st.tcb (c.tcbSelf tskid)
    p.tinib.texrtn = true ∧ p.enatex = false ∧ p.texptn = 0 := by
  unfold Core.defTex at he ⊢
  have hc := check_ok (by
    simp only [List.map_cons, List.map_nil]
    decide) he
  rw [hc] at he ⊢
  simp only at he ⊢
  split at he
  · cases he
  · split at he
    · cases he
    · rename_i hno hdyn
      rw [if_neg hno, if_neg hdyn]
      rw [if_pos hr]
      split at he
      · cases he
      · rename_i hold
        obtain ⟨hen, hn, -⟩ := (h (c.tcbSelf tskid)).without (Bool.eq_false_iff.2 hold)
        rw [if_neg hold]
        refine ⟨rfl, ?_⟩
        simp only [Res.ok, Core.setTcb_self]
        exact ⟨trivial, hen, hn⟩

/-- As long as no routine is removed of a task that is within it, exception handling is disabled for
the tasks without one, it is disabled when a routine is defined, and no routine is called that is not
there: a call puts the task within its routine. -/
theorem reachable_without (h : Trans.Run (OutsideStep cfg) (boot cfg) es k) :
    (∀ t, (k.core.tcb t).tinib.texrtn = false → (k.core.tcb t).enatex = false ∧
      (k.core.tcb t).texptn = 0 ∧ ¬(k.core.tcb t).Inside) ∧
    ∀ tskid texatr texrtn k', Step cfg k (.call (.defTex tskid texatr texrtn)) k' → texrtn ≠ 0 →
      (exec cfg k (.defTex tskid texatr texrtn)).ercd = some E_OK →
      let p := k'.core.tcb (k.core.tcbSelf tskid)
      p.tinib.texrtn = true ∧ p.enatex = false ∧ p.texptn = 0 := by
  have hinv := h.along (I := fun k => RunInv cfg k.core)
    (J := fun k => ∀ t, (k.core.tcb t).TexInv) (fun _ _ _ => And.left) (fun _ _ _ => RunInv.step)
    (fun k e k' hi hj hs t => (hj t).ops (taskOps_step (C := fun p => k.core.cancels cfg t e ∧ p = k.core.tcb t)
      hi hs.1 fun hc => ⟨hc, rfl⟩) fun p hp => hp.2 ▸ hs.2 t hp.1) (.boot cfg) (texInv_boot cfg)
  constructor
  · intro t hr
    obtain ⟨he, hn, hst⟩ := (hinv.2 t).without hr
    refine ⟨he, hn, fun hin => ?_⟩
    rcases hst with hd | ⟨hs, -⟩
    · exact hin.1 hd
    · exact hin.2 hs
  · intro tskid texatr texrtn k' hs hr he
    obtain ⟨hdisp, hd⟩ := defTex_disabled hinv.2 hr he
    obtain ⟨-, hk⟩ := Option.ite_none_right_eq_some.1 hs
    cases hk
    have hcore : (exec cfg k (.defTex tskid texatr texrtn)).settle.core =
        (k.core.defTex cfg tskid texatr texrtn).st := by
      rw [settle_core]
      exact if_neg (by
        intro hp
        exact Bool.false_ne_true (hdisp.symm.trans hp))
    rw [hcore]
    exact hd

/-- A system with tasks that are still to be created. -/
abbrev Cfg.newTsk : Cfg := { Cfg.small with tsk := ⟨3, 2, by decide⟩ }

/-- A task removes its routine after this has returned. -/
theorem reachable_without_removed : ∃ k : Kernel, (k.core.tcb 2).tinib.texrtn = false ∧
    (k.core.tcb 2).enatex = false ∧ (k.core.tcb 2).texptn = 0 ∧ ¬(k.core.tcb 2).Inside := by
  have hrun : (Kernel.steps .newTsk [.call (.acreTsk ⟨TA_ACT, 0x7000, 1, 0x100, 0x5000⟩ 0),
      .call (.defTex 0 TA_NULL 0x6000), .call .enaTex, .call (.rasTex 0 1), .texReturn]).any (fun k =>
        decide ((k.core.tcb (k.core.tcbSelf 0)).texstk = []) &&
          (k.step .newTsk (.call (.defTex 0 TA_NULL 0))).any fun k' => !(k'.core.tcb 2).tinib.texrtn) =
      true := by
    decide +kernel
  obtain ⟨k, hk, hb⟩ := (Option.any_eq_true _ _).1 hrun
  obtain ⟨hs, hb⟩ := Bool.and_eq_true_iff.1 hb
  obtain ⟨k', hk', hr⟩ := (Option.any_eq_true _ _).1 hb
  have hlast : OutsideStep .newTsk k (.call (.defTex 0 TA_NULL 0)) k' := by
    refine ⟨hk', fun u hu hin => hin.2 ?_⟩
    rw [hu.2.1]
    exact of_decide_eq_true hs
  have hfirst : Trans.Run (OutsideStep .newTsk) (boot .newTsk) _ k :=
    (Trans.Run.of_foldlM hk).restrict (P := fun e => ∀ c u, ¬Core.cancels .newTsk c u e)
      (fun t e u hP he => ⟨he, fun v hv => absurd hv (hP _ _)⟩) (by simp [Core.cancels])
  have hr : (k'.core.tcb 2).tinib.texrtn = false := by simpa using hr
  exact ⟨k', hr, (reachable_without (hfirst.snoc hlast)).1 2 hr⟩

/-- A task removes its routine from within: when the routine returns, exception handling is enabled. -/
theorem not_without : ¬∀ cfg k, Reachable cfg k → ∀ t, (k.core.tcb t).tinib.texrtn = false →
    (k.core.tcb t).enatex = false ∧ (k.core.tcb t).texptn = 0 := by
  intro h
  have hrun : (Kernel.steps .newTsk [.call (.acreTsk ⟨TA_ACT, 0x7000, 1, 0x100, 0x5000⟩ 0),
      .call (.defTex 0 TA_NULL 0x6000), .call .enaTex, .call (.rasTex 0 1), .call (.defTex 0 TA_NULL 0),
      .texReturn]).any (fun k => (k.core.tcb 2).enatex && !(k.core.tcb 2).tinib.texrtn) = true := by
    decide +kernel
  obtain ⟨k, hk, hb⟩ := (Option.any_eq_true _ _).1 hrun
  obtain ⟨he, hr⟩ := Bool.and_eq_true_iff.1 hb
  have hoff := (h _ k (reachable_of_steps hk) 2 (by simpa using hr)).1
  rw [he] at hoff
  cases hoff

end AspKernel
