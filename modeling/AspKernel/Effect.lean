import AspKernel.Move

namespace AspKernel
set_option autoImplicit true

/-- What a service call does: changes, after which it calls the dispatcher where a dispatch is
due, or, in an interrupt handler, requests it. -/
inductive Effect (cfg : Cfg) (S : Scope) (P : WQueue → Prop) (R : Nat → Prop)
    (c : Core) : Res Core → Prop
  | task (h : Moves cfg S P R c b c') (hb : b = true → disp = true)
    (hc : disp = true → c.senseContext = false) : Effect cfg S P R c ⟨c', ercd, disp, out⟩
  | int (h : Moves cfg S P R c b c') (hb : b = true → dspreq = true) (hc : c.senseContext = true) :
    Effect cfg S P R c ⟨c'.request dspreq, ercd, false, out⟩

/-- The states in which a service call is made. -/
structure CallPre (cfg : Cfg) (c : Core) : Prop where
  inv : CoreInv cfg noD c
  flags : c.FlagsOk
  running : c.Running
  settled : c.senseContext = false → c.Settled
  runtsk : c.senseContext = false → c.pRuntsk = some c.runtsk

section
variable {cfg : Cfg} {S : Scope} {P : WQueue → Prop} {R : Nat → Prop} {c c' c'' : Core}

theorem Effect.err (c : Core) (e : ER) : Effect cfg S P R c (.err c e) := .task .refl id nofun

theorem Effect.check {body : Res Core} (h : (∀ p ∈ l, p.1 = true) → Effect cfg S P R c body) :
    Effect cfg S P R c (AspKernel.check l c body) := by
  rcases check_cases l c body with ⟨p, _, _, he⟩ | ⟨hl, he⟩
  · rw [he]
    exact .err c p.2
  · rw [he]
    exact h hl

theorem ctxUnl_tsk (h : c.ctxUnl .tsk = true) : c.senseContext = false :=
  Bool.not_eq_true' _ ▸ (Bool.and_eq_true_iff.1 h).1

theorem ctxUnl_int (h : c.ctxUnl .int = true) : c.senseContext = true := (Bool.and_eq_true_iff.1 h).1

/-- A call that ends with a dispatch or its request where one is due. -/
theorem Effect.ok (hc : c.ctxUnl ctx = true) (h : Moves cfg S P R c b c') (out : Out) :
    Effect cfg S P R c (.ok ctx c' b out) := by
  cases ctx with
  | tsk => exact .task h id fun _ => ctxUnl_tsk hc
  | int => exact .int h id (ctxUnl_int hc)

theorem Effect.ok_tsk (h : Moves cfg S P R c b c') (hc : b = true → c.senseContext = false)
    (out : Out) : Effect cfg S P R c (.ok .tsk c' b out) := .task h id hc

theorem Effect.value (h : Moves cfg S P R c false c') (v : Int) :
    Effect cfg S P R c (.value c' v) := .task h (by exact nofun) nofun

theorem Effect.wait (h : Moves cfg S P R c b c') (hc : c.senseContext = false) :
    Effect cfg S P R c (.wait c') := .task h (fun _ => rfl) fun _ => hc

theorem canDispatch_sense (h : c.canDispatch = true) : c.senseContext = false ∧ c.dspflg = true := by
  unfold Core.canDispatch at h
  rw [Bool.and_eq_true_iff, Bool.and_eq_true_iff, Bool.not_eq_true'] at h
  exact ⟨h.1.1, h.2⟩

/-- The running task. -/
theorem CallPre.runtsk_runnable (h : CallPre cfg c) (hc : c.senseContext = false) :
    (c.tcb c.runtsk).tstat.runnable = true := h.running _ (h.runtsk hc)

theorem CallPre.lt (h : CallPre cfg c) (hs : (c.tcb t).tstat ≠ .DORMANT) : t < cfg.tsk.tmax :=
  (h.inv.task t).range hs

theorem ne_dormant_of_runnable {s : TStat} (h : s.runnable = true) : s ≠ .DORMANT := fun he => by
  rw [he] at h
  cases h

theorem CallPre.tcbSelf_lt (h : CallPre cfg c) (hctx : c.ctxUnl ctx = true)
    (hid : (cfg.tsk.valid tskid || ctx == .tsk && tskid == TSK_SELF) = true) :
    c.tcbSelf tskid < cfg.tsk.tmax := by
  unfold Core.tcbSelf
  rw [Bool.or_eq_true_iff] at hid
  split
  · rename_i hs
    rcases hid with hid | hid
    · rw [hs] at hid
      have hle : (1 : Int) ≤ 0 ∧ _ := of_decide_eq_true hid
      omega
    · rw [Bool.and_eq_true_iff] at hid
      have he : ctx = .tsk := by
        have := hid.1
        cases ctx
        · rfl
        · cases this
      subst he
      exact h.lt (ne_dormant_of_runnable (h.runtsk_runnable (ctxUnl_tsk hctx)))
  · rename_i hs
    rcases hid with hid | hid
    · exact (ObjNum.valid_index hid).1
    · exact absurd (beq_iff_eq.1 (Bool.and_eq_true_iff.1 hid).2) hs

theorem CoreInv.notFree_of_noTsk (h : CoreInv cfg D c) (hn : c.noTsk t = false) :
    t ∉ c.freeTcb := fun hm => by
  unfold Core.noTsk at hn
  rw [(h.free.tcb t hm).2.2.1, beq_self_eq_true] at hn
  cases hn

theorem Move.touch_self (hO : S.own t) (hs : p.tstat = (c.tcb t).tstat) (hp : p.priority = (c.tcb t).priority)
    (hb : p.bpriority = (c.tcb t).bpriority) (hw : p.winfo = (c.tcb t).winfo)
    (hi : p.tinib = (c.tcb t).tinib) (hx : p.tex = (c.tcb t).tex)
    (hq : (c.tcb t).tstat = .DORMANT → p.actque = false ∧ p.wupque = (c.tcb t).wupque) :
    Move cfg S P R c false (c.setTcb t p) :=
  .touch hO ⟨hs, hp, hb, hw, by rw [hi]⟩ hi hx hq

theorem Move.tex_self (hX : S.tex) (hs : p.tstat = (c.tcb t).tstat)
    (hp : p.priority = (c.tcb t).priority) (hb : p.bpriority = (c.tcb t).bpriority)
    (hw : p.winfo = (c.tcb t).winfo)
    (hi : p.tinib = { (c.tcb t).tinib with texrtn := p.tinib.texrtn })
    (hq : p.queued = (c.tcb t).queued) : Move cfg S P R c false (c.setTcb t p) :=
  .tex hX ⟨hs, hp, hb, hw, by rw [hi]⟩ hi hq

/-- An attribute that the check of a call lets pass is not that of the objects that do not
exist. -/
theorem ATR.ne_noexs {atr mask : ATR} (extra : ATR) (h : (!atr.has (~~~mask)) = true)
    (hm : mask ||| extra ≠ TA_NOEXS) : atr ||| extra ≠ TA_NOEXS := by
  have h0 : atr &&& ~~~mask = 0 := by
    simpa only [ATR.has, Bool.not_eq_true', bne_eq_false_iff_eq] using h
  intro he
  refine hm (BitVec.eq_of_getLsbD_eq fun i hi => ?_)
  have h1 : (atr &&& ~~~mask).getLsbD i = false := by rw [h0]; exact BitVec.getLsbD_zero
  have h2 : (atr ||| extra).getLsbD i = true := by
    rw [he]
    exact (BitVec.getLsbD_allOnes).trans (decide_eq_true hi)
  rw [show TA_NOEXS.getLsbD i = true from (BitVec.getLsbD_allOnes).trans (decide_eq_true hi)]
  simp only [BitVec.getLsbD_and, BitVec.getLsbD_not, BitVec.getLsbD_or, hi, decide_true,
    Bool.true_and] at h1 h2 ⊢
  cases ha : atr.getLsbD i
  · rw [ha, Bool.false_or] at h2
    rw [h2, Bool.or_true]
  · rw [ha, Bool.true_and, Bool.not_eq_false'] at h1
    rw [h1, Bool.true_or]

theorem ATR.ne_noexs_ite {atr mask : ATR} (extra : ATR) {b : Prop} [Decidable b]
    (h : (!atr.has (~~~mask)) = true) (hm : mask ||| extra ≠ TA_NOEXS) (hm' : mask ≠ TA_NOEXS) :
    (if b then atr ||| extra else atr) ≠ TA_NOEXS := by
  split
  · exact ne_noexs extra h hm
  · have h0 := ne_noexs 0#32 h (by rwa [BitVec.or_zero])
    rwa [BitVec.or_zero] at h0

/-- The memory that a call takes and gives back. -/
theorem Moves.malloc (hM : S.mem) (c : Core) (b : Prop) [Decidable b] (size : BitVec 32)
    (mem : Addr) : Moves cfg S P R c false (if b then c.kernelMalloc size mem else c) := by
  unfold Core.kernelMalloc
  split
  · split
    · exact .refl
    · exact .one (.mem hM _ _)
  · exact .refl

theorem Moves.free (hM : S.mem) (c : Core) (b : Prop) [Decidable b] (p : Addr) :
    Moves cfg S P R c false (if b then c.kernelFree p else c) := by
  split
  · exact .one (.mem hM _ _)
  · exact .refl

theorem malloc_eq (c : Core) (b : Prop) [Decidable b] (size : BitVec 32) (mem : Addr) :
    ∃ l, (if b then c.kernelMalloc size mem else c) = { c with areas := l } := by
  unfold Core.kernelMalloc
  split
  · split
    · exact ⟨_, rfl⟩
    · exact ⟨_, rfl⟩
  · exact ⟨_, rfl⟩

theorem free_eq (c : Core) (b : Prop) [Decidable b] (p : Addr) :
    ∃ l ok, (if b then c.kernelFree p else c) = { c with areas := l, freeOk := ok } := by
  split
  · exact ⟨_, _, rfl⟩
  · exact ⟨_, _, rfl⟩

theorem takeTcb_malloc (h : c.takeTcb = some (t, c')) (b : Prop) [Decidable b]
    (size : BitVec 32) (mem : Addr) : (if b then c.kernelMalloc size mem else c).takeTcb =
      some (t, if b then c'.kernelMalloc size mem else c') := by
  obtain ⟨l, hl, hc⟩ := takeTcb_eq h
  unfold Core.kernelMalloc
  split
  · split
    · exact h
    · rw [hc]
      unfold Core.takeTcb
      simp only [hl]
  · exact h

theorem effect_actTsk (h : CallPre cfg c) (ctx : Ctx) (tskid : ID) (hO : S.own (c.tcbSelf tskid)) :
    Effect cfg S P R c (c.actTskWith cfg ctx tskid) := by
  refine .check fun hl => ?_
  simp only [List.mem_cons, List.not_mem_nil, or_false, forall_eq_or_imp, forall_eq] at hl
  simp only
  split
  · exact .err ..
  · rename_i hno
    split
    · rename_i hs
      exact .ok hl.1 (.one (.activate hO (h.inv.notFree_of_noTsk (Bool.eq_false_iff.2 hno))
        (h.tcbSelf_lt hl.1 hl.2) (isDormant_iff.1 hs))) _
    · rename_i hs
      split
      · exact .err ..
      · refine .ok hl.1 (.one ?_) _
        exact .touch_self hO rfl rfl rfl rfl rfl rfl fun he => absurd (isDormant_iff.2 he) hs

theorem effect_acreTsk (h : CallPre cfg c) (pk : T_CTSK) (mem : Addr) (hK : S.kinds .tsk)
    (hM : S.mem) (hO : ∀ t, c.freeTcb.head? = some t → S.own t) : Effect cfg S P R c (c.acreTsk cfg pk mem) := by
  refine .check fun hl => ?_
  simp only [List.mem_cons, List.not_mem_nil, or_false, forall_eq_or_imp, forall_eq] at hl
  have hc := ctxUnl_tsk hl.1
  split
  · exact .err ..
  · rename_i t c' ht
    simp only
    have ha := ATR.ne_noexs_ite TA_MEMALLOC (b := pk.stk = 0) hl.2.1 (by decide)
      (by decide)
    generalize (if pk.stk = 0 then pk.tskatr ||| TA_MEMALLOC else pk.tskatr) = tskatr at ha ⊢
    generalize (if pk.stk = 0 then cfg.target.roundStk pk.stksz else pk.stksz) = stksz
    generalize (if pk.stk = 0 then mem else pk.stk) = stk
    split
    · exact .err ..
    · have hi : intPriority pk.itskpri < TNUM_TPRI := intPriority_lt hl.2.2.2.2.1
      have ht0 := ht
      have ht := takeTcb_malloc ht (pk.stk = 0) stksz mem
      have hmal : Moves cfg S P R c false _ := Moves.malloc hM c (pk.stk = 0) stksz mem
      have hinv := hmal.coreInv h.inv
      have hO : S.own t := by
        obtain ⟨l, hl, _⟩ := takeTcb_eq ht0
        exact hO t (by rw [hl, List.head?_cons])
      let tinib : TINIB := ⟨tskatr, intPriority pk.itskpri, false, stksz, stk⟩
      have hipri : tinib.ipriority < TNUM_TPRI := hi
      have hm := hmal.step (.newTsk hO ht hipri ha rfl hK)
      obtain ⟨_, hlt, hnf, _, _⟩ := hinv.newTsk ht hipri
      split
      · have ha := hm.step (.activate hO hnf hlt (congrArg TCB.tstat (Core.setTcb_self ..)))
        rw [Bool.false_or, Bool.false_or] at ha
        exact .task ha id fun _ => hc
      · exact .task hm id fun _ => hc

theorem effect_delTsk (c : Core) (tskid : ID) (hK : S.kinds .tsk) (hM : S.mem)
    (hO : S.own (index tskid)) :
    Effect cfg S P R c (c.delTsk cfg tskid) := by
  refine .check fun hl => ?_
  simp only [List.mem_cons, List.not_mem_nil, or_false, forall_eq_or_imp, forall_eq] at hl
  simp only
  split
  · exact .err ..
  · rename_i hno
    split
    · rename_i hs
      have hfree : Moves cfg S P R c false _ := Moves.free hM c
        ((c.tcb (index tskid)).tinib.tskatr.has TA_MEMALLOC = true) (c.tcb (index tskid)).tinib.stk
      obtain ⟨l, ok, he⟩ := free_eq c
        ((c.tcb (index tskid)).tinib.tskatr.has TA_MEMALLOC = true) (c.tcb (index tskid)).tinib.stk
      rw [he] at hfree ⊢
      exact .ok_tsk (hfree.step (.delTsk hO (Bool.eq_false_iff.2 hno) (isDormant_iff.1 hs.2)
        (ObjNum.valid_index hl.2).1 hs.1 hK)) nofun _
    · exact .err ..

theorem effect_canAct (c : Core) (tskid : ID) (hO : S.own (c.tcbSelf tskid)) :
    Effect cfg S P R c (c.canAct cfg tskid) := by
  refine .check fun hl => ?_
  simp only
  split
  · exact .err ..
  · refine .value (.one ?_) _
    exact .touch_self hO rfl rfl rfl rfl rfl rfl fun _ => ⟨rfl, rfl⟩

theorem effect_extTsk (h : CallPre cfg c) (hP : ∀ m, P (.MTX, m)) (hI : S.ipm)
    (hO : S.own c.runtsk) (hT : S.ter) : Effect cfg S P R c c.extTsk := by
  refine .check fun hl => ?_
  simp only [List.mem_cons, List.not_mem_nil, or_false, forall_eq] at hl
  have hc : c.senseContext = false := by rwa [Bool.not_eq_true'] at hl
  have hr := h.runtsk_runnable hc
  have hf : Moves cfg S P R c true (c.setFlags true false true false) :=
    .one (.flags (.inl hc) (fun _ => rfl) nofun (.inr hI))
  have ht : Move cfg S P R (c.setFlags true false true false) true
      (((c.setFlags true false true false).unlink c.runtsk).terminate c.runtsk).1 :=
    .terminate hO (ne_dormant_of_runnable hr) hc (fun _ => rfl) (fun _ => rfl) hP hT
  have hu : (c.setFlags true false true false).unlink c.runtsk =
      ((c.setFlags true false true false).makeNonRunnable c.runtsk).1 := if_pos hr
  rw [hu] at ht
  exact .wait (hf.step ht) hc

theorem effect_terTsk (c : Core) (tskid : ID) (hP : ∀ m, P (.MTX, m)) (hO : S.own (index tskid))
    (hT : S.ter) : Effect cfg S P R c (c.terTsk cfg tskid) := by
  refine .check fun hl => ?_
  simp only [List.mem_cons, List.not_mem_nil, or_false, forall_eq_or_imp, forall_eq] at hl
  simp only
  split
  · exact .err ..
  · split
    · exact .err ..
    · rename_i hs
      have hc := ctxUnl_tsk hl.1
      have hne : c.pRuntsk ≠ some (index tskid) := by simpa only [bne_iff_ne] using hl.2.2
      exact .ok_tsk (.one (.terminate (t := index tskid) hO (fun he => hs (isDormant_iff.2 he)) hc
        (fun he => absurd he hne) id hP hT)) (fun _ => hc) _

theorem effect_chgPri (h : CallPre cfg c) (tskid : ID) (tskpri : PRI)
    (hR : R (c.tcbSelf tskid)) :
    Effect cfg S P R c (c.chgPri cfg tskid tskpri) := by
  refine .check fun hl => ?_
  simp only [List.mem_cons, List.not_mem_nil, or_false, forall_eq_or_imp, forall_eq] at hl
  have hb : (if tskpri = TPRI_INI then (c.tcb (c.tcbSelf tskid)).tinib.ipriority
      else intPriority tskpri) < TNUM_TPRI := by
    split
    · exact (h.inv.task _).ipriority
    · rename_i hi
      refine intPriority_lt ?_
      rcases Bool.or_eq_true_iff.1 hl.2.2 with hv | hv
      · exact hv
      · exact absurd (beq_iff_eq.1 hv) hi
  simp only
  generalize (if tskpri = TPRI_INI then (c.tcb (c.tcbSelf tskid)).tinib.ipriority
      else intPriority tskpri) = newbpri at hb ⊢
  split
  · exact .err ..
  · split
    · exact .err ..
    · rename_i hs
      split
      · exact .err ..
      · rename_i hi
        refine .ok_tsk (b := (c.setBpriority (c.tcbSelf tskid) newbpri).2)
          (.one (.setBpriority hR (fun he => hs (isDormant_iff.2 he)) hb fun hm => ?_))
          (fun _ => ctxUnl_tsk hl.1) _
        by_contra hck
        exact hi ⟨hm, Bool.eq_false_iff.2 hck⟩

theorem effect_getPri (c : Core) (tskid : ID) :
    Effect cfg S P R c (c.getPri cfg tskid) := by
  refine .check fun hl => ?_
  simp only
  split
  · exact .err ..
  · split
    · exact .err ..
    · exact .ok_tsk .refl nofun _

/-- The attribute of an object that exists. -/
theorem ne_noexs (h : c.noWobj q = false) : c.wobjatr q ≠ TA_NOEXS := fun he => by
  unfold Core.noWobj at h
  rw [he, beq_self_eq_true] at h
  cases h

/-- A wait that ends by itself only, or by its time-out. -/
theorem Moves.block_alone (h : CallPre cfg c) (hW : S.waits) (hc : c.senseContext = false)
    (hf : (TStat.WAITING f).waitWobj = false) (hd : f = .DLY → ev.isSome = true)
    (hcb : ∀ e ∈ ev, e.2 = if f = .DLY then .waitTmoutOk else .waitTmout)
    (ht : ∀ e ∈ ev, e.1 ≤ TMAX_RELTIM) (w : WInfo) :
    Moves cfg S P R c true (c.block c.runtsk f w ev none) :=
  .one (.block hW (h.runtsk hc) (h.runtsk_runnable hc) hc
    ⟨fun _ hr => (by cases hr), hf, hd, hcb, ht⟩ (fun _ hr => (by cases hr)) w
    fun _ _ he => (by cases he))

/-- A positive `TMO` is a relative time. -/
theorem tmo_le {tmout : TMO} (h : 0 < tmout.toInt) : tmout ≤ TMAX_RELTIM := by
  have hm : TMAX_RELTIM.toNat = 2 ^ 31 - 1 := rfl
  rw [BitVec.toInt_eq_toNat_cond] at h
  rw [BitVec.le_def]
  have hlt := tmout.isLt
  split at h <;> omega

theorem WaitMode.event_ok {m : WaitMode} :
    ∀ e ∈ m.event, e.2 = .waitTmout ∧ e.1 ≤ TMAX_RELTIM := by
  intro e he
  unfold event at he
  split at he
  · split at he
    · rename_i hp
      cases he
      exact ⟨rfl, tmo_le hp⟩
    · cases he
  · cases he

theorem WaitMode.event_callback {m : WaitMode} (e : TMO × CBack) (he : e ∈ m.event) :
    e.2 = .waitTmout := (event_ok e he).1

theorem WaitMode.event_time {m : WaitMode} (e : TMO × CBack) (he : e ∈ m.event) :
    e.1 ≤ TMAX_RELTIM := (event_ok e he).2

theorem effect_slpTsk (h : CallPre cfg c) (m : WaitMode) (hW : S.waits) (hO : S.own c.runtsk) :
    Effect cfg S P R c (c.slpTskWith m) := by
  refine .check fun hl => ?_
  simp only [List.mem_cons, List.not_mem_nil, or_false, forall_eq_or_imp, forall_eq] at hl
  have hc := (canDispatch_sense hl.1).1
  simp only
  split
  · refine .ok_tsk (b := false) (.one ?_) nofun _
    exact .touch_self hO rfl rfl rfl rfl rfl rfl fun he =>
      absurd he (ne_dormant_of_runnable (h.runtsk_runnable hc))
  · split
    · exact .err ..
    · rename_i hp
      have hb : Moves cfg S P R c true (c.block c.runtsk .SLP .local m.event none) :=
        .block_alone h hW hc rfl (fun he => by cases he) m.event_callback m.event_time .local
      split
      · rename_i tmout
        rw [Core.makeWaitTmout_block hl.2 (Bool.eq_false_iff.2 hp)]
        exact .wait hb hc
      · rename_i hm
        rw [Core.makeWait_block]
        have he : m.event = none := by
          unfold WaitMode.event
          split
          · rename_i tmout
            exact absurd rfl (hm tmout)
          · rfl
        rw [he] at hb
        exact .wait hb hc

theorem effect_wupTsk (c : Core) (ctx : Ctx) (tskid : ID) (hO : S.own (c.tcbSelf tskid)) :
    Effect cfg S P R c (c.wupTskWith cfg ctx tskid) := by
  refine .check fun hl => ?_
  simp only [List.mem_cons, List.not_mem_nil, or_false, forall_eq_or_imp, forall_eq] at hl
  simp only
  split
  · exact .err ..
  · split
    · exact .err ..
    · rename_i hd
      split
      · rename_i hs
        exact .ok hl.1 (.one (.wakeup hO hs)) _
      · split
        · exact .err ..
        · refine .ok hl.1 (.one ?_) _
          exact .touch_self hO rfl rfl rfl rfl rfl rfl fun he => absurd (isDormant_iff.2 he) hd

theorem effect_canWup (c : Core) (tskid : ID) (hO : S.own (c.tcbSelf tskid)) : Effect cfg S P R c (c.canWup cfg tskid) := by
  refine .check fun hl => ?_
  simp only
  split
  · exact .err ..
  · split
    · exact .err ..
    · rename_i hd
      refine .value (.one ?_) _
      exact .touch_self hO rfl rfl rfl rfl rfl rfl fun he => absurd (isDormant_iff.2 he) hd

theorem effect_relWai (c : Core) (ctx : Ctx) (tskid : ID) (hO : S.own (index tskid))
    (hL : S.rel) : Effect cfg S P R c (c.relWaiWith cfg ctx tskid) := by
  refine .check fun hl => ?_
  simp only [List.mem_cons, List.not_mem_nil, or_false, forall_eq_or_imp, forall_eq] at hl
  simp only
  split
  · exact .err ..
  · split
    · exact .err ..
    · rename_i hw
      exact .ok hl.1 (.one (.release hO (Bool.not_eq_false _ ▸ hw) hL)) _

theorem effect_susTsk (h : CallPre cfg c) (tskid : ID) (hO : S.own (c.tcbSelf tskid)) :
    Effect cfg S P R c (c.susTsk cfg tskid) := by
  refine .check fun hl => ?_
  simp only [List.mem_cons, List.not_mem_nil, or_false, forall_eq_or_imp, forall_eq] at hl
  have hc := ctxUnl_tsk hl.1
  simp only
  split
  · exact .err ..
  · rename_i hd
    split
    · exact .err ..
    · split
      · exact .err ..
      · rename_i hs
        split
        · rename_i hr
          refine .ok_tsk (.one (.suspend hO hr hc fun he => ?_)) (fun _ => hc) _
          by_contra hf
          exact hd ⟨he, Bool.eq_false_iff.2 hf⟩
        · rename_i hr
          split
          · exact .err ..
          · rename_i hsus
            refine .ok_tsk (b := false) (.one (.setSuspended hO ?_ true)) nofun _
            by_contra hw
            have hlegal := (h.inv.task (c.tcbSelf tskid)).legal
            refine hs (isDormant_iff.2 ?_)
            generalize (c.tcb (c.tcbSelf tskid)).tstat = s at hr hsus hw hlegal
            obtain ⟨r, w, su, f⟩ := s
            cases Bool.eq_false_iff.2 hr
            cases Bool.eq_false_iff.2 hsus
            cases Bool.eq_false_iff.2 hw
            cases hlegal.factor rfl
            rfl

theorem effect_rsmTsk (h : CallPre cfg c) (tskid : ID) (hO : S.own (index tskid)) :
    Effect cfg S P R c (c.rsmTsk cfg tskid) := by
  refine .check fun hl => ?_
  simp only [List.mem_cons, List.not_mem_nil, or_false, forall_eq_or_imp, forall_eq] at hl
  simp only
  split
  · exact .err ..
  · split
    · exact .err ..
    · rename_i hs
      split
      · rename_i hw
        exact .ok_tsk (.one (.resume hO ((h.inv.task _).legal.suspended_eq
          (Bool.not_eq_false _ ▸ hs) hw))) (fun _ => ctxUnl_tsk hl.1) _
      · rename_i hw
        exact .ok_tsk (.one (.setSuspended hO (Bool.not_eq_false _ ▸ hw) false)) nofun _

theorem effect_dlyTsk (h : CallPre cfg c) (dlytim : RELTIM) (hW : S.waits) :
    Effect cfg S P R c (c.dlyTsk dlytim) := by
  refine .check fun hl => ?_
  simp only [List.mem_cons, List.not_mem_nil, or_false, forall_eq_or_imp, forall_eq] at hl
  have hc := (canDispatch_sense hl.1).1
  rw [Core.makeWaitTmevtb_block]
  refine .wait (.block_alone h hW hc rfl (fun _ => rfl) (fun e he => ?_) (fun e he => ?_) .local) hc
  · cases he
    rfl
  · cases he
    exact of_decide_eq_true hl.2

theorem moves_callTexrtn (hX : S.tex) (c : Core) (t : Nat) :
    Moves cfg S P R c false (c.callTexrtn t) := by
  refine .one ?_
  exact .tex_self hX rfl rfl rfl rfl rfl rfl

theorem moves_calltex (hX : S.tex) (c : Core) (t : Nat) :
    Moves cfg S P R c false (c.calltex t) := by
  unfold Core.calltex
  simp only
  split
  · exact moves_callTexrtn hX c t
  · exact .refl

theorem Moves.after (h : Moves cfg S P R c false c') (h' : Moves cfg S P R c' b c'') :
    Moves cfg S P R c b c'' := by
  have hm := h.trans h'
  rwa [Bool.false_or] at hm

theorem effect_defTex (hX : S.tex) (c : Core) (tskid : ID) (texatr : ATR) (texrtn : Addr) :
    Effect cfg S P R c (c.defTex cfg tskid texatr texrtn) := by
  refine .check fun hl => ?_
  simp only
  split
  · exact .err ..
  · split
    · exact .err ..
    · split
      · split
        · exact .err ..
        · refine .ok_tsk (b := false) (.one ?_) nofun _
          exact .tex_self hX rfl rfl rfl rfl rfl rfl
      · split
        · refine .ok_tsk (b := false) (.one ?_) nofun _
          exact .tex_self hX rfl rfl rfl rfl rfl rfl
        · exact .err ..

theorem effect_rasTex (hX : S.tex) (c : Core) (tskid : ID) (rasptn : TEXPTN) :
    Effect cfg S P R c (c.rasTex cfg tskid rasptn) := by
  refine .check fun hl => ?_
  simp only
  split
  · exact .err ..
  · split
    · exact .err ..
    · have ht : Moves cfg S P R c false (c.setTcb (c.tcbSelf tskid)
          { c.tcb (c.tcbSelf tskid) with
            texptn := (c.tcb (c.tcbSelf tskid)).texptn ||| rasptn
            texraised := (c.tcb (c.tcbSelf tskid)).texraised ||| rasptn }) := by
        refine .one ?_
        exact .tex_self hX rfl rfl rfl rfl rfl rfl
      split
      · exact .ok_tsk (ht.after (moves_callTexrtn hX _ _)) nofun _
      · exact .ok_tsk ht nofun _

theorem effect_irasTex (hX : S.tex) (c : Core) (tskid : ID) (rasptn : TEXPTN) :
    Effect cfg S P R c (c.irasTex cfg tskid rasptn) := by
  refine .check fun hl => ?_
  simp only [List.mem_cons, List.not_mem_nil, or_false, forall_eq_or_imp, forall_eq] at hl
  simp only
  split
  · exact .err ..
  · split
    · exact .err ..
    · have ht : Moves cfg S P R c false (c.setTcb (index tskid)
          { c.tcb (index tskid) with
            texptn := (c.tcb (index tskid)).texptn ||| rasptn
            texraised := (c.tcb (index tskid)).texraised ||| rasptn }) := by
        refine .one ?_
        exact .tex_self hX rfl rfl rfl rfl rfl rfl
      exact .int ht nofun (ctxUnl_int hl.1)

theorem effect_disTex (hX : S.tex) (c : Core) : Effect cfg S P R c c.disTex := by
  refine .check fun hl => ?_
  simp only
  split
  · exact .err ..
  · refine .ok_tsk (b := false) (.one ?_) nofun _
    exact .tex_self hX rfl rfl rfl rfl rfl rfl

theorem effect_enaTex (hX : S.tex) (c : Core) : Effect cfg S P R c c.enaTex := by
  refine .check fun hl => ?_
  simp only
  split
  · exact .err ..
  · have ht : Moves cfg S P R c false (c.setTcb c.runtsk { c.tcb c.runtsk with enatex := true }) := by
      refine .one ?_
      exact .tex_self hX rfl rfl rfl rfl rfl rfl
    exact .ok_tsk (ht.after (moves_calltex hX _ _)) nofun _

/-- The calls that only look at an object. -/
theorem effect_ref (c : Core) (b b' : Bool) (out : Out) : Effect cfg S P R c
    (check [(c.ctxUnl .tsk, E_CTX), (b, E_ID)] c <|
      if b' then .err c E_NOEXS else .ok .tsk c false out) := by
  refine .check fun hl => ?_
  split
  · exact .err ..
  · exact .ok_tsk .refl nofun _

theorem effect_refTsk (c : Core) (tskid : ID) : Effect cfg S P R c (c.refTsk cfg tskid) :=
  effect_ref c _ _ _

theorem effect_refTex (c : Core) (tskid : ID) : Effect cfg S P R c (c.refTex cfg tskid) := by
  refine .check fun hl => ?_
  simp only
  split
  · exact .err ..
  · split
    · exact .err ..
    · exact .ok_tsk .refl nofun _

theorem effect_rotRdq (c : Core) (tskpri : PRI) : Effect cfg S P R c (c.rotRdq tskpri) := by
  refine .check fun hl => ?_
  simp only [List.mem_cons, List.not_mem_nil, or_false, forall_eq_or_imp, forall_eq] at hl
  exact .ok_tsk (.one (.rotate _)) (fun _ => ctxUnl_tsk hl.1) _

theorem effect_irotRdq (c : Core) (tskpri : PRI) : Effect cfg S P R c (c.irotRdq tskpri) := by
  refine .check fun hl => ?_
  simp only [List.mem_cons, List.not_mem_nil, or_false, forall_eq_or_imp, forall_eq] at hl
  exact .int (.one (.rotate _)) id (ctxUnl_int hl.1)

theorem effect_getTid (c : Core) : Effect cfg S P R c c.getTid := by
  refine .check fun hl => ?_
  exact .ok_tsk .refl nofun _

theorem effect_igetTid (c : Core) : Effect cfg S P R c c.igetTid := by
  refine .check fun hl => ?_
  simp only [List.mem_cons, List.not_mem_nil, or_false, forall_eq] at hl
  exact .int .refl id (ctxUnl_int hl)

/-- The CPU lock has nothing to do with the tasks. -/
theorem moves_cpulock (c : Core) (b : Bool) :
    Moves cfg S P R c false (c.setFlags c.ipmflg c.disdsp c.dspflg b) :=
  .one (.flags (.inr ⟨rfl, rfl⟩) id (fun _ => id) (.inl rfl))

theorem effect_cpulock (c : Core) (ctx : Ctx) (b : Bool) : Effect cfg S P R c
    (check [(c.senseContext == (ctx == .int), E_CTX)] c <|
      .ok ctx (c.setFlags c.ipmflg c.disdsp c.dspflg b) false .none) := by
  refine .check fun hl => ?_
  simp only [List.mem_cons, List.not_mem_nil, or_false, forall_eq] at hl
  cases ctx with
  | tsk => exact .ok_tsk (moves_cpulock c b) nofun _
  | int => exact .int (moves_cpulock c b) nofun (beq_iff_eq.1 hl)

theorem effect_locCpu (c : Core) (ctx : Ctx) : Effect cfg S P R c (c.locCpuWith ctx) :=
  effect_cpulock c ctx true

theorem effect_unlCpu (c : Core) (ctx : Ctx) : Effect cfg S P R c (c.unlCpuWith ctx) :=
  effect_cpulock c ctx false

theorem effect_disDsp (c : Core) : Effect cfg S P R c c.disDsp := by
  refine .check fun hl => ?_
  simp only [List.mem_cons, List.not_mem_nil, or_false, forall_eq] at hl
  have hm : Moves cfg S P R c false (c.setFlags c.ipmflg true false c.cpulock) :=
    .one (.flags (.inl (ctxUnl_tsk hl)) (fun _ => (Bool.and_false _).symm) (fun _ _ => .inr rfl)
      (.inl rfl))
  exact .ok_tsk hm nofun _

theorem effect_enaDsp (c : Core) : Effect cfg S P R c c.enaDsp := by
  refine .check fun hl => ?_
  simp only [List.mem_cons, List.not_mem_nil, or_false, forall_eq] at hl
  have hc := ctxUnl_tsk hl
  split
  · rename_i hi
    have hm : Moves cfg S P R c (c.pRuntsk != c.sched.pSchedtsk)
        (c.setFlags c.ipmflg false true c.cpulock) :=
      .one (.flags (.inl hc) (fun _ => by rw [hi]; rfl)
        (fun hb _ => .inl (bne_eq_false_iff_eq.1 hb)) (.inl rfl))
    exact .ok_tsk hm (fun _ => hc) _
  · rename_i hi
    have hi := Bool.eq_false_iff.2 hi
    have hm : Moves cfg S P R c false (c.setFlags c.ipmflg false c.dspflg c.cpulock) := by
      refine .one (.flags (.inl hc) (fun hf => ?_) (fun _ => id) (.inl rfl))
      unfold Core.FlagsOk at hf
      rw [hf, hi, Bool.false_and, Bool.false_and]
    exact .ok_tsk hm nofun _

theorem effect_chgIpm (hX : S.tex) (hI : S.ipm) (c : Core) (intpri : PRI) (valid : Bool) :
    Effect cfg S P R c (c.chgIpm intpri valid) := by
  refine .check fun hl => ?_
  simp only [List.mem_cons, List.not_mem_nil, or_false, forall_eq_or_imp, forall_eq] at hl
  have hc := ctxUnl_tsk hl.1
  split
  · have hf (hf : c.FlagsOk) : (c.dspflg || !c.disdsp) = (true && !c.disdsp) := by
      unfold Core.FlagsOk at hf
      rw [hf]
      cases c.ipmflg <;> cases c.disdsp <;> rfl
    simp only
    split
    · have hm : Moves cfg S P R c true
          (c.setFlags true c.disdsp (c.dspflg || !c.disdsp) c.cpulock) :=
        .one (.flags (.inl hc) hf nofun (.inr hI))
      exact .ok_tsk hm (fun _ => hc) _
    · rename_i hn
      have hm : Moves cfg S P R c false
          (c.setFlags true c.disdsp (c.dspflg || !c.disdsp) c.cpulock) := by
        refine .one (.flags (.inl hc) hf (fun _ hs => ?_) (.inr hI))
        rcases hs with hs | hs
        · exact .inl hs
        · by_cases he : c.pRuntsk = c.sched.pSchedtsk
          · exact .inl he
          · have hd : c.disdsp = true := by
              by_contra hd
              exact hn ⟨Bool.eq_false_iff.2 hd, he⟩
            refine .inr ?_
            change (c.dspflg || !c.disdsp) = false
            rw [hs, hd]
            rfl
      exact .ok_tsk (hm.after (moves_calltex hX _ _)) nofun _
  · have hm : Moves cfg S P R c false (c.setFlags false c.disdsp false c.cpulock) :=
      .one (.flags (.inl hc) (fun _ => rfl) (fun _ _ => .inr rfl) (.inr hI))
    exact .ok_tsk hm nofun _

end

end AspKernel
