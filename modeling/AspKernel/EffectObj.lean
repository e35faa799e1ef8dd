import AspKernel.Effect

namespace AspKernel
set_option autoImplicit true

section
variable {cfg : Cfg} {S : Scope} {P : WQueue → Prop} {R : Nat → Prop} {c c' : Core}

/-- The checks of a call that sees more than the core. -/
theorem Effect.checkObj {f : σ → Core} {o : σ} {body : Res σ}
    (h : (∀ p ∈ l, p.1 = true) → Effect cfg S P R (f o) (body.map f)) :
    Effect cfg S P R (f o) ((AspKernel.check l o body).map f) := by
  rcases check_cases l o body with ⟨p, _, _, he⟩ | ⟨hl, he⟩
  · rw [he]
    exact .err _ p.2
  · rw [he]
    exact h hl

theorem Obj.ok_core (o : Obj β) (ctx : Ctx) (b : Bool) (out : Out) :
    (o.ok ctx b out).map Obj.core = .ok ctx o.core b out := by
  cases ctx <;> rfl

theorem MbxObj.ok_core (o : MbxObj) (ctx : Ctx) (b : Bool) (out : Out) :
    (o.ok ctx b out).map (fun o => o.toObj.core) = .ok ctx o.core b out := by
  cases ctx <;> rfl

theorem WQueue.main_self {q : WQueue} (h : WaitFactor.SEM.code ≤ q.1.code) : q.main = q := by
  obtain ⟨f, i⟩ := q
  cases f with
  | RDTQ | RPDQ => exact absurd (show (4 : Nat) ≤ _ from h) (by simp [WaitFactor.code])
  | _ => rfl

theorem ctxMode_unl (h : c.ctxMode m = true) : c.ctxUnl m.ctx = true := by
  cases m with
  | pol ctx => exact h
  | fevr => exact (Bool.and_eq_true_iff.1 h).1
  | tmo tmout => exact (Bool.and_eq_true_iff.1 h).1

theorem ctxMode_sense (h : c.ctxMode m = true) (hp : m.polls = false) :
    c.senseContext = false := by
  cases m with
  | pol ctx => cases hp
  | fevr => exact (canDispatch_sense h).1
  | tmo tmout => exact (canDispatch_sense h).1

/-- The start of a wait in one of the forms of a call. -/
theorem Core.waitWobj_block (c : Core) (hv : m.valid = true) (hp : m.polls = false) (q : WQueue)
    (w : WInfo) : c.waitWobj m q w =
      c.block c.runtsk q.1 w m.event (some (q, (c.wobjatr q).has TA_TPRI)) := by
  cases m with
  | pol ctx => cases hp
  | fevr =>
    unfold waitWobj wobjMakeWait wobjQueueInsert
    simp only
    rw [makeWait_block]
    exact block_enter ..
  | tmo tmout =>
    unfold waitWobj wobjMakeWaitTmout wobjQueueInsert
    simp only
    rw [makeWaitTmout_block hv hp]
    exact block_enter ..

theorem Core.waitReceive_block (c : Core) (hv : m.valid = true) (hp : m.polls = false)
    (q : WQueue) : c.waitReceive m q = c.block c.runtsk q.1 .local m.event (some (q, false)) := by
  cases m with
  | pol ctx => cases hp
  | fevr =>
    unfold waitReceive
    simp only
    rw [makeWait_block]
    exact block_enter ..
  | tmo tmout =>
    unfold waitReceive
    simp only
    rw [makeWaitTmout_block hv hp]
    exact block_enter ..

theorem Moves.waitWobj (h : CallPre cfg c) (hc : c.ctxMode m = true) (hv : m.valid = true)
    (hp : m.polls = false) (hW : m.polls = false → S.waits) (hex : c.noWobj (f, i) = false)
    (hq : WaitFactor.SEM.code ≤ f.code) (hP : P (f, i)) (w : WInfo)
    (hm : f = .MTX → (c.mtxcb i).pLoctsk ≠ none ∧
      ¬(c.mtxCeiling i ∧ (c.tcb c.runtsk).bpriority < c.ceilpri i)) :
    Moves cfg S P R c true (c.waitWobj m (f, i) w) := by
  have hc := ctxMode_sense hc hp
  rw [Core.waitWobj_block c hv hp]
  refine .one (.block (hW hp) (h.runtsk hc) (h.runtsk_runnable hc) hc
    ⟨?_, ?_, ?_, fun e he => ?_, WaitMode.event_time⟩ ?_ w ?_)
  · rintro _ ⟨⟩
    refine ⟨rfl, ?_, ?_⟩
    · simp only [Core.tpri, hq, decide_true, Bool.true_and]
    · rw [WQueue.main_self (q := (f, i)) hq]
      exact ne_noexs hex
  · exact decide_eq_true (Nat.le_trans (by decide) hq)
  · rintro rfl
    cases hq
  · have hne : f ≠ .DLY := by
      rintro rfl
      cases hq
    rw [if_neg hne]
    exact WaitMode.event_callback e he
  · rintro _ ⟨⟩
    exact hP
  · rintro i tp he
    cases he
    exact hm rfl

theorem Moves.waitReceive (h : CallPre cfg c) (hc : c.ctxMode m = true) (hv : m.valid = true)
    (hp : m.polls = false) (hW : m.polls = false → S.waits)
    (hex : c.noWobj (WQueue.main q) = false) (hq : q.1 = .RDTQ ∨ q.1 = .RPDQ) (hP : P q) :
    Moves cfg S P R c true (c.waitReceive m q) := by
  have hc := ctxMode_sense hc hp
  rw [Core.waitReceive_block c hv hp]
  refine .one (.block (hW hp) (h.runtsk hc) (h.runtsk_runnable hc) hc
    ⟨?_, ?_, ?_, fun e he => ?_, WaitMode.event_time⟩ ?_ _ ?_)
  · rintro _ ⟨⟩
    refine ⟨rfl, ?_, ne_noexs hex⟩
    unfold Core.tpri
    rcases hq with hq | hq <;> rw [hq] <;> rfl
  · rcases hq with hq | hq <;> rw [hq] <;> rfl
  · intro hf
    rcases hq with hq | hq <;> rw [hq] at hf <;> cases hf
  · have hne : q.1 ≠ .DLY := fun he => by
      rcases hq with hq | hq <;> rw [hq] at he <;> cases he
    rw [if_neg hne]
    exact WaitMode.event_callback e he
  · rintro _ ⟨⟩
    exact hP
  · rintro i tp he
    cases he
    rcases hq with hq | hq <;> cases hq

/-- The first task of a queue completes its wait, with its waiting information filled in. -/
theorem Moves.complete (ht : c.headTsk q = some t) (hP : P q)
    (hw : w.cell = (c.tcb t).winfo.cell) :
    Moves cfg S P R c (((c.queueDelete t).setWinfo t w).waitComplete t).2
      (((c.queueDelete t).setWinfo t w).waitComplete t).1 :=
  .one (.complete (mem_of_headTsk ht) (.inr ht) hP hw)

theorem Moves.complete' (ht : c.headTsk q = some t) (hP : P q) :
    Moves cfg S P R c ((c.queueDelete t).waitComplete t).2 ((c.queueDelete t).waitComplete t).1 := by
  have hm : Moves cfg S P R c _ _ := Moves.complete ht hP rfl
  rwa [show (c.queueDelete t).setWinfo t (c.tcb t).winfo = c.queueDelete t from
    (c.queueDelete t).setWinfo_eq_self t] at hm

theorem local_initWaitQueueLoop (n : Nat) (c : Core) (q : WQueue) :
    c.Local (Core.initWaitQueueLoop n c q).1 := by
  induction n generalizing c with
  | zero => exact .refl c
  | succ n ih =>
    unfold Core.initWaitQueueLoop
    split
    · exact .refl c
    · rename_i t _
      exact ((((local_queueDelete c t).trans (local_waitDequeueTmevtb _ t)).trans
        (local_setTcb _ t _)).trans (local_makeNonWait _ t)).trans (ih _)

theorem Core.Local.wobjatr (h : c.Local c') : c'.wobjatr = c.wobjatr := by
  obtain ⟨_, _, _, _, rfl⟩ := h
  rfl

theorem Core.Local.noWobj (h : c.Local c') (q : WQueue) : c'.noWobj q = c.noWobj q := by
  unfold Core.noWobj
  rw [h.wobjatr]

theorem local_initWaitQueue (c : Core) (q : WQueue) : c.Local (c.initWaitQueue q).1 :=
  local_initWaitQueueLoop _ c q

theorem WQueue.eq_of_main {q q' : WQueue} (h : q'.main = q) (hq : q.1 ≠ .SDTQ ∧ q.1 ≠ .SPDQ) :
    q' = q := by
  obtain ⟨f, i⟩ := q'
  cases f with
  | RDTQ => exact absurd (congrArg Prod.fst h).symm hq.1
  | RPDQ => exact absurd (congrArg Prod.fst h).symm hq.2
  | _ => exact h

/-- A wait queue is emptied and its object deleted, with what it has in memory. -/
theorem Moves.delete (hm : q.main = q) (hq : q.1 ≠ .SDTQ ∧ q.1 ≠ .SPDQ) (hf : q.1 ≠ .MTX)
    (hex : c.noWobj q = false)
    (hd : (cfg.num (.wobj q.1)).tmaxS ≤ q.2 ∧ q.2 < (cfg.num (.wobj q.1)).tmax)
    (hK : S.kinds (.wobj q.1)) (hI : S.init q)
    (h1 : Moves cfg S P R (c.initWaitQueue q).1 false c')
    (he : ∃ l ok, c' = { (c.initWaitQueue q).1 with areas := l, freeOk := ok }) :
    Moves cfg S P R c (c.initWaitQueue q).2 (c'.freeWobjcb q) := by
  obtain ⟨l, ok, rfl⟩ := he
  have h2 : Moves cfg S P R c (c.initWaitQueue q).2 _ := .one (.initQueue q hI)
  have h3 := (h2.trans h1).step (.freeWobj hm hf (fun q' hq' => ?_) ?_ hd hK)
  · rwa [Bool.or_false, Bool.or_false] at h3
  · rw [WQueue.eq_of_main hq' hq]
    exact initWaitQueue_queue c q
  · exact ((local_initWaitQueue c q).noWobj q).trans hex

/-- The two wait queues of a data queue are emptied. -/
theorem Moves.init2 {q q' : WQueue} (hI : S.init q) (hI' : S.init q') : Moves cfg S P R c
    ((c.initWaitQueue q).2 || ((c.initWaitQueue q).1.initWaitQueue q').2)
    ((c.initWaitQueue q).1.initWaitQueue q').1 :=
  (Moves.one (.initQueue q hI)).step (.initQueue q' hI')

theorem Moves.delete2 (h : CoreInv cfg noD c) (hm : ∀ r, WQueue.main r = q → r = q ∨ r = q')
    (hf : q.1 ≠ .MTX) (hq : q.main = q) (hex : c.noWobj q = false)
    (hd : (cfg.num (.wobj q.1)).tmaxS ≤ q.2 ∧ q.2 < (cfg.num (.wobj q.1)).tmax)
    (hK : S.kinds (.wobj q.1)) (hI : S.init q) (hI' : S.init q') (hM : S.mem) (b : Prop)
    [Decidable b] (p : Addr) : let c2 := ((c.initWaitQueue q).1.initWaitQueue q').1
    Moves cfg S P R c ((c.initWaitQueue q).2 || ((c.initWaitQueue q).1.initWaitQueue q').2)
      ((if b then c2.kernelFree p else c2).freeWobjcb q) := by
  simp only
  have hl := (local_initWaitQueue c q).trans (local_initWaitQueue _ q')
  have h0 : Moves cfg S P R c _ _ := Moves.init2 hI hI'
  have h1 := h0.trans (Moves.free hM _ b p)
  obtain ⟨l, ok, he⟩ := free_eq ((c.initWaitQueue q).1.initWaitQueue q').1 b p
  rw [he] at h1 ⊢
  have h2 := h1.step (.freeWobj hq hf (fun r hr => ?_) ?_ hd hK)
  · rwa [Bool.or_false, Bool.or_false] at h2
  · rcases hm r hr with rfl | rfl
    · have h1 := h.initWaitQueue r
      exact (frame_initWaitQueue (N := fun _ => False) (P := fun _ => False) h1 q').1.queue_nil
        (h1.initWaitQueue q') h1 (fun _ => id) id (initWaitQueue_queue c r)
    · exact initWaitQueue_queue _ r
  · exact (hl.noWobj q).trans hex

/-- A wait object is created. -/
theorem Moves.create (hm : q.main = q) (hf : q.1 ≠ .MTX)
    (ht : c.takeWobj (cfg.num (.wobj q.1)) q.1 = some (q.2, c')) (ha : atr ≠ TA_NOEXS)
    (hK : S.kinds (.wobj q.1)) : Moves cfg S P R c false (c'.initWobj q atr) :=
  .one (.newWobj (f := q.1) (i := q.2) hm hf ht ha hK)

theorem takeWobj_malloc (h : c.takeWobj n f = some (i, c')) (b : Prop) [Decidable b]
    (size : BitVec 32) (mem : Addr) :
    Core.takeWobj n (if b then c.kernelMalloc size mem else c) f =
      some (i, if b then c'.kernelMalloc size mem else c') := by
  obtain ⟨l, hl, hc⟩ := takeWobj_eq h
  unfold Core.kernelMalloc
  split
  · split
    · exact h
    · unfold Core.takeWobj at h ⊢
      rw [hc]
      simp only [hl] at h ⊢
      split at h
      · cases h
      · rename_i hn
        rw [if_neg hn]
  · exact h

/-- The second queue of a new object is empty already. -/
theorem initQueue_new (h : CoreInv cfg noD c) (hm : WQueue.main (f, i) = (f, i))
    (ht : c.takeWobj n f = some (i, c')) (atr : ATR) (hq : WQueue.main q = (f, i)) :
    (c'.initWobj (f, i) atr).initQueue q = c'.initWobj (f, i) atr := by
  have hempty := (h.newWobj (n := n) hm ht atr).2
  obtain ⟨l, _, rfl⟩ := takeWobj_eq ht
  refine Core.initQueue_eq ?_
  rw [Core.initWobj_eq (c := { c with freeWobj := Function.update c.freeWobj f l }) (hempty _ hm)]
  exact hempty q hq

end

section
variable {cfg : Cfg} {S : Scope} {P : WQueue → Prop} {R : Nat → Prop}

theorem dynamic_range {n : ObjNum} {id : ID} (hv : n.valid id = true) (hd : n.dynamic (index id) = true) :
    n.tmaxS ≤ index id ∧ index id < n.tmax := ⟨of_decide_eq_true hd, (ObjNum.valid_index hv).1⟩

/-- The deletion of an object with one wait queue. -/
theorem effect_delWobj {o : Obj β} {f : WaitFactor} (id : ID)
    (hm : WQueue.main (f, index id) = (f, index id)) (hq : f ≠ .SDTQ ∧ f ≠ .SPDQ) (hf : f ≠ .MTX)
    (hK : S.kinds (.wobj f)) (hI : S.init (f, index id)) : Effect cfg S P R o.core
      ((check [(o.core.ctxUnl .tsk, E_CTX), ((cfg.num (.wobj f)).valid id, E_ID)] o <|
        if o.core.noWobj (f, index id) then .err o E_NOEXS
        else if (cfg.num (.wobj f)).dynamic (index id) then
          (o.setCore ((o.core.initWaitQueue (f, index id)).1.freeWobjcb (f, index id))).ok .tsk
            (o.core.initWaitQueue (f, index id)).2 .none
        else .err o E_OBJ).map Obj.core) := by
  refine .checkObj fun hl => ?_
  simp only [List.mem_cons, List.not_mem_nil, or_false, forall_eq_or_imp, forall_eq] at hl
  split
  · exact .err ..
  · rename_i hex
    split
    · rename_i hd
      rw [Obj.ok_core]
      exact .ok hl.1 (Moves.delete hm hq hf (Bool.eq_false_iff.2 hex) (dynamic_range hl.2 hd) hK
        hI .refl ⟨_, _, rfl⟩) _
    · exact .err ..

/-- The deletion of an object with two wait queues. -/
theorem effect_delWobj2 {o : Obj β} {f : WaitFactor} {q' : WQueue} (h : CoreInv cfg noD o.core)
    (id : ID) (hm : ∀ r, WQueue.main r = (f, index id) → r = (f, index id) ∨ r = q')
    (hq : WQueue.main (f, index id) = (f, index id)) (hf : f ≠ .MTX) (hK : S.kinds (.wobj f))
    (hI : S.init (f, index id)) (hI' : S.init q') (hM : S.mem) (p : Addr) :
    let c2 := ((o.core.initWaitQueue (f, index id)).1.initWaitQueue q').1
    Effect cfg S P R o.core
      ((check [(o.core.ctxUnl .tsk, E_CTX), ((cfg.num (.wobj f)).valid id, E_ID)] o <|
        if o.core.noWobj (f, index id) then .err o E_NOEXS
        else if (cfg.num (.wobj f)).dynamic (index id) then
          (o.setCore ((if (o.core.wobjatr (f, index id)).has TA_MBALLOC then c2.kernelFree p
            else c2).freeWobjcb (f, index id))).ok .tsk ((o.core.initWaitQueue (f, index id)).2 ||
            ((o.core.initWaitQueue (f, index id)).1.initWaitQueue q').2) .none
        else .err o E_OBJ).map Obj.core) := by
  simp only
  refine .checkObj fun hl => ?_
  simp only [List.mem_cons, List.not_mem_nil, or_false, forall_eq_or_imp, forall_eq] at hl
  split
  · exact .err ..
  · rename_i hex
    split
    · rename_i hd
      rw [Obj.ok_core]
      exact .ok hl.1 (Moves.delete2 h hm hf hq (Bool.eq_false_iff.2 hex) (dynamic_range hl.2 hd) hK
        hI hI' hM _ p) _
    · exact .err ..

/-- The calls that only look at an object. -/
theorem effect_refObj (o : Obj β) (b b' : Bool) (out : Out) : Effect cfg S P R o.core
    ((check [(o.core.ctxUnl .tsk, E_CTX), (b, E_ID)] o <|
      if b' then .err o E_NOEXS else o.ok .tsk false out).map Obj.core) := by
  refine .checkObj fun hl => ?_
  simp only [List.mem_cons, List.not_mem_nil, or_false, forall_eq_or_imp, forall_eq] at hl
  split
  · exact .err ..
  · rw [Obj.ok_core]
    exact .ok hl.1 .refl _

theorem effect_refSem (o : Obj SEMCB) (semid : ID) :
    Effect cfg S P R o.core ((refSem cfg o semid).map Obj.core) := effect_refObj o _ _ _

theorem effect_refFlg (o : Obj FLGCB) (flgid : ID) :
    Effect cfg S P R o.core ((refFlg cfg o flgid).map Obj.core) := effect_refObj o _ _ _

theorem effect_refDtq (o : Obj DTQCB) (dtqid : ID) :
    Effect cfg S P R o.core ((refDtq cfg o dtqid).map Obj.core) := effect_refObj o _ _ _

theorem effect_refPdq (o : Obj PDQCB) (pdqid : ID) :
    Effect cfg S P R o.core ((refPdq cfg o pdqid).map Obj.core) := effect_refObj o _ _ _

theorem effect_refMpf (o : Obj MPFCB) (mpfid : ID) :
    Effect cfg S P R o.core ((refMpf cfg o mpfid).map Obj.core) := effect_refObj o _ _ _

theorem effect_refMtx (c : Core) (mtxid : ID) : Effect cfg S P R c (c.refMtx cfg mtxid) :=
  effect_ref c _ _ _

theorem effect_refCyc (c : Core) (cycid : ID) : Effect cfg S P R c (c.refCyc cfg cycid) :=
  effect_ref c _ _ _

theorem effect_refAlm (c : Core) (almid : ID) : Effect cfg S P R c (c.refAlm cfg almid) :=
  effect_ref c _ _ _

theorem effect_acreSem (o : Obj SEMCB) (pk : SEMINIB) (hK : S.kinds (.wobj .SEM)) :
    Effect cfg S P R o.core ((acreSem cfg o pk).map Obj.core) := by
  refine .checkObj fun hl => ?_
  simp only [List.mem_cons, List.not_mem_nil, or_false, forall_eq_or_imp, forall_eq] at hl
  split
  · exact .err ..
  · rename_i i c ht
    have ha := ATR.ne_noexs 0#32 hl.2.1 (by decide)
    rw [BitVec.or_zero] at ha
    exact .value (Moves.create (q := (.SEM, i)) rfl nofun ht ha hK) _

theorem effect_delSem (o : Obj SEMCB) (semid : ID) (hK : S.kinds (.wobj .SEM))
    (hI : S.init (.SEM, index semid)) :
    Effect cfg S P R o.core ((delSem cfg o semid).map Obj.core) :=
  effect_delWobj (f := .SEM) semid rfl ⟨nofun, nofun⟩ nofun hK hI

theorem effect_sigSem (o : Obj SEMCB) (ctx : Ctx) (semid : ID) (hP : P (.SEM, index semid)) :
    Effect cfg S P R o.core ((sigSemWith cfg o ctx semid).map Obj.core) := by
  refine .checkObj fun hl => ?_
  simp only [List.mem_cons, List.not_mem_nil, or_false, forall_eq_or_imp, forall_eq] at hl
  simp only
  split
  · exact .err ..
  · split
    · rename_i t ht
      rw [Obj.ok_core]
      exact .ok hl.1 (.complete' ht hP) _
    · split
      · rw [Obj.ok_core]
        exact .ok hl.1 .refl _
      · exact .err ..

theorem effect_waiSem {o : Obj SEMCB} (h : CallPre cfg o.core) (semid : ID) (m : WaitMode)
    (hP : P (.SEM, index semid))
    (hW : m.polls = false → S.waits) :
    Effect cfg S P R o.core ((waiSemWith cfg o semid m).map Obj.core) := by
  refine .checkObj fun hl => ?_
  simp only [List.mem_cons, List.not_mem_nil, or_false, forall_eq_or_imp, forall_eq] at hl
  simp only
  split
  · exact .err ..
  · rename_i hex
    split
    · rw [Obj.ok_core]
      exact .ok_tsk .refl nofun _
    · split
      · exact .err ..
      · rename_i hp
        have hp := Bool.eq_false_iff.2 hp
        exact .wait (.waitWobj h hl.1 hl.2.2 hp hW (Bool.eq_false_iff.2 hex) (by decide) hP _ nofun)
          (ctxMode_sense hl.1 hp)

theorem effect_iniSem (o : Obj SEMCB) (semid : ID) (hI : S.init (.SEM, index semid)) :
    Effect cfg S P R o.core ((iniSem cfg o semid).map Obj.core) := by
  refine .checkObj fun hl => ?_
  simp only [List.mem_cons, List.not_mem_nil, or_false, forall_eq_or_imp, forall_eq] at hl
  simp only
  split
  · exact .err ..
  · rw [Obj.ok_core]
    exact .ok hl.1 (.one (.initQueue _ hI)) _

theorem effect_acreFlg (o : Obj FLGCB) (pk : FLGINIB) (hK : S.kinds (.wobj .FLG)) :
    Effect cfg S P R o.core ((acreFlg cfg o pk).map Obj.core) := by
  refine .checkObj fun hl => ?_
  simp only [List.mem_cons, List.not_mem_nil, or_false, forall_eq_or_imp, forall_eq] at hl
  split
  · exact .err ..
  · rename_i i c ht
    have ha := ATR.ne_noexs 0#32 hl.2 (by decide)
    rw [BitVec.or_zero] at ha
    exact .value (Moves.create (q := (.FLG, i)) rfl nofun ht ha hK) _

theorem effect_delFlg (o : Obj FLGCB) (flgid : ID) (hK : S.kinds (.wobj .FLG))
    (hI : S.init (.FLG, index flgid)) :
    Effect cfg S P R o.core ((delFlg cfg o flgid).map Obj.core) :=
  effect_delWobj (f := .FLG) flgid rfl ⟨nofun, nofun⟩ nofun hK hI

theorem waitComplete_queue (c : Core) (t : Nat) (q : WQueue) :
    (c.waitComplete t).1.sched.queue (.wait q) = c.sched.queue (.wait q) := by
  unfold Core.waitComplete
  rw [makeNonWait_queue]
  change (c.waitDequeueTmevtb t).sched.queue (.wait q) = _
  rw [waitDequeueTmevtb_sched]

/-- The tasks that the loop still has to look at are in the wait queue. -/
theorem moves_setFlgLoop {c : Core} {l : List Nat} (flgatr : ATR) (flgptn : FLGPTN)
    (hn : l.Nodup) (hl : ∀ t ∈ l, t ∈ c.sched.queue (.wait (.FLG, i))) (hP : P (.FLG, i)) :
    Moves cfg S P R c (setFlgLoop flgatr l c flgptn).2.2 (setFlgLoop flgatr l c flgptn).1 := by
  induction l generalizing c flgptn with
  | nil => exact .refl
  | cons t l ih =>
    have hn := List.nodup_cons.1 hn
    unfold setFlgLoop
    simp only
    split
    · have hm : Moves cfg S P R c _ _ := .one (.complete (w := { (c.tcb t).winfo with flgptn := flgptn })
        (hl t (List.mem_cons_self ..)) (.inl rfl) hP rfl)
      split
      · exact hm
      · refine hm.trans (ih _ hn.2 fun u hu => ?_)
        rw [waitComplete_queue]
        change u ∈ (c.sched.queue (.wait (.FLG, i))).erase t
        have hne : u ≠ t := by
          rintro rfl
          exact hn.1 hu
        exact (List.mem_erase_of_ne hne).2 (hl u (List.mem_cons_of_mem _ hu))
    · exact ih _ hn.2 fun u hu => hl u (List.mem_cons_of_mem _ hu)

theorem effect_setFlg {o : Obj FLGCB} (h : CoreInv cfg noD o.core) (ctx : Ctx) (flgid : ID)
    (setptn : FLGPTN) (hP : P (.FLG, index flgid)) :
    Effect cfg S P R o.core ((setFlgWith cfg o ctx flgid setptn).map Obj.core) := by
  refine .checkObj fun hl => ?_
  simp only [List.mem_cons, List.not_mem_nil, or_false, forall_eq_or_imp, forall_eq] at hl
  simp only
  split
  · exact .err ..
  · rw [Obj.ok_core]
    exact .ok hl.1 (moves_setFlgLoop _ _ (h.sched.linked.nodup _) (fun _ => id) hP) _

theorem effect_clrFlg (o : Obj FLGCB) (flgid : ID) (clrptn : FLGPTN) :
    Effect cfg S P R o.core ((clrFlg cfg o flgid clrptn).map Obj.core) := by
  refine .checkObj fun _ => ?_
  simp only
  split
  · exact .err ..
  · rw [Obj.ok_core]
    exact .ok_tsk .refl nofun _

theorem effect_waiFlg {o : Obj FLGCB} (h : CallPre cfg o.core) (flgid : ID) (waiptn : FLGPTN)
    (wfmode : MODE) (m : WaitMode) (hP : P (.FLG, index flgid))
    (hW : m.polls = false → S.waits) :
    Effect cfg S P R o.core ((waiFlgWith cfg o flgid waiptn wfmode m).map Obj.core) := by
  refine .checkObj fun hl => ?_
  simp only [List.mem_cons, List.not_mem_nil, or_false, forall_eq_or_imp, forall_eq] at hl
  simp only
  split
  · exact .err ..
  · rename_i hex
    split
    · exact .err ..
    · split
      · rw [Obj.ok_core]
        exact .ok_tsk .refl nofun _
      · split
        · exact .err ..
        · rename_i hp
          have hp := Bool.eq_false_iff.2 hp
          exact .wait (.waitWobj h hl.1 hl.2.2.2.2 hp hW (Bool.eq_false_iff.2 hex) (by decide) hP _
            nofun) (ctxMode_sense hl.1 hp)

theorem effect_iniFlg (o : Obj FLGCB) (flgid : ID) (hI : S.init (.FLG, index flgid)) :
    Effect cfg S P R o.core ((iniFlg cfg o flgid).map Obj.core) := by
  refine .checkObj fun hl => ?_
  simp only [List.mem_cons, List.not_mem_nil, or_false, forall_eq_or_imp, forall_eq] at hl
  simp only
  split
  · exact .err ..
  · rw [Obj.ok_core]
    exact .ok hl.1 (.one (.initQueue _ hI)) _

theorem effect_acreDtq {o : Obj DTQCB} (h : CoreInv cfg noD o.core) (pk : DTQINIB) (mem : Addr)
    (hK : S.kinds (.wobj .SDTQ)) (hM : S.mem) :
    Effect cfg S P R o.core ((acreDtq cfg o pk mem).map Obj.core) := by
  refine .checkObj fun hl => ?_
  simp only [List.mem_cons, List.not_mem_nil, or_false, forall_eq_or_imp, forall_eq] at hl
  split
  · exact .err ..
  · rename_i i c ht
    simp only
    have hm : Moves cfg S P R _ false _ := Moves.malloc hM o.core
      (pk.dtqcnt ≠ 0 ∧ pk.pDtqmb = 0) (sizeofDTQMB * BitVec.ofNat 32 pk.dtqcnt) mem
    have ht := takeWobj_malloc ht (pk.dtqcnt ≠ 0 ∧ pk.pDtqmb = 0)
      (sizeofDTQMB * BitVec.ofNat 32 pk.dtqcnt) mem
    have ha := ATR.ne_noexs_ite TA_MBALLOC (b := pk.dtqcnt ≠ 0 ∧ pk.pDtqmb = 0) hl.2.1
      (by decide) (by decide)
    generalize (if pk.dtqcnt ≠ 0 ∧ pk.pDtqmb = 0 then c.kernelMalloc _ mem else c) = c1 at ht ⊢
    generalize (if pk.dtqcnt ≠ 0 ∧ pk.pDtqmb = 0 then pk.dtqatr ||| TA_MBALLOC else pk.dtqatr) =
      atr at ha ⊢
    generalize (if pk.dtqcnt ≠ 0 ∧ pk.pDtqmb = 0 then mem else pk.pDtqmb) = area
    split
    · exact .err ..
    · rw [initQueue_new (hm.coreInv h) (f := .SDTQ) rfl ht _ rfl]
      exact .value (hm.after (Moves.create (q := (.SDTQ, i)) rfl nofun ht ha hK)) _

theorem effect_delDtq {o : Obj DTQCB} (h : CoreInv cfg noD o.core) (dtqid : ID)
    (hK : S.kinds (.wobj .SDTQ)) (hI : S.init (.SDTQ, index dtqid))
    (hI' : S.init (.RDTQ, index dtqid)) (hM : S.mem) :
    Effect cfg S P R o.core ((delDtq cfg o dtqid).map Obj.core) := by
  refine effect_delWobj2 (f := .SDTQ) h dtqid ?_ rfl nofun hK hI hI' hM _
  rintro ⟨f, j⟩ hr
  cases f <;> cases hr
  · exact .inr rfl
  · exact .inl rfl

theorem moves_sendData {o : Obj DTQCB} (hP : P (.RDTQ, i)) (hr : sendData o i data = some r) :
    Moves cfg S P R o.core r.2 r.1.core := by
  unfold sendData at hr
  simp only at hr
  split at hr
  · rename_i t ht
    cases hr
    exact .complete ht hP rfl
  · split at hr
    · cases hr
      exact .refl
    · cases hr

theorem moves_forceSendData (o : Obj DTQCB) (data : IntPtr) (hP : P (.RDTQ, i)) :
    Moves cfg S P R o.core (forceSendData o i data).2 (forceSendData o i data).1.core := by
  unfold forceSendData
  split
  · rename_i t ht
    exact .complete ht hP rfl
  · exact .refl

theorem moves_receiveData {o : Obj DTQCB} (hP : P (.SDTQ, i)) (hr : receiveData o i = some r) :
    Moves cfg S P R o.core r.2.2 r.1.core := by
  unfold receiveData at hr
  simp only at hr
  split at hr
  · split at hr
    · rename_i t ht
      cases hr
      exact .complete' ht hP
    · cases hr
      exact .refl
  · split at hr
    · rename_i t ht
      cases hr
      exact .complete' ht hP
    · cases hr

theorem effect_sndDtq {o : Obj DTQCB} (h : CallPre cfg o.core) (dtqid : ID) (data : IntPtr)
    (m : WaitMode) (hS : P (.SDTQ, index dtqid)) (hR : P (.RDTQ, index dtqid))
    (hW : m.polls = false → S.waits) :
    Effect cfg S P R o.core ((sndDtqWith cfg o dtqid data m).map Obj.core) := by
  refine .checkObj fun hl => ?_
  simp only [List.mem_cons, List.not_mem_nil, or_false, forall_eq_or_imp, forall_eq] at hl
  simp only
  split
  · exact .err ..
  · rename_i hex
    split
    · rename_i r hr
      rw [Obj.ok_core]
      exact .ok (ctxMode_unl hl.1) (moves_sendData hR hr) _
    · split
      · exact .err ..
      · rename_i hp
        have hp := Bool.eq_false_iff.2 hp
        exact .wait (.waitWobj h hl.1 hl.2.2 hp hW (Bool.eq_false_iff.2 hex) (by decide) hS _ nofun)
          (ctxMode_sense hl.1 hp)

theorem effect_fsndDtq (o : Obj DTQCB) (ctx : Ctx) (dtqid : ID) (data : IntPtr)
    (hR : P (.RDTQ, index dtqid)) :
    Effect cfg S P R o.core ((fsndDtqWith cfg o ctx dtqid data).map Obj.core) := by
  refine .checkObj fun hl => ?_
  simp only [List.mem_cons, List.not_mem_nil, or_false, forall_eq_or_imp, forall_eq] at hl
  simp only
  split
  · exact .err ..
  · split
    · exact .err ..
    · rw [Obj.ok_core]
      exact .ok hl.1 (moves_forceSendData o data hR) _

theorem ctxMode_tsk {c : Core} {m : WaitMode} (h : c.ctxMode m = true) (hm : m.ctx = .tsk) :
    c.senseContext = false := by
  have hu := ctxMode_unl h
  rw [hm] at hu
  exact ctxUnl_tsk hu

theorem effect_rcvDtq {o : Obj DTQCB} (h : CallPre cfg o.core) (dtqid : ID) {m : WaitMode}
    (hm : m.ctx = .tsk) (hS : P (.SDTQ, index dtqid)) (hR : P (.RDTQ, index dtqid))
    (hW : m.polls = false → S.waits) :
    Effect cfg S P R o.core ((rcvDtqWith cfg o dtqid m).map Obj.core) := by
  refine .checkObj fun hl => ?_
  simp only [List.mem_cons, List.not_mem_nil, or_false, forall_eq_or_imp, forall_eq] at hl
  simp only
  split
  · exact .err ..
  · rename_i hex
    split
    · rename_i r hr
      rw [Obj.ok_core]
      exact .ok_tsk (moves_receiveData hS hr) (fun _ => ctxMode_tsk hl.1 hm) _
    · split
      · exact .err ..
      · rename_i hp
        have hp := Bool.eq_false_iff.2 hp
        exact .wait (.waitReceive h hl.1 hl.2.2 hp hW (Bool.eq_false_iff.2 hex) (.inl rfl) hR)
          (ctxMode_sense hl.1 hp)

theorem effect_iniDtq (o : Obj DTQCB) (dtqid : ID) (hI : S.init (.SDTQ, index dtqid))
    (hI' : S.init (.RDTQ, index dtqid)) :
    Effect cfg S P R o.core ((iniDtq cfg o dtqid).map Obj.core) := by
  refine .checkObj fun hl => ?_
  simp only [List.mem_cons, List.not_mem_nil, or_false, forall_eq_or_imp, forall_eq] at hl
  simp only
  split
  · exact .err ..
  · rw [Obj.ok_core]
    exact .ok hl.1 (.init2 hI hI') _

theorem effect_acrePdq {o : Obj PDQCB} (h : CoreInv cfg noD o.core) (pk : PDQINIB) (mem : Addr)
    (hK : S.kinds (.wobj .SPDQ)) (hM : S.mem) :
    Effect cfg S P R o.core ((acrePdq cfg o pk mem).map Obj.core) := by
  refine .checkObj fun hl => ?_
  simp only [List.mem_cons, List.not_mem_nil, or_false, forall_eq_or_imp, forall_eq] at hl
  split
  · exact .err ..
  · rename_i i c ht
    simp only
    have hm : Moves cfg S P R _ false _ := Moves.malloc hM o.core
      (pk.pdqcnt ≠ 0 ∧ pk.pPdqmb = 0) (sizeofPDQMB * BitVec.ofNat 32 pk.pdqcnt) mem
    have ht := takeWobj_malloc ht (pk.pdqcnt ≠ 0 ∧ pk.pPdqmb = 0)
      (sizeofPDQMB * BitVec.ofNat 32 pk.pdqcnt) mem
    have ha := ATR.ne_noexs_ite TA_MBALLOC (b := pk.pdqcnt ≠ 0 ∧ pk.pPdqmb = 0) hl.2.1
      (by decide) (by decide)
    generalize (if pk.pdqcnt ≠ 0 ∧ pk.pPdqmb = 0 then c.kernelMalloc _ mem else c) = c1 at ht ⊢
    generalize (if pk.pdqcnt ≠ 0 ∧ pk.pPdqmb = 0 then pk.pdqatr ||| TA_MBALLOC else pk.pdqatr) =
      atr at ha ⊢
    generalize (if pk.pdqcnt ≠ 0 ∧ pk.pPdqmb = 0 then mem else pk.pPdqmb) = area
    split
    · exact .err ..
    · rw [initQueue_new (hm.coreInv h) (f := .SPDQ) rfl ht _ rfl]
      exact .value (hm.after (Moves.create (q := (.SPDQ, i)) rfl nofun ht ha hK)) _

theorem effect_delPdq {o : Obj PDQCB} (h : CoreInv cfg noD o.core) (pdqid : ID)
    (hK : S.kinds (.wobj .SPDQ)) (hI : S.init (.SPDQ, index pdqid))
    (hI' : S.init (.RPDQ, index pdqid)) (hM : S.mem) :
    Effect cfg S P R o.core ((delPdq cfg o pdqid).map Obj.core) := by
  refine effect_delWobj2 (f := .SPDQ) h pdqid ?_ rfl nofun hK hI hI' hM _
  rintro ⟨f, j⟩ hr
  cases f <;> cases hr
  · exact .inr rfl
  · exact .inl rfl

theorem moves_sendPridata {o : Obj PDQCB} (hP : P (.RPDQ, i))
    (hr : sendPridata o i data datapri = some r) : Moves cfg S P R o.core r.2 r.1.core := by
  unfold sendPridata at hr
  simp only at hr
  split at hr
  · rename_i t ht
    cases hr
    exact .complete ht hP rfl
  · split at hr
    · cases hr
      exact .refl
    · cases hr

theorem moves_receivePridata {o : Obj PDQCB} (hP : P (.SPDQ, i))
    (hr : receivePridata o i = some r) : Moves cfg S P R o.core r.2.2 r.1.core := by
  unfold receivePridata at hr
  simp only at hr
  split at hr
  · split at hr
    · rename_i t ht
      cases hr
      exact .complete' ht hP
    · cases hr
      exact .refl
  · split at hr
    · rename_i t ht
      cases hr
      exact .complete' ht hP
    · cases hr

theorem effect_sndPdq {o : Obj PDQCB} (h : CallPre cfg o.core) (pdqid : ID) (data : IntPtr)
    (datapri : PRI) (m : WaitMode) (hS : P (.SPDQ, index pdqid)) (hR : P (.RPDQ, index pdqid))
    (hW : m.polls = false → S.waits) :
    Effect cfg S P R o.core ((sndPdqWith cfg o pdqid data datapri m).map Obj.core) := by
  refine .checkObj fun hl => ?_
  simp only [List.mem_cons, List.not_mem_nil, or_false, forall_eq_or_imp, forall_eq] at hl
  simp only
  split
  · exact .err ..
  · rename_i hex
    split
    · exact .err ..
    · split
      · rename_i r hr
        rw [Obj.ok_core]
        exact .ok (ctxMode_unl hl.1) (moves_sendPridata hR hr) _
      · split
        · exact .err ..
        · rename_i hp
          have hp := Bool.eq_false_iff.2 hp
          exact .wait (.waitWobj h hl.1 hl.2.2.1 hp hW (Bool.eq_false_iff.2 hex) (by decide) hS _
            nofun) (ctxMode_sense hl.1 hp)

theorem effect_rcvPdq {o : Obj PDQCB} (h : CallPre cfg o.core) (pdqid : ID) {m : WaitMode}
    (hm : m.ctx = .tsk) (hS : P (.SPDQ, index pdqid)) (hR : P (.RPDQ, index pdqid))
    (hW : m.polls = false → S.waits) :
    Effect cfg S P R o.core ((rcvPdqWith cfg o pdqid m).map Obj.core) := by
  refine .checkObj fun hl => ?_
  simp only [List.mem_cons, List.not_mem_nil, or_false, forall_eq_or_imp, forall_eq] at hl
  simp only
  split
  · exact .err ..
  · rename_i hex
    split
    · rename_i r hr
      rw [Obj.ok_core]
      exact .ok_tsk (moves_receivePridata hS hr) (fun _ => ctxMode_tsk hl.1 hm) _
    · split
      · exact .err ..
      · rename_i hp
        have hp := Bool.eq_false_iff.2 hp
        exact .wait (.waitReceive h hl.1 hl.2.2 hp hW (Bool.eq_false_iff.2 hex) (.inr rfl) hR)
          (ctxMode_sense hl.1 hp)

theorem effect_iniPdq (o : Obj PDQCB) (pdqid : ID) (hI : S.init (.SPDQ, index pdqid))
    (hI' : S.init (.RPDQ, index pdqid)) :
    Effect cfg S P R o.core ((iniPdq cfg o pdqid).map Obj.core) := by
  refine .checkObj fun hl => ?_
  simp only [List.mem_cons, List.not_mem_nil, or_false, forall_eq_or_imp, forall_eq] at hl
  simp only
  split
  · exact .err ..
  · rw [Obj.ok_core]
    exact .ok hl.1 (.init2 hI hI') _

/-- The core that the calls of mailboxes see. -/
def MbxObj.toCore (o : MbxObj) : Core := o.toObj.core

theorem effect_acreMbx (o : MbxObj) (pk : MBXINIB) (mprihd : Addr) (hK : S.kinds (.wobj .MBX)) :
    Effect cfg S P R o.toCore ((acreMbx cfg o pk mprihd).map MbxObj.toCore) := by
  refine .checkObj fun hl => ?_
  simp only [List.mem_cons, List.not_mem_nil, or_false, forall_eq_or_imp, forall_eq] at hl
  split
  · exact .err ..
  · rename_i i c ht
    have ha := ATR.ne_noexs 0#32 hl.2.1 (by decide)
    rw [BitVec.or_zero] at ha
    exact .value (Moves.create (q := (.MBX, i)) rfl nofun ht ha hK) _

theorem effect_delMbx (o : MbxObj) (mbxid : ID) (hK : S.kinds (.wobj .MBX))
    (hI : S.init (.MBX, index mbxid)) :
    Effect cfg S P R o.toCore ((delMbx cfg o mbxid).map MbxObj.toCore) := by
  refine .checkObj fun hl => ?_
  simp only [List.mem_cons, List.not_mem_nil, or_false, forall_eq_or_imp, forall_eq] at hl
  simp only
  split
  · exact .err ..
  · rename_i hex
    split
    · rename_i hd
      rw [show Res.map MbxObj.toCore _ = _ from MbxObj.ok_core ..]
      exact .ok hl.1 (Moves.delete (q := (.MBX, index mbxid)) rfl ⟨nofun, nofun⟩ nofun
        (Bool.eq_false_iff.2 hex) (dynamic_range hl.2 hd) hK hI .refl ⟨_, _, rfl⟩) _
    · exact .err ..

theorem effect_refMbx (o : MbxObj) (mbxid : ID) :
    Effect cfg S P R o.toCore ((refMbx cfg o mbxid).map MbxObj.toCore) := by
  refine .checkObj fun hl => ?_
  simp only [List.mem_cons, List.not_mem_nil, or_false, forall_eq_or_imp, forall_eq] at hl
  simp only
  split
  · exact .err ..
  · rw [show Res.map MbxObj.toCore _ = _ from MbxObj.ok_core ..]
    exact .ok hl.1 .refl _

theorem enqueueMsgPri_core (n : Nat) (o : MbxObj) (i : Nat) (pkMsg : Addr) :
    (enqueueMsgPri n o i pkMsg).toCore = o.toCore := by
  unfold enqueueMsgPri
  simp only
  split <;> rfl

theorem effect_sndMbx (o : MbxObj) (mbxid : ID) (pkMsg : Addr) (hP : P (.MBX, index mbxid)) :
    Effect cfg S P R o.toCore ((sndMbx cfg o mbxid pkMsg).map MbxObj.toCore) := by
  refine .checkObj fun hl => ?_
  simp only [List.mem_cons, List.not_mem_nil, or_false, forall_eq_or_imp, forall_eq] at hl
  simp only
  split
  · exact .err ..
  · split
    · exact .err ..
    · split
      · rename_i t ht
        rw [show Res.map MbxObj.toCore _ = _ from MbxObj.ok_core ..]
        exact .ok hl.1 (.complete (w := { (o.core.tcb t).winfo with pkMsg := pkMsg }) ht hP rfl) _
      · split
        · rw [show Res.map MbxObj.toCore _ = _ from MbxObj.ok_core ..]
          refine .ok_tsk (b := false) ?_ nofun _
          rw [show Obj.core _ = _ from enqueueMsgPri_core ..]
          exact .refl
        · rw [show Res.map MbxObj.toCore _ = _ from MbxObj.ok_core ..]
          refine .ok_tsk (b := false) ?_ nofun _
          split <;> exact .refl

theorem effect_rcvMbx {o : MbxObj} (h : CallPre cfg o.toCore) (mbxid : ID) (m : WaitMode)
    (hP : P (.MBX, index mbxid))
    (hW : m.polls = false → S.waits) :
    Effect cfg S P R o.toCore ((rcvMbxWith cfg o mbxid m).map MbxObj.toCore) := by
  refine .checkObj fun hl => ?_
  simp only [List.mem_cons, List.not_mem_nil, or_false, forall_eq_or_imp, forall_eq] at hl
  simp only
  split
  · exact .err ..
  · rename_i hex
    split
    · rw [show Res.map MbxObj.toCore _ = _ from MbxObj.ok_core ..]
      exact .ok_tsk .refl nofun _
    · split
      · exact .err ..
      · rename_i hp
        have hp := Bool.eq_false_iff.2 hp
        exact .wait (.waitWobj h hl.1 hl.2.2 hp hW (Bool.eq_false_iff.2 hex) (by decide) hP _ nofun)
          (ctxMode_sense hl.1 hp)

theorem effect_iniMbx (o : MbxObj) (mbxid : ID) (hI : S.init (.MBX, index mbxid)) :
    Effect cfg S P R o.toCore ((iniMbx cfg o mbxid).map MbxObj.toCore) := by
  refine .checkObj fun hl => ?_
  simp only [List.mem_cons, List.not_mem_nil, or_false, forall_eq_or_imp, forall_eq] at hl
  simp only
  split
  · exact .err ..
  · rw [show Res.map MbxObj.toCore _ = _ from MbxObj.ok_core ..]
    exact .ok hl.1 (.one (.initQueue _ hI)) _

/-- The attribute of a new pool, with the marks of the areas that have been allocated. -/
theorem mpfatr_ne {atr : ATR} (h : (!atr.has (~~~TA_TPRI)) = true) (b b' : Prop) [Decidable b]
    [Decidable b'] : (if b' then (if b then atr ||| TA_MEMALLOC else atr) ||| TA_MBALLOC
      else if b then atr ||| TA_MEMALLOC else atr) ≠ TA_NOEXS := by
  split
  · split
    · rw [BitVec.or_assoc]
      exact ATR.ne_noexs _ h (by decide)
    · exact ATR.ne_noexs _ h (by decide)
  · exact ATR.ne_noexs_ite _ h (by decide) (by decide)

theorem effect_acreMpf (o : Obj MPFCB) (pk : MPFINIB) (memMpf memMb : Addr)
    (hK : S.kinds (.wobj .MPF)) (hM : S.mem) :
    Effect cfg S P R o.core ((acreMpf cfg o pk memMpf memMb).map Obj.core) := by
  refine .checkObj fun hl => ?_
  simp only [List.mem_cons, List.not_mem_nil, or_false, forall_eq_or_imp, forall_eq] at hl
  split
  · exact .err ..
  · rename_i i c ht
    simp only
    have ha := mpfatr_ne hl.2.1 (pk.mpf = 0) (pk.pMpfmb = 0)
    generalize (if pk.mpf = 0 then pk.mpfatr ||| TA_MEMALLOC else pk.mpfatr) = atr0 at ha ⊢
    generalize (if pk.pMpfmb = 0 then atr0 ||| TA_MBALLOC else atr0) = atr at ha ⊢
    generalize BitVec.ofNat 32 (cfg.target.roundMpf pk.blksz) * BitVec.ofNat 32 pk.blkcnt = size
    generalize sizeofMPFMB * BitVec.ofNat 32 pk.blkcnt = mbSize
    generalize (if pk.mpf = 0 then memMpf else pk.mpf) = mpf
    generalize (if pk.pMpfmb = 0 then memMb else pk.pMpfmb) = mb
    have h1 : Moves cfg S P R _ false _ :=
      Moves.malloc hM o.core (pk.mpf = 0) size memMpf
    have ht := takeWobj_malloc ht (pk.mpf = 0) size memMpf
    generalize (if pk.mpf = 0 then o.core.kernelMalloc size memMpf else o.core) = o1 at h1 ht ⊢
    generalize (if pk.mpf = 0 then c.kernelMalloc size memMpf else c) = c1 at ht ⊢
    have h2 := h1.after (.malloc hM _ (pk.pMpfmb = 0) mbSize memMb)
    have ht := takeWobj_malloc ht (pk.pMpfmb = 0) mbSize memMb
    generalize (if pk.pMpfmb = 0 then o1.kernelMalloc mbSize memMb else o1) = o2 at h2 ht
    generalize (if pk.pMpfmb = 0 then c1.kernelMalloc mbSize memMb else c1) = c2 at ht ⊢
    have h3 := h1.after (.free hM _ (pk.mpf = 0) mpf)
    generalize (if pk.mpf = 0 then o1.kernelFree mpf else o1) = o3 at h3 ⊢
    split
    · exact .err ..
    · split
      · exact .task h3 id nofun
      · exact .value (h2.after (Moves.create (q := (.MPF, i)) rfl nofun ht ha hK)) _

theorem effect_delMpf (o : Obj MPFCB) (mpfid : ID) (hK : S.kinds (.wobj .MPF))
    (hI : S.init (.MPF, index mpfid)) (hM : S.mem) :
    Effect cfg S P R o.core ((delMpf cfg o mpfid).map Obj.core) := by
  refine .checkObj fun hl => ?_
  simp only [List.mem_cons, List.not_mem_nil, or_false, forall_eq_or_imp, forall_eq] at hl
  simp only
  split
  · exact .err ..
  · rename_i hex
    split
    · rename_i hd
      rw [Obj.ok_core]
      generalize hatr : o.core.wobjatr (.MPF, index mpfid) = atr
      generalize hc : (o.core.initWaitQueue (.MPF, index mpfid)).1 = c1
      have h1 : Moves cfg S P R _ false _ := Moves.free hM c1 (atr.has TA_MEMALLOC = true)
        (o.cb (index mpfid)).mpf
      obtain ⟨l, ok, he⟩ := free_eq c1 (atr.has TA_MEMALLOC = true) (o.cb (index mpfid)).mpf
      rw [he] at h1 ⊢
      have h2 := h1.after (.free hM _ (atr.has TA_MBALLOC = true) (o.cb (index mpfid)).pMpfmb)
      obtain ⟨l', ok', he'⟩ := free_eq { c1 with areas := l, freeOk := ok }
        (atr.has TA_MBALLOC = true) (o.cb (index mpfid)).pMpfmb
      rw [he'] at h2 ⊢
      rw [← hc] at h2 ⊢
      exact .ok hl.1 (Moves.delete (q := (.MPF, index mpfid)) rfl ⟨nofun, nofun⟩ nofun
        (Bool.eq_false_iff.2 hex) (dynamic_range hl.2 hd) hK hI h2 ⟨_, _, rfl⟩) _
    · exact .err ..

theorem effect_getMpf {o : Obj MPFCB} (h : CallPre cfg o.core) (mpfid : ID) (m : WaitMode)
    (hP : P (.MPF, index mpfid))
    (hW : m.polls = false → S.waits) :
    Effect cfg S P R o.core ((getMpfWith cfg o mpfid m).map Obj.core) := by
  refine .checkObj fun hl => ?_
  simp only [List.mem_cons, List.not_mem_nil, or_false, forall_eq_or_imp, forall_eq] at hl
  simp only
  split
  · exact .err ..
  · rename_i hex
    split
    · rw [Obj.ok_core]
      exact .ok_tsk .refl nofun _
    · split
      · exact .err ..
      · rename_i hp
        have hp := Bool.eq_false_iff.2 hp
        exact .wait (.waitWobj h hl.1 hl.2.2 hp hW (Bool.eq_false_iff.2 hex) (by decide) hP _ nofun)
          (ctxMode_sense hl.1 hp)

theorem effect_relMpf (o : Obj MPFCB) (mpfid : ID) (blk : Addr) (hP : P (.MPF, index mpfid)) :
    Effect cfg S P R o.core ((relMpf cfg o mpfid blk).map Obj.core) := by
  refine .checkObj fun hl => ?_
  simp only [List.mem_cons, List.not_mem_nil, or_false, forall_eq_or_imp, forall_eq] at hl
  simp only
  split
  · exact .err ..
  · split
    · exact .err ..
    · split
      · rename_i t ht
        rw [Obj.ok_core]
        exact .ok hl.1 (.complete (w := { (o.core.tcb t).winfo with blk := blk }) ht hP rfl) _
      · rw [Obj.ok_core]
        exact .ok_tsk .refl nofun _

theorem effect_iniMpf (o : Obj MPFCB) (mpfid : ID) (hI : S.init (.MPF, index mpfid)) :
    Effect cfg S P R o.core ((iniMpf cfg o mpfid).map Obj.core) := by
  refine .checkObj fun hl => ?_
  simp only [List.mem_cons, List.not_mem_nil, or_false, forall_eq_or_imp, forall_eq] at hl
  simp only
  split
  · exact .err ..
  · rw [Obj.ok_core]
    exact .ok hl.1 (.one (.initQueue _ hI)) _

/-- Where the attributes of new objects are those of objects that exist, so is this one. -/
theorem effect_acreMtx (c : Core) (mtxatr : ATR) (ceilpri : PRI) (hA : S.attr → mtxatr ≠ TA_NOEXS)
    (hK : S.kinds (.wobj .MTX)) :
    Effect cfg S P R c (c.acreMtx cfg mtxatr ceilpri) := by
  refine .check fun _ => ?_
  split
  · exact .err ..
  · rename_i m c' ht
    simp only
    obtain ⟨l, _, rfl⟩ := takeWobj_eq ht
    exact .value (.one (.newMtx ht hA hK)) _

/-- Where no mutex is deleted that a task holds, the mutex must not be locked. -/
theorem effect_delMtx (c : Core) (mtxid : ID)
    (hS : S.unlocked → cfg.mtx.valid mtxid = true → c.noWobj (.MTX, index mtxid) = false →
      cfg.mtx.dynamic (index mtxid) = true → (c.mtxcb (index mtxid)).pLoctsk = none)
    (hK : S.kinds (.wobj .MTX)) (hI : S.init (.MTX, index mtxid)) :
    Effect cfg S P R c (c.delMtx cfg mtxid) := by
  refine .check fun hl => ?_
  simp only [List.mem_cons, List.not_mem_nil, or_false, forall_eq_or_imp, forall_eq] at hl
  simp only
  split
  · exact .err ..
  · rename_i hex
    have hex := Bool.eq_false_iff.2 hex
    split
    · rename_i hdyn
      have hloc := local_initWaitQueue c (.MTX, index mtxid)
      have h1 : Moves cfg S P R c _ _ := .one (.initQueue (.MTX, index mtxid) hI)
      have h2 := h1.step (.freeMtx (initWaitQueue_queue _ _) (by rw [hloc.noWobj]; exact hex)
        (fun h => by
          obtain ⟨_, _, _, _, he⟩ := hloc
          rw [he]
          exact hS h hl.2 hex hdyn) (dynamic_range hl.2 hdyn) hK)
      rw [Bool.or_false] at h2
      exact .ok hl.1 h2 _
    · exact .err ..

theorem effect_locMtx {c : Core} (h : CallPre cfg c) (mtxid : ID) {m : WaitMode}
    (hm : m.ctx = .tsk) (hP : P (.MTX, index mtxid))
    (hW : m.polls = false → S.waits) :
    Effect cfg S P R c (c.locMtxWith cfg mtxid m) := by
  refine .check fun hl => ?_
  simp only [List.mem_cons, List.not_mem_nil, or_false, forall_eq_or_imp, forall_eq] at hl
  have hc := ctxMode_tsk hl.1 hm
  simp only
  split
  · exact .err ..
  · rename_i hex
    have hex := Bool.eq_false_iff.2 hex
    split
    · exact .err ..
    · rename_i hil
      split
      · rename_i hn
        have hlock : Moves cfg S P R c false (c.lock c.runtsk (index mtxid)) :=
          .one (.lock (h.runtsk hc) (h.runtsk_runnable hc) (h.settled hc) hn hil hex hP)
        exact .ok_tsk hlock nofun _
      · rename_i hn
        split
        · exact .err ..
        · split
          · exact .err ..
          · rename_i hp
            exact .wait (.waitWobj h hl.1 hl.2.2 (Bool.eq_false_iff.2 hp) hW hex (by decide) hP _
              fun _ => ⟨hn, hil⟩) hc

theorem effect_unlMtx {c : Core} (h : CallPre cfg c) (mtxid : ID)
    (hP : P (.MTX, index mtxid)) :
    Effect cfg S P R c (c.unlMtx cfg mtxid) := by
  refine .check fun hl => ?_
  simp only [List.mem_cons, List.not_mem_nil, or_false, forall_eq_or_imp, forall_eq] at hl
  have hc := ctxUnl_tsk hl.1
  simp only
  split
  · exact .err ..
  · split
    · exact .err ..
    · rename_i hn
      have hun : Moves cfg S P R c (c.unlock c.runtsk (index mtxid)).2
          (c.unlock c.runtsk (index mtxid)).1 := .one (.unlock (h.runtsk hc)
          (h.runtsk_runnable hc) (not_not.1 hn) hP)
      exact .ok hl.1 hun _

theorem effect_iniMtx (c : Core) (mtxid : ID)
    (hR : ∀ t, (c.mtxcb (index mtxid)).pLoctsk = some t → R t) (hI : S.init (.MTX, index mtxid)) :
    Effect cfg S P R c (c.iniMtx cfg mtxid) := by
  refine .check fun hl => ?_
  simp only [List.mem_cons, List.not_mem_nil, or_false, forall_eq_or_imp, forall_eq] at hl
  have h1 : Moves cfg S P R c _ _ := .one (.initQueue (.MTX, index mtxid) hI)
  simp only
  split
  · exact .ok hl.1 h1 _
  · rename_i t hn
    have hR : R t := by
      obtain ⟨_, _, _, _, he⟩ := local_initWaitQueue c (.MTX, index mtxid)
      rw [he] at hn
      exact hR t hn
    exact .ok hl.1 (h1.step (.disown hR hn (initWaitQueue_queue _ _))) _

theorem Core.setCyc_cyccb (c : Core) (i : Nat) (p : CYCCB) : (c.setCyc i p).cyccb i = p :=
  Function.update_self ..

theorem Core.cycStart_setCyc {c : Core} (p : CYCCB) (hp : p.cycphs = (c.cyccb i).cycphs) :
    (c.setCyc i p).cycStart i = c.cycStart i := by
  unfold Core.cycStart
  rw [Core.setCyc_cyccb, hp]
  rfl

/-- The start of a handler that runs already is a stop and a start. -/
theorem restartCyc_eq {c : Core} (hs : (c.cyccb i).cycsta = true) :
    (({ c with tm := c.tm.tmevtbDequeue (.cyc i) } : Core).tmevtbEnqueueCyc i
      (({ c with tm := c.tm.tmevtbDequeue (.cyc i) } : Core).cycStart i)) =
    ((c.stopCyc i).setCyc i { (c.stopCyc i).cyccb i with cycsta := true }).tmevtbEnqueueCyc i
      ((c.stopCyc i).cycStart i) := by
  have he : c.stopCyc i = { c.setCyc i { c.cyccb i with cycsta := false } with
      tm := c.tm.tmevtbDequeue (.cyc i) } := if_pos hs
  have hc : (c.stopCyc i).cyccb i = { c.cyccb i with cycsta := false } := by
    rw [he]
    exact c.setCyc_cyccb i _
  have hst : (c.stopCyc i).cycStart i =
      ({ c with tm := c.tm.tmevtbDequeue (.cyc i) } : Core).cycStart i := by
    rw [he]
    exact Core.cycStart_setCyc (c := { c with tm := c.tm.tmevtbDequeue (.cyc i) }) _ rfl
  have hp : { (c.stopCyc i).cyccb i with cycsta := true } = c.cyccb i := by
    rw [hc, ← hs]
  rw [hst, hp, he]
  unfold Core.tmevtbEnqueueCyc Core.setCyc
  simp only [Function.update_idem, Function.update_self]

theorem effect_acreCyc {c : Core} (h : CoreInv cfg noD c) (pk : CYCINIB) (cychdr : Addr)
    (hK : S.kinds .cyc) (hC : ∀ i ∈ c.freeCyccb, S.cyc i) :
    Effect cfg S P R c (c.acreCyc cfg pk cychdr) := by
  refine .check fun hl => ?_
  simp only [List.mem_cons, List.not_mem_nil, or_false, forall_eq_or_imp, forall_eq] at hl
  have ht : 0 < pk.cyctim ∧ pk.cyctim ≤ TMAX_RELTIM := of_decide_eq_true hl.2.2.2.2.1
  have hp : pk.cycphs ≤ TMAX_RELTIM := of_decide_eq_true hl.2.2.2.2.2
  split
  · exact .err ..
  · rename_i i l hf
    split
    · exact .err ..
    · simp only
      let p : CYCCB := ⟨pk.cycatr, pk.cyctim, pk.cycphs, false, (c.cyccb i).evttim⟩
      let c1 := Core.setCyc { c with freeCyccb := l } i p
      have ha := ATR.ne_noexs 0#32 hl.2.1 (by decide)
      rw [BitVec.or_zero] at ha
      have h1 : Moves cfg S P R c false c1 := .one (.newCyc hf ht hp ha hK)
      have hc1 : c1.cyccb i = p := Core.setCyc_cyccb { c with freeCyccb := l } i p
      obtain ⟨_, hr, hn, _⟩ := h.newCyc hf p rfl
      split
      · rename_i hs
        have h2 := h1.step (.startCyc (i := i) hn hr (congrArg CYCCB.cycsta hc1)
          (hC i (hf ▸ List.mem_cons_self ..)))
        have he : c1.setCyc i { c1.cyccb i with cycsta := true } =
            Core.setCyc { c with freeCyccb := l } i { p with cycsta := true } := by
          rw [hc1]
          unfold c1 Core.setCyc
          simp only [Function.update_idem]
        rw [he, ← Core.cycStart_setCyc (c := c1) { c1.cyccb i with cycsta := true } rfl, he] at h2
        rw [hs]
        exact .value h2 _
      · rename_i hs
        rw [Bool.eq_false_iff.2 hs]
        exact .value h1 _

theorem noCyc_stopCyc (c : Core) (i : Nat) : (c.stopCyc i).noCyc i = c.noCyc i := by
  unfold Core.stopCyc
  split
  · unfold Core.noCyc
    rw [show Core.cyccb _ _ = _ from c.setCyc_cyccb ..]
  · rfl

theorem effect_delCyc {c : Core} (h : CoreInv cfg noD c) (cycid : ID) (hK : S.kinds .cyc)
    (hC : S.cyc (index cycid)) :
    Effect cfg S P R c (c.delCyc cfg cycid) := by
  refine .check fun hl => ?_
  simp only [List.mem_cons, List.not_mem_nil, or_false, forall_eq_or_imp, forall_eq] at hl
  simp only
  split
  · exact .err ..
  · rename_i hex
    split
    · rename_i hd
      have hn := notFree_cyc h (Bool.eq_false_iff.2 hex)
      have h1 : Moves cfg S P R c false (c.stopCyc (index cycid)) := .one (.stopCyc hC)
      have h2 := h1.step (.delCyc (i := index cycid) ?_ (ObjNum.valid_index hl.2).1 ?_ hd hK ?_ hC)
      · exact .ok hl.1 h2 _
      · unfold Core.stopCyc
        split <;> exact hn
      · unfold Core.stopCyc
        split
        · rw [show Core.cyccb _ _ = _ from c.setCyc_cyccb ..]
        · rename_i hs
          exact Bool.eq_false_iff.2 hs
      · rw [noCyc_stopCyc]
        exact Bool.eq_false_iff.2 hex
    · exact .err ..

theorem effect_staCyc {c : Core} (h : CoreInv cfg noD c) (cycid : ID) (hC : S.cyc (index cycid)) :
    Effect cfg S P R c (c.staCyc cfg cycid) := by
  refine .check fun hl => ?_
  simp only [List.mem_cons, List.not_mem_nil, or_false, forall_eq_or_imp, forall_eq] at hl
  simp only
  split
  · exact .err ..
  · rename_i hex
    have hn := notFree_cyc h (Bool.eq_false_iff.2 hex)
    have hr := (ObjNum.valid_index hl.2).1
    split
    · rename_i hs
      have h1 : Moves cfg S P R c false (c.stopCyc (index cycid)) := .one (.stopCyc hC)
      have h2 := h1.step (.startCyc (i := index cycid) ?_ hr ?_ hC)
      · rw [← restartCyc_eq hs] at h2
        exact .ok hl.1 h2 _
      · rw [show c.stopCyc (index cycid) = _ from if_pos hs]
        exact hn
      · rw [show c.stopCyc (index cycid) = _ from if_pos hs,
          show Core.cyccb _ _ = _ from c.setCyc_cyccb ..]
    · rename_i hs
      have h1 : Moves cfg S P R c false _ := .one (.startCyc hn hr (Bool.eq_false_iff.2 hs) hC)
      rw [← Core.cycStart_setCyc { c.cyccb (index cycid) with cycsta := true } rfl] at h1
      exact .ok hl.1 h1 _

theorem effect_stpCyc (c : Core) (cycid : ID) (hC : S.cyc (index cycid)) :
    Effect cfg S P R c (c.stpCyc cfg cycid) := by
  refine .check fun hl => ?_
  simp only [List.mem_cons, List.not_mem_nil, or_false, forall_eq_or_imp, forall_eq] at hl
  simp only
  split
  · exact .err ..
  · exact .ok hl.1 (.one (.stopCyc hC)) _

theorem Core.setAlm_almcb (c : Core) (i : Nat) (p : ALMCB) : (c.setAlm i p).almcb i = p :=
  Function.update_self ..

theorem restartAlm_eq {c : Core} (hs : (c.almcb i).almsta = true) (time : RELTIM) :
    ({ c with tm := (c.tm.tmevtbDequeue (.alm i)).tmevtbEnqueue (.alm i) time .callAlmhdr } : Core) =
    { (c.stopAlm i).setAlm i { (c.stopAlm i).almcb i with almsta := true } with
      tm := (c.stopAlm i).tm.tmevtbEnqueue (.alm i) time .callAlmhdr } := by
  have he : c.stopAlm i = { c.setAlm i { c.almcb i with almsta := false } with
      tm := c.tm.tmevtbDequeue (.alm i) } := if_pos hs
  have hc : (c.stopAlm i).almcb i = { c.almcb i with almsta := false } := by
    rw [he]
    exact c.setAlm_almcb i _
  have hp : { (c.stopAlm i).almcb i with almsta := true } = c.almcb i := by
    rw [hc, ← hs]
  rw [hp, he]
  unfold Core.setAlm
  simp only [Function.update_idem, Function.update_eq_self]

theorem effect_acreAlm (c : Core) (almatr : ATR) (almhdr : Addr) (hK : S.kinds .alm) :
    Effect cfg S P R c (c.acreAlm cfg almatr almhdr) := by
  refine .check fun hl => ?_
  simp only [List.mem_cons, List.not_mem_nil, or_false, forall_eq_or_imp, forall_eq] at hl
  split
  · exact .err ..
  · rename_i i l hf
    split
    · exact .err ..
    · have ha := ATR.ne_noexs 0#32 hl.2.1 (by decide)
      rw [BitVec.or_zero] at ha
      exact .value (.one (.newAlm hf ha hK)) _

theorem noAlm_stopAlm (c : Core) (i : Nat) : (c.stopAlm i).noAlm i = c.noAlm i := by
  unfold Core.stopAlm
  split
  · unfold Core.noAlm
    rw [show Core.almcb _ _ = _ from c.setAlm_almcb ..]
  · rfl

theorem effect_delAlm {c : Core} (h : CoreInv cfg noD c) (almid : ID) (hK : S.kinds .alm) :
    Effect cfg S P R c (c.delAlm cfg almid) := by
  refine .check fun hl => ?_
  simp only [List.mem_cons, List.not_mem_nil, or_false, forall_eq_or_imp, forall_eq] at hl
  simp only
  split
  · exact .err ..
  · rename_i hex
    split
    · rename_i hd
      have hn := notFree_alm h (Bool.eq_false_iff.2 hex)
      have h1 : Moves cfg S P R c false (c.stopAlm (index almid)) := .one (.stopAlm _)
      have h2 := h1.step (.delAlm (i := index almid) ?_ (ObjNum.valid_index hl.2).1 ?_ hd hK ?_)
      · exact .ok hl.1 h2 _
      · unfold Core.stopAlm
        split <;> exact hn
      · unfold Core.stopAlm
        split
        · rw [show Core.almcb _ _ = _ from c.setAlm_almcb ..]
        · rename_i hs
          exact Bool.eq_false_iff.2 hs
      · rw [noAlm_stopAlm]
        exact Bool.eq_false_iff.2 hex
    · exact .err ..

theorem effect_staAlm {c : Core} (h : CoreInv cfg noD c) (ctx : Ctx) (almid : ID)
    (almtim : RELTIM) : Effect cfg S P R c (c.staAlmWith cfg ctx almid almtim) := by
  refine .check fun hl => ?_
  simp only [List.mem_cons, List.not_mem_nil, or_false, forall_eq_or_imp, forall_eq] at hl
  have ht : almtim ≤ TMAX_RELTIM := of_decide_eq_true hl.2.2
  simp only
  split
  · exact .err ..
  · rename_i hex
    have hn := notFree_alm h (Bool.eq_false_iff.2 hex)
    have hr := (ObjNum.valid_index hl.2.1).1
    split
    · rename_i hs
      have h1 : Moves cfg S P R c false (c.stopAlm (index almid)) := .one (.stopAlm _)
      have h2 := h1.step (.startAlm (i := index almid) ?_ hr ?_ ht)
      · rw [← restartAlm_eq hs] at h2
        exact .ok hl.1 h2 _
      · rw [show c.stopAlm (index almid) = _ from if_pos hs]
        exact hn
      · rw [show c.stopAlm (index almid) = _ from if_pos hs,
          show Core.almcb _ _ = _ from c.setAlm_almcb ..]
    · rename_i hs
      exact .ok hl.1 (.one (.startAlm hn hr (Bool.eq_false_iff.2 hs) ht)) _

theorem effect_stpAlm (c : Core) (ctx : Ctx) (almid : ID) :
    Effect cfg S P R c (c.stpAlmWith cfg ctx almid) := by
  refine .check fun hl => ?_
  simp only [List.mem_cons, List.not_mem_nil, or_false, forall_eq_or_imp, forall_eq] at hl
  simp only
  split
  · exact .err ..
  · exact .ok hl.1 (.one (.stopAlm _)) _

end

end AspKernel
