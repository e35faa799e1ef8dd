import AspKernel.Serve

namespace AspKernel
set_option autoImplicit true

/-- What holds of an event flag that exists: no task waits although its condition holds, nor without
a pattern, and only one waits where the attribute does not allow several. -/
structure FlgInv (k : Kernel) (i : Nat) : Prop where
  cond : ∀ t ∈ k.core.sched.queue (.wait (.FLG, i)),
    flgCond (k.flg i).flgptn (k.core.tcb t).winfo.waiptn (k.core.tcb t).winfo.wfmode = false
  waiptn : ∀ t ∈ k.core.sched.queue (.wait (.FLG, i)), (k.core.tcb t).winfo.waiptn ≠ 0
  single : (k.core.wobjatr (.FLG, i)).has TA_WMUL = false →
    (k.core.sched.queue (.wait (.FLG, i))).length ≤ 1

theorem flgCond_zero (h : waiptn ≠ 0) (wfmode : MODE) : flgCond 0 waiptn wfmode = false := by
  have hz : (0 : FLGPTN) &&& waiptn = 0 := BitVec.zero_and
  unfold flgCond
  rw [hz]
  split
  · rfl
  · exact beq_false_of_ne (Ne.symm h)

/-- A condition that does not hold does not come to hold where bits of the flag are cleared. -/
theorem flgCond_and (h : flgCond flgptn waiptn wfmode = false) (clrptn : FLGPTN) :
    flgCond (flgptn &&& clrptn) waiptn wfmode = false := by
  have he : (flgptn &&& clrptn) &&& waiptn = (flgptn &&& waiptn) &&& clrptn := by
    rw [BitVec.and_assoc, BitVec.and_comm clrptn, ← BitVec.and_assoc]
  unfold flgCond at h ⊢
  rw [he]
  split at h
  · rename_i hm
    rw [if_pos hm]
    have hz : flgptn &&& waiptn = 0 := bne_eq_false_iff_eq.1 h
    rw [hz, show (0 : FLGPTN) &&& clrptn = 0 from BitVec.zero_and]
    rfl
  · rename_i hm
    rw [if_neg hm]
    refine beq_false_of_ne fun hw => beq_eq_false_iff_ne.1 h ?_
    ext j hj
    have hb := congrArg (fun x : FLGPTN => x[j]) hw
    simp only [BitVec.getElem_and] at hb ⊢
    cases h1 : flgptn[j] <;> cases h2 : waiptn[j] <;> cases h3 : clrptn[j] <;>
      simp only [h1, h2, h3] at hb ⊢ <;> first | rfl | cases hb

theorem setFlgLoop_ptn (flgatr : ATR) (l : List Nat) (c : Core) (flgptn : FLGPTN) :
    (setFlgLoop flgatr l c flgptn).2.1 = flgptn ∨ (setFlgLoop flgatr l c flgptn).2.1 = 0 := by
  induction l generalizing c with
  | nil => exact .inl rfl
  | cons t l ih =>
    unfold setFlgLoop
    simp only
    split
    · split
      · rename_i hclr
        exact .inr (if_pos hclr)
      · rename_i hclr
        rw [show clearFlg flgatr flgptn = flgptn from if_neg hclr]
        exact ih _
    · exact ih c

theorem serveFlg_queue (c : Core) (t : Nat) (flgptn : FLGPTN) (q : WQueue) :
    (c.serveFlg t flgptn).sched.queue (.wait q) = (c.sched.queue (.wait q)).erase t := by
  unfold Core.serveFlg Core.waitComplete
  rw [makeNonWait_queue]
  change (((c.setWinfo t _).queueDelete t).waitDequeueTmevtb t).sched.queue (.wait q) = _
  rw [waitDequeueTmevtb_sched]
  rfl

/-- After the loop of `set_flg`, the condition of no task of the list that still waits holds. -/
theorem setFlgLoop_inv (flgatr : ATR) {l : List Nat} (c : Core) (flgptn : FLGPTN) {q : WQueue}
    (hn : l.Nodup) (hq : (c.sched.queue (.wait q)).Nodup)
    (hw : ∀ u ∈ l, (c.tcb u).winfo.waiptn ≠ 0) :
    (∀ u ∈ (setFlgLoop flgatr l c flgptn).1.sched.queue (.wait q), u ∈ c.sched.queue (.wait q) ∧
      ((setFlgLoop flgatr l c flgptn).1.tcb u).winfo = (c.tcb u).winfo) ∧
    ∀ u ∈ l, u ∈ (setFlgLoop flgatr l c flgptn).1.sched.queue (.wait q) →
      flgCond (setFlgLoop flgatr l c flgptn).2.1 (c.tcb u).winfo.waiptn (c.tcb u).winfo.wfmode =
        false := by
  induction l generalizing c with
  | nil => exact ⟨fun u hu => ⟨hu, rfl⟩, nofun⟩
  | cons t l ih =>
    obtain ⟨ht, hn⟩ := List.nodup_cons.1 hn
    have hw' (u : Nat) (hu : u ∈ l) : (c.tcb u).winfo.waiptn ≠ 0 := hw u (List.mem_cons_of_mem _ hu)
    have hs (u : Nat) (hu : u ≠ t) : (c.serveFlg t flgptn).tcb u = c.tcb u := by
      rw [serveFlg_tcb, Function.update_of_ne hu]
    have hsq (u : Nat) (hu : u ∈ (c.serveFlg t flgptn).sched.queue (.wait q)) :
        u ≠ t ∧ u ∈ c.sched.queue (.wait q) := by
      rw [serveFlg_queue] at hu
      exact (hq.mem_erase_iff).1 hu
    unfold setFlgLoop
    simp only
    split
    · rw [show (((c.setWinfo t _).queueDelete t).waitComplete t).1 = c.serveFlg t flgptn from rfl]
      split
      · rename_i hclr
        rw [show clearFlg flgatr flgptn = 0 from if_pos hclr]
        refine ⟨fun u hu => ?_, fun u hu _ => flgCond_zero (hw u hu) _⟩
        obtain ⟨hne, hm⟩ := hsq u hu
        exact ⟨hm, by rw [hs u hne]⟩
      · rename_i hclr
        rw [show clearFlg flgatr flgptn = flgptn from if_neg hclr]
        have hl (u : Nat) (hu : u ∈ l) : u ≠ t := by
          rintro rfl
          exact ht hu
        obtain ⟨h1, h2⟩ := ih (c.serveFlg t flgptn) hn (serveFlg_queue c t flgptn q ▸ hq.erase t)
          fun u hu => by
            rw [hs u (hl u hu)]
            exact hw' u hu
        refine ⟨fun u hu => ?_, fun u hu hin => ?_⟩
        · obtain ⟨hm, he⟩ := h1 u hu
          obtain ⟨hne, hm⟩ := hsq u hm
          exact ⟨hm, by rw [he, hs u hne]⟩
        · rcases List.mem_cons.1 hu with rfl | hu
          · exact absurd rfl (hsq u (h1 u hin).1).1
          · have hc := h2 u hu hin
            rwa [hs u (hl u hu)] at hc
    · rename_i hcond
      obtain ⟨h1, h2⟩ := ih c hn hq hw'
      refine ⟨h1, fun u hu hin => ?_⟩
      rcases List.mem_cons.1 hu with rfl | hu
      · rcases setFlgLoop_ptn flgatr l c flgptn with he | he
        · rw [he]
          exact Bool.eq_false_iff.2 hcond
        · rw [he]
          exact flgCond_zero (hw u (List.mem_cons_self ..)) _
      · exact h2 u hu hin

/-- What a call does that names an event flag: its code, and the state after it. -/
inductive FlgCall (k : Kernel) (call : Call) (id : ID) : Kernel → Prop
  | same (ha : k.core.Alike k'.core) (hs : k'.flg = k.flg) : FlgCall k call id k'
  | set (ha : (setFlgLoop (k.core.wobjatr (.FLG, index id))
      (k.core.sched.queue (.wait (.FLG, index id))) k.core ptn).1.Alike k'.core)
    (hs : k'.flg = Function.update k.flg (index id) { k.flg (index id) with
      flgptn := (setFlgLoop (k.core.wobjatr (.FLG, index id))
        (k.core.sched.queue (.wait (.FLG, index id))) k.core ptn).2.1 }) : FlgCall k call id k'
  | clear (ha : k.core.Alike k'.core) (hs : k'.flg = Function.update k.flg (index id)
      { k.flg (index id) with flgptn := (k.flg (index id)).flgptn &&& ptn }) :
    FlgCall k call id k'
  | wait (hw : w.waiptn ≠ 0) (hc : flgCond (k.flg (index id)).flgptn w.waiptn w.wfmode = false)
    (hm : (k.core.wobjatr (.FLG, index id)).has TA_WMUL = true ∨
      k.core.headTsk (.FLG, index id) = none)
    (hb : Blocks (.FLG, index id) t w k.core k'.core) (hs : k'.flg = k.flg) :
    FlgCall k call id k'
  | empty (hq : k'.core.sched.queue (.wait (.FLG, index id)) = [])
    (hs : ∀ i ≠ index id, k'.flg i = k.flg i) : FlgCall k call id k'

section
variable {cfg : Cfg} {k k' : Kernel} {call : Call} {id : ID}

theorem clearFlg_eq (flgatr : ATR) (flgptn : FLGPTN) :
    clearFlg flgatr flgptn = flgptn &&& if flgatr.has TA_CLR then 0 else BitVec.allOnes 32 := by
  unfold clearFlg
  split
  · exact BitVec.and_zero.symm
  · exact BitVec.and_allOnes.symm

theorem flgCall_set {ctx : Ctx} (hl : ∀ p ∈ [(k.core.ctxUnl ctx, E_CTX), (cfg.flg.valid id, E_ID)],
    p.1 = true) (setptn : FLGPTN) :
    (k.onFlg (setFlgWith cfg · ctx id setptn)).Sat fun _ => FlgCall k call id := by
  rw [show k.onFlg (setFlgWith cfg · ctx id setptn) = _ from check_map hl]
  simp only
  split
  · exact .same (.refl _) rfl
  · cases ctx with
    | tsk => exact .set (.refl _) rfl
    | int => exact .set (.request _ _) rfl

theorem flgCall_wai {m : WaitMode} {waiptn : FLGPTN} {wfmode : MODE} (h : CallPre cfg k.core)
    (hl : ∀ p ∈ [(k.core.ctxMode m, E_CTX), (cfg.flg.valid id, E_ID), (waiptn != 0, E_PAR),
      (wfmode == TWF_ORW || wfmode == TWF_ANDW, E_PAR), (m.valid, E_PAR)], p.1 = true) :
    (k.onFlg (waiFlgWith cfg · id waiptn wfmode m)).Sat fun _ => FlgCall k call id := by
  rw [show k.onFlg (waiFlgWith cfg · id waiptn wfmode m) = _ from check_map hl]
  simp only
  split
  · exact .same (.refl _) rfl
  · rename_i hex
    split
    · exact .same (.refl _) rfl
    · rename_i hm
      split
      · rw [clearFlg_eq]
        exact .clear (.refl _) rfl
      · rename_i hcond
        split
        · exact .same (.refl _) rfl
        · rename_i hp
          refine .wait (w := { WInfo.local with waiptn := waiptn, wfmode := wfmode })
            (bne_iff_ne.1 (hl _ (.tail _ (.tail _ (.head _))))) (Bool.eq_false_iff.2 hcond) ?_
            (blocks_waitWobj h (hl _ (.head _))
              (hl _ (.tail _ (.tail _ (.tail _ (.tail _ (.head _))))))
              (Bool.eq_false_iff.2 hp) (Bool.eq_false_iff.2 hex) (by decide) (by decide) _) rfl
          rw [not_and_or, not_not, Bool.not_eq_false] at hm
          exact hm

theorem flgCall_clr (hl : ∀ p ∈ (Call.clrFlg id ptn).checks cfg k.core, p.1 = true) :
    (k.onFlg (clrFlg cfg · id ptn)).Sat fun _ => FlgCall k call id := by
  rw [show k.onFlg (clrFlg cfg · id ptn) = _ from check_map hl]
  simp only
  split
  · exact .same (.refl _) rfl
  · exact .clear (.refl _) rfl

theorem flgCall_ini (hl : ∀ p ∈ (Call.iniFlg id).checks cfg k.core, p.1 = true) :
    (k.onFlg (iniFlg cfg · id)).Sat fun _ => FlgCall k call id := by
  rw [show k.onFlg (iniFlg cfg · id) = _ from check_map hl]
  simp only
  split
  · exact .same (.refl _) rfl
  · exact .empty (initWaitQueue_queue k.core _) fun i hi => Function.update_of_ne hi ..

theorem flgCall_del (hl : ∀ p ∈ (Call.delFlg id).checks cfg k.core, p.1 = true) :
    (k.onFlg (delFlg cfg · id)).Sat fun _ => FlgCall k call id := by
  rw [show k.onFlg (delFlg cfg · id) = _ from check_map hl]
  simp only
  split
  · exact .same (.refl _) rfl
  · split
    · exact .empty (initWaitQueue_queue k.core _) fun i hi => rfl
    · exact .same (.refl _) rfl

theorem flgCall_ref (hl : ∀ p ∈ (Call.refFlg id).checks cfg k.core, p.1 = true) :
    (k.onFlg (refFlg cfg · id)).Sat fun _ => FlgCall k call id := by
  rw [show k.onFlg (refFlg cfg · id) = _ from check_map hl]
  simp only
  split <;> exact .same (.refl _) rfl

theorem flgCall (h : CallPre cfg k.core) (ho : call.object = some (.wobj .FLG, id)) :
    (exec cfg k call).Sat fun _ => FlgCall k call id := by
  rcases exec_rejected cfg k call with ⟨e, he, hr⟩ | hl
  · rw [hr]
    exact .same (.refl _) rfl
  · cases call with
    | setFlg id ptn | isetFlg id ptn => cases ho; exact flgCall_set hl ptn
    | waiFlg | polFlg | twaiFlg => cases ho; exact flgCall_wai h hl
    | clrFlg => cases ho; exact flgCall_clr hl
    | iniFlg => cases ho; exact flgCall_ini hl
    | delFlg => cases ho; exact flgCall_del hl
    | refFlg => cases ho; exact flgCall_ref hl
    | _ => cases ho

theorem FlgCall.alike (h : FlgCall k call id k') {c : Core} (ha : k'.core.Alike c) :
    FlgCall k call id { k' with core := c } := by
  cases h with
  | same ha' hs => exact .same (ha'.trans ha) hs
  | set ha' hs => exact .set (ha'.trans ha) hs
  | clear ha' hs => exact .clear (ha'.trans ha) hs
  | wait hw hc hm hb hs => exact .wait hw hc hm (hb.alike ha) hs
  | empty hq hs => exact .empty (ha.sched ▸ hq) hs

theorem flgCall_step (h : RunInv cfg k.core) (hs : Step cfg k (.call call) k')
    (ho : call.object = some (.wobj .FLG, id)) : FlgCall k call id k' := by
  obtain ⟨hc, rfl⟩ := step_call hs
  rw [settle_eq]
  exact (flgCall (h.callPre hc.1) ho).alike (settle_alike _)

theorem FlgInv.rests (h : FlgInv k i) (hi' : CoreInv cfg noD k'.core) (hk : k'.flg i = k.flg i)
    (ha : k'.core.wobjatr (.FLG, i) = k.core.wobjatr (.FLG, i))
    (hr : Rests (.FLG, i) k.core k'.core) : FlgInv k' i := by
  refine ⟨fun t ht => ?_, fun t ht => ?_, fun hw => ?_⟩
  · rw [hk, (hr.mem t ht).2]
    exact h.cond t (hr.mem t ht).1
  · rw [(hr.mem t ht).2]
    exact h.waiptn t (hr.mem t ht).1
  · exact Nat.le_trans (hr.length_le hi') (h.single (ha ▸ hw))

theorem FlgInv.nil (hq : k.core.sched.queue (.wait (.FLG, i)) = []) : FlgInv k i := by
  refine ⟨fun t ht => ?_, fun t ht => ?_, fun _ => by rw [hq]; exact Nat.zero_le 1⟩ <;>
    (rw [hq] at ht; cases ht)

theorem length_le_one {l : List Nat} (hn : l.Nodup) (hl : ∀ u ∈ l, u = t) : l.length ≤ 1 :=
  (hn.subperm fun u hu => List.mem_singleton.2 (hl u hu)).length_le

/-- A call that names an event flag keeps the invariant. -/
theorem FlgCall.inv (hc : FlgCall k call id k') (hi : CoreInv cfg noD k.core)
    (hi' : CoreInv cfg noD k'.core)
    (ha' : k'.core.wobjatr (.FLG, index id) = k.core.wobjatr (.FLG, index id))
    (h : FlgInv k (index id)) : FlgInv k' (index id) := by
  cases hc with
  | same ha hs => exact h.rests hi' (by rw [hs]) ha' ((Idles.of_alike ha).rests hi _)
  | set ha hs =>
    rename_i ptn
    have hn := hi.sched.linked.nodup (.wait (.FLG, index id))
    obtain ⟨h1, h2⟩ := setFlgLoop_inv (k.core.wobjatr (.FLG, index id)) k.core ptn hn hn h.waiptn
    have hp := congrFun hs (index id)
    rw [Function.update_self] at hp
    have hq := (Idles.of_alike ha).queue (.FLG, index id)
    have hm (t : Nat) (ht : t ∈ k'.core.sched.queue (.wait (.FLG, index id))) :
        t ∈ k.core.sched.queue (.wait (.FLG, index id)) ∧
          (k'.core.tcb t).winfo = (k.core.tcb t).winfo :=
      ⟨(h1 t (hq ▸ ht)).1, (ha.winfo t).trans (h1 t (hq ▸ ht)).2⟩
    refine ⟨fun t ht => ?_, fun t ht => ?_, fun hw => ?_⟩
    · rw [hp, (hm t ht).2]
      exact h2 t (hm t ht).1 (hq ▸ ht)
    · rw [(hm t ht).2]
      exact h.waiptn t (hm t ht).1
    · refine Nat.le_trans ?_ (h.single (ha' ▸ hw))
      exact ((hi'.sched.linked.nodup _).subperm fun u hu => (hm u hu).1).length_le
  | clear ha hs =>
    have hr := (Idles.of_alike ha).rests hi (.FLG, index id)
    have hp := congrFun hs (index id)
    rw [Function.update_self] at hp
    refine ⟨fun t ht => ?_, fun t ht => ?_, fun hw => ?_⟩
    · rw [hp, (hr.mem t ht).2]
      exact flgCond_and (h.cond t (hr.mem t ht).1) _
    · rw [(hr.mem t ht).2]
      exact h.waiptn t (hr.mem t ht).1
    · exact Nat.le_trans (hr.length_le hi') (h.single (ha' ▸ hw))
  | wait hw hcond hm hb hs =>
    rename_i t w
    obtain ⟨ev, b, hself⟩ := hb.self
    have hold (u : Nat) (hu : u ∈ k.core.sched.queue (.wait (.FLG, index id))) :
        (k'.core.tcb u).winfo = (k.core.tcb u).winfo := hb.other u fun he => hb.fresh _ (he ▸ hu)
    refine ⟨fun u hu => ?_, fun u hu => ?_, fun hwm => ?_⟩
    · rcases (hb.mem _ u).1 hu with hu | ⟨_, rfl⟩
      · rw [hs, hold u hu]
        exact h.cond u hu
      · rw [hs, hself]
        exact hcond
    · rcases (hb.mem _ u).1 hu with hu | ⟨_, rfl⟩
      · rw [hold u hu]
        exact h.waiptn u hu
      · rw [hself]
        exact hw
    · refine length_le_one (t := t) (hi'.sched.linked.nodup _) fun u hu => ?_
      rcases (hb.mem _ u).1 hu with hu | ⟨_, rfl⟩
      · have hn := hm.resolve_left fun he => by
          rw [← ha', hwm] at he
          cases he
        rw [List.head?_eq_none_iff.1 hn] at hu
        cases hu
      · rfl
  | empty hq hs => exact .nil hq

theorem acreFlg_flg (h : ∀ i ∈ k.core.freeWobj .FLG, i < cfg.flg.tmax) (pk : FLGINIB) :
    (∃ e, k.onFlg (acreFlg cfg · pk) = .err k e) ∨ ∃ i l, k.core.freeWobj .FLG = i :: l ∧
      (k.onFlg (acreFlg cfg · pk)).st.flg =
        Function.update k.flg i ⟨pk.iflgptn, pk.iflgptn⟩ := by
  rcases exec_rejected cfg k (.acreFlg pk) with ⟨e, _, hr⟩ | hl
  · exact .inl ⟨e, hr⟩
  · rw [show k.onFlg (acreFlg cfg · pk) = _ from check_map hl]
    simp only
    rcases takeWobj_cases h with ⟨ht, _⟩ | ⟨i, l, hf, ht⟩
    · rw [ht]
      exact .inl ⟨_, rfl⟩
    · rw [ht]
      exact .inr ⟨i, l, hf, rfl⟩

theorem flg_blocked (cfg : Cfg) : Blocked cfg .FLG Kernel.flg where
  outside _ _ _ := rfl
  named k call id h ho j hj := by
    cases flgCall h ho with
    | same _ hk | wait _ _ _ _ hk => rw [hk]
    | set _ hk | clear _ hk => rw [hk, Function.update_of_ne hj]
    | empty _ hk => exact hk j hj
  created k call h hc := by
    cases call with
    | acreFlg pk =>
      refine (acreFlg_flg h pk).imp_right fun ⟨i, l, hf, he⟩ => ⟨i, l, hf, fun j hj => ?_⟩
      exact (congrFun he j).trans (Function.update_of_ne hj ..)
    | _ => cases hc
  other k call ho hc := by
    cases call <;> first
      | rfl
      | exact absurd rfl (ho _)
      | exact absurd rfl hc

/-- An event flag that exists, in every state that the system can reach: the condition of no waiting
task holds, every task waits for a pattern that is not 0, and without `TA_WMUL` at most one waits. -/
theorem reachable_flg (h : Reachable cfg k) (hi : k.core.atr (.wobj .FLG) i ≠ TA_NOEXS) :
    FlgInv k i := by
  refine h.objects (f := .FLG) (I := FlgInv) nofun (fun i _ => .nil (boot_queue cfg _))
    (fun k k' e i h hs hi ha hn hv => ?_) (fun k k' call id h hs ho hi ha hv => ?_)
    (fun k k' call i h hs hc hi hi' => ?_) hi
  · exact hv.rests (h.runInv.step hs).inv ((flg_blocked cfg).keep h hs hi hn) ha
      (h.runInv.rests_other hs (q := (.FLG, i)) nofun hn)
  · exact (flgCall_step h.runInv hs ho).inv h.runInv.inv (h.runInv.step hs).inv ha hv
  · obtain ⟨_, _, _, _, _, _, _, hq⟩ := h.created hs hi hi' nofun
    exact .nil (hq (.FLG, i) rfl)

/-- Both tasks wait for the event flag. -/
theorem reachable_flg_waiting : ∃ k, Kernel.steps .small [.call (.actTsk 2),
      .call (.waiFlg 1 1 TWF_ORW), .call (.waiFlg 1 2 TWF_ANDW)] = some k ∧
    k.core.sched.queue (.wait (.FLG, 0)) = [0, 1] ∧ FlgInv k 0 := by
  have h : ((Kernel.steps .small [.call (.actTsk 2), .call (.waiFlg 1 1 TWF_ORW),
      .call (.waiFlg 1 2 TWF_ANDW)]).any fun k =>
      decide (k.core.sched.queue (.wait (.FLG, 0)) = [0, 1] ∧
        k.core.atr (.wobj .FLG) 0 ≠ TA_NOEXS)) = true := by
    decide +kernel
  obtain ⟨k, hk, h⟩ := (Option.any_eq_true _ _).1 h
  obtain ⟨hq, ha⟩ := of_decide_eq_true h
  exact ⟨k, hk, hq, reachable_flg (reachable_of_steps hk) ha⟩

end

end AspKernel
