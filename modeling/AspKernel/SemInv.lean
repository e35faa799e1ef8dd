import AspKernel.Serve

namespace AspKernel
set_option autoImplicit true

/-- The semaphore that a call signals. -/
def Call.signals : Call → Option ID
  | .sigSem id | .isigSem id => some id
  | _ => none

/-- The semaphore that a call acquires. -/
def Call.acquires : Call → Option ID
  | .waiSem id | .polSem id | .twaiSem id _ => some id
  | _ => none

/-- What a call does that names a semaphore: its code, and the state after it. -/
inductive SemCall (k : Kernel) (call : Call) (id : ID) : Option ER → Kernel → Prop
  | err (he : e ≠ E_OK) (ha : k.core.Alike k'.core) (hs : k'.sem = k.sem) :
    SemCall k call id (some e) k'
  | ref (hc : call = .refSem id) (ha : k.core.Alike k'.core) (hs : k'.sem = k.sem) :
    SemCall k call id ercd k'
  | hand (hc : call.signals = some id) (hv : toId (index id) = id)
    (hh : Hands (.SEM, index id) t (k.core.tcb t).winfo k.core k'.core) (hs : k'.sem = k.sem) :
    SemCall k call id (some E_OK) k'
  | signal (hc : call.signals = some id) (hv : toId (index id) = id)
    (hq : k.core.headTsk (.SEM, index id) = none)
    (hlt : (k.sem (index id)).semcnt < (k.sem (index id)).maxsem) (ha : k.core.Alike k'.core)
    (hs : k'.sem = Function.update k.sem (index id)
      { k.sem (index id) with semcnt := (k.sem (index id)).semcnt + 1 }) :
    SemCall k call id (some E_OK) k'
  | acquire (hc : call.acquires = some id) (hv : toId (index id) = id)
    (hpos : 1 ≤ (k.sem (index id)).semcnt) (ha : k.core.Alike k'.core)
    (hs : k'.sem = Function.update k.sem (index id)
      { k.sem (index id) with semcnt := (k.sem (index id)).semcnt - 1 }) :
    SemCall k call id (some E_OK) k'
  | wait (hc : call.acquires = some id) (hz : (k.sem (index id)).semcnt = 0)
    (hb : Blocks (.SEM, index id) t w k.core k'.core) (hs : k'.sem = k.sem) :
    SemCall k call id none k'
  | ini (hc : call.ini = some (.wobj .SEM, id)) (hv : toId (index id) = id)
    (hq : k'.core.sched.queue (.wait (.SEM, index id)) = [])
    (hs : k'.sem = Function.update k.sem (index id)
      { k.sem (index id) with semcnt := (k.sem (index id)).isemcnt }) :
    SemCall k call id (some E_OK) k'
  | del (hc : call.del = some (.wobj .SEM, id)) (hv : toId (index id) = id)
    (hq : k'.core.sched.queue (.wait (.SEM, index id)) = []) (hs : k'.sem = k.sem) :
    SemCall k call id (some E_OK) k'

section
variable {cfg : Cfg} {k k' : Kernel} {call : Call} {id : ID}

theorem semCall_sig {ctx : Ctx} (hc : call.signals = some id)
    (hl : ∀ p ∈ [(k.core.ctxUnl ctx, E_CTX), (cfg.sem.valid id, E_ID)], p.1 = true) :
    (k.onSem (sigSemWith cfg · ctx id)).Sat (SemCall k call id) := by
  have hv := (ObjNum.valid_index (hl _ (.tail _ (.head _)))).2
  rw [show k.onSem (sigSemWith cfg · ctx id) = _ from check_map hl]
  simp only
  split
  · exact .err (by decide) (.refl _) rfl
  · split
    · rename_i t ht
      have hh := hands_complete' ht
      cases ctx with
      | tsk => exact .hand hc hv hh rfl
      | int => exact .hand hc hv (hh.alike (.request _ _)) rfl
    · rename_i hq
      split
      · rename_i hlt
        cases ctx with
        | tsk => exact .signal hc hv hq hlt (.refl _) rfl
        | int => exact .signal hc hv hq hlt (.request _ _) rfl
      · exact .err (by decide) (.refl _) rfl

theorem semCall_wai {m : WaitMode} (h : CallPre cfg k.core) (hc : call.acquires = some id)
    (hl : ∀ p ∈ [(k.core.ctxMode m, E_CTX), (cfg.sem.valid id, E_ID), (m.valid, E_PAR)],
      p.1 = true) : (k.onSem (waiSemWith cfg · id m)).Sat (SemCall k call id) := by
  have hv := (ObjNum.valid_index (hl _ (.tail _ (.head _)))).2
  rw [show k.onSem (waiSemWith cfg · id m) = _ from check_map hl]
  simp only
  split
  · exact .err (by decide) (.refl _) rfl
  · rename_i hex
    split
    · rename_i hpos
      exact .acquire hc hv hpos (.refl _) rfl
    · rename_i hz
      split
      · exact .err (by decide) (.refl _) rfl
      · rename_i hp
        exact .wait hc (by omega) (blocks_waitWobj h (hl _ (.head _)) (hl _ (.tail _ (.tail _ (.head _))))
          (Bool.eq_false_iff.2 hp) (Bool.eq_false_iff.2 hex) (by decide) (by decide) _) rfl

theorem semCall_ini (hl : ∀ p ∈ (Call.iniSem id).checks cfg k.core, p.1 = true) :
    (k.onSem (iniSem cfg · id)).Sat (SemCall k (.iniSem id) id) := by
  have hv := (ObjNum.valid_index (hl _ (.tail _ (.head _)))).2
  rw [show k.onSem (iniSem cfg · id) = _ from check_map hl]
  simp only
  split
  · exact .err (by decide) (.refl _) rfl
  · exact .ini rfl hv (initWaitQueue_queue k.core _) rfl

theorem semCall_del (hl : ∀ p ∈ (Call.delSem id).checks cfg k.core, p.1 = true) :
    (k.onSem (delSem cfg · id)).Sat (SemCall k (.delSem id) id) := by
  have hv := (ObjNum.valid_index (hl _ (.tail _ (.head _)))).2
  rw [show k.onSem (delSem cfg · id) = _ from check_map hl]
  simp only
  split
  · exact .err (by decide) (.refl _) rfl
  · split
    · exact .del rfl hv (initWaitQueue_queue k.core _) rfl
    · exact .err (by decide) (.refl _) rfl

theorem semCall_ref (hl : ∀ p ∈ (Call.refSem id).checks cfg k.core, p.1 = true) :
    (k.onSem (refSem cfg · id)).Sat (SemCall k (.refSem id) id) := by
  rw [show k.onSem (refSem cfg · id) = _ from check_map hl]
  simp only
  split
  · exact .err (by decide) (.refl _) rfl
  · exact .ref rfl (.refl _) rfl

theorem semCall (h : CallPre cfg k.core) (ho : call.object = some (.wobj .SEM, id)) :
    (exec cfg k call).Sat (SemCall k call id) := by
  rcases exec_rejected cfg k call with ⟨e, he, hr⟩ | hl
  · rw [hr]
    exact .err he (.refl _) rfl
  · cases call with
    | sigSem | isigSem => cases ho; exact semCall_sig rfl hl
    | waiSem | polSem | twaiSem => cases ho; exact semCall_wai h rfl hl
    | iniSem => cases ho; exact semCall_ini hl
    | delSem => cases ho; exact semCall_del hl
    | refSem => cases ho; exact semCall_ref hl
    | _ => cases ho

theorem SemCall.alike (h : SemCall k call id ercd k') {c : Core} (ha : k'.core.Alike c) :
    SemCall k call id ercd { k' with core := c } := by
  cases h with
  | err he ha' hs => exact .err he (ha'.trans ha) hs
  | ref hc ha' hs => exact .ref hc (ha'.trans ha) hs
  | hand hc hv hh hs => exact .hand hc hv (hh.alike ha) hs
  | signal hc hv hq hlt ha' hs => exact .signal hc hv hq hlt (ha'.trans ha) hs
  | acquire hc hv hpos ha' hs => exact .acquire hc hv hpos (ha'.trans ha) hs
  | wait hc hz hb hs => exact .wait hc hz (hb.alike ha) hs
  | ini hc hv hq hs => exact .ini hc hv (ha.sched ▸ hq) hs
  | del hc hv hq hs => exact .del hc hv (ha.sched ▸ hq) hs

theorem semCall_step (h : RunInv cfg k.core) (hs : Step cfg k (.call call) k')
    (ho : call.object = some (.wobj .SEM, id)) : SemCall k call id (exec cfg k call).ercd k' := by
  obtain ⟨hc, rfl⟩ := step_call hs
  rw [settle_eq]
  exact (semCall (h.callPre hc.1) ho).alike (settle_alike _)

theorem acreSem_sem (h : ∀ i ∈ k.core.freeWobj .SEM, i < cfg.sem.tmax) (pk : SEMINIB) :
    (∃ e, k.onSem (acreSem cfg · pk) = .err k e) ∨ ∃ i l, k.core.freeWobj .SEM = i :: l ∧
      (k.onSem (acreSem cfg · pk)).st.sem =
        Function.update k.sem i ⟨pk.isemcnt, pk.maxsem, pk.isemcnt⟩ := by
  rcases exec_rejected cfg k (.acreSem pk) with ⟨e, _, hr⟩ | hl
  · exact .inl ⟨e, hr⟩
  · rw [show k.onSem (acreSem cfg · pk) = _ from check_map hl]
    simp only
    rcases takeWobj_cases h with ⟨ht, _⟩ | ⟨i, l, hf, ht⟩
    · rw [ht]
      exact .inl ⟨_, rfl⟩
    · rw [ht]
      exact .inr ⟨i, l, hf, rfl⟩

theorem sem_blocked (cfg : Cfg) : Blocked cfg .SEM Kernel.sem where
  outside _ _ _ := rfl
  named k call id h ho j hj := by
    obtain ⟨ercd, k', hc, hk⟩ : ∃ ercd k', SemCall k call id ercd k' ∧ k' = (exec cfg k call).st :=
      ⟨_, _, semCall h ho, rfl⟩
    rw [← hk]
    cases hc with
    | err _ _ hsem | ref _ _ hsem | hand _ _ _ hsem | wait _ _ _ hsem | del _ _ _ hsem => rw [hsem]
    | signal _ _ _ _ _ hsem | acquire _ _ _ _ hsem | ini _ _ _ hsem =>
      rw [hsem, Function.update_of_ne hj]
  created k call h hc := by
    cases call with
    | acreSem pk =>
      refine (acreSem_sem h pk).imp_right fun ⟨i, l, hf, he⟩ => ⟨i, l, hf, fun j hj => ?_⟩
      exact (congrFun he j).trans (Function.update_of_ne hj ..)
    | _ => cases hc
  other k call ho hc := by
    cases call <;> first
      | rfl
      | exact absurd rfl (ho _)
      | exact absurd rfl hc

/-- The control block of a semaphore in a step that does not name it. -/
theorem sem_other (h : Reachable cfg k) (hs : Step cfg k e k')
    (hi : k.core.atr (.wobj .SEM) i ≠ TA_NOEXS)
    (hn : ∀ call id, e = .call call → call.object = some (.wobj .SEM, id) → index id ≠ i) :
    k'.sem i = k.sem i ∧ Rests (.SEM, i) k.core k'.core :=
  ⟨(sem_blocked cfg).keep h hs hi hn, h.runInv.rests_other hs (q := (.SEM, i)) nofun hn⟩

/-- What holds of a semaphore that exists. -/
structure SemInv (k : Kernel) (i : Nat) : Prop where
  init : (k.sem i).isemcnt ≤ (k.sem i).maxsem
  le : (k.sem i).semcnt ≤ (k.sem i).maxsem
  wait : k.core.sched.queue (.wait (.SEM, i)) ≠ [] → (k.sem i).semcnt = 0

/-- What an observer of a semaphore sees: the calls that signal it with `E_OK`, and its
acquisitions, by calls that return `E_OK` and by waits that end with it. -/
inductive SemObs
  | signal | acquire
  deriving DecidableEq

def semObs (cfg : Cfg) (i : Nat) (k : Kernel) (e : Event) (k' : Kernel) : List SemObs :=
  (if e.done cfg k Call.signals i then [.signal] else []) ++
  (if e.done cfg k Call.acquires i then [.acquire] else []) ++
  (k.core.served k'.core (.SEM, i)).map fun _ => .acquire

/-- The units of a semaphore before and after some observations. -/
def SemObs.Balance (l : List SemObs) (before after : Nat) : Prop :=
  before + l.count .signal = after + l.count .acquire

theorem SemInv.rests (h : SemInv k i) (hk : k'.sem i = k.sem i)
    (hr : Rests (.SEM, i) k.core k'.core) : SemInv k' i := by
  refine ⟨hk ▸ h.init, hk ▸ h.le, fun hq => ?_⟩
  rw [hk]
  exact h.wait fun hn => hq (hr.queue_nil hn)

/-- A call that names a semaphore keeps the invariant. -/
theorem SemCall.inv (hc : SemCall k call id ercd k') (hi : CoreInv cfg noD k.core)
    (h : SemInv k (index id)) : SemInv k' (index id) := by
  cases hc with
  | err he ha hs | ref hc ha hs => exact h.rests (by rw [hs]) ((Idles.of_alike ha).rests hi _)
  | hand hc hv hh hs =>
    refine ⟨hs ▸ h.init, hs ▸ h.le, fun hq => hs ▸ h.wait ?_⟩
    rw [(hh.tail hi).1]
    exact List.cons_ne_nil _ _
  | signal hc hv hq hlt ha hs =>
    have hp := congrFun hs (index id)
    rw [Function.update_self] at hp
    refine ⟨by rw [hp]; exact h.init, by rw [hp]; exact hlt, fun hn => absurd ?_ hn⟩
    rw [(Idles.of_alike ha).queue]
    exact List.head?_eq_none_iff.1 hq
  | acquire hc hv hpos ha hs =>
    have hp := congrFun hs (index id)
    rw [Function.update_self] at hp
    refine ⟨by rw [hp]; exact h.init, by rw [hp]; exact Nat.le_trans (Nat.sub_le _ _) h.le, fun hn => ?_⟩
    rw [(Idles.of_alike ha).queue] at hn
    exact absurd (h.wait hn) (Nat.ne_of_gt hpos)
  | wait hc hz hb hs => exact ⟨hs ▸ h.init, hs ▸ h.le, fun _ => hs ▸ hz⟩
  | ini hc hv hq hs =>
    have hp := congrFun hs (index id)
    rw [Function.update_self] at hp
    exact ⟨by rw [hp]; exact h.init, by rw [hp]; exact h.init, fun hn => absurd hq hn⟩
  | del hc hv hq hs => exact ⟨hs ▸ h.init, hs ▸ h.le, fun hn => absurd hq hn⟩

theorem signals_object (call : Call) (id : ID) (h : call.signals = some id) :
    call.object = some (.wobj .SEM, id) := by
  cases call <;> cases h <;> rfl

theorem acquires_object (call : Call) (id : ID) (h : call.acquires = some id) :
    call.object = some (.wobj .SEM, id) := by
  cases call <;> cases h <;> rfl

theorem signals_of_acquires (h : call.acquires = some id) : call.signals = none := by
  cases call <;> first
    | rfl
    | cases h

theorem SemObs.Balance.trans (h : Balance l a b) (h' : Balance l' b c) : Balance (l ++ l') a c := by
  unfold Balance at *
  rw [List.count_append, List.count_append]
  omega

theorem SemCall.balance (hc : SemCall k call id ercd k') (hi : CoreInv cfg noD k.core)
    (hl : call.del ≠ some (.wobj .SEM, toId (index id)) ∧
      call.ini ≠ some (.wobj .SEM, toId (index id))) :
    SemObs.Balance ((if call.done Call.signals (index id) ercd then [.signal] else []) ++
      (if call.done Call.acquires (index id) ercd then [.acquire] else []) ++
      (k.core.served k'.core (.SEM, index id)).map fun _ => .acquire)
      (k.sem (index id)).semcnt (k'.sem (index id)).semcnt := by
  unfold SemObs.Balance
  cases hc with
  | err he ha hs =>
    have hd (form : Call → Option ID) : call.done form (index id) (some _) = false :=
      Call.not_done (.inr fun h => he (Option.some.inj h))
    rw [hd, hd, ((Idles.of_alike ha).rests hi _).served, hs]
    rfl
  | ref hc ha hs =>
    subst hc
    rw [((Idles.of_alike ha).rests hi _).served, hs]
    rfl
  | hand hc hv hh hs =>
    rw [Call.done_of (by rw [hc, hv]), Call.not_done (.inl fun h => ?_),
      (hh.tail hi).2.1, hs]
    · rfl
    · rw [signals_of_acquires h] at hc
      cases hc
  | signal hc hv hq hlt ha hs =>
    rw [Call.done_of (by rw [hc, hv]), Call.not_done (.inl fun h => ?_),
      ((Idles.of_alike ha).rests hi _).served, hs, Function.update_self]
    · rfl
    · rw [signals_of_acquires h] at hc
      cases hc
  | acquire hc hv hpos ha hs =>
    rw [Call.not_done (.inl fun h => ?_), Call.done_of (by rw [hc, hv]),
      ((Idles.of_alike ha).rests hi _).served, hs, Function.update_self]
    · exact (Nat.sub_add_cancel hpos).symm
    · rw [signals_of_acquires hc] at h
      cases h
  | wait hc hz hb hs =>
    have hd (form : Call → Option ID) : call.done form (index id) none = false :=
      Call.not_done (.inr nofun)
    rw [hd, hd, hb.served hi, hs]
    rfl
  | ini hc hv hq hs => exact absurd (hv.symm ▸ hc) hl.2
  | del hc hv hq hs => exact absurd (hv.symm ▸ hc) hl.1

/-- A step that leaves a semaphore in being keeps the balance of its units. -/
theorem sem_balance (h : Reachable cfg k) (hs : Step cfg k e k')
    (hi : k.core.atr (.wobj .SEM) i ≠ TA_NOEXS) (hl : e.leaves (.wobj .SEM) i) :
    SemObs.Balance (semObs cfg i k e k') (k.sem i).semcnt (k'.sem i).semcnt := by
  by_cases hn : ∀ call id, e = .call call → call.object = some (.wobj .SEM, id) → index id ≠ i
  · obtain ⟨hk, hr⟩ := sem_other h hs hi hn
    unfold SemObs.Balance semObs
    rw [Event.not_done signals_object hn, Event.not_done acquires_object hn, hr.served, hk]
    rfl
  · push Not at hn
    obtain ⟨call, id, rfl, ho, rfl⟩ := hn
    exact (semCall_step h.runInv hs ho).balance h.runInv.inv (hl call rfl)

/-- A new semaphore. -/
theorem sem_new (h : Reachable cfg k) (hs : Step cfg k e k')
    (hi : k.core.atr (.wobj .SEM) i = TA_NOEXS) (hi' : k'.core.atr (.wobj .SEM) i ≠ TA_NOEXS) :
    SemInv k' i ∧ (k'.sem i).semcnt = (k'.sem i).isemcnt := by
  obtain ⟨call, rfl, hc, hl, hk, ⟨l, hf⟩, herr, hq⟩ := h.created hs hi hi' nofun
  cases call with
  | acreSem pk =>
    rcases acreSem_sem (fun i hi => (h.range (.wobj .SEM) i hi).2) pk with
      ⟨e, he⟩ | ⟨j, l', hfj, he⟩
    · exact absurd he (herr e)
    · have hj : j = i := (List.cons.inj (hfj.symm.trans hf)).1
      subst hj
      have hsem : k'.sem j = ⟨pk.isemcnt, pk.maxsem, pk.isemcnt⟩ := by
        rw [hk, settle_eq]
        exact (congrFun he j).trans (Function.update_self ..)
      have hle : pk.isemcnt ≤ pk.maxsem := of_decide_eq_true (hl _ (.tail _ (.tail _ (.head _))))
      exact ⟨⟨hsem ▸ hle, hsem ▸ hle, fun hn => absurd (hq (.SEM, j) rfl) hn⟩, by rw [hsem]⟩
  | _ => cases hc

/-- What `acre_sem` creates. -/
theorem sem_created (h : Reachable cfg k) (hs : Step cfg k (.call (.acreSem pk)) k')
    (hr : (exec cfg k (.acreSem pk)).ercd = some id) (hid : 0 ≤ id) :
    k.core.atr (.wobj .SEM) (index id) = TA_NOEXS ∧ k'.core.atr (.wobj .SEM) (index id) ≠ TA_NOEXS ∧
      k'.sem (index id) = ⟨pk.isemcnt, pk.maxsem, pk.isemcnt⟩ ∧
      k'.core.sched.queue (.wait (.SEM, index id)) = [] := by
  have hfree : ∀ i ∈ k.core.freeWobj .SEM, i < cfg.sem.tmax := fun i hi => (h.range (.wobj .SEM) i hi).2
  obtain ⟨⟨l, hf⟩, ha, hv, hl⟩ := (acre_sem hfree pk).of_id hr hid
  have hi := (Core.noexs_iff _ (.wobj .SEM) _).1 (h.runInv.inv.noexs_of_free (hf ▸ List.mem_cons_self))
  have hi' : k'.core.atr (.wobj .SEM) (index id) ≠ TA_NOEXS := by
    rw [(step_call hs).2, ((settle_alike _).exist (.wobj .SEM)).2]
    exact ha trivial
  obtain ⟨call, he, -, -, hk, -, herr, hq⟩ := h.created hs hi hi' nofun
  cases he
  refine ⟨hi, hi', ?_, hq _ rfl⟩
  rcases acreSem_sem hfree pk with ⟨e, he⟩ | ⟨j, l', hfj, he⟩
  · exact absurd he (herr e)
  · cases (List.cons.inj (hfj.symm.trans hf)).1
    rw [hk, settle_eq]
    exact (congrFun he _).trans (Function.update_self ..)

/-- The configurator checks the initial counts. -/
def Cfg.SemOk (cfg : Cfg) : Prop :=
  ∀ i < cfg.sem.tmaxS, (cfg.seminib i).isemcnt ≤ (cfg.seminib i).maxsem

theorem Reachable.semInv (hcfg : cfg.SemOk) (h : Reachable cfg k)
    (hi : k.core.atr (.wobj .SEM) i ≠ TA_NOEXS) : SemInv k i := by
  refine h.objects (f := .SEM) (I := SemInv) nofun
    (fun i hlt => ⟨hcfg i hlt, hcfg i hlt, fun hn => absurd (boot_queue cfg _) hn⟩)
    (fun k k' e i h hs hi ha hn hv => ?_) (fun k k' call id h hs ho hi ha hv => ?_)
    (fun k k' call i h hs hc hi hi' => (sem_new h hs hi hi').1) hi
  · obtain ⟨hk, hr⟩ := sem_other h hs hi hn
    exact hv.rests hk hr
  · exact (semCall_step h.runInv hs ho).inv h.runInv.inv hv

theorem sigSem_refused {ctx : Ctx} (hl : ∀ p ∈ [(k.core.ctxUnl ctx, E_CTX), (cfg.sem.valid id, E_ID)],
    p.1 = true) (hr : (k.onSem (sigSemWith cfg · ctx id)).ercd = some e) (he : e ≠ E_OK) :
    k.onSem (sigSemWith cfg · ctx id) = .err k e := by
  revert hr
  rw [show k.onSem (sigSemWith cfg · ctx id) = _ from check_map hl]
  have hok {r : Res Kernel} (h : r.ercd = some E_OK) (hr : r.ercd = some e) : r = .err k e :=
    absurd (Option.some.inj (hr.symm.trans h)) he
  simp only
  split
  · rintro ⟨⟩
    rfl
  · split
    · cases ctx <;> exact hok rfl
    · split
      · cases ctx <;> exact hok rfl
      · rintro ⟨⟩
        rfl

/-- A signal that does not succeed changes nothing. -/
theorem signal_refused (hc : call.signals = some id) (hr : (exec cfg k call).ercd = some e)
    (he : e ≠ E_OK) : exec cfg k call = .err k e := by
  rcases exec_rejected cfg k call with ⟨e', _, h⟩ | hl
  · rw [h] at hr ⊢
    rw [← Option.some.inj hr]
  · cases call <;> cases hc
    · exact sigSem_refused hl hr he
    · exact sigSem_refused hl hr he

/-- A semaphore that exists, in every state that the system can reach: its count does not exceed its
maximum, and it is 0 where a task waits. In a run that does not delete it and does not initialise it
again, its count and the signals with `E_OK` balance its count at the end and the acquisitions; a
step that does not name it consumes no unit, however it ends the waits of tasks. A signal that is
refused changes nothing. A semaphore starts with its initial count. -/
theorem reachable_sem (hcfg : cfg.SemOk) (h : Reachable cfg k) :
    (∀ i, k.core.atr (.wobj .SEM) i ≠ TA_NOEXS →
      (k.sem i).semcnt ≤ (k.sem i).maxsem ∧
      (k.core.sched.queue (.wait (.SEM, i)) ≠ [] → (k.sem i).semcnt = 0) ∧
      (∀ es k', Run cfg k es k' → (∀ e ∈ es, e.leaves (.wobj .SEM) i) →
        SemObs.Balance (Trans.observe (Kernel.step cfg) (semObs cfg i) k es) (k.sem i).semcnt
          (k'.sem i).semcnt) ∧
      ∀ e k', Step cfg k e k' → (∀ call id, e = .call call →
        call.object = some (.wobj .SEM, id) → index id ≠ i) →
        k'.sem i = k.sem i ∧ k.core.served k'.core (.SEM, i) = []) ∧
    (∀ call id e, call.signals = some id → (exec cfg k call).ercd = some e → e ≠ E_OK →
      exec cfg k call = .err k e) ∧
    (∀ i, ((boot cfg).sem i).semcnt = ((boot cfg).sem i).isemcnt) ∧
    ∀ i e k', Step cfg k e k' → k'.core.atr (.wobj .SEM) i ≠ TA_NOEXS →
      k.core.atr (.wobj .SEM) i = TA_NOEXS ∨ (∃ call, e = .call call ∧
        call.ini = some (.wobj .SEM, toId i) ∧ (exec cfg k call).ercd = some E_OK) →
      (k'.sem i).semcnt = (k'.sem i).isemcnt := by
  refine ⟨fun i hi => ?_, fun call id e hc hr he => signal_refused hc hr he, fun i => rfl,
    fun i e k' hs hi' ho => ?_⟩
  · have hv := h.semInv hcfg hi
    refine ⟨hv.le, hv.wait, fun es k' hrun hl => ?_, fun e k' hs hn => ?_⟩
    · have hobs := Trans.Run.observed (semObs cfg i) (I := Reachable cfg)
        (P := fun e => e.leaves (.wobj .SEM) i)
        (R := fun s l t => t.core.atr (.wobj .SEM) i ≠ TA_NOEXS ∧
          SemObs.Balance l (s.sem i).semcnt (t.sem i).semcnt) hrun hl
        (fun t e u ht hs => ht.step hs) h ⟨hi, rfl⟩ fun t e u l ht he hR hs => ?_
      · exact hobs.2
      · refine ⟨?_, hR.2.trans (sem_balance ht hs hR.1 he)⟩
        rw [ht.atr_keep hs hR.1 fun call hc => (he call hc).1]
        exact hR.1
    · obtain ⟨hk, hr⟩ := sem_other h hs hi hn
      exact ⟨hk, hr.served⟩
  · rcases ho with hn | ⟨call, rfl, hc, hok⟩
    · exact (sem_new h hs hn hi').2
    · cases call <;> cases hc
      have hcall := semCall_step h.runInv hs rfl
      rw [hok] at hcall
      rw [← index_toId i]
      cases hcall with
      | err he => exact absurd rfl he
      | ini _ _ _ hsem => rw [hsem, Function.update_self]
      | ref hc | hand hc | signal hc | acquire hc | del hc => cases hc

theorem reachable_sem_boot : ((boot .small).sem 0).semcnt ≤ ((boot .small).sem 0).maxsem ∧
    ∀ es k', Run .small (boot .small) es k' → (∀ e ∈ es, e.leaves (.wobj .SEM) 0) →
      SemObs.Balance (Trans.observe (Kernel.step .small) (semObs .small 0) (boot .small) es) 0
        (k'.sem 0).semcnt := by
  have h := (reachable_sem (fun _ _ => Nat.zero_le 1)
    (boot_reachable .small)).1 0 (by decide +kernel)
  exact ⟨h.1, h.2.2.1⟩

end

end AspKernel
