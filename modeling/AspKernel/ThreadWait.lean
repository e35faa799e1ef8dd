import AspKernel.WaitEnd
import AspKernel.ThreadInv
import AspKernel.SemInv
import AspKernel.FlgInv
import AspKernel.DtqInv

namespace AspKernel
set_option autoImplicit true

section
variable {cfg : Cfg} {k k' : Kernel} {e : Event} {q : WQueue} {t : Nat} {call : Call} {id : ID}
  {m : WaitMode}

/-- The caller of a call that does not return at once waits in a queue. -/
def WaitsIn (cfg : Cfg) (call : Call) (q : WQueue) : Prop :=
  ∀ k k', Reachable cfg k → Step cfg k (.call call) k' → (exec cfg k call).ercd = none →
    ∃ t, App.party k = some (.task t) ∧ (k'.core.tcb t).loc = some (.wait q)

theorem RunInv.loc_iff_mem (h : RunInv cfg k.core) :
    (k.core.tcb t).loc = some (.wait q) ↔ t ∈ k.core.sched.queue (.wait q) := by
  rw [h.inv.sched.linked.mem, Core.loc_attached rfl]

/-- A call that has put the running task into a queue, in a context in which it may wait. -/
structure Enters (q : WQueue) (k : Kernel) (r : Res Kernel) : Prop where
  ctx : k.core.canDispatch = true
  blocks : ∃ w, Blocks q k.core.runtsk w k.core r.st.core

theorem WaitsIn.of_enters (hb : ∀ k, CallPre cfg k.core → (∀ p ∈ call.checks cfg k.core, p.1 = true) →
    (exec cfg k call).ercd = none → Enters q k (exec cfg k call)) : WaitsIn cfg call q := by
  intro k k' h hs hn
  obtain ⟨hc, hk⟩ := step_call hs
  rcases exec_rejected cfg k call with ⟨e, -, he⟩ | hp
  · rw [he] at hn
    cases hn
  · obtain ⟨hd, w, hb⟩ := hb k (h.runInv.callPre hc.1) hp hn
    have hb' : Blocks q k.core.runtsk w k.core k'.core := hk ▸ hb.alike (settle_alike _)
    refine ⟨k.core.runtsk, ?_, (h.step hs).runInv.loc_iff_mem.2 ((hb'.mem _ _).2 (.inr ⟨rfl, rfl⟩))⟩
    unfold Core.canDispatch at hd
    simp only [Bool.and_eq_true, Bool.not_eq_true'] at hd
    obtain ⟨t, ht⟩ := Option.ne_none_iff_exists'.1
      (hc.1.resolve_left fun hi => Bool.false_ne_true (hd.1.1.symm.trans hi))
    unfold App.party Core.runtsk
    rw [hd.1.1, ht]
    rfl

theorem ctxMode_wait (h : k.core.ctxMode m = true) (hp : ¬m.polls = true) :
    k.core.canDispatch = true := by
  cases m with
  | pol => exact absurd rfl hp
  | _ => exact h

/-- Who may wait is a task. -/
theorem party_task (hd : k.core.canDispatch = true) (hp : App.party k = some v) :
    ∃ t, v = .task t := by
  unfold Core.canDispatch at hd
  simp only [Bool.and_eq_true, Bool.not_eq_true'] at hd
  unfold App.party at hp
  rw [hd.1.1] at hp
  obtain ⟨t, -, ht⟩ := Option.map_eq_some_iff.1 hp
  exact ⟨t, ht.symm⟩

theorem enters_waiSem (h : CallPre cfg k.core)
    (hl : ∀ p ∈ [(k.core.ctxMode m, E_CTX), (cfg.sem.valid id, E_ID), (m.valid, E_PAR)], p.1 = true)
    (hn : (k.onSem (waiSemWith cfg · id m)).ercd = none) :
    Enters (.SEM, index id) k (k.onSem (waiSemWith cfg · id m)) := by
  rw [show k.onSem (waiSemWith cfg · id m) = _ from check_map hl] at hn ⊢
  simp only at hn ⊢
  split at hn
  · cases hn
  · rename_i hex
    split at hn
    · cases hn
    · rename_i hz
      split at hn
      · cases hn
      · rename_i hp
        rw [if_neg hex, if_neg hz, if_neg hp]
        exact ⟨ctxMode_wait (hl _ (.head _)) hp, _, blocks_waitWobj h (hl _ (.head _))
          (hl _ (.tail _ (.tail _ (.head _)))) (Bool.eq_false_iff.2 hp) (Bool.eq_false_iff.2 hex)
          (by decide) (by decide) _⟩

theorem enters_waiFlg {waiptn : FLGPTN} {wfmode : MODE} (h : CallPre cfg k.core)
    (hl : ∀ p ∈ [(k.core.ctxMode m, E_CTX), (cfg.flg.valid id, E_ID), (waiptn != 0, E_PAR),
      (wfmode == TWF_ORW || wfmode == TWF_ANDW, E_PAR), (m.valid, E_PAR)], p.1 = true)
    (hn : (k.onFlg (waiFlgWith cfg · id waiptn wfmode m)).ercd = none) :
    Enters (.FLG, index id) k (k.onFlg (waiFlgWith cfg · id waiptn wfmode m)) := by
  rw [show k.onFlg (waiFlgWith cfg · id waiptn wfmode m) = _ from check_map hl] at hn ⊢
  simp only at hn ⊢
  split at hn
  · cases hn
  · rename_i hex
    split at hn
    · cases hn
    · rename_i hm
      split at hn
      · cases hn
      · rename_i hc
        split at hn
        · cases hn
        · rename_i hp
          rw [if_neg hex, if_neg hm, if_neg hc, if_neg hp]
          exact ⟨ctxMode_wait (hl _ (.head _)) hp, _, blocks_waitWobj h (hl _ (.head _))
            (hl _ (.tail _ (.tail _ (.tail _ (.tail _ (.head _)))))) (Bool.eq_false_iff.2 hp)
            (Bool.eq_false_iff.2 hex) (by decide) (by decide) _⟩

theorem ok_ercd (o : Obj β) (ctx : Ctx) (b : Bool) (out : Out) :
    (o.ok ctx b out).ercd = some E_OK := by
  cases ctx <;> rfl

theorem enters_sndDtq {data : IntPtr} (h : CallPre cfg k.core)
    (hl : ∀ p ∈ [(k.core.ctxMode m, E_CTX), (cfg.dtq.valid id, E_ID), (m.valid, E_PAR)], p.1 = true)
    (hn : (k.onDtq (sndDtqWith cfg · id data m)).ercd = none) :
    Enters (.SDTQ, index id) k (k.onDtq (sndDtqWith cfg · id data m)) := by
  rw [show k.onDtq (sndDtqWith cfg · id data m) = _ from check_map hl] at hn ⊢
  simp only at hn ⊢
  split at hn
  · cases hn
  · rename_i hex
    rw [if_neg hex]
    split at hn
    · rename_i r _
      exact nomatch (ok_ercd r.1 m.ctx r.2 .none).symm.trans hn
    · split at hn
      · cases hn
      · rename_i hp
        rw [if_neg hp]
        exact ⟨ctxMode_wait (hl _ (.head _)) hp, _, blocks_waitWobj h (hl _ (.head _))
          (hl _ (.tail _ (.tail _ (.head _)))) (Bool.eq_false_iff.2 hp) (Bool.eq_false_iff.2 hex)
          (by decide) (by decide) _⟩

theorem enters_rcvDtq (h : CallPre cfg k.core)
    (hl : ∀ p ∈ [(k.core.ctxMode m, E_CTX), (cfg.dtq.valid id, E_ID), (m.valid, E_PAR)], p.1 = true)
    (hn : (k.onDtq (rcvDtqWith cfg · id m)).ercd = none) :
    Enters (.RDTQ, index id) k (k.onDtq (rcvDtqWith cfg · id m)) := by
  rw [show k.onDtq (rcvDtqWith cfg · id m) = _ from check_map hl] at hn ⊢
  simp only at hn ⊢
  split at hn
  · cases hn
  · rename_i hex
    rw [if_neg hex]
    split at hn
    · rename_i r _
      exact nomatch (ok_ercd r.1 .tsk r.2.2 (.data r.2.1)).symm.trans hn
    · split at hn
      · cases hn
      · rename_i hp
        rw [if_neg hp]
        exact ⟨ctxMode_wait (hl _ (.head _)) hp, _, blocks_waitReceive h (hl _ (.head _))
          (hl _ (.tail _ (.tail _ (.head _)))) (Bool.eq_false_iff.2 hp) (Bool.eq_false_iff.2 hex)
          (.inl rfl)⟩

theorem waitsIn_waiSem (cfg : Cfg) (id : ID) : WaitsIn cfg (.waiSem id) (.SEM, index id) :=
  .of_enters fun _ => enters_waiSem
theorem waitsIn_twaiSem (cfg : Cfg) (id : ID) (tmout : TMO) :
    WaitsIn cfg (.twaiSem id tmout) (.SEM, index id) := .of_enters fun _ => enters_waiSem
theorem waitsIn_twaiFlg (cfg : Cfg) (id : ID) (waiptn : FLGPTN) (wfmode : MODE) (tmout : TMO) :
    WaitsIn cfg (.twaiFlg id waiptn wfmode tmout) (.FLG, index id) :=
  .of_enters fun _ => enters_waiFlg
theorem waitsIn_sndDtq (cfg : Cfg) (id : ID) (data : IntPtr) :
    WaitsIn cfg (.sndDtq id data) (.SDTQ, index id) := .of_enters fun _ => enters_sndDtq
theorem waitsIn_tsndDtq (cfg : Cfg) (id : ID) (data : IntPtr) (tmout : TMO) :
    WaitsIn cfg (.tsndDtq id data tmout) (.SDTQ, index id) := .of_enters fun _ => enters_sndDtq
theorem waitsIn_rcvDtq (cfg : Cfg) (id : ID) : WaitsIn cfg (.rcvDtq id) (.RDTQ, index id) :=
  .of_enters fun _ => enters_rcvDtq
theorem waitsIn_trcvDtq (cfg : Cfg) (id : ID) (tmout : TMO) :
    WaitsIn cfg (.trcvDtq id tmout) (.RDTQ, index id) := .of_enters fun _ => enters_rcvDtq

theorem extTsk_cases (cfg : Cfg) (k : Kernel) : (∃ e, exec cfg k .extTsk = .err k e) ∨
    k.core.senseContext = false ∧ (exec cfg k .extTsk).ercd = none := by
  rcases exec_rejected cfg k .extTsk with ⟨e, -, he⟩ | hp
  · exact .inl ⟨e, he⟩
  · refine .inr ⟨?_, ?_⟩
    · simpa only [Bool.not_eq_true'] using hp _ (.head _)
    · rw [show exec cfg k .extTsk = k.onCore Core.extTsk from rfl,
        show k.onCore Core.extTsk = _ from check_map hp]
      rfl

theorem terTsk_cases (cfg : Cfg) (k : Kernel) (id : ID) :
    (∃ e, exec cfg k (.terTsk id) = .err k e) ∨ (exec cfg k (.terTsk id)).ercd = some E_OK := by
  rcases exec_rejected cfg k (.terTsk id) with ⟨e, -, he⟩ | hp
  · exact .inl ⟨e, he⟩
  · rw [show exec cfg k (.terTsk id) = k.onCore (Core.terTsk cfg · id) from rfl,
      show k.onCore (Core.terTsk cfg · id) = _ from check_map hp]
    simp only
    split
    · exact .inl ⟨_, rfl⟩
    · split
      · exact .inl ⟨_, rfl⟩
      · exact .inr rfl

/-- What an event does to a task that waits in a queue, unless it ends the task. -/
theorem wait_ends (h : RunInv cfg k.core) (hs : Step cfg k e k')
    (hl : (k.core.tcb t).loc = some (.wait q)) (he : App.ended cfg k e ≠ some t) :
    (k.core.tcb t).Stays (k'.core.tcb t) ∨
      ∃ er, e.endsWait k t q er ∧ (k'.core.tcb t).Left er := by
  rcases h.wait_step hs hl with h1 | h1 | h1
  · exact .inl h1
  · exact .inr h1
  · cases e with
    | call call =>
      obtain ⟨hO, hT⟩ := h1
      obtain ⟨hc, rfl⟩ := step_call hs
      have err {er : ER} (hr : exec cfg k call = .err k er) :
          (k.core.tcb t).Stays ((exec cfg k call).settle.core.tcb t) := by
        rw [hr]
        exact ⟨rfl, rfl⟩
      cases call with
      | extTsk =>
        rcases extTsk_cases cfg k with ⟨er, hr⟩ | ⟨hctx, hr⟩
        · exact .inl (err hr)
        · refine absurd ?_ he
          obtain ⟨u, hu⟩ := Option.ne_none_iff_exists'.1
            (hc.1.resolve_left fun hi => Bool.false_ne_true (hctx.symm.trans hi))
          have ht : t = u := hO.trans (congrArg (Option.getD · 0) hu)
          exact (if_pos hr).trans (ht ▸ hu)
      | terTsk id =>
        rcases terTsk_cases cfg k id with ⟨er, hr⟩ | hr
        · exact .inl (err hr)
        · refine absurd ?_ he
          exact (if_pos hr).trans (congrArg some hO.symm)
      | _ => exact hT.elim
    | _ => exact h1.elim

theorem terminate_waiting (c : Core) (t : Nat) :
    ((c.terminate t).1.tcb t).tstat.waiting = false := by
  have dormant (c : Core) : ((c.makeDormant t).tcb t).tstat.waiting = false :=
    congrArg (fun p : TCB => p.tstat.waiting) (Core.setTcb_self _ t _)
  have active (c : Core) : ((c.makeActive t).1.tcb t).tstat.waiting = false :=
    congrArg (fun p : TCB => p.tstat.waiting) (Core.setTcb_self _ t _)
  unfold Core.terminate
  simp only
  generalize (if c.mutexQueue t = [] then (c, false) else c.mutexReleaseAll t) = r
  split
  · exact active _
  · exact dormant _

/-- A task that an event ends is in no wait queue. -/
theorem ended_left (h : RunInv cfg k'.core) (hs : Step cfg k e k') (he : App.ended cfg k e = some t) :
    t ∉ k'.core.sched.queue (.wait q) := by
  cases e with
  | call call =>
    obtain ⟨hc, rfl⟩ := step_call hs
    have left {c : Core} (hr : (exec cfg k call).st.core = (c.terminate t).1) :
        t ∉ (exec cfg k call).settle.core.sched.queue (.wait q) := by
      intro hm
      have hw := (TCB.loc_eq_wait.1 (h.loc_iff_mem.2 hm)).2.1
      rw [((settle_alike _).tcb t).tstat, hr, terminate_waiting] at hw
      cases hw
    cases call with
    | extTsk =>
      rcases exec_rejected cfg k .extTsk with ⟨e, -, hr⟩ | hp
      · change (if (exec cfg k .extTsk).ercd = none then _ else _) = _ at he
        rw [hr] at he
        cases he
      · have ht : k.core.pRuntsk = some t := by
          change (if (exec cfg k .extTsk).ercd = none then _ else _) = _ at he
          split at he
          · exact he
          · cases he
        have hrun : k.core.runtsk = t := congrArg (Option.getD · 0) ht
        refine left (c := ?_) ?_
        rotate_left
        rw [show exec cfg k .extTsk = k.onCore Core.extTsk from rfl,
          show k.onCore Core.extTsk = _ from check_map hp, ← hrun]
        rfl
    | terTsk id =>
      change (if (exec cfg k (.terTsk id)).ercd = _ then some (index id) else _) = _ at he
      split at he
      · rename_i hok
        cases he
        rcases exec_rejected cfg k (.terTsk id) with ⟨e, hne, hr⟩ | hp
        · rw [hr] at hok
          exact absurd (Option.some.inj hok) hne
        · rw [show exec cfg k (.terTsk id) = k.onCore (Core.terTsk cfg · id) from rfl,
            show k.onCore (Core.terTsk cfg · id) = _ from check_map hp] at hok left ⊢
          simp only at hok left ⊢
          split at hok
          · cases hok
          · rename_i hx
            split at hok
            · cases hok
            · rename_i hd
              rw [if_neg hx, if_neg hd] at left ⊢
              exact left rfl
      · cases he
    | _ => cases he
  | _ => cases he

end

end AspKernel

namespace AspKernel.App

section
variable {L : Library} {cfg : Cfg} {s s' : Sys L} {x : Act L} {k : Kernel} {e : Event} {q : WQueue}
  {t : Nat} {w : Party} {a : L.Api} {hist : Hist} {call : Call} {f : ER × AspKernel.Out → Code (L.Res a)}

theorem go_not_wait {v : Party} {b : L.Api} {p : Code (L.Res b)} {hist' : Hist} :
    (Thread.go v b hist' p).1 ≠ .wait a hist call f := by
  cases p <;> nofun

/-- A thread that waits after an event has waited before, and nothing has ended its wait. -/
theorem after_wait (h : (s.after cfg e k).thread (.task t) = .wait a hist call f) :
    s.thread (.task t) = .wait a hist call f ∧ ended cfg s.kernel e ≠ some t ∧
      ∀ er, (k.core.tcb t).winfo.cell ≠ .wercd er := by
  change (s.woken cfg e k t).1 = _ at h
  unfold Sys.woken at h
  split at h
  · cases h
  · rename_i he
    cases hth : s.thread (.task t) with
    | idle =>
      rw [hth] at h
      cases h
    | run =>
      rw [hth] at h
      cases h
    | wait a' hist' call' f' =>
      rw [hth] at h
      unfold Thread.wake at h
      simp only at h
      split at h
      · exact absurd h go_not_wait
      · rename_i hc
        exact ⟨h, he, fun er her => nomatch hc.symm.trans her⟩

/-- A thread in a call waits in its queue. -/
def Sys.Queued (cfg : Cfg) (s : Sys L) : Prop :=
  ∀ t a hist call f q, s.thread (.task t) = .wait a hist call f → WaitsIn cfg call q →
    (s.kernel.core.tcb t).loc = some (.wait q)

theorem Sys.Queued.after (h : s.Queued cfg) (hk : AspKernel.Reachable cfg s.kernel)
    (hs : AspKernel.Step cfg s.kernel e k) : (s.after cfg e k).Queued cfg := by
  intro t a hist call f q ht hq
  obtain ⟨hth, he, hc⟩ := after_wait ht
  have hl := h t a hist call f q hth hq
  rcases wait_ends hk.runInv hs hl he with hst | ⟨er, -, hleft⟩
  · exact hst.loc ((hk.step hs).runInv.inv.task t).legal hl
  · exact absurd hleft.cell (hc er)

theorem goto_thread (s : Sys L) (w : Party) (r : Thread L × List (Ret L)) (v : Party) :
    (s.goto w r).thread v = if v = w then r.1 else s.thread v := Function.update_apply ..

theorem Sys.Queued.goto (h : s.Queued cfg) (hr : ∀ a hist call f, r.1 ≠ .wait a hist call f) :
    (s.goto w r).Queued cfg := by
  intro t a hist call f q ht hq
  rw [goto_thread] at ht
  split at ht
  · exact absurd ht (hr a hist call f)
  · exact h t a hist call f q ht hq

/-- A task that is within a service call that waits is in the queue of the call. -/
theorem Sys.Queued.step (h : s.Queued cfg) (hk : AspKernel.Reachable cfg s.kernel)
    (hx : Step cfg s x s') : s'.Queued cfg := by
  cases step_cases hx with
  | start hp hi => exact h.goto fun _ _ _ _ => go_not_wait
  | svc hp ht hs =>
    rename_i w a hist call f k
    have ha := h.after hk hs
    intro t a' hist' call' f' q ht' hq
    rw [goto_thread] at ht'
    split at ht'
    · rename_i hw
      unfold Sys.entered at ht'
      simp only at ht'
      split at ht'
      · exact absurd ht' go_not_wait
      · rename_i hn
        split at ht'
        · cases ht'
          obtain ⟨u, hu, hl⟩ := hq _ _ hk hs hn
          have htu : u = t := Party.task.inj (Option.some.inj (hu.symm.trans (hp.trans (hw ▸ rfl))))
          exact htu ▸ hl
        · cases ht'
    · exact ha t a' hist' call' f' q ht' hq
  | snsCtx hp ht => exact h.goto fun _ _ _ _ => go_not_wait
  | usTickerRead hp ht => exact h.goto fun _ _ _ _ => go_not_wait
  | kernel hs => exact h.after hk hs
  | elapse => exact h

theorem woken_of_not_wait (h : ∀ a hist call f, s.thread (.task t) ≠ .wait a hist call f) :
    s.woken cfg e k t = (if ended cfg s.kernel e = some t then .idle else s.thread (.task t), []) := by
  unfold Sys.woken
  split
  · rfl
  · cases hth : s.thread (.task t) with
    | wait a hist call f => exact absurd hth (h a hist call f)
    | _ => rfl

end

end AspKernel.App
