import AspKernel.ThreadWait

/-! What a step means to one task or handler. -/

namespace AspKernel.App
set_option autoImplicit true

/-- The returns of the calls of one task or handler. -/
def Sys.own {L : Library} (s : Sys L) (v : Party) : List (Ret L) := s.rets.filter (·.who = v)

/-- The record of the returns is started anew. -/
def Sys.fresh {L : Library} (s : Sys L) : Sys L := { s with rets := [] }

/-- The function that a task or a handler is in. -/
def Thread.api {L : Library} : Thread L → Option L.Api
  | .idle => none
  | .run a _ _ _ | .wait a _ _ _ => some a

/-- The steps of the one who executes. -/
def Act.executes {L : Library} : Act L → Bool
  | .start _ | .run => true
  | _ => false

/-- What a step makes of the thread of one task or handler, and the calls of it that return. -/
inductive Turn {L : Library} (cfg : Cfg) (s : Sys L) (x : Act L) (s' : Sys L) (v : Party) :
    Thread L × List (Ret L) → Prop
  | same (hp : x.executes = true → party s.kernel ≠ some v)
    (hw : ∀ t a hist call f, v = .task t → s.thread v = .wait a hist call f →
      s'.kernel = s.kernel ∨ ∃ e, s.event x = some e ∧ AspKernel.Step cfg s.kernel e s'.kernel ∧
        ended cfg s.kernel e ≠ some t ∧ ∀ er, (s'.kernel.core.tcb t).winfo.cell ≠ .wercd er) :
    Turn cfg s x s' v (s.thread v, [])
  | ended (he : s.event x = some e) (hs : AspKernel.Step cfg s.kernel e s'.kernel)
    (hv : v = .task t) (ht : ended cfg s.kernel e = some t) : Turn cfg s x s' v (.idle, [])
  | start (hx : x = .start a) (hp : party s.kernel = some v) (hi : s.thread v = .idle)
    (hk : s'.kernel = s.kernel) : Turn cfg s x s' v (Thread.go v a [] (L.code a))
  | op (hx : x = .run) (hp : party s.kernel = some v) (ht : s.thread v = .run a hist op f)
    (hn : ∀ call, op ≠ .svc call) (hk : s'.kernel = s.kernel) (r : op.Out)
    (hr : ∀ h : op = .snsCtx, r = h ▸ s.kernel.core.senseContext) :
    Turn cfg s x s' v (Thread.next v a hist op f r s.clock)
  | svc (hx : x = .run) (hp : party s.kernel = some v)
    (ht : s.thread v = .run a hist (.svc call) f)
    (hs : AspKernel.Step cfg s.kernel (.call call) s'.kernel)
    (hr : (exec cfg s.kernel call).ercd = some ercd) : Turn cfg s x s' v
      (Thread.next v a hist (.svc call) f (ercd, (exec cfg s.kernel call).out) s.clock)
  | block (hx : x = .run) (hp : party s.kernel = some v)
    (ht : s.thread v = .run a hist (.svc call) f)
    (hs : AspKernel.Step cfg s.kernel (.call call) s'.kernel)
    (hr : (exec cfg s.kernel call).ercd = none) : Turn cfg s x s' v (.wait a hist call f, [])
  | woken (hv : v = .task t) (ht : s.thread v = .wait a hist call f) (he : s.event x = some e)
    (hs : AspKernel.Step cfg s.kernel e s'.kernel) (hn : ended cfg s.kernel e ≠ some t)
    (hc : (s'.kernel.core.tcb t).winfo.cell = .wercd ercd) : Turn cfg s x s' v
      (Thread.next v a hist (.svc call) f
        (ercd, call.woken (s'.kernel.core.tcb t).winfo ercd) s.clock)

/-- What a step makes of a task within a call that waits in a queue. -/
inductive Waits {L : Library} (cfg : Cfg) (s : Sys L) (x : Act L) (s' : Sys L) (t : Nat) (q : WQueue)
    (a : L.Api) (hist : Hist) (call : Call) (f : ER × AspKernel.Out → Code (L.Res a)) :
    Thread L × List (Ret L) → Prop
  | stays (hq : t ∈ s'.kernel.core.sched.queue (.wait q)) :
    Waits cfg s x s' t q a hist call f (.wait a hist call f, [])
  | ended (he : s.event x = some e) (hs : AspKernel.Step cfg s.kernel e s'.kernel)
    (ht : ended cfg s.kernel e = some t) : Waits cfg s x s' t q a hist call f (.idle, [])
  | woken (he : s.event x = some e) (hs : AspKernel.Step cfg s.kernel e s'.kernel)
    (hn : ended cfg s.kernel e ≠ some t) (hw : e.endsWait s.kernel t q ercd)
    (hc : (s'.kernel.core.tcb t).winfo.cell = .wercd ercd) : Waits cfg s x s' t q a hist call f
      (Thread.next (.task t) a hist (.svc call) f
        (ercd, call.woken (s'.kernel.core.tcb t).winfo ercd) s.clock)

/-- How a call returns in a step. -/
inductive Back {L : Library} (cfg : Cfg) (s : Sys L) (x : Act L) (s' : Sys L) (v : Party) : Ret L → Prop
  | start (hf : L.code a = .ret b) : Back cfg s x s' v ⟨v, a, [], b⟩
  | op (ht : s.thread v = .run a hist op f) (hn : ∀ call, op ≠ .svc call) (hf : f r = .ret b) :
    Back cfg s x s' v ⟨v, a, hist ++ [⟨op, r, s.clock⟩], b⟩
  | svc (hx : x = .run) (hp : party s.kernel = some v) (ht : s.thread v = .run a hist (.svc call) f)
    (hs : AspKernel.Step cfg s.kernel (.call call) s'.kernel)
    (hr : (exec cfg s.kernel call).ercd = some ercd)
    (hf : f (ercd, (exec cfg s.kernel call).out) = .ret b) : Back cfg s x s' v
      ⟨v, a, hist ++ [⟨.svc call, (ercd, (exec cfg s.kernel call).out), s.clock⟩], b⟩
  | woken (hv : v = .task t) (ht : s.thread v = .wait a hist call f)
    (hc : (s'.kernel.core.tcb t).winfo.cell = .wercd ercd)
    (hf : f (ercd, call.woken (s'.kernel.core.tcb t).winfo ercd) = .ret b) : Back cfg s x s' v
      ⟨v, a, hist ++ [⟨.svc call, (ercd, call.woken (s'.kernel.core.tcb t).winfo ercd), s.clock⟩], b⟩

/-- What holds of a system in every run. -/
structure Sys.Inv {L : Library} (cfg : Cfg) (s : Sys L) : Prop where
  kernel : AspKernel.Reachable cfg s.kernel
  queued : s.Queued cfg
  blocked : ∀ v a hist call f, s.thread v = .wait a hist call f →
    ∃ k, AspKernel.Reachable cfg k ∧ (AspKernel.exec cfg k call).ercd = none
  range : ∀ t, s.thread (.task t) ≠ .idle → t < cfg.tsk.tmax
  logged : s.Logged

section
variable {L : Library} {cfg : Cfg} {s s' : Sys L} {x : Act L} {v w : Party} {a : L.Api}
  {hist : Hist} {k : Kernel} {e : Event} {t : Nat}

theorem go_who {p : Code (L.Res a)} (h : r ∈ (Thread.go w a hist p).2) : r.who = w := by
  cases p with
  | ret b =>
    cases List.mem_singleton.1 h
    rfl
  | call => cases h

theorem woken_who (h : r ∈ (s.woken cfg e k t).2) : r.who = .task t := by
  unfold Sys.woken at h
  split at h
  · cases h
  · unfold Thread.wake at h
    split at h
    · split at h
      · exact go_who h
      · cases h
    · cases h

theorem filter_all {l : List (Ret L)} (h : ∀ r ∈ l, r.who = w) :
    l.filter (·.who = v) = if w = v then l else [] := by
  split
  · rename_i hw
    exact List.filter_eq_self.2 fun r hr => decide_eq_true ((h r hr).trans hw)
  · rename_i hw
    exact List.filter_eq_nil_iff.2 fun r hr he => hw ((h r hr).symm.trans (of_decide_eq_true he))

theorem goto_own {r : Thread L × List (Ret L)} (h : ∀ y ∈ r.2, y.who = w) (v : Party) :
    (s.goto w r).own v = s.own v ++ if w = v then r.2 else [] := by
  change List.filter _ (s.rets ++ r.2) = _
  rw [List.filter_append, filter_all h]
  rfl

theorem filter_flatMap (l : List Nat) (hn : l.Nodup) (g : Nat → List (Ret L))
    (hg : ∀ t, ∀ r ∈ g t, r.who = .task t) (v : Party) :
    (l.flatMap g).filter (·.who = v) =
      match v with
      | .task t => if t ∈ l then g t else []
      | .handler _ => [] := by
  induction l with
  | nil => cases v <;> rfl
  | cons u l ih =>
    rw [List.flatMap_cons, List.filter_append, filter_all (hg u), ih (List.nodup_cons.1 hn).2]
    cases v with
    | handler n => rfl
    | task t =>
      by_cases hut : u = t
      · subst hut
        have hnl := (List.nodup_cons.1 hn).1
        simp only [if_true, hnl, if_false, List.append_nil, List.mem_cons_self]
      · have hne : Party.task u ≠ .task t := fun he => hut (Party.task.inj he)
        simp only [hne, if_false, List.nil_append, List.mem_cons, Ne.symm hut, false_or]

theorem after_own (v : Party) : (s.after cfg e k).own v = s.own v ++
    match v with
    | .task t => if t < cfg.tsk.tmax then (s.woken cfg e k t).2 else []
    | .handler _ => [] := by
  change List.filter _ (s.rets ++ _) = _
  rw [List.filter_append, filter_flatMap _ List.nodup_range _ fun t r => woken_who]
  cases v with
  | handler n => rfl
  | task t =>
    simp only [List.mem_range]
    rfl

/-- The turn of one that does not execute in an event. -/
theorem after_turn (hr : ∀ t, s.thread (.task t) ≠ .idle → t < cfg.tsk.tmax)
    (hp : x.executes = true → party s.kernel ≠ some v) (he : s.event x = some e)
    (hs : AspKernel.Step cfg s.kernel e s'.kernel) :
    ∃ r, Turn cfg s x s' v r ∧ (s.after cfg e s'.kernel).thread v = r.1 ∧
      (s.after cfg e s'.kernel).own v = s.own v ++ r.2 := by
  rw [after_own]
  cases v with
  | handler n => exact ⟨_, .same hp nofun, rfl, rfl⟩
  | task t =>
    change ∃ r : Thread L × List (Ret L), _ ∧ (s.woken cfg e s'.kernel t).1 = r.1 ∧ _
    simp only
    unfold Sys.woken
    split
    · rename_i hn
      exact ⟨_, .ended he hs rfl hn, rfl, congrArg _ (ite_self _)⟩
    · rename_i hn
      cases hth : s.thread (.task t) with
      | idle =>
        refine ⟨(.idle, []), hth ▸ .same hp fun t a hist call f _ hw => ?_, rfl,
          congrArg _ (ite_self _)⟩
        exact nomatch hth.symm.trans hw
      | run a hist op f =>
        refine ⟨(.run a hist op f, []), hth ▸ .same hp fun t a hist call f _ hw => ?_, rfl,
          congrArg _ (ite_self _)⟩
        exact nomatch hth.symm.trans hw
      | wait a hist call f =>
        rw [if_pos (hr t (hth ▸ nofun))]
        unfold Thread.wake
        simp only
        split
        · rename_i ercd hc
          exact ⟨_, .woken rfl hth he hs hn hc, rfl, rfl⟩
        · rename_i hc
          refine ⟨_, hth ▸ .same hp fun u a hist call f hv _ => ?_, rfl, rfl⟩
          cases hv
          exact .inr ⟨e, he, hs, hn, fun er hc' => nomatch hc.symm.trans hc'⟩

/-- A task that ends within its own call is the caller. -/
theorem ended_self (h : ended cfg k (.call call) = some t)
    (hn : (exec cfg k call).ercd = none) : party k = some (.task t) := by
  cases call with
  | extTsk =>
    rcases extTsk_cases cfg k with ⟨e, he⟩ | ⟨hc, -⟩
    · rw [he] at hn
      cases hn
    · have hr : k.core.pRuntsk = some t := (if_pos hn).symm.trans h
      unfold party
      rw [hc, hr]
      rfl
  | terTsk id =>
    have hne : (exec cfg k (.terTsk id)).ercd ≠ some E_OK := fun he => nomatch hn.symm.trans he
    exact nomatch (if_neg hne).symm.trans h
  | _ => cases h

theorem ended_object (h : ended cfg k (.call call) = some t) (x : WaitFactor) (m : ID) :
    call.object ≠ some (.wobj x, m) := by
  intro ho
  cases call with
  | extTsk => cases ho
  | terTsk => cases ho
  | _ => cases h

theorem event_run {f : Op.Out (.svc call) → Code (L.Res a)} (hp : party s.kernel = some v)
    (ht : s.thread v = .run a hist (.svc call) f) : s.event .run = some (.call call) := by
  unfold Sys.event
  rw [hp, Option.map_some, ht]

theorem step_turn (hr : ∀ t, s.thread (.task t) ≠ .idle → t < cfg.tsk.tmax)
    (hx : Step cfg s x s') (v : Party) :
    ∃ r, Turn cfg s x s' v r ∧ s'.thread v = r.1 ∧ s'.own v = s.own v ++ r.2 := by
  have goto {s1 : Sys L} {w} {r : Thread L × List (Ret L)} (hw : ∀ y ∈ r.2, y.who = w)
      (ho : v ≠ w → ∃ r', Turn cfg s x s' v r' ∧ s1.thread v = r'.1 ∧ s1.own v = s.own v ++ r'.2)
      (hs : v = w → Turn cfg s x s' v r ∧ s1.own v = s.own v) :
      ∃ r', Turn cfg s x s' v r' ∧ (s1.goto w r).thread v = r'.1 ∧
        (s1.goto w r).own v = s.own v ++ r'.2 := by
    rw [goto_own hw, goto_thread]
    by_cases hvw : v = w
    · obtain ⟨ht, ho'⟩ := hs hvw
      rw [if_pos hvw, if_pos hvw.symm, ho']
      exact ⟨r, ht, rfl, rfl⟩
    · rw [if_neg hvw, if_neg (Ne.symm hvw), List.append_nil]
      exact ho hvw
  have other {w} (hp : party s.kernel = some w) (hv : v ≠ w) : party s.kernel ≠ some v :=
    fun hp' => hv (Option.some.inj (hp'.symm.trans hp))
  cases step_cases hx with
  | start hp hi =>
    exact goto (fun y => go_who) (fun hv => ⟨_, .same (fun _ => other hp hv)
      (fun _ _ _ _ _ _ _ => .inl rfl), rfl, (List.append_nil _).symm⟩) fun hv => by
        subst hv
        exact ⟨.start rfl hp hi rfl, rfl⟩
  | snsCtx hp ht =>
    exact goto (fun y => go_who) (fun hv => ⟨_, .same (fun _ => other hp hv)
      (fun _ _ _ _ _ _ _ => .inl rfl), rfl, (List.append_nil _).symm⟩) fun hv => by
        subst hv
        refine ⟨.op rfl hp ht (fun _ h => Op.noConfusion h) ?_ _ fun _ => rfl, rfl⟩
        rfl
  | usTickerRead hp ht =>
    exact goto (fun y => go_who) (fun hv => ⟨_, .same (fun _ => other hp hv)
      (fun _ _ _ _ _ _ _ => .inl rfl), rfl, (List.append_nil _).symm⟩) fun hv => by
        subst hv
        refine ⟨.op rfl hp ht (fun _ h => Op.noConfusion h) ?_ _ fun h => Op.noConfusion h, rfl⟩
        rfl
  | kernel hs => exact after_turn hr nofun rfl hs
  | elapse =>
    exact ⟨_, .same nofun (fun _ _ _ _ _ _ _ => .inl rfl), rfl, (List.append_nil _).symm⟩
  | svc hp ht hs =>
    rename_i w a hist call f k
    have he := event_run hp ht
    refine goto (fun y hy => ?_) (fun hv => after_turn hr (fun _ => other hp hv) he hs) fun hv => ?_
    · unfold Sys.entered at hy
      simp only at hy
      split at hy
      · exact go_who hy
      · cases hy
    · subst hv
      refine ⟨?_, ?_⟩
      · unfold Sys.entered
        simp only
        split
        · exact .svc rfl hp ht hs ‹_›
        · rename_i hn
          split
          · exact .block rfl hp ht hs hn
          · rename_i hne
            obtain ⟨t, hne⟩ := Option.ne_none_iff_exists'.1 hne
            exact .ended he hs (Option.some.inj (hp.symm.trans (ended_self hne hn))) hne
      · rw [after_own]
        cases v with
        | handler n => exact List.append_nil _
        | task t =>
          simp only
          rw [woken_of_not_wait fun _ _ _ _ hw => (nomatch ht.symm.trans hw)]
          simp only [ite_self, List.append_nil]

theorem Sys.Inv.step (h : s.Inv cfg) (hx : Step cfg s x s') : s'.Inv cfg := by
  have hk : AspKernel.Reachable cfg s'.kernel := by
    rcases step_kernel hx with ⟨he, -⟩ | ⟨e, -, he⟩
    · rw [he]
      exact h.kernel
    · exact h.kernel.step he
  refine ⟨hk, h.queued.step h.kernel hx, fun v a hist call f ht => ?_, fun t ht => ?_,
    h.logged.step hx⟩
  · obtain ⟨r, hr, hth, -⟩ := step_turn h.range hx v
    rw [hth] at ht
    cases hr with
    | same => exact h.blocked v a hist call f ht
    | block he hp ht' hs hr =>
      cases ht
      exact ⟨_, h.kernel, hr⟩
    | ended => cases ht
    | start => exact absurd ht go_not_wait
    | op => exact absurd ht go_not_wait
    | svc => exact absurd ht go_not_wait
    | woken => exact absurd ht go_not_wait
  have run (hp : party s.kernel = some (.task t)) : t < cfg.tsk.tmax := by
    unfold party at hp
    split at hp
    · cases hp
    · obtain ⟨u, hu, he⟩ := Option.map_eq_some_iff.1 hp
      cases he
      have hr := h.kernel.runInv.running t hu
      exact (h.kernel.runInv.inv.task t).range fun hd => by
        rw [hd] at hr
        cases hr
  obtain ⟨r, hr, hth, -⟩ := step_turn h.range hx (.task t)
  rw [hth] at ht
  cases hr with
  | same => exact h.range t ht
  | ended => exact absurd rfl ht
  | start _ hp => exact run hp
  | op _ hp => exact run hp
  | svc _ hp => exact run hp
  | block _ hp => exact run hp
  | woken hv hw =>
    cases hv
    exact h.range _ (hw ▸ nofun)

theorem Reachable.inv (h : Reachable cfg s) : s.Inv cfg := by
  obtain ⟨xs, hr⟩ := h
  exact hr.invariant (I := Sys.Inv cfg) (fun s x s' hs hx => hs.step hx)
    ⟨⟨[], .nil⟩, nofun, nofun, fun t ht => absurd rfl ht, fun _ => trivial, nofun⟩

theorem Sys.Inv.trace_run (h : s.Inv cfg) {op : Op} {f : op.Out → Code (L.Res a)}
    (ht : s.thread v = .run a hist op f) : Prog.Trace (L.code a) hist (.call op f) := by
  have hl := h.logged.thread v
  rw [ht] at hl
  exact hl.trace

theorem Sys.Inv.trace_wait (h : s.Inv cfg) (ht : s.thread v = .wait a hist call f) :
    Prog.Trace (L.code a) hist (.call (.svc call) f) := by
  have hl := h.logged.thread v
  rw [ht] at hl
  exact hl.trace

theorem Sys.Inv.mem (h : s.Inv cfg) (ht : s.thread (.task t) = .wait a hist call f)
    (hq : WaitsIn cfg call q) : t ∈ s.kernel.core.sched.queue (.wait q) :=
  h.kernel.runInv.loc_iff_mem.1 (h.queued t a hist call f q ht hq)

/-- A task that waits in a queue has no error code. -/
theorem Sys.Inv.cell (h : s.Inv cfg) (ht : t ∈ s.kernel.core.sched.queue (.wait q)) (er : ER) :
    (s.kernel.core.tcb t).winfo.cell ≠ .wercd er :=
  h.kernel.runInv.inv.cell_ne_ok ((Core.loc_attached rfl).trans (h.kernel.runInv.loc_iff_mem.2 ht)) er

theorem go_returns {p : Code (L.Res a)} (h : r ∈ (Thread.go w a hist p).2) :
    ∃ b, p = .ret b ∧ r = ⟨w, a, hist, b⟩ := by
  cases p with
  | ret b => exact ⟨b, rfl, List.mem_singleton.1 h⟩
  | call => cases h

theorem Turn.back (h : Turn cfg s x s' v r) (hy : y ∈ r.2) : Back cfg s x s' v y := by
  cases h with
  | same => cases hy
  | ended => cases hy
  | block => cases hy
  | start =>
    obtain ⟨b, hb, rfl⟩ := go_returns hy
    exact .start hb
  | op hx hp ht hn =>
    obtain ⟨b, hb, rfl⟩ := go_returns hy
    exact .op ht hn hb
  | svc hx hp ht hs hr =>
    obtain ⟨b, hb, rfl⟩ := go_returns hy
    exact .svc hx hp ht hs hr hb
  | woken hv ht he hs hn hc =>
    obtain ⟨b, hb, rfl⟩ := go_returns hy
    exact .woken hv ht hc hb

theorem Turn.of_run (hp : party s.kernel = some v) (ht : s.thread v = .run a hist (.svc call) f)
    (hn : App.ended cfg s.kernel (.call call) = none) (h : Turn cfg s .run s' v r) :
    AspKernel.Step cfg s.kernel (.call call) s'.kernel ∧
      ((∃ ercd, (exec cfg s.kernel call).ercd = some ercd ∧
        r = Thread.next v a hist (.svc call) f (ercd, (exec cfg s.kernel call).out) s.clock) ∨
      (exec cfg s.kernel call).ercd = none ∧ r = (.wait a hist call f, [])) := by
  have he := event_run hp ht
  cases h with
  | same hp' => exact absurd hp (hp' rfl)
  | ended he' hs hv ht' =>
    cases he.symm.trans he'
    exact nomatch hn.symm.trans ht'
  | start hx => cases hx
  | op _ hp' ht' hn' =>
    cases ht.symm.trans ht'
    exact absurd rfl (hn' call)
  | svc he' hp' ht' hs hr =>
    cases ht.symm.trans ht'
    exact ⟨hs, .inl ⟨_, hr, rfl⟩⟩
  | block he' hp' ht' hs hr =>
    cases ht.symm.trans ht'
    exact ⟨hs, .inr ⟨hr, rfl⟩⟩
  | woken hv ht' => exact nomatch ht.symm.trans ht'

theorem Turn.waits (h : s.Inv cfg) (ht : s.thread (.task t) = .wait a hist call f)
    (hq : WaitsIn cfg call q) (hr : Turn cfg s x s' (.task t) r) :
    Waits cfg s x s' t q a hist call f r := by
  have hl := h.queued t a hist call f q ht hq
  cases hr with
  | same hp hw =>
    rw [ht]
    rcases hw t a hist call f rfl ht with hk | ⟨e, he, hs, hn, hc⟩
    · exact .stays (hk ▸ h.mem ht hq)
    · rcases wait_ends h.kernel.runInv hs hl hn with hst | ⟨er, -, hleft⟩
      · have hi := (h.kernel.step hs).runInv
        exact .stays (hi.loc_iff_mem.1 (hst.loc (hi.inv.task t).legal hl))
      · exact absurd hleft.cell (hc er)
  | ended he hs hv hn =>
    cases hv
    exact .ended he hs hn
  | start hx hp hi => exact nomatch hi.symm.trans ht
  | op _ hp ht' => exact nomatch ht'.symm.trans ht
  | svc he hp ht' => exact nomatch ht'.symm.trans ht
  | block he hp ht' => exact nomatch ht'.symm.trans ht
  | woken hv ht' he hs hn hc =>
    cases hv
    cases ht'.symm.trans ht
    rcases wait_ends h.kernel.runInv hs hl hn with hst | ⟨er, hw, hleft⟩
    · have hi := (h.kernel.step hs).runInv
      have hl' := hst.loc (hi.inv.task t).legal hl
      exact absurd hc (hi.inv.cell_ne_ok ((Core.loc_attached rfl).trans hl') _)
    · cases WCell.wercd.inj (hleft.cell.symm.trans hc)
      exact .woken he hs hn hw hc

/-- A task that is in the queue after a step goes on with its wait. -/
theorem Sys.Inv.waiting (h : s.Inv cfg) (hx : Step cfg s x s')
    (ht : s.thread (.task t) = .wait a hist call f) (hq : WaitsIn cfg call q)
    (hm : t ∈ s'.kernel.core.sched.queue (.wait q)) : s'.thread (.task t) = .wait a hist call f := by
  have hi := h.step hx
  obtain ⟨r, hr, hth, -⟩ := step_turn h.range hx (.task t)
  rw [hth]
  cases hr.waits h ht hq with
  | stays => rfl
  | ended he hs hn => exact absurd hm (ended_left hi.kernel.runInv hs hn)
  | woken he hs hn hw hc => exact absurd hc (hi.cell hm _)

theorem Sys.Inv.served_self (h : s.Inv cfg) (q : WQueue) :
    s.kernel.core.served s.kernel.core q = [] :=
  List.filter_eq_nil_iff.2 fun _ ht hc => h.cell ht _ (of_decide_eq_true hc)

/-- A call ends with a service call that does not wait. -/
theorem Turn.last_svc {y : Ret L} (h : s.Inv cfg) (hr : Turn cfg s x s' v r) (hy : y ∈ r.2)
    (hh : y.hist = hist ++ [⟨.svc call, (ercd, out), time⟩])
    (hn : ∀ k, AspKernel.Reachable cfg k → (exec cfg k call).ercd ≠ none) :
    AspKernel.Step cfg s.kernel (.call call) s'.kernel ∧
      (exec cfg s.kernel call).ercd = some ercd := by
  cases hr.back hy with
  | start => exact absurd hh.symm (List.append_ne_nil_of_right_ne_nil _ (List.cons_ne_nil _ _))
  | op ht hne =>
    cases (List.append_inj' hh rfl).2
    exact absurd rfl (hne call)
  | svc hx hp ht hs hr =>
    cases (List.append_inj' hh rfl).2
    exact ⟨hs, hr⟩
  | woken hv ht =>
    cases (List.append_inj' hh rfl).2
    obtain ⟨k, hk, hno⟩ := h.blocked _ _ _ _ _ ht
    exact absurd hno (hn k hk)

theorem Turn.length_le (h : Turn cfg s x s' v r) : r.2.length ≤ 1 := by
  have go {a : L.Api} {hist : Hist} (p : Code (L.Res a)) : (Thread.go v a hist p).2.length ≤ 1 := by
    cases p
    · exact Nat.le_refl _
    · exact Nat.zero_le _
  cases h with
  | same => exact Nat.zero_le _
  | ended => exact Nat.zero_le _
  | block => exact Nat.zero_le _
  | start => exact go _
  | op => exact go _
  | svc => exact go _
  | woken => exact go _

/-- A step while one executes. -/
def Sys.solo (cfg : Cfg) (w : Party) (s : Sys L) (x : Act L) : Option (Sys L) :=
  if party s.kernel = some w then s.step cfg x else none

theorem step_of_solo (hx : s.solo cfg w x = some s') : Step cfg s x s' := by
  unfold Sys.solo at hx
  split at hx
  · exact hx
  · cases hx

theorem solo_idle (h : s.Inv cfg) (hx : s.solo cfg w x = some s') (hv : v ≠ w)
    (hi : s.thread v = .idle) : s'.thread v = .idle := by
  unfold Sys.solo at hx
  split at hx
  · rename_i hp
    obtain ⟨r, hr, hth, -⟩ := step_turn h.range hx v
    have hne : party s.kernel ≠ some v := fun hp' => hv (Option.some.inj (hp'.symm.trans hp))
    rw [hth]
    cases hr with
    | same => exact hi
    | ended => rfl
    | start _ hp' => exact absurd hp' hne
    | op _ hp' => exact absurd hp' hne
    | svc _ hp' => exact absurd hp' hne
    | block _ hp' => exact absurd hp' hne
    | woken _ ht => exact nomatch hi.symm.trans ht
  · cases hx

/-- A run while one executes, who alone is within functions. -/
theorem solo_run {xs : List (Act L)} (h : s.Inv cfg) (hx : xs.foldlM (Sys.solo cfg w) s = some s')
    (hi : ∀ v ≠ w, s.thread v = .idle) : Run cfg s xs s' ∧ ∀ v ≠ w, s'.thread v = .idle := by
  have hr := Trans.Run.of_foldlM hx
  clear hx
  induction hr with
  | nil => exact ⟨.nil, hi⟩
  | snoc hr he ih =>
    have hI := ih.1.invariant (I := Sys.Inv cfg) (fun s x s' hs hx => hs.step hx) h
    exact ⟨ih.1.snoc (step_of_solo he), fun v hv => solo_idle hI he hv (ih.2 v hv)⟩

theorem Sys.Inv.fresh (h : s.Inv cfg) : s.fresh.Inv cfg :=
  ⟨h.kernel, h.queued, h.blocked, h.range, h.logged.thread, nofun⟩

end

end AspKernel.App
