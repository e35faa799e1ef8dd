import AspKernel.Fair

namespace AspKernel
set_option autoImplicit true

section
variable {cfg : Cfg} {k : Kernel} {c : Core}

theorem CoreInv.primap (h : CoreInv cfg noD c) (p : Nat) :
    c.sched.readyPrimap.getLsbD p = true ↔ c.sched.ready p ≠ [] := by
  by_cases hp : p < TNUM_TPRI
  · exact h.sched.primap p hp
  · have hn := h.sched.ready_eq_nil hp
    rw [BitVec.getLsbD_of_ge _ _ (show 16 ≤ p from Nat.le_of_not_lt hp)]
    exact ⟨nofun, fun hne => absurd hn hne⟩

theorem boot_reachable (cfg : Cfg) : Reachable cfg (boot cfg) := ⟨[], .nil⟩

/-- The state after some events, where they can happen. -/
def Kernel.steps (cfg : Cfg) (es : List Event) : Option Kernel :=
  es.foldlM (Kernel.step cfg) (boot cfg)

theorem reachable_of_steps (h : Kernel.steps cfg es = some k) : Reachable cfg k :=
  ⟨es, Trans.Run.of_foldlM h⟩

/-- What a service call leaves to the dispatcher. -/
theorem RunInv.exec (h : RunInv cfg k.core)
    (hr : k.core.senseContext = true ∨ k.core.pRuntsk ≠ none) (call : Call) :
    ((exec cfg k call).disp = true ∨
      (k.core.senseContext = false → (exec cfg k call).st.core.Settled)) ∧
    (k.core.senseContext = true → (exec cfg k call).st.core.Settled ∨
      (exec cfg k call).st.core.reqflg = true) ∧
    (exec cfg k call).st.core.assertOk = true := by
  have he := effect_exec (h.callPre hr) call
  generalize hres : (AspKernel.exec cfg k call).map Kernel.core = r at he
  have hst : (AspKernel.exec cfg k call).st.core = r.st := congrArg Res.st hres
  have hdisp : (AspKernel.exec cfg k call).disp = r.disp := congrArg Res.disp hres
  rw [hst, hdisp]
  cases he with
  | task hm hb hc =>
    rename_i b c' disp ercd out
    have hf := hm.frame h.inv
    have hset (hb' : b = false) (hs : k.core.Settled) : c'.Settled := hf.settled hb' hs
    refine ⟨?_, fun hctx => ?_, (hm.coreInv h.inv).asserts⟩
    · cases hd : disp with
      | true => exact .inl rfl
      | false =>
        refine .inr fun hctx => hset ?_ (h.settled hctx)
        by_contra hne
        have hd' := hb (Bool.not_eq_false _ ▸ hne)
        rw [hd] at hd'
        cases hd'
    · have hb' : b = false := by
        by_contra hne
        have hctx' := hc (hb (Bool.not_eq_false _ ▸ hne))
        rw [hctx] at hctx'
        cases hctx'
      refine h.requested.imp (hset hb') fun hreq => ?_
      change c'.reqflg = true
      rw [hf.reqflg, hreq]
  | int hm hb hc =>
    have hr := h.interrupt hc (hm.coreInv h.inv) (hm.frame h.inv) hb
    refine ⟨.inr fun hctx => ?_, fun _ => hr.requested, hr.inv.asserts⟩
    rw [hc] at hctx
    cases hctx

theorem CoreInv.mem_wait (h : CoreInv cfg noD c) :
    t ∈ c.sched.queue (.wait q) ↔ (c.tcb t).loc = some (.wait q) := by
  rw [h.sched.linked.mem, Core.loc_attached rfl]

/-- The task waits in the queue. -/
def TCB.waitsIn (p : TCB) (q : WQueue) : Prop :=
  p.tstat.waiting = true ∧ p.tstat.waitWobj = true ∧ q = (p.tstat.factor, p.winfo.wobjcb)

instance (p : TCB) (q : WQueue) : Decidable (p.waitsIn q) := by
  unfold TCB.waitsIn
  infer_instance

theorem TStat.Legal.loc_eq_wait {p : TCB} (h : p.tstat.Legal) :
    p.loc = some (.wait q) ↔ p.waitsIn q := by
  rw [TCB.loc_eq_wait]
  constructor
  · rintro ⟨_, hw, hq, hf, hi⟩
    exact ⟨hw, hq, Prod.ext hf.symm hi.symm⟩
  · rintro ⟨hw, hq, rfl⟩
    exact ⟨h.not_runnable hw, hw, hq, rfl, rfl⟩

/-- How a change treats the tasks of the wait queues. Those that enter get the next numbers, and so
do those of `R` where they move in a queue in the order of priority; the others keep theirs. A task
completes its wait after the tasks ahead of it, other than in the queues of event flags. -/
structure Queued (R : Nat → Prop) (c c' : Core) : Prop where
  enter : ∀ q, ∀ u ∈ c'.sched.queue (.wait q), u ∉ c.sched.queue (.wait q) →
    c.sched.arrivals ≤ c'.sched.arrival u
  stay : ∀ q, ∀ u ∈ c.sched.queue (.wait q), u ∈ c'.sched.queue (.wait q) →
    ¬R u ∨ c.tpri q = false → c'.sched.arrival u = c.sched.arrival u
  moved : ∀ q, ∀ u ∈ c.sched.queue (.wait q), u ∈ c'.sched.queue (.wait q) → c.tpri q = true →
    c'.priority u ≠ c.priority u → c.sched.arrivals ≤ c'.sched.arrival u
  first : ∀ q, ∀ t ∈ c.sched.queue (.wait q), ∀ u ∈ c.sched.queue (.wait q), q.1 ≠ .FLG →
    c.Ahead q t u → (c'.tcb u).winfo.cell = .wercd E_OK → t ∉ c'.sched.queue (.wait q)

theorem RunInv.queued {k k' : Kernel} (h : RunInv cfg k.core) (h' : RunInv cfg k'.core)
    (hs : Step cfg k e k') : Queued (e.repri k) k.core k'.core := by
  have hw := h.waits hs
  refine ⟨fun q u hu hn => ?_, fun q u hu hu' hR => ?_, fun q u hu hu' ht hp => ?_,
    fun q t ht u hu hq ha hok => ?_⟩
  · rw [h.inv.mem_wait] at hn
    exact (hw.arrive u q (h'.inv.mem_wait.1 hu)).resolve_left hn
  · rw [h.inv.mem_wait] at hu
    rcases hR with hR | hR
    · exact hw.stay u q hR hu
    · exact hw.fifo u q hu (h'.inv.mem_wait.1 hu') hR
  · exact (hw.order u q (h.inv.mem_wait.1 hu) (h'.inv.mem_wait.1 hu') ht).resolve_left hp
  · rw [h'.inv.mem_wait]
    exact h.fair h'.inv hs hq (h.inv.mem_wait.1 ht) (h.inv.mem_wait.1 hu) ha hok

theorem Reachable.step (h : Reachable cfg k) (hs : Step cfg k e k') : Reachable cfg k' := by
  obtain ⟨es, hes⟩ := h
  exact ⟨es ++ [e], .snoc hes hs⟩

/-- The time events in the order of their kinds. -/
def TmevtbPtr.code (cfg : Cfg) : TmevtbPtr → Nat
  | .tsk t => t
  | .cyc i => cfg.tsk.tmax + i
  | .alm i => cfg.tsk.tmax + cfg.cyc.tmax + i

end

end AspKernel
