import AspKernel.TaskOps
import AspKernel.Reach

/-! The precedence of the tasks after a change of priority. -/

namespace AspKernel
set_option autoImplicit true

/-- What the scheduler relies on: its queues, its bit map, the scheduled task, and task states that the
kernel uses. The tasks of `D` are those that an operation under way has taken from their queues. -/
structure Core.SchedOk (D : Nat → Bool) (c : Core) : Prop where
  sched : SchedInv (c.loc D) c.priority c.tpri c.sched
  legal : ∀ t, (c.tcb t).tstat.Legal

theorem CoreInv.schedOk (h : CoreInv cfg D c) : c.SchedOk D := ⟨h.sched, fun t => (h.task t).legal⟩

section
variable {D : Nat → Bool} {c : Core} {s : Sched}

theorem requeue_queue (s : Sched) (t old new : Nat) (m : Bool) :
    (s.requeue t old new m).queue = Function.update (s.queueDelete t).queue (.ready new)
      (if m then t :: (s.ready new).erase t else (s.ready new).erase t ++ [t]) := by
  have hq := primapUpdate_queue (s.queueDelete t) old
  cases m with
  | true =>
    change Function.update ((s.queueDelete t).primapUpdate old).queue _ _ = _
    rw [hq]
    rfl
  | false =>
    change Function.update ((s.queueDelete t).primapUpdate old).queue _ _ = _
    rw [hq]
    rfl

/-- The shortcuts for the scheduled task leave the queues as they are. -/
theorem changePriority_queue (s : Sched) (pri : Nat → Nat) (d : Bool) (t old : Nat) (m : Bool) :
    (s.changePriority pri d t old m).1.queue = (s.requeue t old (pri t) m).queue := by
  unfold Sched.changePriority
  simp only
  split
  · rfl
  · split
    · split <;> rfl
    · split <;> rfl

/-- A dispatch is asked for exactly when the scheduled task has changed. -/
theorem changePriority_asks (s : Sched) (pri : Nat → Nat) (d : Bool) (t old : Nat) (m : Bool) :
    (s.changePriority pri d t old m).2 = true ↔
      d = true ∧ (s.changePriority pri d t old m).1.pSchedtsk ≠ s.pSchedtsk := by
  have hsame := requeue_pSchedtsk s t old (pri t) m
  constructor
  · unfold Sched.changePriority
    simp only
    split
    · nofun
    · rename_i u hs
      rw [hsame] at hs
      split
      · rename_i hut
        split
        · intro hr
          obtain ⟨hne, hd⟩ := Bool.and_eq_true_iff.1 hr
          refine ⟨hd, ?_⟩
          rw [hs, hut]
          exact bne_iff_ne.1 hne
        · nofun
      · rename_i hut
        split
        · intro hd
          refine ⟨hd, ?_⟩
          rw [hs]
          exact fun he => hut (Option.some.inj he).symm
        · nofun
  · rintro ⟨hd, hne⟩
    by_contra hr
    rcases changePriority_signals s pri d t old m (Bool.eq_false_iff.2 hr) with he | he
    · exact hne he
    · rw [hd] at he
      cases he

/-- What `change_priority` does to the scheduler: a runnable task changes its ready queue, a task in a
queue in the order of priority enters it again, and nothing happens for the others. -/
theorem changePriority_cases (h : c.SchedOk D) (hd : D t = false) (new : Nat) (m : Bool) :
    ((c.tcb t).tstat.runnable = true ∧ c.loc D t = some (.ready (c.priority t)) ∧
      ((c.changePriority t new m).1.sched, (c.changePriority t new m).2) =
        c.sched.changePriority (Function.update c.priority t new) c.dspflg t (c.priority t) m) ∨
    ((c.tcb t).tstat.runnable = false ∧ (c.changePriority t new m).2 = false ∧
      ((∃ q, c.loc D t = some (.wait q) ∧ c.tpri q = true ∧ (c.changePriority t new m).1.sched =
          c.sched.wobjChangePriority (Function.update c.priority t new) q t) ∨
        (∀ q, c.loc D t = some (.wait q) → c.tpri q = false) ∧
          (c.changePriority t new m).1.sched = c.sched)) := by
  have hloc := Core.loc_attached (c := c) hd
  have hpri := Core.priority_setTcb c t { c.tcb t with priority := new }
  unfold Core.changePriority
  simp only [Core.setTcb_self]
  split
  · rename_i hr
    refine .inl ⟨hr, hloc.trans (TCB.loc_runnable hr), ?_⟩
    rw [hpri]
    rfl
  · rename_i hr
    have hr := Bool.eq_false_iff.2 hr
    split
    · rename_i hq
      have hw := (h.legal t).waiting_of_wobj (wait_code hq)
      have hcur : c.loc D t = some (.wait (c.waitQueue t)) :=
        hloc.trans (TCB.loc_eq_wait.2 ⟨hr, hw, wait_code hq, rfl, rfl⟩)
      have htp := Core.tpri_waitQueue hq
      refine .inr ⟨hr, rfl, ?_⟩
      unfold Core.wobjChangePriority
      rw [Core.waitQueue_setPriority, hpri]
      split
      · rename_i hatr
        exact .inl ⟨_, hcur, htp.trans hatr, rfl⟩
      · rename_i hatr
        refine .inr ⟨fun q hq' => ?_, rfl⟩
        rw [hcur] at hq'
        cases hq'
        exact htp.trans (Bool.eq_false_iff.2 hatr)
    · rename_i hq
      refine .inr ⟨hr, rfl, .inr ⟨fun q hq' => ?_, rfl⟩⟩
      rw [hloc] at hq'
      obtain ⟨-, -, -, h4, -⟩ := TCB.loc_eq_wait.1 hq'
      have h1 : decide (WaitFactor.SEM.code ≤ q.1.code) = false := by
        rw [← h4]
        exact Bool.eq_false_iff.2 hq
      unfold Core.tpri
      rw [h1, Bool.false_and]

/-- The queues after a task has entered its wait queue again. -/
theorem wobjChangePriority_queue (s : Sched) (pri : Nat → Nat) (q : WQueue) (t : Nat) :
    (s.wobjChangePriority pri q t).queue = Function.update (s.queueDelete t).queue (.wait q)
      (Links.insertBy (fun a b => decide (pri a < pri b)) t ((s.queue (.wait q)).erase t)) := rfl

/-- A task that enters a queue in the order of priority goes behind its equals. -/
theorem SchedInv.insertTpri {L : Nat → Option TaskQueue} {tp : WQueue → Bool}
    (h : SchedInv L pri tp s) (hq : tp q = true) (t new : Nat) : ∃ l₁ l₂,
      Links.insertBy (fun a b => decide (Function.update pri t new a < Function.update pri t new b)) t
        ((s.queue (.wait q)).erase t) = l₁ ++ t :: l₂ ∧
      (∀ u ∈ l₁, pri u ≤ new) ∧ ∀ u ∈ l₂, new < pri u := by
  obtain ⟨l₁, l₂, he, hi, h1, h2⟩ := Links.insertBy_eq
    (fun a b => decide (Function.update pri t new a < Function.update pri t new b)) t
    ((s.queue (.wait q)).erase t)
  have hpri (u : Nat) (hu : u ∈ l₁ ++ l₂) : Function.update pri t new u = pri u := by
    refine Function.update_of_ne ?_ ..
    rintro rfl
    rw [← he] at hu
    exact (h.linked.nodup (.wait q)).not_mem_erase hu
  have hsort : (l₁ ++ l₂).Pairwise fun u v => pri u ≤ pri v := by
    rw [← he]
    refine ((h.sorted q).imp fun hb => ?_).sublist List.erase_sublist
    unfold Before at hb
    rw [if_pos hq] at hb
    omega
  refine ⟨l₁, l₂, hi, fun u hu => ?_, fun u hu => ?_⟩
  · have hlt := of_decide_eq_false (h1 u hu)
    rw [Function.update_self, hpri u (List.mem_append_left _ hu)] at hlt
    exact Nat.le_of_not_lt hlt
  · obtain ⟨v, l, rfl⟩ := List.exists_cons_of_ne_nil (List.ne_nil_of_mem hu)
    have hlt := of_decide_eq_true (h2 v rfl)
    rw [Function.update_self, hpri v (List.mem_append_right _ List.mem_cons_self)] at hlt
    rcases List.mem_cons.1 hu with rfl | hu
    · exact hlt
    · exact hlt.trans_le ((List.pairwise_cons.1 (List.pairwise_append.1 hsort).2.1).1 u hu)

/-- The queues after the move of a runnable task, as those of the state before. -/
theorem changePriority_ready {r : Sched × Bool} (pri : Nat → Nat) (new : Nat) (m : Bool)
    (hr : r = s.changePriority (Function.update pri t new) d t (pri t) m) :
    r.1.queue = Function.update (s.queueDelete t).queue (.ready new)
      (if m then t :: (s.ready new).erase t else (s.ready new).erase t ++ [t]) := by
  subst hr
  rw [changePriority_queue, requeue_queue, Function.update_self]

theorem erase_update {L : Nat → Option TaskQueue} (h : Links.Linked L s.queue) (q q' : TaskQueue)
    {l : List Nat} (hl : l.erase t = (s.queue q).erase t) :
    (Function.update (s.queueDelete t).queue q l q').erase t = (s.queue q').erase t := by
  by_cases hq : q' = q
  · subst hq
    rw [Function.update_self, hl]
  · rw [Function.update_of_ne hq]
    exact List.erase_of_not_mem (h.nodup q').not_mem_erase

/-- The effect of `change_priority` on the precedence, in every state that satisfies the invariant of the
scheduler and for every task. The other tasks keep their order in all queues. A runnable task comes first
or last among those of its new priority; in a queue in the order of priority the task goes behind its
equals; all other queues stay. The first task of the highest priority is scheduled, and a dispatch is asked
for exactly when this is another one than before. -/
theorem changePriority_order (h : c.SchedOk D) (hd : D t = false) (hn : new < TNUM_TPRI) (m : Bool) :
    (∀ q, ((c.changePriority t new m).1.sched.queue q).erase t = (c.sched.queue q).erase t) ∧
    ((c.tcb t).tstat.runnable = true → (c.changePriority t new m).1.sched.ready new =
      if m then t :: (c.sched.ready new).erase t else (c.sched.ready new).erase t ++ [t]) ∧
    ((c.tcb t).tstat.runnable = false →
      ∀ p, (c.changePriority t new m).1.sched.ready p = c.sched.ready p) ∧
    (∀ q, t ∈ c.sched.queue (.wait q) → c.tpri q = true → ∃ l₁ l₂,
      (c.changePriority t new m).1.sched.queue (.wait q) = l₁ ++ t :: l₂ ∧
      (∀ u ∈ l₁, c.priority u ≤ new) ∧ ∀ u ∈ l₂, new < c.priority u) ∧
    (∀ q, ¬(t ∈ c.sched.queue (.wait q) ∧ c.tpri q = true) →
      (c.changePriority t new m).1.sched.queue (.wait q) = c.sched.queue (.wait q)) ∧
    IsTop c.sched.ready c.sched.pSchedtsk ∧
    IsTop (c.changePriority t new m).1.sched.ready (c.changePriority t new m).1.sched.pSchedtsk ∧
    ((c.changePriority t new m).2 = true ↔ c.dspflg = true ∧
      (c.changePriority t new m).1.sched.pSchedtsk ≠ c.sched.pSchedtsk) := by
  have hlink := h.sched.linked
  rcases changePriority_cases h hd new m with
    ⟨hr, hcur, he⟩ | ⟨hr, hb, ⟨q, hcur, htp, he⟩ | ⟨hno, he⟩⟩
  · have hq := changePriority_ready c.priority new m he
    have htop := (h.sched.changePriority (d := c.dspflg) (m := m) hcur hn).top
    have hask := changePriority_asks c.sched (Function.update c.priority t new) c.dspflg t
      (c.priority t) m
    rw [← he] at htop hask
    have hwait (q : WQueue) : t ∉ c.sched.queue (.wait q) := fun hm => by
      rw [hlink.mem, hcur] at hm
      cases hm
    refine ⟨fun q => ?_, fun _ => ?_, fun hr' => absurd (hr.symm.trans hr') nofun,
      fun q hm => absurd hm (hwait q), fun q _ => ?_, h.sched.top, htop, hask⟩
    · rw [hq]
      refine erase_update hlink _ q ?_
      cases m with
      | true => exact List.erase_cons_head ..
      | false =>
        have hnot : t ∉ (c.sched.ready new).erase t := (hlink.nodup (.ready new)).not_mem_erase
        change ((c.sched.ready new).erase t ++ [t]).erase t = _
        rw [List.erase_append_right _ hnot, List.erase_cons_head, List.append_nil]
        rfl
    · change (c.changePriority t new m).1.sched.queue (.ready new) = _
      rw [hq, Function.update_self]
    · rw [hq, Function.update_of_ne (nofun : TaskQueue.wait q ≠ .ready new)]
      exact List.erase_of_not_mem (hwait q)
  · have hq := congrArg Sched.queue he
    rw [wobjChangePriority_queue] at hq
    have hmem : t ∈ c.sched.queue (.wait q) := hlink.mem.2 hcur
    have hother (q' : TaskQueue) (hne : q' ≠ .wait q) :
        (c.changePriority t new m).1.sched.queue q' = c.sched.queue q' := by
      rw [hq, Function.update_of_ne hne]
      refine List.erase_of_not_mem fun hm => hne ?_
      rw [hlink.mem, hcur] at hm
      exact (Option.some.inj hm).symm
    have hready : (c.changePriority t new m).1.sched.ready = c.sched.ready :=
      funext fun p => hother (.ready p) nofun
    refine ⟨fun q' => ?_, fun hr' => absurd (hr.symm.trans hr') nofun,
      fun _ p => congrFun hready p, fun q' hm _ => ?_, fun q' hno => ?_, h.sched.top, ?_, ?_⟩
    · rw [hq]
      refine erase_update hlink _ q' ?_
      exact Links.insertBy_erase (hlink.nodup (.wait q)).not_mem_erase
    · rw [hlink.mem, hcur] at hm
      cases hm
      rw [hq, Function.update_self]
      exact h.sched.insertTpri htp t new
    · refine hother _ fun hqq => hno ?_
      cases hqq
      exact ⟨hmem, htp⟩
    · rw [hready, he]
      exact h.sched.top
    · rw [hb, he]
      exact ⟨nofun, fun hne => absurd rfl hne.2⟩
  · refine ⟨fun q => by rw [he], fun hr' => absurd (hr.symm.trans hr') nofun, fun _ p => by rw [he],
      fun q hm htp => ?_, fun q _ => by rw [he], h.sched.top, by rw [he]; exact h.sched.top, ?_⟩
    · rw [hno q (hlink.mem.1 hm)] at htp
      cases htp
    · rw [hb, he]
      exact ⟨nofun, fun hne => absurd rfl hne.2⟩

/-- The running task gets a lower priority. -/
theorem changePriority_order_boot : ((boot .small).core.tcb 0).tstat.runnable = true ∧
    ((boot .small).core.changePriority 0 9 false).1.sched.ready 9 =
      ((boot .small).core.sched.ready 9).erase 0 ++ [0] ∧
    (((boot .small).core.changePriority 0 9 false).2 = true ↔ (boot .small).core.dspflg = true ∧
      ((boot .small).core.changePriority 0 9 false).1.sched.pSchedtsk ≠
        (boot .small).core.sched.pSchedtsk) := by
  have hr : ((boot .small).core.tcb 0).tstat.runnable = true := by decide +kernel
  obtain ⟨-, h1, -, -, -, -, -, h2⟩ := changePriority_order
    (boot_reachable .small).runInv.inv.schedOk (rfl : noD 0 = false) (by decide : 9 < TNUM_TPRI) false
  exact ⟨hr, h1 hr, h2⟩

end

end AspKernel
