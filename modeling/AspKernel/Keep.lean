import AspKernel.BootInv

namespace AspKernel
set_option autoImplicit true

theorem makeRunnable_numbers (s : Sched) (pri : Nat → Nat) (d : Bool) (t : Nat) :
    (s.makeRunnable pri d t).1.numbers = s.numbers := by
  unfold Sched.makeRunnable
  simp only
  split
  · rfl
  · split <;> rfl

theorem makeNonRunnable_numbers (s : Sched) (pri : Nat → Nat) (d : Bool) (t : Nat) :
    (s.makeNonRunnable pri d t).1.numbers = s.numbers := by
  unfold Sched.makeNonRunnable
  simp only
  split
  · split
    · split <;> rfl
    · rfl
  · split <;> rfl

theorem changePriority_numbers (s : Sched) (pri : Nat → Nat) (d : Bool) (t old : Nat) (m : Bool) :
    (s.changePriority pri d t old m).1.numbers = s.numbers := by
  have hr : (s.requeue t old (pri t) m).numbers = s.numbers := by
    unfold Sched.requeue Sched.primapUpdate
    simp only
    split <;> split <;> rfl
  rw [← hr]
  unfold Sched.changePriority
  simp only
  split
  · rfl
  · split
    · split <;> rfl
    · split <;> rfl

theorem rotateReadyQueue_numbers (s : Sched) (d : Bool) (p : Nat) :
    (s.rotateReadyQueue d p).1.numbers = s.numbers := by
  unfold Sched.rotateReadyQueue
  split
  · simp only
    split <;> rfl
  · rfl

/-- What a change keeps of the waits of the tasks that are not running: only in queues of `P` are
they completed, and only tasks of `R` are numbered anew. -/
structure Keep (P : WQueue → Prop) (R : Nat → Prop) (c c' : Core) : Prop where
  runtsk : c'.pRuntsk = c.pRuntsk
  arrivals : c.sched.arrivals ≤ c'.sched.arrivals
  arrival : ∀ u, c'.sched.arrival u = c.sched.arrival u ∨
    c.sched.arrivals ≤ c'.sched.arrival u ∧ c'.sched.arrival u < c'.sched.arrivals
  stay : ∀ u, ¬R u → c.pRuntsk ≠ some u → c'.sched.arrival u = c.sched.arrival u
  idle : ∀ u, c.pRuntsk ≠ some u → (c.tcb u).tstat.waiting = false →
    (c'.tcb u).tstat.waiting = false ∧ (c'.tcb u).winfo = (c.tcb u).winfo
  wait : ∀ u q, c.pRuntsk ≠ some u → (c.tcb u).loc = some (.wait q) →
    (c'.tcb u).loc = some (.wait q) ∧ (c'.tcb u).winfo = (c.tcb u).winfo ∨
    (c'.tcb u).tstat.waiting = false ∧ ((c'.tcb u).winfo.cell = .wercd E_OK → P q)
  enter : ∀ u q, (c'.tcb u).loc = some (.wait q) →
    (c.tcb u).loc = some (.wait q) ∨ c.sched.arrivals ≤ c'.sched.arrival u
  order : ∀ u q, c.pRuntsk ≠ some u → (c'.tcb u).loc = some (.wait q) →
    (c.tcb u).loc = some (.wait q) ∧ c'.tpri q = c.tpri q ∧
    (c.tpri q = true → (c'.tcb u).priority = (c.tcb u).priority ∨
      R u ∧ c.sched.arrivals ≤ c'.sched.arrival u)
  fifo : ∀ u q, c.pRuntsk ≠ some u → (c'.tcb u).loc = some (.wait q) → c.tpri q = false →
    c'.sched.arrival u = c.sched.arrival u

section
variable {P : WQueue → Prop} {R : Nat → Prop} {c c' c'' : Core}

theorem Keep.refl : Keep P R c c :=
  ⟨rfl, Nat.le_refl _, fun _ => .inl rfl, fun _ _ _ => rfl, fun _ _ h => ⟨h, rfl⟩,
    fun _ _ _ h => .inl ⟨h, rfl⟩, fun _ _ => .inl, fun _ _ _ h => ⟨h, rfl, fun _ => .inl rfl⟩,
    fun _ _ _ _ _ => rfl⟩

theorem Keep.trans (h : Keep P R c c') (h' : Keep P R c' c'') : Keep P R c c'' where
  runtsk := h'.runtsk.trans h.runtsk
  arrivals := h.arrivals.trans h'.arrivals
  arrival u := by
    have h1 := h.arrivals
    have h2 := h'.arrivals
    rcases h'.arrival u with h3 | h3
    · rw [h3]
      exact (h.arrival u).imp_right fun h4 => ⟨h4.1, h4.2.trans_le h2⟩
    · exact .inr ⟨h1.trans h3.1, h3.2⟩
  stay u hR hu := (h'.stay u hR (h.runtsk ▸ hu)).trans (h.stay u hR hu)
  idle u hu hw := by
    obtain ⟨h1, h2⟩ := h.idle u hu hw
    obtain ⟨h3, h4⟩ := h'.idle u (h.runtsk ▸ hu) h1
    exact ⟨h3, h4.trans h2⟩
  wait u q hu hl := by
    rcases h.wait u q hu hl with ⟨h1, h2⟩ | ⟨h1, h2⟩
    · rw [← h2]
      exact h'.wait u q (h.runtsk ▸ hu) h1
    · obtain ⟨h3, h4⟩ := h'.idle u (h.runtsk ▸ hu) h1
      exact .inr ⟨h3, h4 ▸ h2⟩
  enter u q hl := by
    rcases h'.enter u q hl with h1 | h1
    · refine (h.enter u q h1).imp_right fun h2 => ?_
      rcases h'.arrival u with h3 | h3
      · rwa [h3]
      · exact h.arrivals.trans h3.1
    · exact .inr (h.arrivals.trans h1)
  order u q hu hl := by
    obtain ⟨h1, h2, h3⟩ := h'.order u q (h.runtsk ▸ hu) hl
    obtain ⟨h4, h5, h6⟩ := h.order u q hu h1
    refine ⟨h4, h2.trans h5, fun ht => ?_⟩
    rcases h3 (h5.trans ht) with h7 | h7
    · rcases h6 ht with h8 | h8
      · exact .inl (h7.trans h8)
      · rcases h'.arrival u with h9 | h9
        · exact .inr ⟨h8.1, h9 ▸ h8.2⟩
        · exact .inr ⟨h8.1, h.arrivals.trans h9.1⟩
    · exact .inr ⟨h7.1, h.arrivals.trans h7.2⟩
  fifo u q hu hl ht := by
    obtain ⟨h1, _, _⟩ := h'.order u q (h.runtsk ▸ hu) hl
    obtain ⟨_, h2, _⟩ := h.order u q hu h1
    exact (h'.fifo u q (h.runtsk ▸ hu) hl (h2.trans ht)).trans (h.fifo u q hu h1 ht)

theorem Keep.mono {P' : WQueue → Prop} {R' : Nat → Prop} (h : Keep P R c c')
    (hP : ∀ q, P q → P' q) (hR : ∀ u, R u → R' u) : Keep P' R' c c' :=
  ⟨h.runtsk, h.arrivals, h.arrival, fun u hu => h.stay u fun hr => hu (hR u hr), h.idle,
    fun u q hu hl => (h.wait u q hu hl).imp_right fun hw => ⟨hw.1, fun he => hP q (hw.2 he)⟩,
    h.enter, fun u q hu hl => by
      obtain ⟨h1, h2, h3⟩ := h.order u q hu hl
      exact ⟨h1, h2, fun ht => (h3 ht).imp_right (.imp_left (hR u))⟩, h.fifo⟩

/-- A change of one control block, where the task may get a new number. -/
theorem Keep.of_update (hr : c'.pRuntsk = c.pRuntsk)
    (hn : c'.sched.numbers = c.sched.numbers ∨ c'.sched.numbers = (c.sched.arrive t).numbers ∧
      (c.pRuntsk = some t ∨ R t ∧ ∀ q, p.loc = some (.wait q) → c.tpri q = true))
    (ht : c'.tcb = Function.update c.tcb t p)
    (hi : c.pRuntsk ≠ some t → (c.tcb t).tstat.waiting = false →
      p.tstat.waiting = false ∧ p.winfo = (c.tcb t).winfo)
    (hw : ∀ q, c.pRuntsk ≠ some t → (c.tcb t).loc = some (.wait q) →
      p.loc = some (.wait q) ∧ p.winfo = (c.tcb t).winfo ∨
      p.tstat.waiting = false ∧ (p.winfo.cell = .wercd E_OK → P q))
    (he : ∀ q, p.loc = some (.wait q) →
      c.pRuntsk = some t ∧ c.sched.arrivals ≤ c'.sched.arrival t ∨
      (c.tcb t).loc = some (.wait q) ∧ (c.tpri q = true →
        p.priority = (c.tcb t).priority ∨ R t ∧ c.sched.arrivals ≤ c'.sched.arrival t))
    (ha : ∀ u q, (c.tcb u).loc = some (.wait q) → c'.tpri q = c.tpri q) : Keep P R c c' := by
  have hnum : c.sched.arrivals ≤ c'.sched.arrivals ∧ ∀ u,
      c'.sched.arrival u = c.sched.arrival u ∨ (u = t ∧ (c.pRuntsk = some t ∨
        R t ∧ ∀ q, p.loc = some (.wait q) → c.tpri q = true)) ∧ c.sched.arrivals ≤ c'.sched.arrival u ∧
        c'.sched.arrival u < c'.sched.arrivals := by
    rcases hn with hn | ⟨hn, hR⟩
    · exact ⟨(congrArg Prod.snd hn).ge, fun u => .inl (congrFun (congrArg Prod.fst hn) u)⟩
    · have h1 : c'.sched.arrival = Function.update c.sched.arrival t c.sched.arrivals :=
        congrArg Prod.fst hn
      have h2 : c'.sched.arrivals = c.sched.arrivals + 1 := congrArg Prod.snd hn
      refine ⟨h2 ▸ Nat.le_succ _, fun u => ?_⟩
      rw [h1, h2]
      by_cases hut : u = t
      · subst hut
        rw [Function.update_self]
        exact .inr ⟨⟨rfl, hR⟩, Nat.le_refl _, Nat.lt_succ_self _⟩
      · rw [Function.update_of_ne hut]
        exact .inl rfl
  refine ⟨hr, hnum.1, fun u => (hnum.2 u).imp_right And.right, fun u hR hu => ?_,
    fun u hu hwait => ?_, fun u q hu hl => ?_, fun u q hl => ?_, fun u q hu hl => ?_,
    fun u q hu hl htp => ?_⟩
  · rcases hnum.2 u with h | ⟨⟨rfl, h | h⟩, _⟩
    · exact h
    · exact absurd h hu
    · exact absurd h.1 hR
  · rw [ht]
    by_cases hut : u = t
    · subst hut
      rw [Function.update_self]
      exact hi hu hwait
    · rw [Function.update_of_ne hut]
      exact ⟨hwait, rfl⟩
  · rw [ht]
    by_cases hut : u = t
    · subst hut
      rw [Function.update_self]
      exact hw q hu hl
    · rw [Function.update_of_ne hut]
      exact .inl ⟨hl, rfl⟩
  · rw [ht] at hl
    by_cases hut : u = t
    · subst hut
      rw [Function.update_self] at hl
      exact (he q hl).symm.imp And.left And.right
    · rw [Function.update_of_ne hut] at hl
      exact .inl hl
  · rw [ht] at hl ⊢
    by_cases hut : u = t
    · subst hut
      rw [Function.update_self] at hl ⊢
      obtain ⟨h1, h2⟩ := (he q hl).resolve_left fun h => hu h.1
      exact ⟨h1, ha u q h1, h2⟩
    · rw [Function.update_of_ne hut] at hl ⊢
      exact ⟨hl, ha u q hl, fun _ => .inl rfl⟩
  · rcases hnum.2 u with h | ⟨⟨rfl, h | h⟩, _⟩
    · exact h
    · exact absurd h hu
    · rw [ht, Function.update_self] at hl
      rw [h.2 q hl] at htp
      cases htp

theorem Keep.of_wobj (hr : c'.pRuntsk = c.pRuntsk) (hn : c'.sched.numbers = c.sched.numbers)
    (ht : c'.tcb = c.tcb) (ha : ∀ u q, (c.tcb u).loc = some (.wait q) → c'.tpri q = c.tpri q) :
    Keep P R c c' :=
  .of_update (t := 0) (p := c.tcb 0) hr (.inl hn) (by rw [ht, Function.update_eq_self])
    (fun _ hw => ⟨hw, rfl⟩) (fun _ _ hl => .inl ⟨hl, rfl⟩)
    (fun _ hl => .inr ⟨hl, fun _ => .inl rfl⟩) ha

theorem tpri_of_wobjatr (h : c'.wobjatr = c.wobjatr) (q : WQueue) : c'.tpri q = c.tpri q :=
  tpri_of_ne (congrFun h q)

theorem Keep.of_tcb (hr : c'.pRuntsk = c.pRuntsk) (hn : c'.sched.numbers = c.sched.numbers)
    (ht : c'.tcb = c.tcb) (ha : c'.wobjatr = c.wobjatr) : Keep P R c c' :=
  .of_wobj hr hn ht fun _ q _ => tpri_of_wobjatr ha q

/-- A change of a control block in which the task does not start or end a wait. -/
theorem Keep.of_like (hr : c'.pRuntsk = c.pRuntsk) (hn : c'.sched.numbers = c.sched.numbers)
    (ht : c'.tcb = Function.update c.tcb t p) (hw : p.tstat.waiting = (c.tcb t).tstat.waiting)
    (hi : p.winfo = (c.tcb t).winfo)
    (hl : ∀ q, p.loc = some (.wait q) ↔ (c.tcb t).loc = some (.wait q))
    (hp : p.priority = (c.tcb t).priority) (ha : c'.wobjatr = c.wobjatr) : Keep P R c c' :=
  .of_update hr (.inl hn) ht (fun _ h => ⟨hw.trans h, hi⟩)
    (fun q _ h => .inl ⟨(hl q).2 h, hi⟩) (fun q h => .inr ⟨(hl q).1 h, fun _ => .inl hp⟩)
    fun _ q _ => tpri_of_wobjatr ha q

theorem TCB.loc_ne_wait {p : TCB} (h : p.tstat.waiting = false) (q : WQueue) :
    p.loc ≠ some (.wait q) := fun hl => by
  rw [(TCB.loc_eq_wait.1 hl).2.1] at h
  cases h

/-- A change of a task that does not wait. -/
theorem Keep.of_idle (hr : c'.pRuntsk = c.pRuntsk) (hn : c'.sched.numbers = c.sched.numbers)
    (ht : c'.tcb = Function.update c.tcb t p) (hs : (c.tcb t).tstat.waiting = false)
    (hw : p.tstat.waiting = false) (hi : p.winfo = (c.tcb t).winfo)
    (ha : c'.wobjatr = c.wobjatr) : Keep P R c c' :=
  .of_update hr (.inl hn) ht (fun _ _ => ⟨hw, hi⟩)
    (fun q _ hl => absurd hl (TCB.loc_ne_wait hs q))
    (fun q hl => absurd hl (TCB.loc_ne_wait hw q)) fun _ q _ => tpri_of_wobjatr ha q

theorem Core.Local.pRuntsk (h : c.Local c') : c'.pRuntsk = c.pRuntsk := by
  obtain ⟨_, _, _, _, rfl⟩ := h
  rfl

theorem makeNonWait_numbers (c : Core) (t : Nat) :
    (c.makeNonWait t).1.sched.numbers = c.sched.numbers := by
  unfold Core.makeNonWait
  simp only
  split
  · rfl
  · exact makeRunnable_numbers ..

/-- A wait ends with success in a queue of `P` only. -/
theorem Keep.of_ending (h : Ending t w c c') (hw : (c.tcb t).tstat.waiting = true)
    (hok : w.cell = .wercd E_OK → ∀ q, (c.tcb t).loc = some (.wait q) → P q) :
    Keep P R c (c'.makeNonWait t).1 := by
  have htcb : (c'.makeNonWait t).1.tcb = Function.update c.tcb t
      { c.tcb t with tstat := (c.tcb t).tstat.nonWait, winfo := w } := by
    rw [makeNonWait_tcb, h.tcb, Function.update_idem, Function.update_self]
  have hl := h.same.trans (local_makeNonWait c' t)
  have hnw : (c.tcb t).tstat.nonWait.waiting = false := by
    rcases (c.tcb t).tstat.nonWait_cases with he | he <;> rw [he] <;> rfl
  refine .of_update hl.pRuntsk (.inl ((makeNonWait_numbers c' t).trans h.numbers)) htcb
    (fun _ hw' => ?_) (fun q _ hloc => .inr ⟨hnw, fun he => hok he q hloc⟩)
    (fun q hl => absurd hl (TCB.loc_ne_wait hnw q)) fun _ q _ => tpri_of_wobjatr hl.wobjatr q
  · rw [hw] at hw'
    cases hw'

theorem TCB.not_waiting_of_runnable {p : TCB} (h : p.tstat.Legal) (hr : p.tstat.runnable = true) :
    p.tstat.waiting = false := (h.runnable hr).1

theorem keep_changePriority (t new : Nat) (m : Bool)
    (hR : (c.tcb t).tstat.runnable = true ∨ R t) : Keep P R c (c.changePriority t new m).1 := by
  have hloc (q : WQueue) (hl : TCB.loc { c.tcb t with priority := new } = some (.wait q)) :
      (c.tcb t).loc = some (.wait q) := by
    obtain ⟨h1, h2, h3⟩ := TCB.loc_eq_wait.1 hl
    exact TCB.loc_eq_wait.2 ⟨h1, h2, h3⟩
  refine .of_update (local_changePriority c t new m).pRuntsk ?_ (changePriority_tcb c t new m)
    (fun _ h => ⟨h, rfl⟩) (fun q _ hl => .inl ⟨?_, rfl⟩)
    (fun q hl => .inr ⟨hloc q hl, fun htp => .inr ⟨?_, ?_⟩⟩)
    fun _ q _ => tpri_of_wobjatr (local_changePriority c t new m).wobjatr q
  · unfold Core.changePriority
    simp only [Core.setTcb_self]
    split
    · exact .inl (changePriority_numbers ..)
    · rename_i hr
      have hR := hR.resolve_left hr
      split
      · rename_i hw
        unfold Core.wobjChangePriority
        split
        · rename_i hatr
          refine .inr ⟨?_, .inr ⟨hR, fun q hl => ?_⟩⟩
          · unfold Sched.wobjChangePriority Sched.enterWait
            rw [if_pos rfl]
            rfl
          · obtain ⟨_, _, _, hf, hi⟩ := TCB.loc_eq_wait.1 (hloc q hl)
            have hq : ((c.tcb t).tstat.factor, (c.tcb t).winfo.wobjcb) = q := Prod.ext hf hi
            unfold Core.waitQueue at hatr
            simp only [Core.setTcb_self, hq] at hatr
            refine Bool.and_eq_true_iff.2 ⟨?_, hatr⟩
            rw [← hf]
            exact hw
        · exact .inl rfl
      · exact .inl rfl
  · obtain ⟨h1, h2, h3⟩ := TCB.loc_eq_wait.1 hl
    exact TCB.loc_eq_wait.2 ⟨h1, h2, h3⟩
  · refine hR.resolve_left fun hr => ?_
    rw [(TCB.loc_eq_wait.1 (hloc q hl)).1] at hr
    cases hr
  · -- the queue is in the order of priority, so the task has entered it again
    obtain ⟨hr, _, _, hf, hi⟩ := TCB.loc_eq_wait.1 (hloc q hl)
    obtain ⟨hcode, hatr⟩ := Bool.and_eq_true_iff.1 htp
    have hq : ((c.tcb t).tstat.factor, (c.tcb t).winfo.wobjcb) = q := Prod.ext hf hi
    have hw : (c.tcb t).tstat.waitWobjcb = true := by
      unfold TStat.waitWobjcb
      rwa [hf]
    unfold Core.changePriority
    simp only [Core.setTcb_self, hr, hw, if_true, Bool.false_eq_true, if_false]
    unfold Core.wobjChangePriority Core.waitQueue
    simp only [Core.setTcb_self, hq]
    split
    · unfold Sched.wobjChangePriority Sched.enterWait
      rw [if_pos rfl]
      exact Nat.le_of_eq (Function.update_self (β := fun _ => Nat) t c.sched.arrivals _).symm
    · rename_i hn
      exact absurd hatr hn

theorem enterWait_numbers (s : Sched) (pri : Nat → Nat) (q : WQueue) (tp : Bool) (t : Nat) :
    (s.enterWait pri q tp t).numbers = (s.arrive t).numbers := by
  unfold Sched.enterWait
  cases tp <;> rfl

theorem arrive_numbers {s s' : Sched} (h : s.numbers = s'.numbers) (t : Nat) :
    (s.arrive t).numbers = (s'.arrive t).numbers := by
  have h1 : s.arrival = s'.arrival := congrArg Prod.fst h
  have h2 : s.arrivals = s'.arrivals := congrArg Prod.snd h
  unfold Sched.arrive Sched.numbers
  simp only [h1, h2]

theorem keep_block (t : Nat) (f : WaitFactor) (w : WInfo) (ev : Option (TMO × CBack))
    (q : Option (WQueue × Bool)) (ht : c.pRuntsk = some t)
    (hq : (TStat.WAITING f).waitWobj = q.isSome) : Keep P R c (c.block t f w ev q) := by
  have hn := makeNonRunnable_numbers c.sched c.priority c.dspflg t
  refine .of_update (t := t)
    (p := { c.tcb t with tstat := .WAITING f, winfo := w.start t ev q }) rfl ?_ rfl
    (fun h => absurd ht h) (fun q h => absurd ht h) (fun q' hl => .inl ⟨ht, ?_⟩)
    fun _ _ _ => rfl
  · unfold Core.block
    simp only
    split
    · exact .inl hn
    · exact .inr ⟨(enterWait_numbers ..).trans (arrive_numbers hn t), .inl ht⟩
  · cases q with
    | none => exact absurd (hq.symm.trans (TCB.loc_eq_wait.1 hl).2.2.1) (by decide)
    | some r =>
      have h1 := congrArg Prod.fst ((enterWait_numbers (c.makeNonRunnable t).1.sched c.priority r.1
        r.2 t).trans (arrive_numbers hn t))
      refine Nat.le_of_eq ?_
      change c.sched.arrivals = ((c.makeNonRunnable t).1.sched.enterWait c.priority r.1 r.2 t).arrival t
      rw [show (Sched.enterWait _ _ _ _ _).arrival = _ from h1]
      exact (Function.update_self (β := fun _ => Nat) t c.sched.arrivals c.sched.arrival).symm

variable {cfg : Cfg} {D : Nat → Bool}

theorem waitDequeue_numbers (c : Core) (t : Nat) :
    ((c.waitDequeueWobj t).waitDequeueTmevtb t).sched.numbers = c.sched.numbers := by
  rw [waitDequeueTmevtb_sched]
  exact waitDequeueWobj_numbers c t

theorem keep_endQueueWait (h : CoreInv cfg D c) (ht : t ∈ c.sched.queue (.wait q)) (e : ER)
    (he : e = E_OK → P q) :
    Keep P R c ((((c.queueDelete t).waitDequeueTmevtb t).setWercd t e).makeNonWait t).1 := by
  have hl := (h.of_mem ht).2
  refine .of_ending ((Ending.refl c t).queueDelete.waitDequeueTmevtb.setWercd e)
    (TCB.loc_eq_wait.1 hl).2.1 fun hok q' hq' => ?_
  rw [hl] at hq'
  cases hq'
  exact he (by cases hok; rfl)

theorem keep_initWaitQueueLoop (h : CoreInv cfg D c) (n : Nat) (q : WQueue) :
    Keep P R c (Core.initWaitQueueLoop n c q).1 := by
  induction n generalizing c with
  | zero => exact .refl
  | succ n ih =>
    unfold Core.initWaitQueueLoop
    split
    · exact .refl
    · rename_i t ht
      exact (keep_endQueueWait h (mem_of_headTsk ht) E_DLT (fun he => by cases he)).trans
        (ih (h.endQueueWait (mem_of_headTsk ht) E_DLT))

theorem mutexHandOver_numbers (c : Core) (t m : Nat) :
    (c.mutexHandOver t m).sched.numbers = c.sched.numbers := by
  have h := (Ending.refl c t).queueDelete.waitDequeueTmevtb.setWercd E_OK
  unfold Core.mutexHandOver
  simp only
  split <;> exact h.numbers

theorem mutexHandOver_wobjatr (c : Core) (t m : Nat) :
    (c.mutexHandOver t m).wobjatr = c.wobjatr := by
  have h := (Ending.refl c t).queueDelete.waitDequeueTmevtb.setWercd E_OK
  unfold Core.mutexHandOver
  simp only
  split <;> exact h.same.wobjatr

theorem keep_mutexRelease (h : CoreInv cfg D c) (m : Nat) (hP : P (.MTX, m)) :
    Keep P R c (c.mutexRelease m).1 := by
  unfold Core.mutexRelease
  split
  · exact .of_tcb rfl rfl rfl rfl
  · rename_i t ht
    have hl := (h.of_mem (mem_of_headTsk ht)).2
    have hcpu := (local_makeNonWait (c.mutexHandOver t m) t).pRuntsk.trans
      (Core.pRuntsk_eq (mutexHandOver_cpu c t m).1)
    refine .of_update (t := t) (p := { c.tcb t with
        tstat := (c.tcb t).tstat.nonWait
        priority := c.raised t m
        winfo := { (c.tcb t).winfo with cell := .wercd E_OK } })
      hcpu (.inl ((makeNonWait_numbers ..).trans (mutexHandOver_numbers c t m))) ?_
      (fun _ hw => ?_) (fun q _ hq => ?_)
      (fun q hq => absurd hq (loc_nonWait (p := { c.tcb t with priority := c.raised t m }) q _))
      fun _ q _ => tpri_of_wobjatr
        ((local_makeNonWait _ t).wobjatr.trans (mutexHandOver_wobjatr c t m)) q
    · rw [makeNonWait_tcb, mutexHandOver_tcb, Function.update_idem, Function.update_self]
    · rw [(TCB.loc_eq_wait.1 hl).2.1] at hw
      cases hw
    · rw [hl] at hq
      cases hq
      refine .inr ⟨?_, fun _ => hP⟩
      rcases (c.tcb t).tstat.nonWait_cases with he | he <;> rw [he] <;> rfl

/-- A task that is detached gets no mutex. -/
theorem mutexRelease_detached (h : CoreInv cfg D c) (hd : D t = true) (m : Nat) :
    (c.mutexRelease m).1.tcb t = c.tcb t := by
  unfold Core.mutexRelease
  split
  · rfl
  · rename_i u hu
    have hut : t ≠ u := by
      rintro rfl
      rw [(h.of_mem (mem_of_headTsk hu)).1] at hd
      cases hd
    rw [makeNonWait_tcb, Function.update_of_ne hut, mutexHandOver_tcb, Function.update_of_ne hut]

theorem keep_mutexReleaseAllLoop (h : CoreInv cfg D c) (hd : D t = true)
    (hP : ∀ m, P (.MTX, m)) (n u : Nat) :
    Keep P R c (Core.mutexReleaseAllLoop n c u).1 ∧
      (Core.mutexReleaseAllLoop n c u).1.tcb t = c.tcb t := by
  induction n generalizing c with
  | zero => exact ⟨.refl, rfl⟩
  | succ n ih =>
    unfold Core.mutexReleaseAllLoop
    split
    · exact ⟨.refl, rfl⟩
    · rename_i m _ _
      have h1 : CoreInv cfg D (c.mutexUnlink m) := h.flags
      have hu : Keep P R c (c.mutexUnlink m) := .of_tcb rfl rfl rfl rfl
      obtain ⟨h2, h3⟩ := ih (h1.mutexRelease m)
      exact ⟨(hu.trans (keep_mutexRelease h1 m (hP m))).trans h2,
        h3.trans (mutexRelease_detached h1 hd m)⟩

theorem keep_makeActive (c : Core) (t : Nat) (hw : (c.tcb t).tstat.waiting = false) :
    Keep P R c (c.makeActive t).1 :=
  .of_idle rfl (makeRunnable_numbers ..) rfl hw rfl rfl rfl

theorem keep_terminate (h : CoreInv cfg D c) (hd : D t = true)
    (hcell : (c.tcb t).tstat.waiting = true → (c.tcb t).winfo.cell ≠ .wercd E_OK)
    (hP : ∀ m, P (.MTX, m)) : Keep P R c (c.terminate t).1 := by
  have h1 : Keep P R c (if c.mutexQueue t = [] then (c, false) else c.mutexReleaseAll t).1 ∧
      (if c.mutexQueue t = [] then (c, false) else c.mutexReleaseAll t).1.tcb t = c.tcb t := by
    split
    · exact ⟨.refl, rfl⟩
    · exact keep_mutexReleaseAllLoop h hd hP _ t
  unfold Core.terminate
  simp only
  generalize (if c.mutexQueue t = [] then (c, false) else c.mutexReleaseAll t) = r at h1 ⊢
  have h2 : Keep P R r.1 (r.1.makeDormant t) := by
    refine .of_update rfl (.inl rfl) rfl (fun _ _ => ⟨rfl, rfl⟩)
      (fun q _ hl => .inr ⟨rfl, fun he => absurd he ?_⟩) (fun q hl => absurd hl (TCB.loc_ne_wait rfl q))
      fun _ _ _ => rfl
    change (r.1.tcb t).winfo.cell ≠ _
    rw [h1.2] at hl ⊢
    exact hcell (TCB.loc_eq_wait.1 hl).2.1
  have h3 := h1.1.trans h2
  split
  · have hw : ((r.1.makeDormant t).tcb t).tstat.waiting = false := by
      unfold Core.makeDormant
      rw [Core.setTcb_self]
      rfl
    have h4 : Keep P R (r.1.makeDormant t)
        ((r.1.makeDormant t).setTcb t { (r.1.makeDormant t).tcb t with actque := false }) :=
      .of_idle rfl rfl rfl hw hw rfl rfl
    exact (h3.trans h4).trans (keep_makeActive _ t (by rwa [Core.setTcb_self]))
  · exact h3

theorem unlink_numbers (c : Core) (t : Nat) : (c.unlink t).sched.numbers = c.sched.numbers := by
  unfold Core.unlink
  split
  · exact makeNonRunnable_numbers ..
  · split
    · exact waitDequeue_numbers c t
    · rfl

theorem keep_drop (hk : Keep P R c c') (t m : Nat)
    (hR : (c'.tcb t).tstat.runnable = true ∨ R t) :
    Keep P R c (if c'.mtxCeiling m then c'.mutexDropPriority t (c'.ceilpri m) else (c', false)).1 := by
  unfold Core.mutexDropPriority
  split
  · split
    · simp only
      split
      · exact hk.trans (keep_changePriority t _ true hR)
      · exact hk
    · exact hk
  · exact hk

theorem keep_newTsk (c : Core) (l : List Nat) (t : Nat) (tinib : TINIB)
    (hw : (c.tcb t).tstat.waiting = false) :
    Keep P R c (Core.initTcb { c with freeTcb := l } t tinib) := by
  have htcb : (Core.initTcb { c with freeTcb := l } t tinib).tcb = Function.update c.tcb t
      { c.tcb t with
        tinib := tinib, actque := false, tstat := .DORMANT, bpriority := tinib.ipriority,
        priority := tinib.ipriority, wupque := false, enatex := false, texptn := 0,
        texraised := 0, texpassed := 0 } := by
    unfold Core.initTcb Core.makeDormant Core.setTcb
    simp only [Function.update_idem, Function.update_self]
  exact .of_idle rfl rfl htcb hw rfl rfl rfl

/-- The attribute of an object for which no task waits. -/
theorem keep_setWobjatr (h : CoreInv cfg noD c) (hr : c'.pRuntsk = c.pRuntsk)
    (hn : c'.sched.numbers = c.sched.numbers) (ht : c'.tcb = c.tcb)
    (hq : c.sched.queue (.wait q) = []) (ha : c'.wobjatr = Function.update c.wobjatr q atr) :
    Keep P R c c' := by
  refine .of_wobj hr hn ht fun u r hl => tpri_of_ne ?_
  rw [ha]
  refine Function.update_of_ne (fun he => ?_) ..
  subst he
  exact h.loc_ne_wait (t := u) hq (by rwa [Core.loc_attached rfl])

theorem keep_lock (hr : (c.tcb t).tstat.runnable = true) (m : Nat) : Keep P R c (c.lock t m) := by
  have h1 : Keep P R c (c.mutexAcquire t m).1 := by
    unfold Core.mutexAcquire Core.mutexRaisePriority
    simp only
    split
    · split
      · exact .trans (show Keep P R c { c.setLoctsk m (some t) with
          mutexQueue := Function.update c.mutexQueue t (m :: c.mutexQueue t) }
          from .of_tcb rfl rfl rfl rfl) (keep_changePriority t _ true (.inl hr))
      · exact .of_tcb rfl rfl rfl rfl
    · exact .of_tcb rfl rfl rfl rfl
  exact h1.trans (.of_tcb rfl rfl rfl rfl)

theorem Move.keep {S : Scope} (m : Move cfg S P R c b c') (h : CoreInv cfg noD c) :
    Keep P R c c' := by
  cases m with
  | mem hM areas freeOk => exact .of_tcb rfl rfl rfl rfl
  | touch hO hl hi hx hu | tex hX hl hi hu =>
    exact .of_like rfl rfl rfl (by rw [hl.tstat]) hl.winfo (fun q => by rw [hl.loc]) hl.priority rfl
  | flags hc hf hs hI => exact .of_tcb rfl rfl rfl rfl
  | activate hO hf hr hs => exact keep_makeActive c _ (by rw [hs]; rfl)
  | suspend hO hr hc hd =>
    exact .of_idle rfl (makeNonRunnable_numbers ..) rfl
      (TCB.not_waiting_of_runnable (h.task _).legal hr) rfl rfl rfl
  | setSuspended hO hw b =>
    refine .of_like rfl rfl rfl rfl rfl (fun q => ?_) rfl rfl
    rw [TCB.loc_eq_wait, TCB.loc_eq_wait]
    exact .rfl
  | resume hO hs => exact .of_idle rfl (makeRunnable_numbers ..) rfl (by rw [hs]; rfl) rfl rfl rfl
  | block hW ht hr hc hb hq w hm => exact keep_block _ _ _ _ _ ht hb.wobj
  | complete ht hh hq hw =>
    rename_i q t w
    have hl := (h.of_mem ht).2
    refine .of_ending (Ending.complete c t w) (TCB.loc_eq_wait.1 hl).2.1 fun _ q' hq' => ?_
    rw [hl] at hq'
    cases hq'
    exact hq
  | wakeup hO hs =>
    rename_i t
    have hf : (c.tcb t).tstat.factor = .SLP := beq_iff_eq.1 hs
    refine .of_ending ((Ending.refl c t).waitDequeueTmevtb.setWercd E_OK) ?_ fun _ q hq => ?_
    · by_contra hw
      rw [(h.task t).legal.factor (Bool.eq_false_iff.2 hw)] at hf
      cases hf
    · have hq := (TCB.loc_eq_wait.1 hq).2.2.1
      unfold TStat.waitWobj at hq
      rw [hf] at hq
      cases hq
  | release hO hw hL =>
    exact .of_ending ((Ending.refl c _).waitDequeueWobj.waitDequeueTmevtb.setWercd E_RLWAI) hw
      fun he => by cases he
  | initQueue q hI => exact keep_initWaitQueueLoop h _ q
  | setBpriority hR hd hb hc =>
    rename_i t new
    have h1 : Keep P R c (c.setTcb t { c.tcb t with bpriority := new }) := by
      refine .of_like rfl rfl rfl rfl rfl (fun q => ?_) rfl rfl
      rw [TCB.loc_eq_wait, TCB.loc_eq_wait]
    unfold Core.setBpriority
    simp only
    split
    · exact h1.trans (keep_changePriority t new false (.inr hR))
    · exact h1
  | rotate pri => exact .of_tcb rfl (rotateReadyQueue_numbers ..) rfl rfl
  | lock ht hr hs hn hm hex hP => exact keep_lock hr _
  | unlock ht hr hn hP =>
    rename_i t m
    have h1 : CoreInv cfg noD (c.mutexUnlink m) := h.flags
    have hk : Keep P R c (c.mutexUnlink m) := .of_tcb rfl rfl rfl rfl
    refine (keep_drop hk t m (.inl hr)).trans (keep_mutexRelease
      (show CoreInv cfg noD _ from ?_) m hP)
    split
    · exact h1.mutexDropPriority rfl _
    · exact h1
  | disown hR hn hq =>
    rename_i t m
    have hk : Keep P R c ((c.mutexUnlink m).setLoctsk m none) := .of_tcb rfl rfl rfl rfl
    exact keep_drop hk t m (.inr hR)
  | terminate hO hd hc hb ht hP hT =>
    rename_i t
    have hu := frame_unlink c t
    have h1 : Keep P R c (c.unlink t) := .of_tcb hu.1.pRuntsk (unlink_numbers c t) hu.2 hu.1.wobjatr
    refine h1.trans (keep_terminate (h.unlink (t := t) rfl hd) (Function.update_self ..)
      (fun hw => ?_) hP)
    rw [hu.2] at hw ⊢
    rw [(h.task t).cell rfl hw]
    nofun
  | newTsk hO ht hi ha hx hK =>
    obtain ⟨_, _, _, _, hs⟩ := h.newTsk ht hi
    obtain ⟨l, _, rfl⟩ := takeTcb_eq ht
    exact keep_newTsk c l _ _ (by rw [hs]; rfl)
  | delTsk hO hn hs ht hd hK =>
    exact .of_idle rfl rfl rfl (by rw [hs]; rfl) (by rw [hs]; rfl) rfl rfl
  | newWobj hm hf ht ha hK =>
    have hempty := (h.newWobj hm ht TA_NULL).2 _ hm
    obtain ⟨l, _, rfl⟩ := takeWobj_eq ht
    exact keep_setWobjatr h rfl rfl rfl hempty rfl
  | freeWobj hm hf hq hex hd hK => exact keep_setWobjatr h rfl rfl rfl (hq _ hm) rfl
  | newMtx ht ha hK =>
    have hempty := (h.newWobj (f := .MTX) rfl ht TA_NULL).2 (.MTX, _) rfl
    obtain ⟨l, _, rfl⟩ := takeWobj_eq ht
    exact keep_setWobjatr h rfl rfl rfl hempty rfl
  | freeMtx hq hex hS hd hK => exact keep_setWobjatr h rfl rfl rfl hq rfl
  | newCyc hl ht hp ha hK => exact .of_tcb rfl rfl rfl rfl
  | startCyc hn hr hs => exact .of_tcb rfl rfl rfl rfl
  | stopCyc _ =>
    unfold Core.stopCyc
    split
    · exact .of_tcb rfl rfl rfl rfl
    · exact .refl
  | delCyc hn hr hs hd hK hex => exact .of_tcb rfl rfl rfl rfl
  | newAlm hl ha hK => exact .of_tcb rfl rfl rfl rfl
  | startAlm hn hr hs ht => exact .of_tcb rfl rfl rfl rfl
  | stopAlm i =>
    unfold Core.stopAlm
    split
    · exact .of_tcb rfl rfl rfl rfl
    · exact .refl
  | delAlm hn hr hs hd hK hex => exact .of_tcb rfl rfl rfl rfl

theorem Moves.keep {S : Scope} (m : Moves cfg S P R c b c') (h : CoreInv cfg noD c) :
    Keep P R c c' := by
  induction m with
  | refl => exact .refl
  | step hs hm ih => exact ih.trans (hm.keep (hs.coreInv h))

end

theorem TCB.Like.refl (p : TCB) : p.Like p := ⟨rfl, rfl, rfl, rfl, rfl⟩

theorem TCB.Like.trans {p p' p'' : TCB} (h : p.Like p') (h' : p'.Like p'') : p.Like p'' :=
  ⟨h'.tstat.trans h.tstat, h'.priority.trans h.priority, h'.bpriority.trans h.bpriority,
    h'.winfo.trans h.winfo, h'.ipriority.trans h.ipriority⟩

/-- Only the processor's variables, the control blocks of the tasks and the timer have changed. -/
def Core.Outside (c c' : Core) : Prop :=
  ∃ tcb r q i d f n l tm s, c' = { c with
    tcb := tcb, pRuntsk := r, reqflg := q, ipmflg := i, disdsp := d, dspflg := f, intnest := n,
    cpulock := l, tm := tm, sigtim := s }

/-- Nothing that a queue depends on has changed. -/
structure Core.Alike (c c' : Core) : Prop where
  outside : c.Outside c'
  tcb : ∀ u, (c.tcb u).Like (c'.tcb u)
  tinib : ∀ u, (c'.tcb u).tinib = (c.tcb u).tinib

namespace Core.Alike

theorem sched {c c' : Core} (h : c.Alike c') : c'.sched = c.sched := by
  obtain ⟨_, _, _, _, _, _, _, _, _, _, rfl⟩ := h.outside
  rfl

theorem of_tcb {c c' : Core} (ht : c'.tcb = c.tcb) (h : c.Outside c') : c.Alike c' :=
  ⟨h, fun _ => ht ▸ .refl _, fun _ => by rw [ht]⟩

theorem request (c : Core) (b : Bool) : c.Alike (c.request b) :=
  .of_tcb rfl ⟨_, _, _, _, _, _, _, _, _, _, rfl⟩

theorem trans {c c' c'' : Core} (h : c.Alike c') (h' : c'.Alike c'') : c.Alike c'' := by
  refine ⟨?_, fun u => (h.tcb u).trans (h'.tcb u), fun u => (h'.tinib u).trans (h.tinib u)⟩
  obtain ⟨_, _, _, _, _, _, _, _, _, _, rfl⟩ := h.outside
  obtain ⟨_, _, _, _, _, _, _, _, _, _, rfl⟩ := h'.outside
  exact ⟨_, _, _, _, _, _, _, _, _, _, rfl⟩

theorem setTcb {c : Core} {p : TCB} (h : (c.tcb t).Like p) (hi : p.tinib = (c.tcb t).tinib) :
    c.Alike (c.setTcb t p) := by
  refine ⟨⟨_, _, _, _, _, _, _, _, _, _, rfl⟩, fun u => ?_, fun u => ?_⟩ <;> by_cases hu : u = t
  · subst hu
    rwa [Core.setTcb_self]
  · rw [Core.setTcb_of_ne _ _ hu]
    exact .refl _
  · subst hu
    rwa [Core.setTcb_self]
  · rw [Core.setTcb_of_ne _ _ hu]

theorem texLoop (c : Core) (t : Nat) : c.Alike (c.texLoop t) := by
  unfold Core.texLoop
  simp only
  split
  · refine setTcb ?_ rfl
    exact ⟨rfl, rfl, rfl, rfl, rfl⟩
  · refine setTcb ?_ rfl
    exact ⟨rfl, rfl, rfl, rfl, rfl⟩

theorem calltex (c : Core) (t : Nat) : c.Alike (c.calltex t) := by
  unfold Core.calltex
  simp only
  split
  · refine setTcb ?_ rfl
    exact ⟨rfl, rfl, rfl, rfl, rfl⟩
  · exact of_tcb rfl ⟨_, _, _, _, _, _, _, _, _, _, rfl⟩

theorem dispatcher (c : Core) : c.Alike c.dispatcher := by
  have h : c.Alike { c with pRuntsk := c.sched.pSchedtsk } :=
    of_tcb rfl ⟨_, _, _, _, _, _, _, _, _, _, rfl⟩
  unfold Core.dispatcher
  simp only
  split
  · exact h
  · split
    · exact h.trans (texLoop _ _)
    · exact h.trans (calltex _ _)

theorem texReturn (c : Core) (t : Nat) : c.Alike (c.texReturn t) := by
  unfold Core.texReturn
  simp only
  have h : c.Alike { c with
      ipmflg := true, disdsp := (c.tcb t).texstk.headD false,
      dspflg := !(c.tcb t).texstk.headD false, cpulock := false } :=
    of_tcb rfl ⟨_, _, _, _, _, _, _, _, _, _, rfl⟩
  have h1 := h.trans (setTcb (t := t) (p := { c.tcb t with enatex := false, texloop := true })
    ⟨rfl, rfl, rfl, rfl, rfl⟩ rfl)
  split
  · exact h1.trans (dispatcher _)
  · exact h1.trans (texLoop _ t)

theorem intExit (c : Core) : c.Alike c.intExit := by
  unfold Core.intExit
  simp only
  split
  · have h : c.Alike { c with intnest := c.intnest - 1, cpulock := false, reqflg := false } :=
      of_tcb rfl ⟨_, _, _, _, _, _, _, _, _, _, rfl⟩
    split
    · exact h.trans (dispatcher _)
    · split
      · exact h.trans (dispatcher _)
      · exact h.trans (calltex _ _)
  · exact of_tcb rfl ⟨_, _, _, _, _, _, _, _, _, _, rfl⟩

end Core.Alike

/-- The wait queues that an event's call serves. -/
def Event.serves : Event → WQueue → Prop
  | .call c => c.serves
  | _ => fun _ => False

/-- The tasks whose priority an event's call changes although they may wait. -/
def Event.repri (k : Kernel) : Event → Nat → Prop
  | .call c => c.repri k
  | _ => fun _ => False

/-- What a step does to the waits for objects. -/
structure Waits (P : WQueue → Prop) (R : Nat → Prop) (c c' : Core) : Prop where
  enter : ∀ u q, ¬P q → (c'.tcb u).loc = some (.wait q) →
    (c.tcb u).loc = some (.wait q) ∧ (c'.tcb u).winfo = (c.tcb u).winfo
  leave : ∀ u q, (c.tcb u).loc = some (.wait q) → (c'.tcb u).loc = some (.wait q) ∨
    (c'.tcb u).tstat.waiting = false ∧ ((c'.tcb u).winfo.cell = .wercd E_OK → P q)
  arrivals : c.sched.arrivals ≤ c'.sched.arrivals
  arrival : ∀ u, c'.sched.arrival u = c.sched.arrival u ∨
    c.sched.arrivals ≤ c'.sched.arrival u
  stay : ∀ u q, ¬R u → (c.tcb u).loc = some (.wait q) →
    c'.sched.arrival u = c.sched.arrival u
  arrive : ∀ u q, (c'.tcb u).loc = some (.wait q) →
    (c.tcb u).loc = some (.wait q) ∨ c.sched.arrivals ≤ c'.sched.arrival u
  order : ∀ u q, (c.tcb u).loc = some (.wait q) → (c'.tcb u).loc = some (.wait q) →
    c.tpri q = true → (c'.tcb u).priority = (c.tcb u).priority ∨
      c.sched.arrivals ≤ c'.sched.arrival u
  fifo : ∀ u q, (c.tcb u).loc = some (.wait q) → (c'.tcb u).loc = some (.wait q) →
    c.tpri q = false → c'.sched.arrival u = c.sched.arrival u

section
variable {P : WQueue → Prop} {R : Nat → Prop} {c c' c'' : Core} {cfg : Cfg}

theorem Keep.waits (h : Keep P R c c') (hr : c.Running)
    (hw : ∀ u q, ¬P q → (c'.tcb u).loc = some (.wait q) →
      (c.tcb u).loc = some (.wait q) ∧ (c'.tcb u).winfo = (c.tcb u).winfo) : Waits P R c c' := by
  have hne (u : Nat) (q : WQueue) (hl : (c.tcb u).loc = some (.wait q)) : c.pRuntsk ≠ some u :=
    fun hu => by
      have h1 := (TCB.loc_eq_wait.1 hl).1
      rw [hr u hu] at h1
      cases h1
  exact ⟨hw, fun u q hl => (h.wait u q (hne u q hl) hl).imp_left And.left, h.arrivals,
    fun u => (h.arrival u).imp_right And.left, fun u q hR hl => h.stay u hR (hne u q hl), h.enter,
    fun u q hl hl' ht => ((h.order u q (hne u q hl) hl').2.2 ht).imp_right And.right,
    fun u q hl => h.fifo u q (hne u q hl)⟩

theorem Waits.alike (h : Waits P R c c') (ha : c'.Alike c'') : Waits P R c c'' := by
  have hs := ha.sched
  have ht := ha.tcb
  have hl (u : Nat) : (c''.tcb u).loc = (c'.tcb u).loc := (ht u).loc
  refine ⟨fun u q hP hq => ?_, fun u q hq => ?_, ?_, ?_, ?_, fun u q hq => ?_,
    fun u q hq hq' => ?_, fun u q hq hq' => ?_⟩
  · rw [hl] at hq
    rw [(ht u).winfo]
    exact h.enter u q hP hq
  · rw [hl, (ht u).tstat, (ht u).winfo]
    exact h.leave u q hq
  · rw [hs]
    exact h.arrivals
  · rw [hs]
    exact h.arrival
  · rw [hs]
    exact h.stay
  · rw [hl] at hq
    rw [hs]
    exact h.arrive u q hq
  · rw [hl] at hq'
    rw [hs, (ht u).priority]
    exact h.order u q hq hq'
  · rw [hl] at hq'
    rw [hs]
    exact h.fifo u q hq hq'

theorem Waits.refl : Waits P R c c :=
  ⟨fun _ _ _ h => ⟨h, rfl⟩, fun _ _ h => .inl h, Nat.le_refl _, fun _ => .inl rfl,
    fun _ _ _ _ => rfl, fun _ _ => .inl, fun _ _ _ _ _ => .inl rfl, fun _ _ _ _ _ => rfl⟩

theorem Fire.keep (h : Fire cfg c c') : Keep P R c c' := by
  have hpop : Keep P R c c.popped := .of_tcb rfl rfl rfl rfl
  cases h with
  | tsk hn hw he hq hi hc =>
    rename_i t e c2
    have hk : Keep P R c.popped (c2.makeNonWait t).1 := by
      refine .of_ending he hw fun hok q hl => ?_
      have hwq := (TCB.loc_eq_wait.1 hl).2.2.1
      rw [show (c.popped.tcb t).tstat.waitWobj = false from hq (by cases hok; rfl)] at hwq
      cases hwq
    exact (hpop.trans hk).trans (.of_tcb rfl rfl rfl rfl)
  | cyc hn hs => exact hpop.trans (.of_tcb rfl rfl rfl rfl)
  | alm hn hs => exact hpop.trans (.of_tcb rfl rfl rfl rfl)

theorem Fire.waits (h : RunInv cfg c) (hf : Fire cfg c c') : Waits P R c c' := by
  obtain ⟨b, c2, hs, rfl, _⟩ := hf.frame (P := P) h.inv
  exact hf.keep.waits h.running hs.wait

/-- What a step of the system is for the core: the changes of a service call, a callback of
`signal_time`, or a change that no queue depends on. -/
inductive CoreStep (cfg : Cfg) (k : Kernel) : Event → Core → Prop
  | call (hc : k.core.senseContext = true ∨ k.core.pRuntsk ≠ none)
    (hm : Moves cfg (call.scope cfg k) call.serves (call.repri k) k.core b d)
    (ha : d.Alike d') : CoreStep cfg k (.call call) d'
  | fire (hf : Fire cfg k.core d) : CoreStep cfg k .sigFire d
  | outside (he : ∀ call, e ≠ .call call) (hf : e ≠ .sigFire) (ha : k.core.Alike d) :
    CoreStep cfg k e d

theorem Core.Alike.refl (c : Core) : c.Alike c := .of_tcb rfl ⟨_, _, _, _, _, _, _, _, _, _, rfl⟩

theorem RunInv.coreStep {k k' : Kernel} (h : RunInv cfg k.core) (hs : Step cfg k e k') :
    CoreStep cfg k e k'.core := by
  unfold Step Kernel.step at hs
  cases e with
  | call call =>
    simp only at hs
    split at hs
    · rename_i hc
      cases hs
      rw [settle_core]
      have he := effect_exec (h.callPre hc.1) call
      generalize (exec cfg k call).map Kernel.core = r at he ⊢
      cases he with
      | task hm hb hd =>
        refine .call hc.1 hm ?_
        simp only
        split
        · exact .dispatcher _
        · exact .refl _
      | int hm hb hd =>
        exact .call hc.1 hm (.of_tcb rfl ⟨_, _, _, _, _, _, _, _, _, _, rfl⟩)
    · cases hs
  | writeMsg a m =>
    cases hs
    exact .outside (fun _ => nofun) nofun (.refl _)
  | texReturn =>
    simp only at hs
    split at hs
    · cases hs
    · split at hs
      · cases hs
      · cases hs
        exact .outside (fun _ => nofun) nofun (.texReturn _ _)
  | intEnter =>
    simp only at hs
    split at hs
    · cases hs
    · cases hs
      exact .outside (fun _ => nofun) nofun (.of_tcb rfl ⟨_, _, _, _, _, _, _, _, _, _, rfl⟩)
  | intExit =>
    simp only at hs
    split at hs
    · cases hs
    · cases hs
      exact .outside (fun _ => nofun) nofun (.intExit _)
  | sigBegin =>
    simp only at hs
    split at hs
    · cases hs
      exact .outside (fun _ => nofun) nofun (.of_tcb rfl ⟨_, _, _, _, _, _, _, _, _, _, rfl⟩)
    · cases hs
  | sigFire =>
    simp only at hs
    split at hs
    · rename_i hc
      cases hs
      exact .fire (h.inv.fire hc.2)
    · cases hs
  | sigEnd =>
    simp only at hs
    split at hs
    · cases hs
      exact .outside (fun _ => nofun) nofun (.of_tcb rfl ⟨_, _, _, _, _, _, _, _, _, _, rfl⟩)
    · cases hs

theorem Event.serves_other {e : Event} (he : ∀ call, e ≠ .call call) : e.serves = fun _ => False := by
  cases e with
  | call call => exact absurd rfl (he call)
  | _ => rfl

theorem Event.repri_other {e : Event} {k : Kernel} (he : ∀ call, e ≠ .call call) :
    e.repri k = fun _ => False := by
  cases e with
  | call call => exact absurd rfl (he call)
  | _ => rfl

/-- What a step of the system does to the waits for objects. -/
theorem RunInv.waits {k k' : Kernel} (h : RunInv cfg k.core) (hs : Step cfg k e k') :
    Waits e.serves (e.repri k) k.core k'.core := by
  cases h.coreStep hs with
  | call hc hm ha => exact ((hm.keep h.inv).waits h.running (hm.frame h.inv).wait).alike ha
  | fire hf => exact hf.waits h
  | outside he hf ha =>
    rw [Event.serves_other he, Event.repri_other he]
    exact Waits.refl.alike ha

end

end AspKernel
