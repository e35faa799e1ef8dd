import AspKernel.Keep

namespace AspKernel
set_option autoImplicit true

/-- What a change that is not about the life of a task leaves alone: the attributes of the task,
its exception handling, and whether it is dormant. -/
structure TCB.Same (p p' : TCB) : Prop where
  tinib : p'.tinib = p.tinib
  tex : p'.tex = p.tex
  dormant : p'.tstat = .DORMANT ↔ p.tstat = .DORMANT

/-- What a change does to a task that it is not about: it may end the wait of the task in a queue
`q` with the error code `e` where `W q e`, which leaves the task suspended if it was. -/
structure TCB.Calm (W : WQueue → ER → Prop) (p p' : TCB) : Prop where
  queued : p'.queued = p.queued
  state : p'.tstat = p.tstat ∧ p'.winfo = p.winfo ∨
    ∃ q e, p.loc = some (.wait q) ∧ W q e ∧ p'.tstat = p.tstat.nonWait ∧ p'.winfo.cell = .wercd e

/-- The priorities of a task that has not been started. -/
def TCB.Initial (p : TCB) : Prop :=
  p.priority = p.tinib.ipriority ∧ p.bpriority = p.tinib.ipriority

/-- The exception handling of a task that has ended. -/
def TCB.stopped (p : TCB) : Bool × TEXPTN × List Bool × Bool × TEXPTN × TEXPTN :=
  (false, 0, p.texstk, p.texloop, 0, 0)

/-- The ends of waits that the changes of a call bring about, other than for its own tasks. -/
def Scope.ends (S : Scope) (P : WQueue → Prop) (q : WQueue) (e : ER) : Prop :=
  e = E_OK ∧ P q ∨ e = E_DLT ∧ S.init q

/-- What a task waits for. -/
def TStat.wait (s : TStat) : Bool × WaitFactor := (s.waiting, s.factor)

/-- What a change does to the wait of the task `u`, which neither starts nor ends. -/
inductive TCB.Turn (S : Scope) (P : WQueue → Prop) (u : Nat) (run : Prop) (p p' : TCB) : Prop
  | calm (h : p.Calm (S.ends P) p')
  | block (hr : run) (hs : p.tstat.runnable = true) (hq : p'.queued = p.queued)
  | own (hO : S.own u) (ht : p'.tstat.wait = p.tstat.wait) (hw : p'.winfo = p.winfo)
  | wake (hO : S.own u) (hs : p.tstat.waiting = true) (ho : p.tstat.waitWobj = false)
  | release (hO : S.own u) (hL : S.rel) (hs : p.tstat.waiting = true)
    (ht : p'.tstat = p.tstat.nonWait) (hc : p'.winfo.cell = .wercd E_RLWAI)

/-- What a change does to the life of the task `u` and to its exception handling; `run` says that
the task is the running one, and `b` that a dispatch is due after the change. -/
inductive TaskStep (S : Scope) (P : WQueue → Prop) (u : Nat) (run : Prop) (b : Bool)
    (p p' : TCB) : Prop
  | keep (h : p.Same p') (hq : p.Turn S P u run p')
  | tex (hX : S.tex) (hi : p'.tinib = { p.tinib with texrtn := p'.tinib.texrtn })
    (hl : p.Like p') (hq : p'.queued = p.queued)
  | start (hO : S.own u) (hs : p.tstat = .DORMANT) (hs' : p'.tstat = .RUNNABLE)
    (hi : p'.tinib = p.tinib)
    (hx : p'.tex = (p.enatex, p.texptn, [], false, p.texraised, p.texpassed))
    (hq : p'.queued = p.queued)
  | stop (hO : S.own u) (hs : p.tstat ≠ .DORMANT) (hs' : p'.tstat = .DORMANT)
    (hi : p'.tinib = p.tinib) (hx : p'.tex = p.stopped) (hb : run → b = true)
    (ha : p.actque = false) (hq : p'.queued = (false, false)) (hT : S.ter)
  | restart (hO : S.own u) (hs : p.tstat ≠ .DORMANT) (hs' : p'.tstat = .RUNNABLE)
    (hi : p'.tinib = p.tinib) (hx : p'.tex = (false, 0, [], false, 0, 0)) (hb : run → b = true)
    (ha : p.actque = true) (hq : p'.queued = (false, false)) (hT : S.ter)
  | create (hO : S.own u) (hK : S.kinds .tsk) (hs : p.tstat = .DORMANT) (hs' : p'.tstat = .DORMANT)
    (hr : p'.tinib.texrtn = false) (hx : p'.tex = p.stopped) (hq : p'.queued = (false, false))
    (hp : p'.Initial)
  | delete (hO : S.own u) (hK : S.kinds .tsk) (hs : p.tstat = .DORMANT) (hs' : p'.tstat = .DORMANT)
    (hi : p'.tinib = { p.tinib with tskatr := TA_NOEXS }) (hx : p'.tex = p.tex)
    (hq : p'.queued = p.queued)

/-- All tasks stay as they are in this respect. -/
def TFrame (W : WQueue → ER → Prop) (c c' : Core) : Prop :=
  ∀ u, (c.tcb u).Same (c'.tcb u) ∧ (c.tcb u).Calm W (c'.tcb u)

theorem TCB.Same.refl (p : TCB) : p.Same p := ⟨rfl, rfl, .rfl⟩

theorem TCB.Same.trans {p p' p'' : TCB} (h : p.Same p') (h' : p'.Same p'') : p.Same p'' :=
  ⟨h'.tinib.trans h.tinib, h'.tex.trans h.tex, h'.dormant.trans h.dormant⟩

section
variable {W : WQueue → ER → Prop} {p p' p'' : TCB}

theorem TCB.Calm.of_same (hq : p'.queued = p.queued) (ht : p'.tstat = p.tstat)
    (hw : p'.winfo = p.winfo) : p.Calm W p' := ⟨hq, .inl ⟨ht, hw⟩⟩

theorem TCB.Calm.refl (p : TCB) : p.Calm W p := .of_same rfl rfl rfl

theorem TStat.nonWait_waiting (s : TStat) : s.nonWait.waiting = false := by
  rcases s.nonWait_cases with h | h <;> (rw [h]; rfl)

theorem TCB.Calm.trans (h : p.Calm W p') (h' : p'.Calm W p'') : p.Calm W p'' := by
  refine ⟨h'.queued.trans h.queued, ?_⟩
  rcases h.state with ⟨h1, h2⟩ | ⟨q, e, hl, hw, h1, h2⟩
  · rcases h'.state with ⟨h3, h4⟩ | ⟨q, e, hl, hw, h3, h4⟩
    · exact .inl ⟨h3.trans h1, h4.trans h2⟩
    · refine .inr ⟨q, e, ?_, hw, h1 ▸ h3, h4⟩
      rw [TCB.loc_eq_wait] at hl ⊢
      rwa [h1, h2] at hl
  · rcases h'.state with ⟨h3, h4⟩ | ⟨q', e', hl', _⟩
    · exact .inr ⟨q, e, hl, hw, h3.trans h1, h4 ▸ h2⟩
    · have hw' := (TCB.loc_eq_wait.1 hl').2.1
      rw [h1, TStat.nonWait_waiting] at hw'
      cases hw'

/-- A wait in a queue ends. -/
theorem TCB.Calm.of_end {q : WQueue} (hq : p'.queued = p.queued)
    (hl : p.loc = some (.wait q)) (hw : W q e) (ht : p'.tstat = p.tstat.nonWait)
    (hc : p'.winfo.cell = .wercd e) : p.Calm W p' := ⟨hq, .inr ⟨q, e, hl, hw, ht, hc⟩⟩

end

section
variable {cfg : Cfg} {S : Scope} {P : WQueue → Prop} {R : Nat → Prop} {D : Nat → Bool}
  {W : WQueue → ER → Prop} {c c' c'' : Core}

theorem TFrame.trans (h : TFrame W c c') (h' : TFrame W c' c'') : TFrame W c c'' :=
  fun u => ⟨(h u).1.trans (h' u).1, (h u).2.trans (h' u).2⟩

theorem TFrame.of_tcb (h : c'.tcb = c.tcb) : TFrame W c c' := fun u => by
  rw [h]
  exact ⟨.refl _, .refl _⟩

theorem TFrame.of_update (ht : c'.tcb = Function.update c.tcb t p) (h : (c.tcb t).Same p)
    (hc : (c.tcb t).Calm W p) : TFrame W c c' := fun u => by
  rw [ht]
  by_cases hu : u = t
  · subst hu
    rw [Function.update_self]
    exact ⟨h, hc⟩
  · rw [Function.update_of_ne hu]
    exact ⟨.refl _, .refl _⟩

theorem ne_dormant_of_waiting {s : TStat} (h : s.waiting = true) : s ≠ .DORMANT := fun he => by
  rw [he] at h
  cases h

/-- A change of the state of a task that neither starts nor stops it. -/
theorem TCB.Same.of_tstat {p p' : TCB} (hi : p'.tinib = p.tinib) (hx : p'.tex = p.tex)
    (h : p.tstat ≠ .DORMANT) (h' : p'.tstat ≠ .DORMANT) : p.Same p' :=
  ⟨hi, hx, ⟨fun he => absurd he h', fun he => absurd he h⟩⟩

theorem TStat.nonWait_ne (s : TStat) : s.nonWait ≠ .DORMANT := by
  rcases s.nonWait_cases with h | h <;> (rw [h]; nofun)

theorem Ending.end_tcb (h : Ending t w c c') : (c'.makeNonWait t).1.tcb = Function.update c.tcb t
    { c.tcb t with tstat := (c.tcb t).tstat.nonWait, winfo := w } := by
  rw [makeNonWait_tcb, h.tcb, Function.update_idem, Function.update_self]

theorem TCB.Same.of_end {p : TCB} (hw : p.tstat.waiting = true) (w : WInfo) :
    p.Same { p with tstat := p.tstat.nonWait, winfo := w } :=
  .of_tstat rfl rfl (ne_dormant_of_waiting hw) (TStat.nonWait_ne _)

theorem TFrame.of_ending (h : Ending t w c c') (hl : (c.tcb t).loc = some (.wait q)) (hw : W q e)
    (hc : w.cell = .wercd e) : TFrame W c (c'.makeNonWait t).1 :=
  .of_update h.end_tcb (.of_end (TCB.loc_eq_wait.1 hl).2.1 w) (.of_end rfl hl hw rfl hc)

theorem tframe_changePriority (c : Core) (t new : Nat) (m : Bool) :
    TFrame W c (c.changePriority t new m).1 :=
  .of_update (changePriority_tcb c t new m) ⟨rfl, rfl, .rfl⟩ (.of_same rfl rfl rfl)

theorem tframe_initWaitQueueLoop (h : CoreInv cfg D c) (hW : W q E_DLT) (n : Nat) :
    TFrame W c (Core.initWaitQueueLoop n c q).1 := by
  induction n generalizing c with
  | zero => exact .of_tcb rfl
  | succ n ih =>
    unfold Core.initWaitQueueLoop
    split
    · exact .of_tcb rfl
    · rename_i t ht
      have hl := (h.of_mem (mem_of_headTsk ht)).2
      exact (TFrame.of_ending ((Ending.refl c t).queueDelete.waitDequeueTmevtb.setWercd E_DLT)
        hl hW rfl).trans (ih (h.endQueueWait (mem_of_headTsk ht) E_DLT))

theorem tframe_drop (h : TFrame W c c') (t m : Nat) : TFrame W c
    (if c'.mtxCeiling m then c'.mutexDropPriority t (c'.ceilpri m) else (c', false)).1 := by
  unfold Core.mutexDropPriority
  split
  · split
    · simp only
      split
      · exact h.trans (tframe_changePriority c' t _ true)
      · exact h
    · exact h
  · exact h

theorem tframe_mutexRelease (h : CoreInv cfg D c) (m : Nat) (hW : W (.MTX, m) E_OK) :
    TFrame W c (c.mutexRelease m).1 := by
  unfold Core.mutexRelease
  split
  · exact .of_tcb rfl
  · rename_i t ht
    have hl := (h.of_mem (mem_of_headTsk ht)).2
    refine .of_update (t := t) (p := { c.tcb t with
        tstat := (c.tcb t).tstat.nonWait
        priority := c.raised t m
        winfo := { (c.tcb t).winfo with cell := .wercd E_OK } }) ?_
      (.of_tstat rfl rfl (ne_dormant_of_waiting (TCB.loc_eq_wait.1 hl).2.1) (TStat.nonWait_ne _))
      (.of_end rfl hl hW rfl rfl)
    rw [makeNonWait_tcb, mutexHandOver_tcb, Function.update_idem, Function.update_self]

theorem tframe_mutexReleaseAllLoop (h : CoreInv cfg D c) (hW : ∀ m, W (.MTX, m) E_OK) (n t : Nat) :
    TFrame W c (Core.mutexReleaseAllLoop n c t).1 := by
  induction n generalizing c with
  | zero => exact .of_tcb rfl
  | succ n ih =>
    unfold Core.mutexReleaseAllLoop
    split
    · exact .of_tcb rfl
    · rename_i m _ _
      have h1 : CoreInv cfg D (c.mutexUnlink m) := h.flags
      have hu : TFrame W c (c.mutexUnlink m) := .of_tcb rfl
      exact (hu.trans (tframe_mutexRelease h1 m (hW m))).trans (ih (h1.mutexRelease m))

/-- The end of a task: it is dormant afterwards, or it starts again. -/
theorem taskStep_terminate (h : CoreInv cfg D c) (hO : S.own t) (hP : ∀ m, P (.MTX, m))
    (hd : (c.tcb t).tstat ≠ .DORMANT) (hb : c.pRuntsk = some t → b = true) (hT : S.ter) (u : Nat) :
    TaskStep S P u (c.pRuntsk = some u) b (c.tcb u) ((c.terminate t).1.tcb u) ∧
      ((c.terminate t).1.tcb u).tinib = (c.tcb u).tinib := by
  have h1 : TFrame (S.ends P) c
      (if c.mutexQueue t = [] then (c, false) else c.mutexReleaseAll t).1 := by
    split
    · exact .of_tcb rfl
    · exact tframe_mutexReleaseAllLoop h (fun m => .inl ⟨rfl, hP m⟩) _ t
  unfold Core.terminate
  simp only
  generalize (if c.mutexQueue t = [] then (c, false) else c.mutexReleaseAll t) = r at h1 ⊢
  obtain ⟨hu, hc⟩ := h1 u
  unfold Core.makeDormant
  simp only
  by_cases hut : u = t
  · subst hut
    have hx := hu.tex
    have hq := hc.queued
    simp only [TCB.tex, Prod.mk.injEq] at hx
    simp only [TCB.queued, Prod.mk.injEq] at hq
    obtain ⟨h1, h2, h3, h4, h5, h6⟩ := hx
    split
    · rename_i ha
      simp only [Core.setTcb_self] at ha
      simp only [Core.makeActive, Core.makeRunnable, Core.setTcb_self]
      exact ⟨.restart hO hd rfl hu.tinib rfl hb (hq.1 ▸ ha) rfl hT, hu.tinib⟩
    · rename_i ha
      simp only [Core.setTcb_self] at ha ⊢
      refine ⟨.stop hO hd rfl hu.tinib ?_ hb (hq.1 ▸ Bool.eq_false_iff.2 ha) ?_ hT, hu.tinib⟩
      · simp only [TCB.tex, TCB.stopped, h3, h4]
      · simp only [TCB.queued, Bool.eq_false_iff.2 ha]
  · split
    · simp only [Core.makeActive, Core.makeRunnable, Core.setTcb_of_ne _ _ hut]
      exact ⟨.keep hu (.calm hc), hu.tinib⟩
    · simp only [Core.setTcb_of_ne _ _ hut]
      exact ⟨.keep hu (.calm hc), hu.tinib⟩

theorem TaskStep.of_update (ht : c'.tcb = Function.update c.tcb t p)
    (h : TaskStep S P t (c.pRuntsk = some t) b (c.tcb t) p) (u : Nat) :
    TaskStep S P u (c.pRuntsk = some u) b (c.tcb u) (c'.tcb u) := by
  rw [ht]
  by_cases hu : u = t
  · subst hu
    rwa [Function.update_self]
  · rw [Function.update_of_ne hu]
    exact .keep (.refl _) (.calm (.refl _))

end

end AspKernel
