import AspKernel.Exist

namespace AspKernel
set_option autoImplicit true

/-- Where the dormant tasks of one state are, with their control blocks, in the other. -/
def Core.Idles (c c' : Core) : Prop := ∀ u, (c'.tcb u).tstat = .DORMANT → c'.tcb u = c.tcb u

/-- The holder of every mutex other than `m` has it in its queue. -/
def Core.HeldBut (X : Nat → Prop) (c : Core) : Prop :=
  ∀ m t, ¬X m → c.holder m = some t → m ∈ c.mutexQueue t

/-- A dormant task holds no mutex and has its initial priority. -/
structure RestInv (c : Core) : Prop where
  held : c.HeldBut fun _ => False
  queue : ∀ t, (c.tcb t).tstat = .DORMANT → c.mutexQueue t = []
  initial : ∀ t, (c.tcb t).tstat = .DORMANT → (c.tcb t).Initial

section
variable {cfg : Cfg} {S : Scope} {P : WQueue → Prop} {R : Nat → Prop} {D : Nat → Bool}
  {X : Nat → Prop} {c c' c'' : Core}

theorem Core.Idles.refl : c.Idles c := fun _ _ => rfl

theorem Core.Idles.trans (h : c.Idles c') (h' : c'.Idles c'') : c.Idles c'' := fun u hu => by
  have hu' := h' u hu
  rw [hu'] at hu ⊢
  exact h u hu

theorem Core.Idles.of_tcb (h : c'.tcb = c.tcb) : c.Idles c' := fun u _ => congrFun h u

theorem Core.Idles.of_update (ht : c'.tcb = Function.update c.tcb t p) (hp : p.tstat ≠ .DORMANT) :
    c.Idles c' := fun u hu => by
  rw [ht] at hu ⊢
  by_cases hut : u = t
  · subst hut
    rw [Function.update_self] at hu
    exact absurd hu hp
  · rw [Function.update_of_ne hut]

theorem idles_changePriority (hd : (c.tcb t).tstat ≠ .DORMANT) (new : Nat) (m : Bool) :
    c.Idles (c.changePriority t new m).1 := .of_update (changePriority_tcb c t new m) hd

theorem idles_drop (hd : (c.tcb t).tstat ≠ .DORMANT) (m : Nat) : c.Idles
    (if c.mtxCeiling m then c.mutexDropPriority t (c.ceilpri m) else (c, false)).1 := by
  unfold Core.mutexDropPriority
  split
  · split
    · simp only
      split
      · exact idles_changePriority hd _ true
      · exact .refl
    · exact .refl
  · exact .refl

theorem idles_mutexRelease (c : Core) (m : Nat) : c.Idles (c.mutexRelease m).1 := by
  unfold Core.mutexRelease
  split
  · exact .of_tcb rfl
  · rename_i t _
    refine .of_update (t := t) (p := { c.tcb t with
      tstat := (c.tcb t).tstat.nonWait
      priority := c.raised t m
      winfo := { (c.tcb t).winfo with cell := .wercd E_OK } }) ?_ (TStat.nonWait_ne _)
    rw [makeNonWait_tcb, mutexHandOver_tcb, Function.update_idem, Function.update_self]

theorem Core.HeldBut.unlink (h : c.HeldBut X) (m : Nat) :
    (c.mutexUnlink m).HeldBut fun m' => X m' ∨ m' = m := fun m' t hX ho => by
  rw [not_or] at hX
  exact (List.mem_erase_of_ne hX.2).2 (h m' t hX.1 ho)

theorem Core.HeldBut.local (h : c.HeldBut X) (hl : c.Local c') : c'.HeldBut X := by
  obtain ⟨_, _, _, _, rfl⟩ := hl
  exact h

theorem setLoctsk_self (c : Core) (m : Nat) (p : Option Nat) :
    ((c.setLoctsk m p).mtxcb m).pLoctsk = p := by
  unfold Core.setLoctsk
  simp only [Function.update_self]

theorem setLoctsk_of_ne (c : Core) (p : Option Nat) (hm : m' ≠ m) :
    (c.setLoctsk m p).mtxcb m' = c.mtxcb m' := Function.update_of_ne hm ..

/-- A mutex that is released is in the queue of its new holder. -/
theorem Core.HeldBut.release (h : c.HeldBut fun m' => X m' ∨ m' = m) :
    (c.mutexRelease m).1.HeldBut X := by
  intro m' t hX ho
  unfold Core.mutexRelease Core.holder at ho
  unfold Core.mutexRelease
  split at ho
  · have hm : m' ≠ m := by
      rintro rfl
      rw [setLoctsk_self] at ho
      cases ho
    refine h m' t (not_or.2 ⟨hX, hm⟩) ?_
    rwa [setLoctsk_of_ne _ _ hm] at ho
  · rename_i u _
    obtain ⟨h1, h2, _⟩ := handOver_mtx c u m
    rw [h1] at ho
    rw [h2]
    by_cases hm : m' = m
    · subst hm
      rw [setLoctsk_self] at ho
      cases ho
      rw [Function.update_self]
      exact List.mem_append_right _ (List.mem_singleton_self _)
    · rw [setLoctsk_of_ne _ _ hm] at ho
      have hmem := h m' t (not_or.2 ⟨hX, hm⟩) ho
      by_cases ht : t = u
      · subst ht
        rw [Function.update_self]
        exact List.mem_append_left _ hmem
      · rwa [Function.update_of_ne ht]

/-- The queues of the tasks other than the new holder only lose mutexes. -/
theorem release_queue_nil (m : Nat)
    (hd : ((c.mutexRelease m).1.tcb u).tstat = .DORMANT) (hq : c.mutexQueue u = []) :
    (c.mutexRelease m).1.mutexQueue u = [] := by
  unfold Core.mutexRelease at hd ⊢
  split at hd
  · exact hq
  · rename_i t ht
    have hut : u ≠ t := by
      rintro rfl
      rw [makeNonWait_tcb, Function.update_self] at hd
      exact TStat.nonWait_ne _ hd
    rw [(handOver_mtx c t m).2.1, Function.update_of_ne hut]
    exact hq

theorem unlink_queue_nil (m : Nat) (h : c.mutexQueue u = []) :
    (c.mutexUnlink m).mutexQueue u = [] := by
  change (c.mutexQueue u).erase m = []
  rw [h]
  rfl

/-- The loop that releases the mutexes of a detached task. -/
theorem rest_releaseAllLoop (h : CoreInv cfg D c) (hd : D t = true)
    (hn : (c.mutexQueue t).length ≤ n) (hh : c.HeldBut fun _ => False)
    (hq : ∀ u, (c.tcb u).tstat = .DORMANT → c.mutexQueue u = []) :
    let r := (Core.mutexReleaseAllLoop n c t).1
    r.HeldBut (fun _ => False) ∧ c.Idles r ∧ r.mutexQueue t = [] ∧
      ∀ u, (r.tcb u).tstat = .DORMANT → r.mutexQueue u = [] := by
  induction n generalizing c with
  | zero => exact ⟨hh, .refl, List.length_eq_zero_iff.1 (Nat.le_zero.1 hn), hq⟩
  | succ n ih =>
    unfold Core.mutexReleaseAllLoop
    split
    · rename_i hnil
      exact ⟨hh, .refl, hnil, hq⟩
    · rename_i m l hl
      have h1 : CoreInv cfg D (c.mutexUnlink m) := h.flags
      have hi := idles_mutexRelease (c.mutexUnlink m) m
      obtain ⟨h2, h3, h4⟩ := ih (h1.mutexRelease m) (by
        rw [mutexRelease_queue h1 hd]
        change ((c.mutexQueue t).erase m).length ≤ n
        rw [hl, List.length_cons] at hn
        rw [hl, List.erase_cons_head]
        exact Nat.le_of_succ_le_succ hn) (hh.unlink m).release fun u hu => by
          refine release_queue_nil m hu ?_
          have hu' := hi u hu
          rw [hu'] at hu
          exact unlink_queue_nil m (hq u hu)
      exact ⟨h2, Core.Idles.trans hi h3, h4⟩

/-- A change in which the dormant tasks and their mutexes stay as they are. -/
theorem RestInv.of_idles (h : RestInv c) (hh : c'.HeldBut fun _ => False) (hi : c.Idles c')
    (hq : ∀ u, (c'.tcb u).tstat = .DORMANT → c'.mutexQueue u = []) : RestInv c' :=
  ⟨hh, hq, fun u hu => by
    have hu' := hi u hu
    rw [hu'] at hu ⊢
    exact h.initial u hu⟩

/-- A change that has nothing to do with mutexes. -/
theorem RestInv.congr (h : RestInv c) (hm : MFrame c c')
    (ht : ∀ u, (c'.tcb u).tstat = .DORMANT →
      (c'.tcb u).tinib.ipriority = (c.tcb u).tinib.ipriority ∨ (c'.tcb u).Initial) :
    RestInv c' := by
  refine ⟨fun m t hX ho => ?_, fun u hu => ?_, fun u hu => ?_⟩
  · unfold Core.holder at ho
    rw [hm.mtxcb] at ho
    rw [hm.mutexQueue]
    exact h.held m t hX ho
  · rw [hm.mutexQueue]
    exact h.queue u (hm.dormant u hu)
  · rcases ht u hu with hi | hi
    · have hold := h.initial u (hm.dormant u hu)
      unfold TCB.Initial at hold ⊢
      rwa [hm.priority u, hm.bpriority u, hi]
    · exact hi

theorem TaskStep.initial (h : TaskStep S P u run b p p') (hd : p'.tstat = .DORMANT) :
    p'.tinib.ipriority = p.tinib.ipriority ∨ p'.Initial := by
  cases h with
  | keep hs _ => exact .inl (by rw [hs.tinib])
  | tex _ _ hl _ => exact .inl hl.ipriority
  | start _ _ hs =>
    rw [hs] at hd
    cases hd
  | stop _ _ _ hi => exact .inl (by rw [hi])
  | restart _ _ hs =>
    rw [hs] at hd
    cases hd
  | create _ _ _ _ _ _ _ hp => exact .inr hp
  | delete _ _ _ _ hi => exact .inl (by rw [hi])

/-- A change of mutexes that are linked to no dormant task. -/
theorem RestInv.drop (h : RestInv c) (hd : (c.tcb t).tstat ≠ .DORMANT)
    (hh : c'.HeldBut X) (ht : c'.tcb = c.tcb) (hq : ∀ u, c.mutexQueue u = [] → c'.mutexQueue u = [])
    (m : Nat) :
    let r := (if c'.mtxCeiling m then c'.mutexDropPriority t (c'.ceilpri m) else (c', false)).1
    r.HeldBut X ∧ c.Idles r ∧ ∀ u, (r.tcb u).tstat = .DORMANT → r.mutexQueue u = [] := by
  have hi : c.Idles _ := Core.Idles.trans (.of_tcb ht) (idles_drop (c := c') (t := t) (ht ▸ hd) m)
  have hl := drop_local c' t m
  refine ⟨hh.local hl, hi, fun u hu => ?_⟩
  have hu' := hi u hu
  rw [hu'] at hu
  obtain ⟨_, _, _, _, he⟩ := hl
  rw [he]
  exact hq u (h.queue u hu)

/-- The holder of a mutex is not dormant. -/
theorem RestInv.holder (h : RestInv c) (hm : c.holder m = some t) : (c.tcb t).tstat ≠ .DORMANT :=
  fun hd => by
    have hmem := h.held m t id hm
    rw [h.queue t hd] at hmem
    cases hmem

theorem RestInv.lock (h : RestInv c) (hd : (c.tcb t).tstat ≠ .DORMANT) (m : Nat) :
    RestInv (c.lock t m) := by
  let c1 : Core := { c.setLoctsk m (some t) with
    mutexQueue := Function.update c.mutexQueue t (m :: c.mutexQueue t) }
  have hh : c1.HeldBut fun _ => False := fun m' u _ ho => by
    change m' ∈ Function.update c.mutexQueue t (m :: c.mutexQueue t) u
    by_cases hm : m' = m
    · subst hm
      unfold Core.holder at ho
      rw [show (c1.mtxcb m').pLoctsk = some t from setLoctsk_self c m' (some t)] at ho
      cases ho
      rw [Function.update_self]
      exact List.mem_cons_self ..
    · unfold Core.holder at ho
      rw [show c1.mtxcb m' = c.mtxcb m' from setLoctsk_of_ne c (some t) hm] at ho
      have hmem := h.held m' u id ho
      by_cases hut : u = t
      · subst hut
        rw [Function.update_self]
        exact List.mem_cons_of_mem _ hmem
      · rwa [Function.update_of_ne hut]
  have hq (u : Nat) (hu : (c.tcb u).tstat = .DORMANT) : c1.mutexQueue u = [] := by
    have hut : u ≠ t := by
      rintro rfl
      exact hd hu
    exact (Function.update_of_ne hut ..).trans (h.queue u hu)
  have hr : (c.mutexAcquire t m).1.HeldBut (fun _ => False) ∧ c.Idles (c.mutexAcquire t m).1 ∧
      c1.Local (c.mutexAcquire t m).1 := by
    unfold Core.mutexAcquire Core.mutexRaisePriority
    simp only
    split
    · split
      · have hl := local_changePriority c1 t (c1.ceilpri m) true
        exact ⟨hh.local hl, idles_changePriority (c := c1) hd _ true, hl⟩
      · exact ⟨hh, .of_tcb rfl, .refl c1⟩
    · exact ⟨hh, .of_tcb rfl, .refl c1⟩
  obtain ⟨h1, h2, hl⟩ := hr
  refine h.of_idles h1 h2 fun u hu => ?_
  have hu' : (c.mutexAcquire t m).1.tcb u = c.tcb u := h2 u hu
  have hq' : (c.mutexAcquire t m).1.mutexQueue = c1.mutexQueue := by
    obtain ⟨_, _, _, _, he⟩ := hl
    rw [he]
  change (c.mutexAcquire t m).1.mutexQueue u = []
  rw [hq']
  exact hq u (hu' ▸ hu)

theorem RestInv.unlock (h : RestInv c) (hd : (c.tcb t).tstat ≠ .DORMANT) (m : Nat) :
    RestInv (c.unlock t m).1 := by
  obtain ⟨h1, h2, h3⟩ := h.drop hd (h.held.unlink m) rfl (fun _ => unlink_queue_nil m) m
  refine h.of_idles (Core.HeldBut.release h1) (Core.Idles.trans h2 (idles_mutexRelease _ m))
    fun u hu => release_queue_nil m hu ?_
  have hu' := idles_mutexRelease _ m u hu
  exact h3 u (hu' ▸ hu)

theorem RestInv.disown (h : RestInv c) (hn : c.holder m = some t) : RestInv (c.disown t m).1 := by
  have hh : ((c.mutexUnlink m).setLoctsk m none).HeldBut fun _ => False := fun m' u hX ho => by
    have hm : m' ≠ m := by
      rintro rfl
      unfold Core.holder at ho
      rw [setLoctsk_self] at ho
      cases ho
    unfold Core.holder at ho
    rw [setLoctsk_of_ne _ _ hm] at ho
    exact h.held.unlink m m' u (not_or.2 ⟨hX, hm⟩) ho
  obtain ⟨h1, h2, h3⟩ := h.drop (h.holder hn) hh rfl (fun _ => unlink_queue_nil m) m
  exact h.of_idles h1 h2 h3

theorem RestInv.setBpriority (h : RestInv c) (hd : (c.tcb t).tstat ≠ .DORMANT) (new : Nat) :
    RestInv (c.setBpriority t new).1 := by
  have hl : c.Local (c.setBpriority t new).1 := by
    unfold Core.setBpriority
    simp only
    split
    · exact (local_setTcb c t _).trans (local_changePriority _ t new false)
    · exact local_setTcb c t _
  have hi : c.Idles (c.setBpriority t new).1 := by
    have h1 : c.Idles (c.setTcb t { c.tcb t with bpriority := new }) := .of_update rfl hd
    unfold Core.setBpriority
    simp only
    split
    · refine Core.Idles.trans h1 (idles_changePriority ?_ new false)
      rw [Core.setTcb_self]
      exact hd
    · exact h1
  refine h.of_idles (h.held.local hl) hi fun u hu => ?_
  have hu' := hi u hu
  rw [hu'] at hu
  obtain ⟨_, _, _, _, he⟩ := hl
  rw [he]
  exact h.queue u hu

/-- The end of a task. -/
theorem RestInv.terminate (h : RestInv c) (hc : CoreInv cfg noD c)
    (hd : (c.tcb t).tstat ≠ .DORMANT) : RestInv ((c.unlink t).terminate t).1 := by
  have hself : Function.update noD t true t = true := Function.update_self ..
  have hl := frame_unlink c t
  have hc1 := hc.unlink (t := t) rfl hd
  have hq (u : Nat) (hu : ((c.unlink t).tcb u).tstat = .DORMANT) :
      (c.unlink t).mutexQueue u = [] := by
    rw [hl.2] at hu
    obtain ⟨_, _, _, _, he⟩ := hl.1
    rw [he]
    exact h.queue u hu
  have hh := h.held.local hl.1
  have hr : let r := (if (c.unlink t).mutexQueue t = [] then (c.unlink t, false)
        else (c.unlink t).mutexReleaseAll t).1
      r.HeldBut (fun _ => False) ∧ (c.unlink t).Idles r ∧ r.mutexQueue t = [] ∧
        ∀ u, (r.tcb u).tstat = .DORMANT → r.mutexQueue u = [] := by
    simp only
    split
    · rename_i hnil
      exact ⟨hh, .refl, hnil, hq⟩
    · exact rest_releaseAllLoop hc1 hself (Nat.le_refl _) hh hq
  unfold Core.terminate
  simp only at hr ⊢
  generalize (if (c.unlink t).mutexQueue t = [] then (c.unlink t, false)
    else (c.unlink t).mutexReleaseAll t) = r at hr ⊢
  obtain ⟨h1, h2, h3, h4⟩ := hr
  have hi : c.Idles r.1 := Core.Idles.trans (.of_tcb hl.2) h2
  have hdorm : RestInv (r.1.makeDormant t) := by
    refine ⟨h1, fun u hu => ?_, fun u hu => ?_⟩ <;> by_cases hut : u = t
    · rw [hut]
      exact h3
    · rw [show (r.1.makeDormant t).tcb u = r.1.tcb u from Core.setTcb_of_ne _ _ hut] at hu
      exact h4 u hu
    · subst hut
      rw [show (r.1.makeDormant u).tcb u = _ from Core.setTcb_self ..]
      exact ⟨rfl, rfl⟩
    · rw [show (r.1.makeDormant t).tcb u = r.1.tcb u from Core.setTcb_of_ne _ _ hut] at hu ⊢
      have hu' := hi u hu
      rw [hu'] at hu ⊢
      exact h.initial u hu
  split
  · refine hdorm.of_idles h1 (.of_update (t := t) (p := { (r.1.makeDormant t).tcb t with
      actque := false, tstat := .RUNNABLE, texstk := [], texloop := false }) ?_ nofun)
      fun u hu => ?_
    · unfold Core.makeActive Core.makeRunnable Core.setTcb
      simp only [Function.update_idem, Function.update_self]
    · have hut : u ≠ t := by
        rintro rfl
        unfold Core.makeActive Core.makeRunnable Core.setTcb at hu
        simp only [Function.update_self] at hu
        cases hu
      refine hdorm.queue u ?_
      unfold Core.makeActive Core.makeRunnable Core.setTcb at hu
      simp only [Function.update_of_ne hut] at hu
      exact hu
  · exact hdorm

theorem Move.rest (m : Move cfg S P R c b c') (hc : CoreInv cfg noD c) (h : RestInv c) :
    RestInv c' := by
  have hstep := (m.exist hc).1
  have hsame (hm : MFrame c c') : RestInv c' := h.congr hm fun u => (hstep u).initial
  cases m with
  | touch hO hl hi hx hu =>
    exact hsame (frame_setTcb (N := fun _ => True) (P := fun _ => True) hl).2
  | tex hX hl hi hu =>
    exact hsame (frame_setTcb (N := fun _ => True) (P := fun _ => True) hl).2
  | activate hO hf hr hs =>
    exact hsame (frame_makeActive (N := fun _ => True) (P := fun _ => True) c _).2
  | suspend hO hr hc hd =>
    exact hsame (frame_suspend (N := fun _ => True) (P := fun _ => True) c _ trivial).2
  | setSuspended hO hw b =>
    exact hsame (frame_setSuspended (N := fun _ => True) (P := fun _ => True) c _ b hw).2
  | resume hO hs =>
    exact hsame (frame_resume (N := fun _ => True) (P := fun _ => True) c _).2
  | block hW ht hr hc hb hq w hm =>
    exact hsame (frame_block (N := fun _ => True) (P := fun _ => True) c _ _ w _ _ trivial
      (fun _ _ => trivial) hb.wobj fun r hr => (hb.queue r hr).1).2
  | complete ht hh hP hw =>
    exact hsame (frame_waitComplete (N := fun _ => True) (P := fun _ => False) (c := c) _
      (TCB.loc_eq_wait.1 (hc.of_mem ht).2).1).2
  | wakeup hO hs =>
    rename_i t
    have hw : (c.tcb t).tstat.waiting = true := by
      by_contra hw
      have hf : (c.tcb t).tstat.factor = .SLP := beq_iff_eq.1 hs
      rw [(hc.task t).legal.factor (Bool.eq_false_iff.2 hw)] at hf
      cases hf
    exact hsame (frame_wakeup (N := fun _ => True) (P := fun _ => True)
      ((hc.task t).legal.not_runnable hw)).2
  | release hO hw hL =>
    exact hsame (frame_waitRelease (N := fun _ => True) (P := fun _ => True)
      ((hc.task _).legal.not_runnable hw)).2
  | initQueue q hI =>
    exact hsame (frame_initWaitQueue (N := fun _ => True) (P := fun _ => True) hc q).2
  | setBpriority hR hd hb hck => exact h.setBpriority hd _
  | rotate pri => exact hsame (frame_rotate (N := fun _ => True) (P := fun _ => True) c pri).2
  | lock ht hr hs hn hm hex hP => exact h.lock (ne_dormant_of_runnable hr) _
  | unlock ht hr hn hP => exact h.unlock (ne_dormant_of_runnable hr) _
  | disown hR hn hq => exact h.disown hn
  | terminate hO hd hs hb ht hP => exact h.terminate hc hd
  | newTsk hO ht hi ha hx hK =>
    rename_i t c1 tinib
    obtain ⟨_, _, _, _, hs⟩ := hc.newTsk ht hi
    obtain ⟨l, _, rfl⟩ := takeTcb_eq ht
    have hne (u : Nat) (hu : u ≠ t) :
        (Core.initTcb { c with freeTcb := l } t tinib).tcb u = c.tcb u := by
      unfold Core.initTcb Core.makeDormant Core.setTcb
      simp only [Function.update_of_ne hu]
    have hq : (Core.initTcb { c with freeTcb := l } t tinib).mutexQueue =
        Function.update c.mutexQueue t [] := rfl
    refine ⟨fun m u _ ho => ?_, fun u hu => ?_, fun u hu => ?_⟩
    · have hut : u ≠ t := by
        rintro rfl
        exact h.holder ho hs
      rw [hq, Function.update_of_ne hut]
      exact h.held m u id ho
    · rw [hq]
      by_cases hut : u = t
      · rw [hut, Function.update_self]
      · rw [hne u hut] at hu
        rw [Function.update_of_ne hut]
        exact h.queue u hu
    · by_cases hut : u = t
      · subst hut
        unfold Core.initTcb Core.makeDormant Core.setTcb
        simp only [Function.update_self]
        exact ⟨rfl, rfl⟩
      · rw [hne u hut] at hu ⊢
        exact h.initial u hu
  | delTsk hO hn hs ht hd hK =>
    exact hsame (.of_update rfl rfl rfl (fun _ => rfl) rfl rfl rfl id)
  | newMtx ht ha hK =>
    rename_i m c1 atr pri
    obtain ⟨l, _, rfl⟩ := takeWobj_eq ht
    refine h.of_idles (fun m' t hX ho => h.held m' t id ?_) (.of_tcb rfl) h.queue
    change (Function.update c.mtxcb m ⟨pri, none⟩ m').pLoctsk = some t at ho
    by_cases hm : m' = m
    · rw [hm, Function.update_self] at ho
      cases ho
    · rwa [Function.update_of_ne hm] at ho
  | newWobj hm hf ht ha hK =>
    obtain ⟨l, _, rfl⟩ := takeWobj_eq ht
    exact h.of_idles h.held (.of_tcb rfl) h.queue
  | stopCyc _ =>
    unfold Core.stopCyc
    split
    · exact h.of_idles h.held (.of_tcb rfl) h.queue
    · exact h
  | stopAlm i =>
    unfold Core.stopAlm
    split
    · exact h.of_idles h.held (.of_tcb rfl) h.queue
    · exact h
  | _ => exact h.of_idles h.held (.of_tcb rfl) h.queue

theorem Moves.rest (m : Moves cfg S P R c b c') (hc : CoreInv cfg noD c) (h : RestInv c) :
    RestInv c' := by
  induction m with
  | refl => exact h
  | step hs hm ih => exact hm.rest (hs.coreInv hc) ih

theorem RestInv.alike (h : RestInv c) (ha : c.Alike c') : RestInv c' :=
  h.congr ha.mframe fun u _ => .inl (by rw [ha.tinib u])

theorem RestInv.step {k k' : Kernel} (h : RestInv k.core) (hi : RunInv cfg k.core)
    (hs : Step cfg k e k') : RestInv k'.core := by
  cases hi.coreStep hs with
  | call hc hm ha => exact (hm.rest hi.inv h).alike ha
  | fire hf =>
    have ht (u : Nat) := (hf.exist.1 u).tinib
    obtain ⟨b, c2, _, hr, hm⟩ := hf.frame (P := fun _ => False) hi.inv
    rw [hr] at ht ⊢
    exact (h.congr hm fun u _ => .inl (congrArg TINIB.ipriority (ht u))).alike
      (.request c2 b)
  | outside he hf ha => exact h.alike ha

end

end AspKernel
