import AspKernel.Keep

namespace AspKernel
set_option autoImplicit true

/-- The task `t` is ahead of `u` in a wait queue in which both are. -/
def Core.Ahead (c : Core) (q : WQueue) (t u : Nat) : Prop :=
  Before (c.tpri q) c.priority c.sched.arrival t u

/-- No task overtakes another one: when a task completes its wait, the tasks that were ahead of it
have left the queue. The queues of event flags are exempt, and so are the tasks of `R`. -/
def Fair (D : Nat → Bool) (R : Nat → Prop) (c c' : Core) : Prop :=
  ∀ q t u, q.1 ≠ .FLG → c.pRuntsk ≠ some t → c.pRuntsk ≠ some u → c.loc D t = some (.wait q) →
    c.loc D u = some (.wait q) → c.Ahead q t u → (c'.tcb u).winfo.cell = .wercd E_OK →
    (c'.tcb t).loc = some (.wait q) → R t ∨ R u

section
variable {cfg : Cfg} {D : Nat → Bool} {P P' : WQueue → Prop} {R : Nat → Prop} {c c' c'' : Core}

theorem Core.loc_some (h : c.loc D t = some o) : D t = false ∧ (c.tcb t).loc = some o := by
  cases hd : D t with
  | true =>
    rw [Core.loc_detached hd] at h
    cases h
  | false =>
    rw [Core.loc_attached hd] at h
    exact ⟨rfl, h⟩

theorem Before.congr_pri {b b' : Bool} {pri pri' arrival arrival' : Nat → Nat}
    (h : Before b pri arrival t u) (hb : b' = b) (ht : arrival' t = arrival t)
    (hu : arrival' u = arrival u) (hp : b = true → pri' t = pri t ∧ pri' u = pri u) :
    Before b' pri' arrival' t u := by
  subst hb
  unfold Before at h ⊢
  rw [ht, hu]
  split
  · rename_i hb
    rw [if_pos hb] at h
    rwa [(hp hb).1, (hp hb).2]
  · rename_i hb
    rwa [if_neg hb] at h

/-- The first task of a queue has no task ahead of it. -/
theorem CoreInv.not_ahead_head (h : CoreInv cfg D c) (hh : c.headTsk q = some u)
    (ht : c.loc D t = some (.wait q)) : ¬c.Ahead q t u := by
  have hm := h.sched.linked.mem.2 ht
  have hs := h.sched.sorted q
  have hself (v : Nat) : ¬c.Ahead q v v := fun hv => by
    unfold Core.Ahead Before at hv
    split at hv <;> omega
  obtain ⟨l, hl⟩ : ∃ l, c.sched.queue (.wait q) = u :: l := List.head?_eq_some_iff.1 hh
  rw [hl] at hm hs
  rcases List.mem_cons.1 hm with rfl | hm
  · exact hself t
  · exact fun ha => hself t (ha.trans (List.rel_of_pairwise_cons hs hm))

/-- Tasks that stay where they are keep their order. -/
theorem Core.Ahead.keep (h : c.Ahead q t u) (hk : Keep P R c c') (ht : c.pRuntsk ≠ some t)
    (hu : c.pRuntsk ≠ some u) (hlt : (c'.tcb t).loc = some (.wait q))
    (hlu : (c'.tcb u).loc = some (.wait q)) (hRt : ¬R t) (hRu : ¬R u) : c'.Ahead q t u := by
  obtain ⟨_, htp, ht1⟩ := hk.order t q ht hlt
  obtain ⟨_, _, hu1⟩ := hk.order u q hu hlu
  exact h.congr_pri htp (hk.stay t hRt ht) (hk.stay u hRu hu) fun hb =>
    ⟨(ht1 hb).resolve_right fun h => hRt h.1, (hu1 hb).resolve_right fun h => hRu h.1⟩

theorem Fair.trans (h : Fair D R c c') (hk : Keep P R c c') (h' : Fair D R c' c'')
    (hk' : Keep P' R c' c'') : Fair D R c c'' := by
  intro q t u hq ht hu hlt hlu ha hok hin
  by_contra hR
  obtain ⟨hRt, hRu⟩ := not_or.1 hR
  have ht' : c'.pRuntsk ≠ some t := hk.runtsk ▸ ht
  have hu' : c'.pRuntsk ≠ some u := hk.runtsk ▸ hu
  obtain ⟨hin', _, _⟩ := hk'.order t q ht' hin
  obtain ⟨hDt, _⟩ := Core.loc_some hlt
  obtain ⟨hDu, hlocu⟩ := Core.loc_some hlu
  rcases hk.wait u q hu hlocu with ⟨hstay, _⟩ | ⟨hout, _⟩
  · exact hR (h' q t u hq ht' hu' ((Core.loc_attached hDt).trans hin')
      ((Core.loc_attached hDu).trans hstay)
      (ha.keep hk ht hu hin' hstay hRt hRu) hok hin)
  · rw [(hk'.idle u hu' hout).2] at hok
    exact hR (h q t u hq ht hu hlt hlu ha hok hin')

theorem CoreInv.cell_ne_ok (h : CoreInv cfg D c) (hl : c.loc D t = some (.wait q)) (e : ER) :
    (c.tcb t).winfo.cell ≠ .wercd e := by
  obtain ⟨hd, hl⟩ := Core.loc_some hl
  rw [(h.task t).cell hd (TCB.loc_eq_wait.1 hl).2.1]
  nofun

/-- A change that completes no wait. -/
theorem Keep.fair (hk : Keep (fun _ => False) R c c') (h : CoreInv cfg D c) : Fair D R c c' := by
  intro q t u hq ht hu hlt hlu ha hok hin
  rcases hk.wait u q hu (Core.loc_some hlu).2 with ⟨_, hw⟩ | ⟨_, hP⟩
  · rw [hw] at hok
    exact absurd hok (h.cell_ne_ok hlu E_OK)
  · exact absurd (hP hok) id

/-- A change that completes the wait of one task, which is the first of its queue. -/
theorem Fair.of_head (h : CoreInv cfg D c) (hh : q.1 = .FLG ∨ c.headTsk q = some u)
    (hu : u ∈ c.sched.queue (.wait q)) (hc : ∀ v ≠ u, c'.tcb v = c.tcb v) : Fair D R c c' := by
  intro q' t v hq ht hv hlt hlv ha hok hin
  by_cases hvu : v = u
  · subst hvu
    rw [h.sched.linked.mem.1 hu] at hlv
    cases hlv
    exact absurd ha (h.not_ahead_head (hh.resolve_left hq) hlt)
  · rw [hc v hvu] at hok
    exact absurd hok (h.cell_ne_ok hlv E_OK)

theorem fair_mutexRelease (h : CoreInv cfg D c) (m : Nat) : Fair D R c (c.mutexRelease m).1 := by
  unfold Core.mutexRelease
  split
  · exact (Keep.of_tcb (P := fun _ => False) (R := R) rfl rfl rfl rfl).fair h
  · rename_i t ht
    refine .of_head h (.inr ht) (mem_of_headTsk ht) fun v hv => ?_
    rw [makeNonWait_tcb, Function.update_of_ne hv, mutexHandOver_tcb, Function.update_of_ne hv]

theorem fair_mutexReleaseAllLoop (h : CoreInv cfg D c) (hd : D t = true) (n u : Nat) :
    Fair D R c (Core.mutexReleaseAllLoop n c u).1 := by
  induction n generalizing c with
  | zero => exact (Keep.refl (P := fun _ => False)).fair h
  | succ n ih =>
    unfold Core.mutexReleaseAllLoop
    split
    · exact (Keep.refl (P := fun _ => False)).fair h
    · rename_i m _ _
      have h1 : CoreInv cfg D (c.mutexUnlink m) := h.flags
      have hk : Keep (fun _ => False) R c (c.mutexUnlink m) := .of_tcb rfl rfl rfl rfl
      have hk' : Keep (fun _ => True) R (c.mutexUnlink m) ((c.mutexUnlink m).mutexRelease m).1 :=
        keep_mutexRelease h1 m trivial
      have hk'' := (keep_mutexReleaseAllLoop (P := fun _ => True) (R := R) (h1.mutexRelease m) hd
        (fun _ => trivial) n u).1
      have hf := (hk.fair h).trans hk (fair_mutexRelease h1 m) hk'
      exact hf.trans ((hk.mono (fun _ => False.elim) fun _ => id).trans hk')
        (ih (h1.mutexRelease m)) hk''

/-- The end of a task changes, after its mutexes are released, this task only. -/
theorem terminate_tcb (c : Core) (t : Nat) : ∃ r : Core × Bool,
    r = (if c.mutexQueue t = [] then (c, false) else c.mutexReleaseAll t) ∧
    (∀ v ≠ t, (c.terminate t).1.tcb v = r.1.tcb v) ∧
    ((c.terminate t).1.tcb t).tstat.waiting = false ∧
    ((c.terminate t).1.tcb t).winfo = (r.1.tcb t).winfo := by
  refine ⟨_, rfl, ?_⟩
  unfold Core.terminate
  simp only
  generalize (if c.mutexQueue t = [] then (c, false) else c.mutexReleaseAll t) = r
  unfold Core.makeDormant
  simp only
  split
  · unfold Core.makeActive Core.makeRunnable
    refine ⟨fun v hv => ?_, ?_, ?_⟩
    · simp only [Core.setTcb_of_ne _ _ hv]
    · simp only [Core.setTcb_self]
      rfl
    · simp only [Core.setTcb_self]
  · refine ⟨fun v hv => ?_, ?_, ?_⟩
    · simp only [Core.setTcb_of_ne _ _ hv]
    · simp only [Core.setTcb_self]
      rfl
    · simp only [Core.setTcb_self]

theorem fair_terminate (h : CoreInv cfg noD c) (hd : (c.tcb t).tstat ≠ .DORMANT) :
    Fair noD R c ((c.unlink t).terminate t).1 := by
  intro q v u hq hv hu hlv hlu ha hok hin
  have h1 := h.unlink (t := t) rfl hd
  have hself : Function.update noD t true t = true := Function.update_self ..
  have htcb := (frame_unlink c t).2
  obtain ⟨r, hr, hne, hw, hwi⟩ := terminate_tcb (c.unlink t) t
  have hrt : Fair (Function.update noD t true) R (c.unlink t) r.1 ∧
      r.1.tcb t = (c.unlink t).tcb t := by
    rw [hr]
    split
    · exact ⟨(Keep.refl (P := fun _ => False)).fair h1, rfl⟩
    · exact ⟨fair_mutexReleaseAllLoop h1 hself _ t,
        (keep_mutexReleaseAllLoop (P := fun _ => True) (R := R) h1 hself (fun _ => trivial) _ t).2⟩
  have hvt : v ≠ t := by
    rintro rfl
    exact TCB.loc_ne_wait hw q hin
  have hut : u ≠ t := by
    rintro rfl
    rw [hwi, hrt.2, htcb] at hok
    exact h.cell_ne_ok hlu E_OK hok
  have hloc (x : Nat) (hx : x ≠ t) (hl : c.loc noD x = some (.wait q)) :
      (c.unlink t).loc (Function.update noD t true) x = some (.wait q) := by
    rw [Core.loc_attached (by rw [Function.update_of_ne hx]), htcb]
    exact (Core.loc_some hl).2
  have hnum := unlink_numbers c t
  have ha' : (c.unlink t).Ahead q v u := by
    refine ha.congr_pri (tpri_of_wobjatr (frame_unlink c t).1.wobjatr q)
      (congrFun (congrArg Prod.fst hnum) v) (congrFun (congrArg Prod.fst hnum) u) fun _ => ?_
    unfold Core.priority
    rw [htcb]
    exact ⟨rfl, rfl⟩
  have hrun : (c.unlink t).pRuntsk = c.pRuntsk := (frame_unlink c t).1.pRuntsk
  rw [hne u hut] at hok
  rw [hne v hvt] at hin
  exact hrt.1 q v u hq (hrun ▸ hv) (hrun ▸ hu) (hloc v hvt hlv) (hloc u hut hlu) ha' hok hin

theorem fair_unlock (h : CoreInv cfg noD c) (hr : (c.tcb t).tstat.runnable = true) (m : Nat) :
    Fair noD R c (c.unlock t m).1 := by
  have h1 : CoreInv cfg noD (c.mutexUnlink m) := h.flags
  have hk : Keep (fun _ => False) R c (c.mutexUnlink m) := .of_tcb rfl rfl rfl rfl
  have h2 : CoreInv cfg noD (if (c.mutexUnlink m).mtxCeiling m then
      (c.mutexUnlink m).mutexDropPriority t ((c.mutexUnlink m).ceilpri m)
      else (c.mutexUnlink m, false)).1 := by
    split
    · exact h1.mutexDropPriority rfl _
    · exact h1
  have hd := keep_drop hk t m (.inl hr)
  exact (hd.fair h).trans hd (fair_mutexRelease h2 m)
    (keep_mutexRelease (P := fun _ => True) h2 m trivial)

theorem Move.fair {S : Scope} (m : Move cfg S P R c b c') (h : CoreInv cfg noD c) :
    Fair noD R c c' := by
  have hq {b : Bool} {c' : Core} (m : Move cfg S (fun _ => False) R c b c') : Fair noD R c c' :=
    (m.keep h).fair h
  cases m with
  | touch hO hl hi hx hu => exact hq (.touch hO hl hi hx hu)
  | tex hX hl hi hu => exact hq (.tex hX hl hi hu)
  | mem hM areas freeOk => exact hq (.mem hM areas freeOk)
  | flags hc hf hs hI => exact hq (.flags hc hf hs hI)
  | activate hO hf hr hs => exact hq (.activate hO hf hr hs)
  | suspend hO hr hc hd => exact hq (.suspend hO hr hc hd)
  | setSuspended hO hw b => exact hq (.setSuspended hO hw b)
  | resume hO hs => exact hq (.resume hO hs)
  | block hW ht hr hc hb _ w hm => exact (keep_block _ _ _ _ _ ht hb.wobj).fair h
  | complete ht hh hP hw =>
    rename_i q t w
    refine .of_head h hh ht fun v hv => ?_
    have he := (Ending.complete c t w).tcb
    unfold Core.waitComplete
    rw [makeNonWait_tcb, Function.update_of_ne hv, he, Function.update_of_ne hv]
  | wakeup hO hs => exact hq (.wakeup hO hs)
  | release hO hw hL => exact hq (.release hO hw hL)
  | initQueue q hI => exact hq (.initQueue q hI)
  | setBpriority hR hd hb hc => exact hq (.setBpriority hR hd hb hc)
  | rotate pri => exact hq (.rotate pri)
  | lock ht hr hs hn hm hex hP => exact (keep_lock (P := fun _ => False) hr _).fair h
  | unlock ht hr hn _ => exact fair_unlock h hr _
  | disown hR hn hq' => exact hq (.disown hR hn hq')
  | terminate hO hd hc hb ht _ hT => exact fair_terminate h hd
  | newTsk hO ht hi ha hx hK => exact hq (.newTsk hO ht hi ha hx hK)
  | delTsk hO hn hs ht hd hK => exact hq (.delTsk hO hn hs ht hd hK)
  | newWobj hm hf ht ha hK => exact hq (.newWobj hm hf ht ha hK)
  | freeWobj hm hf hq' hex hd hK => exact hq (.freeWobj hm hf hq' hex hd hK)
  | newMtx ht ha hK => exact hq (.newMtx ht ha hK)
  | freeMtx hq' hex hS hd hK => exact hq (.freeMtx hq' hex hS hd hK)
  | newCyc hl ht hp ha hK => exact hq (.newCyc hl ht hp ha hK)
  | startCyc hn hr hs hC => exact hq (.startCyc hn hr hs hC)
  | stopCyc hC => exact hq (.stopCyc hC)
  | delCyc hn hr hs hd hK hex hC => exact hq (.delCyc hn hr hs hd hK hex hC)
  | newAlm hl ha hK => exact hq (.newAlm hl ha hK)
  | startAlm hn hr hs ht => exact hq (.startAlm hn hr hs ht)
  | stopAlm i => exact hq (.stopAlm i)
  | delAlm hn hr hs hd hK hex => exact hq (.delAlm hn hr hs hd hK hex)

theorem Moves.fair {S : Scope} (m : Moves cfg S P R c b c') (h : CoreInv cfg noD c) :
    Fair noD R c c' := by
  induction m with
  | refl => exact (Keep.refl (P := fun _ => False)).fair h
  | step hs hm ih =>
    exact ih.trans (hs.keep h) (hm.fair (hs.coreInv h)) (hm.keep (hs.coreInv h))

theorem Fair.alike (h : Fair D R c c') (ha : c'.Alike c'') : Fair D R c c'' := by
  intro q t u hq ht hu hlt hlu hah hok hin
  rw [(ha.tcb u).winfo] at hok
  rw [(ha.tcb t).loc] at hin
  exact h q t u hq ht hu hlt hlu hah hok hin

/-- The tasks that a step moves within a queue are those of a call that serves none. -/
theorem Event.repri_serves {k : Kernel} {e : Event} (h : e.repri k t) (q : WQueue) :
    ¬e.serves q := by
  cases e with
  | call call =>
    cases call with
    | chgPri | iniMtx => exact nofun
    | _ => cases h
  | _ => cases h

/-- A step of the system lets no task overtake another one. -/
theorem RunInv.fair {k k' : Kernel} (h : RunInv cfg k.core) (h' : CoreInv cfg noD k'.core)
    (hs : Step cfg k e k') (hq : q.1 ≠ .FLG) (ht : (k.core.tcb t).loc = some (.wait q))
    (hu : (k.core.tcb u).loc = some (.wait q)) (ha : k.core.Ahead q t u)
    (hok : (k'.core.tcb u).winfo.cell = .wercd E_OK) : (k'.core.tcb t).loc ≠ some (.wait q) := by
  intro hin
  have hne (v : Nat) (hl : (k.core.tcb v).loc = some (.wait q)) : k.core.pRuntsk ≠ some v :=
    fun hv => by
      have h1 := (TCB.loc_eq_wait.1 hl).1
      rw [h.running v hv] at h1
      cases h1
  have hserve : e.serves q := by
    rcases (h.waits hs).leave u q hu with hl | ⟨_, hP⟩
    · exact absurd hok (h'.cell_ne_ok (D := noD) hl E_OK)
    · exact hP hok
  have hfair : Fair noD (e.repri k) k.core k'.core → False := fun hf => by
    rcases hf q t u hq (hne t ht) (hne u hu) ht hu ha hok hin with hR | hR
    · exact Event.repri_serves hR q hserve
    · exact Event.repri_serves hR q hserve
  cases h.coreStep hs with
  | call hc hm ha => exact hfair ((hm.fair h.inv).alike ha)
  | fire hf =>
    exact hserve
  | outside he hf ha =>
    rw [Event.serves_other he] at hserve
    exact hserve

/-- The step of the loop of `set_flg` for a task whose condition holds. -/
def Core.serveFlg (c : Core) (t : Nat) (flgptn : FLGPTN) : Core :=
  (((c.setWinfo t { (c.tcb t).winfo with flgptn := flgptn }).queueDelete t).waitComplete t).1

theorem serveFlg_tcb (c : Core) (t : Nat) (flgptn : FLGPTN) : (c.serveFlg t flgptn).tcb =
    Function.update c.tcb t { c.tcb t with
      tstat := (c.tcb t).tstat.nonWait
      winfo := { (c.tcb t).winfo with flgptn := flgptn, cell := .wercd E_OK } } := by
  have he := (Ending.complete c t { (c.tcb t).winfo with flgptn := flgptn }).tcb
  unfold Core.serveFlg Core.waitComplete
  change ((((((c.queueDelete t).setWinfo t _).waitDequeueTmevtb t).setWercd t E_OK)).makeNonWait
    t).1.tcb = _
  rw [makeNonWait_tcb, he, Function.update_idem, Function.update_self]

theorem settle_alike (r : Res Kernel) : r.st.core.Alike r.settle.core := by
  rw [settle_core]
  split
  · exact .dispatcher _
  · exact .of_tcb rfl ⟨_, _, _, _, _, _, _, _, _, _, rfl⟩

end

end AspKernel
