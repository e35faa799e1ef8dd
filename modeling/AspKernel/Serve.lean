import AspKernel.CreateReach

namespace AspKernel
set_option autoImplicit true

/-- The object that a call initialises again. -/
def Call.ini : Call → Option (ObjKind × ID)
  | .iniSem id => some (.wobj .SEM, id)
  | .iniFlg id => some (.wobj .FLG, id)
  | .iniDtq id => some (.wobj .SDTQ, id)
  | .iniPdq id => some (.wobj .SPDQ, id)
  | .iniMbx id => some (.wobj .MBX, id)
  | .iniMpf id => some (.wobj .MPF, id)
  | .iniMtx id => some (.wobj .MTX, id)
  | _ => none

/-- The event does not delete an object and does not initialise it again. -/
def Event.leaves (x : ObjKind) (i : Nat) (e : Event) : Prop :=
  ∀ call, e = .call call → call.del ≠ some (x, toId i) ∧ call.ini ≠ some (x, toId i)

/-- A call of one form, for the object `i`, returns `E_OK`. -/
def Call.done (form : Call → Option ID) (i : Nat) (call : Call) (ercd : Option ER) : Bool :=
  form call == some (toId i) && ercd == some E_OK

def Event.done (cfg : Cfg) (k : Kernel) (form : Call → Option ID) (i : Nat) : Event → Bool
  | .call c => c.done form i (exec cfg k c).ercd
  | _ => false

/-- The code and the state of an outcome are related. -/
abbrev Res.Sat (p : Option ER → σ → Prop) (r : Res σ) : Prop := p r.ercd r.st

/-- The tasks of a wait queue whose waits a change ends with `E_OK`. -/
def Core.served (c c' : Core) (q : WQueue) : List Nat :=
  (c.sched.queue (.wait q)).filter fun t => decide ((c'.tcb t).winfo.cell = .wercd E_OK)

/-- No task enters a wait queue, and none completes its wait in it. -/
structure Rests (q : WQueue) (c c' : Core) : Prop where
  served : c.served c' q = []
  mem : ∀ u ∈ c'.sched.queue (.wait q), u ∈ c.sched.queue (.wait q) ∧
    (c'.tcb u).winfo = (c.tcb u).winfo

/-- The wait queues and the waiting information stay as they are. -/
structure Idles (c c' : Core) : Prop where
  queue : ∀ q, c'.sched.queue (.wait q) = c.sched.queue (.wait q)
  winfo : ∀ u, (c'.tcb u).winfo = (c.tcb u).winfo

/-- The first task of a wait queue completes its wait with the information `w`. -/
structure Hands (q : WQueue) (t : Nat) (w : WInfo) (c c' : Core) : Prop where
  head : c.headTsk q = some t
  queue : ∀ q', c'.sched.queue (.wait q') = (c.sched.queue (.wait q')).erase t
  self : (c'.tcb t).winfo = { w with cell := .wercd E_OK }
  other : ∀ u ≠ t, (c'.tcb u).winfo = (c.tcb u).winfo

/-- A task that is in no wait queue enters one, with the information `w`. -/
structure Blocks (q : WQueue) (t : Nat) (w : WInfo) (c c' : Core) : Prop where
  fresh : ∀ q', t ∉ c.sched.queue (.wait q')
  mem : ∀ q' u, u ∈ c'.sched.queue (.wait q') ↔ u ∈ c.sched.queue (.wait q') ∨ q' = q ∧ u = t
  self : ∃ ev b, (c'.tcb t).winfo = w.start t ev (some (q, b))
  other : ∀ u ≠ t, (c'.tcb u).winfo = (c.tcb u).winfo

section
variable {cfg : Cfg} {c c' c'' : Core} {k k' : Kernel} {q q' : WQueue} {w : WInfo} {x : ObjKind}

theorem Call.done_of {form : Call → Option ID} {call : Call} (h : form call = some (toId i)) :
    call.done form i (some E_OK) = true := by
  unfold Call.done
  rw [h, beq_self_eq_true, beq_self_eq_true]
  rfl

theorem Call.not_done {form : Call → Option ID} {call : Call}
    (h : form call ≠ some (toId i) ∨ ercd ≠ some E_OK) : call.done form i ercd = false := by
  unfold Call.done
  rcases h with h | h
  · rw [beq_false_of_ne h, Bool.false_and]
  · rw [beq_false_of_ne h, Bool.and_false]

/-- An event that names other objects is no successful call for this one. -/
theorem Event.not_done {form : Call → Option ID} (hf : ∀ call id, form call = some id →
    call.object = some (x, id)) (hn : ∀ call id, e = .call call → call.object = some (x, id) →
    index id ≠ i) : Event.done cfg k form i e = false := by
  cases e with
  | call call =>
    refine Call.not_done (.inl fun h => ?_)
    exact hn call _ rfl (hf call _ h) (index_toId i)
  | _ => rfl

theorem Core.Alike.winfo (h : c.Alike c') (u : Nat) : (c'.tcb u).winfo = (c.tcb u).winfo :=
  (h.tcb u).winfo

theorem Idles.of_alike (h : c.Alike c') : Idles c c' :=
  ⟨fun q => by rw [h.sched], h.winfo⟩

theorem Idles.alike (h : Idles c c') (ha : c'.Alike c'') : Idles c c'' :=
  ⟨fun q => by rw [ha.sched, h.queue], fun u => (ha.winfo u).trans (h.winfo u)⟩

theorem Hands.alike (h : Hands q t w c c') (ha : c'.Alike c'') : Hands q t w c c'' :=
  ⟨h.head, fun q => by rw [ha.sched, h.queue], (ha.winfo t).trans h.self,
    fun u hu => (ha.winfo u).trans (h.other u hu)⟩

theorem Blocks.alike (h : Blocks q t w c c') (ha : c'.Alike c'') : Blocks q t w c c'' := by
  refine ⟨h.fresh, fun q' u => by rw [ha.sched, h.mem], ?_,
    fun u hu => (ha.winfo u).trans (h.other u hu)⟩
  obtain ⟨ev, b, hs⟩ := h.self
  exact ⟨ev, b, (ha.winfo t).trans hs⟩

/-- A task that waits in a queue has no error code yet. -/
theorem CoreInv.cell_of_mem (h : CoreInv cfg noD c) (ht : t ∈ c.sched.queue (.wait q)) (e : ER) :
    (c.tcb t).winfo.cell ≠ .wercd e :=
  h.cell_ne_ok (D := noD) ((Core.loc_attached rfl).trans (h.mem_wait.1 ht)) e

theorem served_nil (h : CoreInv cfg noD c) (hw : ∀ u ∈ c.sched.queue (.wait q),
    (c'.tcb u).winfo.cell = .wercd E_OK → (c'.tcb u).winfo = (c.tcb u).winfo) :
    c.served c' q = [] := by
  refine List.filter_eq_nil_iff.2 fun u hu he => ?_
  have hc := of_decide_eq_true he
  rw [hw u hu hc] at hc
  exact h.cell_of_mem hu E_OK hc

theorem Rests.queue_nil (h : Rests q c c') (hq : c.sched.queue (.wait q) = []) :
    c'.sched.queue (.wait q) = [] := by
  refine List.eq_nil_iff_forall_not_mem.2 fun u hu => ?_
  have hm := (h.mem u hu).1
  rw [hq] at hm
  cases hm

theorem Rests.length_le (h : Rests q c c') (hi : CoreInv cfg noD c') :
    (c'.sched.queue (.wait q)).length ≤ (c.sched.queue (.wait q)).length :=
  ((hi.sched.linked.nodup _).subperm fun u hu => (h.mem u hu).1).length_le

theorem Idles.rests (h : Idles c c') (hi : CoreInv cfg noD c) (q : WQueue) : Rests q c c' :=
  ⟨served_nil hi fun u _ _ => h.winfo u, fun u hu => ⟨h.queue q ▸ hu, h.winfo u⟩⟩

theorem Blocks.served (h : Blocks q t w c c') (hi : CoreInv cfg noD c) (q' : WQueue) :
    c.served c' q' = [] :=
  served_nil hi fun u hu _ => h.other u fun he => h.fresh q' (he ▸ hu)

theorem Blocks.rests (h : Blocks q t w c c') (hi : CoreInv cfg noD c) (hq : q' ≠ q) :
    Rests q' c c' := by
  refine ⟨h.served hi q', fun u hu => ?_⟩
  have hm := ((h.mem q' u).1 hu).resolve_right fun hn => hq hn.1
  exact ⟨hm, h.other u fun he => h.fresh q' (he ▸ hm)⟩

/-- A task waits in one queue only. -/
theorem CoreInv.mem_unique (h : CoreInv cfg noD c) (ht : t ∈ c.sched.queue (.wait q))
    (ht' : t ∈ c.sched.queue (.wait q')) : q' = q := by
  have he := (h.mem_wait.1 ht).symm.trans (h.mem_wait.1 ht')
  injection Option.some.inj he with he
  exact he.symm

theorem Hands.mem (h : Hands q t w c c') : t ∈ c.sched.queue (.wait q) := mem_of_headTsk h.head

theorem Hands.rests (h : Hands q t w c c') (hi : CoreInv cfg noD c) (hq : q' ≠ q) :
    Rests q' c c' := by
  have hne : ∀ u ∈ c.sched.queue (.wait q'), u ≠ t := by
    rintro u hu rfl
    exact hq (hi.mem_unique h.mem hu)
  refine ⟨served_nil hi fun u hu _ => h.other u (hne u hu), fun u hu => ?_⟩
  rw [h.queue] at hu
  have hm := List.mem_of_mem_erase hu
  exact ⟨hm, h.other u (hne u hm)⟩

/-- The other queues stay. -/
theorem Hands.off (h : Hands q t w c c') (hi : CoreInv cfg noD c) (hq : q' ≠ q) :
    c'.sched.queue (.wait q') = c.sched.queue (.wait q') ∧
      ∀ u ∈ c.sched.queue (.wait q'), (c'.tcb u).winfo = (c.tcb u).winfo := by
  have hne : t ∉ c.sched.queue (.wait q') := fun ht => hq (hi.mem_unique h.mem ht)
  refine ⟨(h.queue q').trans (List.erase_of_not_mem hne), fun u hu => h.other u ?_⟩
  rintro rfl
  exact hne hu

/-- The queue after its first task has left it, and the task that was served. -/
theorem Hands.tail (h : Hands q t w c c') (hi : CoreInv cfg noD c) :
    c.sched.queue (.wait q) = t :: c'.sched.queue (.wait q) ∧ c.served c' q = [t] ∧
      ∀ u ∈ c'.sched.queue (.wait q), (c'.tcb u).winfo = (c.tcb u).winfo := by
  have hn := hi.sched.linked.nodup (.wait q)
  have hq := h.queue q
  have hh := h.head
  unfold Core.headTsk at hh
  unfold Core.served
  cases hl : c.sched.queue (.wait q) with
  | nil =>
    rw [hl] at hh
    cases hh
  | cons u l =>
    rw [hl] at hh hq hn
    cases hh
    rw [List.erase_cons_head] at hq
    have hne : ∀ u ∈ l, u ≠ t := by
      rintro u hu rfl
      exact (List.nodup_cons.1 hn).1 hu
    refine ⟨by rw [hq], ?_, fun u hu => h.other u (hne u (hq ▸ hu))⟩
    rw [List.filter_cons_of_pos (by rw [h.self]; rfl)]
    refine congrArg _ (List.filter_eq_nil_iff.2 fun u hu he => ?_)
    have hc := of_decide_eq_true he
    rw [h.other u (hne u hu)] at hc
    exact hi.cell_of_mem (hl ▸ List.mem_cons_of_mem _ hu) E_OK hc

/-- The completion of the wait of the first task of a queue. -/
theorem hands_complete (hh : c.headTsk q = some t) (w : WInfo) :
    Hands q t w c (((c.queueDelete t).setWinfo t w).waitComplete t).1 := by
  have he := Ending.complete c t w
  have ht : (((c.queueDelete t).setWinfo t w).waitComplete t).1.tcb = Function.update c.tcb t
      { c.tcb t with
        tstat := (c.tcb t).tstat.nonWait
        winfo := { w with cell := .wercd E_OK } } := by
    refine (makeNonWait_tcb _ t).trans ?_
    rw [he.tcb, Function.update_self, Function.update_idem]
  refine ⟨hh, fun q' => ?_, ?_, fun u hu => ?_⟩
  · refine (makeNonWait_queue _ t q').trans ?_
    change (((c.queueDelete t).setWinfo t w).waitDequeueTmevtb t).sched.queue (.wait q') = _
    rw [waitDequeueTmevtb_sched]
    rfl
  · rw [ht, Function.update_self]
  · rw [ht, Function.update_of_ne hu]

theorem hands_complete' (hh : c.headTsk q = some t) :
    Hands q t (c.tcb t).winfo c ((c.queueDelete t).waitComplete t).1 := by
  have h := hands_complete hh (c.tcb t).winfo
  rwa [show (c.queueDelete t).setWinfo t (c.tcb t).winfo = c.queueDelete t from
    (c.queueDelete t).setWinfo_eq_self t] at h

/-- The running task starts a wait in a queue. -/
theorem blocks_block (h : CoreInv cfg noD c) (h' : CoreInv cfg noD (c.block t q.1 w ev (some (q, b))))
    (hr : (c.tcb t).tstat.runnable = true) (hq : (TStat.WAITING q.1).waitWobj = true) :
    Blocks q t w c (c.block t q.1 w ev (some (q, b))) := by
  have hl : ((c.block t q.1 w ev (some (q, b))).tcb t).loc = some (.wait q) := by
    refine (congrArg TCB.loc (Core.setTcb_self c t _)).trans ?_
    exact block_loc (q := some (q, b)) hq (by rintro r ⟨⟩; rfl) ev
  have ho (u : Nat) (hu : u ≠ t) : (c.block t q.1 w ev (some (q, b))).tcb u = c.tcb u :=
    Core.setTcb_of_ne c _ hu
  have hf (q' : WQueue) : t ∉ c.sched.queue (.wait q') := fun hm => by
    have hn := TCB.loc_runnable hr ▸ h.mem_wait.1 hm
    cases hn
  refine ⟨hf, fun q' u => ?_, ⟨ev, b, congrArg TCB.winfo (Core.setTcb_self c t _)⟩,
    fun u hu => congrArg TCB.winfo (ho u hu)⟩
  rw [h'.mem_wait, h.mem_wait]
  by_cases hu : u = t
  · subst hu
    rw [hl]
    constructor
    · intro he
      injection Option.some.inj he with he
      exact .inr ⟨he.symm, rfl⟩
    · rintro (hm | ⟨rfl, _⟩)
      · exact absurd (h.mem_wait.2 hm) (hf q')
      · rfl
  · rw [ho u hu]
    exact ⟨.inl, fun h => h.resolve_right fun hn => hu hn.2⟩

theorem blocks_waitWobj (h : CallPre cfg c) (hc : c.ctxMode m = true) (hv : m.valid = true)
    (hp : m.polls = false) (hex : c.noWobj (f, i) = false) (hq : WaitFactor.SEM.code ≤ f.code)
    (hf : f ≠ .MTX) (w : WInfo) : Blocks (f, i) c.runtsk w c (c.waitWobj m (f, i) w) := by
  have hm := (Moves.waitWobj (S := .texOnly) (P := fun _ => True) (R := fun _ => True) h hc hv hp
    (fun _ => trivial) hex hq trivial w fun he => absurd he hf).coreInv h.inv
  rw [Core.waitWobj_block c hv hp] at hm ⊢
  exact blocks_block h.inv hm (h.runtsk_runnable (ctxMode_sense hc hp))
    (decide_eq_true (Nat.le_trans (by decide) hq))

theorem blocks_waitReceive (h : CallPre cfg c) (hc : c.ctxMode m = true) (hv : m.valid = true)
    (hp : m.polls = false) (hex : c.noWobj (WQueue.main q) = false)
    (hq : q.1 = .RDTQ ∨ q.1 = .RPDQ) : Blocks q c.runtsk .local c (c.waitReceive m q) := by
  have hm := (Moves.waitReceive (S := .texOnly) (P := fun _ => True) (R := fun _ => True) h hc hv hp
    (fun _ => trivial) hex hq trivial).coreInv h.inv
  rw [Core.waitReceive_block c hv hp] at hm ⊢
  refine blocks_block h.inv hm (h.runtsk_runnable (ctxMode_sense hc hp)) ?_
  rcases hq with hq | hq <;> rw [hq] <;> rfl

theorem initWaitQueueLoop_sub (n : Nat) (c : Core) (q : WQueue) :
    ∀ u ∈ (Core.initWaitQueueLoop n c q).1.sched.queue (.wait q'), u ∈ c.sched.queue (.wait q') := by
  induction n generalizing c with
  | zero => exact fun _ hu => hu
  | succ n ih =>
    intro u hu
    unfold Core.initWaitQueueLoop at hu
    split at hu
    · exact hu
    · have hm := ih _ u hu
      rw [endQueueWait_queue] at hm
      exact List.mem_of_mem_erase hm

/-- The two wait queues of an object are emptied. -/
theorem init2_queue (c : Core) (q q' : WQueue) :
    ((c.initWaitQueue q).1.initWaitQueue q').1.sched.queue (.wait q) = [] ∧
      ((c.initWaitQueue q).1.initWaitQueue q').1.sched.queue (.wait q') = [] := by
  refine ⟨List.eq_nil_iff_forall_not_mem.2 fun u hu => ?_, initWaitQueue_queue _ q'⟩
  have hm := initWaitQueueLoop_sub _ _ _ u hu
  rw [initWaitQueue_queue] at hm
  cases hm

/-- An event that does not serve a wait queue. -/
theorem RunInv.rests (h : RunInv cfg k.core) (h' : RunInv cfg k'.core) (hs : Step cfg k e k')
    (hq : ¬e.serves q) : Rests q k.core k'.core := by
  have hw := h.waits hs
  refine ⟨List.filter_eq_nil_iff.2 fun u hu he => ?_, fun u hu => ?_⟩
  · have hc := of_decide_eq_true he
    rcases hw.leave u q (h.inv.mem_wait.1 hu) with hl | ⟨_, hok⟩
    · exact h'.inv.cell_of_mem (h'.inv.mem_wait.2 hl) E_OK hc
    · exact hq (hok hc)
  · obtain ⟨h1, h2⟩ := hw.enter u q hq (h'.inv.mem_wait.1 hu)
    exact ⟨h.inv.mem_wait.2 h1, h2⟩

/-- No task waits at the start. -/
theorem boot_queue (cfg : Cfg) (q : WQueue) : (boot cfg).core.sched.queue (.wait q) = [] := by
  refine List.eq_nil_iff_forall_not_mem.2 fun u hu => ?_
  have hl := (RunInv.boot cfg).inv.mem_wait.1 hu
  have ha : (Core.initializeAll cfg).Alike (boot cfg).core := .dispatcher _
  rw [(ha.tcb u).loc] at hl
  exact TCB.loc_ne_wait ((BootInv.all cfg).task u).waiting q hl

/-- The call that lets a task start or complete a wait in a queue names the object of the queue. -/
theorem Call.serves_object {call : Call} (h : call.serves q) (hq : q.1 ≠ .MTX) :
    ∃ id, call.object = some (.wobj q.main.1, id) ∧ index id = q.2 := by
  obtain ⟨f, i⟩ := q
  have hm := h
  unfold Call.serves Call.queues at hm
  cases call <;> first
    | exact absurd h hq
    | (cases hm; done)
    | (simp only [List.mem_cons, List.not_mem_nil, or_false, Prod.mk.injEq] at hm
       first
        | (obtain ⟨rfl, rfl⟩ | ⟨rfl, rfl⟩ := hm <;> exact ⟨_, rfl, rfl⟩)
        | (obtain ⟨rfl, rfl⟩ := hm
           exact ⟨_, rfl, rfl⟩))

/-- The tasks of a queue rest in a step that does not name its object. -/
theorem RunInv.rests_other (h : RunInv cfg k.core) (hs : Step cfg k e k') (hq : q.1 ≠ .MTX)
    (hn : ∀ call id, e = .call call → call.object = some (.wobj q.main.1, id) → index id ≠ q.2) :
    Rests q k.core k'.core := by
  refine h.rests (h.step hs) hs fun he => ?_
  cases e with
  | call call =>
    obtain ⟨id, ho, hi⟩ := call.serves_object he hq
    exact hn call id rfl ho hi
  | _ => exact he

theorem settle_eq (r : Res Kernel) : r.settle = { r.st with core := r.settle.core } := by
  unfold Res.settle
  split <;> rfl

/-- The events other than calls change the core alone, where the application does not write. -/
theorem step_core (hs : Step cfg k e k') (he : ∀ call, e ≠ .call call)
    (hw : ∀ a m, e ≠ .writeMsg a m) : ∃ core, k' = { k with core := core } := by
  unfold Step Kernel.step at hs
  cases e with
  | call call => exact absurd rfl (he call)
  | writeMsg a m => exact absurd rfl (hw a m)
  | intEnter | intExit | sigBegin | sigFire | sigEnd =>
    simp only at hs
    split at hs <;> cases hs
    exact ⟨_, rfl⟩
  | texReturn =>
    simp only at hs
    split at hs
    · cases hs
    · split at hs <;> cases hs
      exact ⟨_, rfl⟩

/-- The events other than calls do not change the control blocks of the objects. -/
theorem step_outside (hs : Step cfg k e k') (he : ∀ call, e ≠ .call call) :
    ∃ core msg, k' = { k with core := core, msg := msg } := by
  by_cases hw : ∃ a m, e = .writeMsg a m
  · obtain ⟨a, m, rfl⟩ := hw
    cases hs
    exact ⟨_, _, rfl⟩
  · obtain ⟨core, rfl⟩ := step_core hs he fun a m h => hw ⟨a, m, h⟩
    exact ⟨core, k.msg, rfl⟩

/-- A call that a check rejects changes nothing, and its code is not `E_OK`. -/
theorem exec_rejected (cfg : Cfg) (k : Kernel) (call : Call) :
    (∃ e, e ≠ E_OK ∧ exec cfg k call = .err k e) ∨
      ∀ p ∈ call.checks cfg k.core, p.1 = true := by
  rcases exec_check cfg k call with ⟨p, hp, _, he⟩ | hl
  · refine .inl ⟨p.2, fun h0 => ?_, he⟩
    have hneg := (ne_noid_of_code (checks_code _ call p hp)).2
    rw [h0] at hneg
    exact absurd hneg (by decide)
  · exact .inr hl

theorem Call.object_of_ini {call : Call} {id : ID} (h : call.ini = some (x, id)) :
    call.object = some (x, id) ∧ call.del = none := by
  cases call <;> first
    | exact ⟨h, rfl⟩
    | cases h

theorem Call.object_of_del {call : Call} {id : ID} (h : call.del = some (x, id)) :
    call.object = some (x, id) := by
  cases call <;> first
    | exact h
    | cases h

theorem object_of_acre {call : Call} (h : call.acre = some x) : call.object = none := by
  cases call <;> first
    | rfl
    | cases h

/-- `acre_yyy` keeps the objects that exist. -/
theorem Acre.keep (h : Acre cfg k call x r) (hf : ∀ i ∈ k.core.freeList x, k.core.atr x i = TA_NOEXS)
    (hi : k.core.atr x i ≠ TA_NOEXS) : r.st.core.atr x i = k.core.atr x i := by
  cases h with
  | created hl hfr ha hA hg hm hw =>
    rename_i j _ _ _
    have hne : i ≠ j := fun he => hi (he ▸ hf j (hfr ▸ List.mem_cons_self ..))
    simp only [ha, Function.update_of_ne hne]
  | _ => rfl

/-- The object that comes into being is the one that `acre_yyy` returns. -/
theorem Acre.new (h : Acre cfg k call x r) (hi : k.core.atr x i = TA_NOEXS)
    (hi' : r.st.core.atr x i ≠ TA_NOEXS) :
    (∀ p ∈ call.checks cfg k.core, p.1 = true) ∧ r.ercd = some (AspKernel.toId i) ∧
      k.core.freeList x = i :: r.st.core.freeList x := by
  cases h with
  | created hl hf ha hA hg hm hw =>
    rename_i j _ _ _
    by_cases hj : i = j
    · subst hj
      exact ⟨hl, rfl, hf⟩
    · simp only [ha, Function.update_of_ne hj] at hi'
      exact absurd hi hi'
  | _ => exact absurd hi hi'

theorem Acre.ercd_ne (h : Acre cfg k call x r) : r.ercd ≠ none := by
  cases h <;> nofun

/-- `acre_yyy` has returned an ID. -/
theorem Acre.of_id {id : ID} (h : Acre cfg k call x r) (hr : r.ercd = some id) (hid : 0 ≤ id) :
    (∃ l, k.core.freeList x = index id :: l) ∧ (call.attrOk → r.st.core.atr x (index id) ≠ TA_NOEXS) ∧
      AspKernel.toId (index id) = id ∧ ∀ p ∈ call.checks cfg k.core, p.1 = true := by
  cases h with
  | check hp hf =>
    cases hr
    exact absurd (ne_noid_of_code (checks_code _ _ _ hp)).2 (Int.not_lt.2 hid)
  | noid =>
    cases hr
    exact absurd hid (by decide)
  | nomem =>
    cases hr
    exact absurd hid (by decide)
  | created hl hf ha hA hg hm hw =>
    cases hr
    rw [index_toId]
    refine ⟨⟨_, hf⟩, fun hc => ?_, rfl, hl⟩
    simp only [ha, Function.update_self]
    exact hA hc

/-- An object that exists before and after a step keeps its attribute. -/
theorem Reachable.atr_same (h : Reachable cfg k) (hs : Step cfg k e k')
    (hi : k.core.atr x i ≠ TA_NOEXS) (hi' : k'.core.atr x i ≠ TA_NOEXS) :
    k'.core.atr x i = k.core.atr x i := by
  have hr := h.runInv
  by_cases hK : e.kinds x
  · cases e with
    | call call =>
      obtain ⟨_, rfl⟩ := step_call hs
      rw [((settle_alike (exec cfg k call)).exist x).2] at hi' ⊢
      rcases kinds_cases hK with hc | ⟨id, hc⟩
      · exact (exec_acre k (fun x i hi => (h.range x i hi).2) hc).keep
          (fun i hf => (Core.noexs_iff _ x i).1 (hr.inv.noexs_of_free hf)) hi
      · rcases (exec_del cfg k hc).atr hc with ⟨_, hst⟩ | ⟨_, _, _, ha⟩
        · rw [hst]
        · rw [ha] at hi' ⊢
          refine Function.update_of_ne (fun he => hi' ?_) ..
          rw [he, Function.update_self]
    | _ => exact hK.elim
  · rw [(hr.same hs hK).2]

/-- An object that exists keeps its attribute in a step that does not delete it. -/
theorem Reachable.atr_keep (h : Reachable cfg k) (hs : Step cfg k e k')
    (hi : k.core.atr x i ≠ TA_NOEXS) (hn : ∀ call, e = .call call → call.del ≠ some (x, toId i)) :
    k'.core.atr x i = k.core.atr x i := by
  refine h.atr_same hs hi fun hd => ?_
  obtain ⟨call, he, hc, _⟩ := (deleted_iff h.runInv h.range hs hi).1.1 hd
  exact hn call he hc

/-- The object that comes into being in a step is the one that `acre_yyy` creates. -/
theorem Reachable.acre_of_new (h : Reachable cfg k) (hs : Step cfg k e k')
    (hi : k.core.atr x i = TA_NOEXS) (hi' : k'.core.atr x i ≠ TA_NOEXS) :
    ∃ call, e = .call call ∧ call.acre = some x ∧
      (∀ p ∈ call.checks cfg k.core, p.1 = true) ∧ (exec cfg k call).ercd = some (toId i) ∧
      k.core.freeList x = i :: (exec cfg k call).st.core.freeList x := by
  have hr := h.runInv
  by_cases hK : e.kinds x
  · cases e with
    | call call =>
      obtain ⟨_, rfl⟩ := step_call hs
      rw [((settle_alike (exec cfg k call)).exist x).2] at hi'
      rcases kinds_cases hK with hc | ⟨id, hc⟩
      · exact ⟨call, rfl, hc, (exec_acre k
          (fun x i hi => (h.range x i hi).2) hc).new hi hi'⟩
      · rcases (exec_del cfg k hc).atr hc with ⟨_, hst⟩ | ⟨_, _, _, ha⟩
        · rw [hst] at hi'
          exact absurd hi hi'
        · by_cases hj : i = index id
          · rw [ha, hj, Function.update_self] at hi'
            exact absurd rfl hi'
          · rw [ha, Function.update_of_ne hj] at hi'
            exact absurd hi hi'
    | _ => exact hK.elim
  · rw [(hr.same hs hK).2] at hi'
    exact absurd hi hi'

/-- How the calls change the control blocks `cb` of a kind of wait object. -/
structure Blocked (cfg : Cfg) (f : WaitFactor) (cb : Kernel → Nat → β) : Prop where
  outside : ∀ k core msg, cb { k with core := core, msg := msg } = cb k
  named : ∀ k call id, CallPre cfg k.core → call.object = some (.wobj f, id) →
    ∀ j ≠ index id, cb (exec cfg k call).st j = cb k j
  created : ∀ k call, (∀ i ∈ k.core.freeWobj f, i < (cfg.num (.wobj f)).tmax) →
    call.acre = some (.wobj f) → (∃ e, exec cfg k call = .err k e) ∨
    ∃ i l, k.core.freeWobj f = i :: l ∧ ∀ j ≠ i, cb (exec cfg k call).st j = cb k j
  other : ∀ k call, (∀ id, call.object ≠ some (.wobj f, id)) → call.acre ≠ some (.wobj f) →
    cb (exec cfg k call).st = cb k

/-- The control block of an object in a step that does not name it. -/
theorem Blocked.keep {cb : Kernel → Nat → β} (hb : Blocked cfg f cb) (h : Reachable cfg k)
    (hs : Step cfg k e k') (hi : k.core.atr (.wobj f) i ≠ TA_NOEXS)
    (hn : ∀ call id, e = .call call → call.object = some (.wobj f, id) → index id ≠ i) :
    cb k' i = cb k i := by
  cases e with
  | call call =>
    obtain ⟨hc, rfl⟩ := step_call hs
    rw [settle_eq]
    refine (congrFun (hb.outside (exec cfg k call).st _ _) i).trans ?_
    by_cases ho : ∃ id, call.object = some (.wobj f, id)
    · obtain ⟨id, ho⟩ := ho
      exact hb.named k call id (h.runInv.callPre hc.1) ho i (Ne.symm (hn call id rfl ho))
    · by_cases ha : call.acre = some (.wobj f)
      · rcases hb.created k call (fun i hi => (h.range (.wobj f) i hi).2) ha with
          ⟨e, he⟩ | ⟨j, l, hf, he⟩
        · rw [he]
          rfl
        · refine he i ?_
          rintro rfl
          exact hi (h.runInv.inv.free.wobj f i (hf ▸ List.mem_cons_self ..))
      · exact congrFun (hb.other k call (fun id hid => ho ⟨id, hid⟩) ha) i
  | _ =>
    obtain ⟨c, m, rfl⟩ := step_outside hs fun _ => nofun
    exact congrFun (hb.outside k c m) i

/-- The creation of an object, in the step in which it comes into being. -/
theorem Reachable.created (h : Reachable cfg k) (hs : Step cfg k e k')
    (hi : k.core.atr (.wobj f) i = TA_NOEXS) (hi' : k'.core.atr (.wobj f) i ≠ TA_NOEXS)
    (hf : f ≠ .MTX) :
    ∃ call, e = .call call ∧ call.acre = some (.wobj f) ∧
      (∀ p ∈ call.checks cfg k.core, p.1 = true) ∧ k' = (exec cfg k call).settle ∧
      (∃ l, k.core.freeWobj f = i :: l) ∧ (∀ e, exec cfg k call ≠ .err k e) ∧
      ∀ q, q.main = (f, i) → k'.core.sched.queue (.wait q) = [] := by
  obtain ⟨call, rfl, hc, hl, hr, hfr⟩ := h.acre_of_new hs hi hi'
  obtain ⟨_, hk⟩ := step_call hs
  refine ⟨call, rfl, hc, hl, hk, ⟨_, hfr⟩, fun e he => ?_, fun q hq => ?_⟩
  · rw [hk, ((settle_alike (exec cfg k call)).exist (.wobj f)).2, he] at hi'
    exact hi' hi
  · have hne : q.1 ≠ .MTX := by
      intro he
      rw [WQueue.main_self (by rw [he]; decide)] at hq
      exact hf ((congrArg Prod.fst hq).symm.trans he)
    refine (h.runInv.rests_other hs hne fun c id he ho => ?_).queue_nil
      (h.runInv.inv.queue_eq_nil (q := q) (by rw [hq]; exact hi))
    cases he
    rw [object_of_acre hc] at ho
    cases ho

/-- The states that steps of the system under a restriction can reach. -/
def ReachBy (cfg : Cfg) (step : Kernel → Event → Option Kernel) (k : Kernel) : Prop :=
  ∃ es, Trans.Run (fun s e t => step s e = some t) (boot cfg) es k

/-- The steps under a restriction are steps of the system. -/
def Within (cfg : Cfg) (step : Kernel → Event → Option Kernel) : Prop :=
  ∀ k e k', step k e = some k' → Step cfg k e k'

section
variable {step : Kernel → Event → Option Kernel}

theorem ReachBy.reachable (h : ReachBy cfg step k) (hw : Within cfg step) : Reachable cfg k := by
  obtain ⟨es, hr⟩ := h
  exact ⟨es, hr.restrict (P := fun _ => True) (fun _ _ _ _ hs => hw _ _ _ hs) fun _ _ => trivial⟩

theorem ReachBy.snoc (h : ReachBy cfg step k) (hs : step k e = some k') : ReachBy cfg step k' := by
  obtain ⟨es, hr⟩ := h
  exact ⟨es ++ [e], hr.snoc hs⟩

/-- An invariant of the objects of a kind that every reachable state has. -/
theorem ReachBy.objects {I : Kernel → Nat → Prop} (h : ReachBy cfg step k) (hw : Within cfg step)
    (hf : f ≠ .MTX) (hboot : ∀ i < (cfg.num (.wobj f)).tmaxS, I (boot cfg) i)
    (hother : ∀ k k' e i, ReachBy cfg step k → step k e = some k' →
      k.core.atr (.wobj f) i ≠ TA_NOEXS → k'.core.atr (.wobj f) i = k.core.atr (.wobj f) i →
      (∀ call id, e = .call call → call.object = some (.wobj f, id) → index id ≠ i) →
      I k i → I k' i)
    (hnamed : ∀ k k' call id, ReachBy cfg step k → step k (.call call) = some k' →
      call.object = some (.wobj f, id) → k.core.atr (.wobj f) (index id) ≠ TA_NOEXS →
      k'.core.atr (.wobj f) (index id) = k.core.atr (.wobj f) (index id) →
      I k (index id) → I k' (index id))
    (hnew : ∀ k k' call i, ReachBy cfg step k → step k (.call call) = some k' →
      call.acre = some (.wobj f) → k.core.atr (.wobj f) i = TA_NOEXS →
      k'.core.atr (.wobj f) i ≠ TA_NOEXS → I k' i)
    (hi : k.core.atr (.wobj f) i ≠ TA_NOEXS) : I k i := by
  obtain ⟨es, hr⟩ := h
  induction hr with
  | nil =>
    refine hboot i ?_
    by_contra hn
    exact hi (boot_atr cfg (.wobj f) (Nat.not_lt.1 hn))
  | snoc hr hs ih =>
    rename_i t e u
    have hb : ReachBy cfg step t := ⟨_, hr⟩
    have ht := hb.reachable hw
    have hst := hw _ _ _ hs
    by_cases hj : t.core.atr (.wobj f) i = TA_NOEXS
    · obtain ⟨call, rfl, hc, _⟩ := ht.created hst hj hi hf
      exact hnew t u call i hb hs hc hj hi
    · have ha := ht.atr_same hst hj hi
      by_cases hn : ∀ call id, e = .call call → call.object = some (.wobj f, id) → index id ≠ i
      · exact hother t u e i hb hs hj ha hn (ih hj)
      · push Not at hn
        obtain ⟨call, id, rfl, ho, rfl⟩ := hn
        exact hnamed t u call id hb hs ho hj ha (ih hj)

end

theorem Reachable.objects {I : Kernel → Nat → Prop} (h : Reachable cfg k) (hf : f ≠ .MTX)
    (hboot : ∀ i < (cfg.num (.wobj f)).tmaxS, I (boot cfg) i)
    (hother : ∀ k k' e i, Reachable cfg k → Step cfg k e k' →
      k.core.atr (.wobj f) i ≠ TA_NOEXS → k'.core.atr (.wobj f) i = k.core.atr (.wobj f) i →
      (∀ call id, e = .call call → call.object = some (.wobj f, id) → index id ≠ i) →
      I k i → I k' i)
    (hnamed : ∀ k k' call id, Reachable cfg k → Step cfg k (.call call) k' →
      call.object = some (.wobj f, id) → k.core.atr (.wobj f) (index id) ≠ TA_NOEXS →
      k'.core.atr (.wobj f) (index id) = k.core.atr (.wobj f) (index id) →
      I k (index id) → I k' (index id))
    (hnew : ∀ k k' call i, Reachable cfg k → Step cfg k (.call call) k' →
      call.acre = some (.wobj f) → k.core.atr (.wobj f) i = TA_NOEXS →
      k'.core.atr (.wobj f) i ≠ TA_NOEXS → I k' i)
    (hi : k.core.atr (.wobj f) i ≠ TA_NOEXS) : I k i :=
  ReachBy.objects h (fun _ _ _ hs => hs) hf hboot hother hnamed hnew hi

end

end AspKernel
