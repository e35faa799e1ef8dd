import AspKernel.MutexInv
import AspKernel.TaskFrame
import AspKernel.BootInv
import AspKernel.Lib.FreeList

namespace AspKernel
set_option autoImplicit true

/-- The attribute of a control block. -/
def Core.atr (c : Core) : ObjKind → Nat → ATR
  | .tsk, i => (c.tcb i).tinib.tskatr
  | .wobj f, i => c.wobjatr (f, i)
  | .cyc, i => (c.cyccb i).cycatr
  | .alm, i => (c.almcb i).almatr

/-- The free control blocks of a kind. -/
def Core.freeList (c : Core) : ObjKind → List Nat
  | .tsk => c.freeTcb
  | .wobj f => c.freeWobj f
  | .cyc => c.freeCyccb
  | .alm => c.freeAlmcb

def Core.slots (c : Core) (x : ObjKind) : FreeList.Slots Nat :=
  ⟨c.freeList x, fun i => c.atr x i ≠ TA_NOEXS⟩

/-- The indices of the objects that are created and deleted by service calls. -/
def Cfg.dyn (cfg : Cfg) (x : ObjKind) (i : Nat) : Prop :=
  (cfg.num x).tmaxS ≤ i ∧ i < (cfg.num x).tmax

/-- What a change does to the control blocks of a kind. -/
structure ExistStep (cfg : Cfg) (S : Scope) (x : ObjKind) (c c' : Core) : Prop where
  slots : S.attr ∨ x ≠ .wobj .MTX → FreeList.Step (cfg.dyn x) (c.slots x) (c'.slots x)
  atr : ∀ i, c.atr x i ≠ TA_NOEXS → c'.atr x i ≠ TA_NOEXS → c'.atr x i = c.atr x i
  same : ¬S.kinds x → c'.freeList x = c.freeList x ∧ c'.atr x = c.atr x
  range : (∀ i ∈ c.freeList x, cfg.dyn x i) → ∀ i ∈ c'.freeList x, cfg.dyn x i

section
variable {cfg : Cfg} {S : Scope} {P : WQueue → Prop} {R : Nat → Prop} {c c' : Core} {x : ObjKind}

theorem ExistStep.of_same (hf : c'.freeList x = c.freeList x) (ha : c'.atr x = c.atr x) :
    ExistStep cfg S x c c' := by
  refine ⟨fun _ => .same hf fun j => ?_, fun i _ _ => by rw [ha], fun _ => ⟨hf, ha⟩,
    fun h => hf ▸ h⟩
  change c'.atr x j ≠ TA_NOEXS ↔ _
  rw [ha]
  exact .rfl

theorem ExistStep.of_take (hK : S.kinds x) (hf : c.freeList x = i :: c'.freeList x)
    (hn : c.atr x i = TA_NOEXS) (ha : c'.atr x = Function.update (c.atr x) i a)
    (hA : S.attr ∨ x ≠ .wobj .MTX → a ≠ TA_NOEXS) : ExistStep cfg S x c c' := by
  refine ⟨fun h => .take i hf fun j => ?_, fun j hj _ => ?_, fun h => absurd hK h,
    fun h j hj => h j (hf ▸ List.mem_cons_of_mem _ hj)⟩
  · change c'.atr x j ≠ TA_NOEXS ↔ j = i ∨ c.atr x j ≠ TA_NOEXS
    rw [ha]
    by_cases hj : j = i
    · subst hj
      rw [Function.update_self]
      exact ⟨fun _ => .inl rfl, fun _ => hA h⟩
    · rw [Function.update_of_ne hj]
      exact ⟨.inr, fun h => h.resolve_left hj⟩
  · rw [ha, Function.update_of_ne]
    rintro rfl
    exact hj hn

theorem ExistStep.of_give (hK : S.kinds x) (hd : cfg.dyn x i) (hi : c.atr x i ≠ TA_NOEXS)
    (hf : c'.freeList x = c.freeList x ++ [i])
    (ha : c'.atr x = Function.update (c.atr x) i TA_NOEXS) : ExistStep cfg S x c c' := by
  refine ⟨fun _ => .give i hd hi hf fun j => ?_, fun j _ hj => ?_, fun h => absurd hK h,
    fun h j hj => ?_⟩
  · change c'.atr x j ≠ TA_NOEXS ↔ j ≠ i ∧ c.atr x j ≠ TA_NOEXS
    rw [ha]
    by_cases hj : j = i
    · subst hj
      rw [Function.update_self]
      exact ⟨fun h => absurd rfl h, fun h => absurd rfl h.1⟩
    · rw [Function.update_of_ne hj]
      exact ⟨fun h => ⟨hj, h⟩, And.right⟩
  · rw [ha] at hj ⊢
    refine Function.update_of_ne (fun he => hj ?_) ..
    rw [he, Function.update_self]
  · rw [hf, List.mem_append, List.mem_singleton] at hj
    rcases hj with hj | rfl
    · exact h j hj
    · exact hd

/-- The free lists and the attributes other than those of the tasks. -/
def Core.ids (c : Core) :=
  (c.freeTcb, c.wobjatr, c.freeWobj, c.freeCyccb, c.freeAlmcb, fun i => (c.cyccb i).cycatr,
    fun i => (c.almcb i).almatr)

theorem ExistStep.of_ids (hi : c'.ids = c.ids)
    (ht : ∀ u, (c'.tcb u).tinib.tskatr = (c.tcb u).tinib.tskatr) (x : ObjKind) :
    ExistStep cfg S x c c' := by
  simp only [Core.ids, Prod.mk.injEq] at hi
  obtain ⟨h1, h2, h3, h4, h5, h6, h7⟩ := hi
  cases x with
  | tsk => exact .of_same h1 (funext ht)
  | wobj f => exact .of_same (congrFun h3 f) (funext fun i => congrFun h2 (f, i))
  | cyc => exact .of_same h4 h6
  | alm => exact .of_same h5 h7

/-- What the tasks, their queues, the time events and the holders of mutexes are not part of. -/
def Core.outer (c : Core) :=
  (c.freeTcb, c.wobjatr, c.freeWobj, c.cyccb, c.freeCyccb, c.almcb, c.freeAlmcb, c.areas, c.freeOk)

theorem ids_of_outer (h : c'.outer = c.outer) : c'.ids = c.ids :=
  congrArg (fun o => (o.1, o.2.1, o.2.2.1, o.2.2.2.2.1, o.2.2.2.2.2.2.1,
    fun i => (o.2.2.2.1 i).cycatr, fun i => (o.2.2.2.2.2.1 i).almatr)) h

theorem Core.Local.outer (h : c.Local c') : c'.outer = c.outer := by
  obtain ⟨_, _, _, _, rfl⟩ := h
  rfl

theorem Core.Local.ids (h : c.Local c') : c'.ids = c.ids := ids_of_outer h.outer

theorem drop_outer (c' : Core) (h : c'.outer = c.outer) (t m : Nat) : Core.outer
    (if c'.mtxCeiling m then c'.mutexDropPriority t (c'.ceilpri m) else (c', false)).1 = c.outer :=
  (drop_local c' t m).outer.trans h

theorem mutexRelease_outer (c : Core) (m : Nat) : (c.mutexRelease m).1.outer = c.outer := by
  unfold Core.mutexRelease
  split
  · rfl
  · rename_i t _
    have he := ((Ending.refl c t).queueDelete.waitDequeueTmevtb.setWercd E_OK).same.outer
    refine (local_makeNonWait _ t).outer.trans ?_
    unfold Core.mutexHandOver
    simp only
    split <;> exact he

theorem mutexReleaseAllLoop_outer (n : Nat) (c : Core) (t : Nat) :
    (Core.mutexReleaseAllLoop n c t).1.outer = c.outer := by
  induction n generalizing c with
  | zero => rfl
  | succ n ih =>
    unfold Core.mutexReleaseAllLoop
    split
    · rfl
    · exact (ih _).trans (mutexRelease_outer ..)

theorem terminate_outer (c : Core) (t : Nat) : (c.terminate t).1.outer = c.outer := by
  have h : Core.outer (if c.mutexQueue t = [] then (c, false) else c.mutexReleaseAll t).1 =
      c.outer := by
    split
    · rfl
    · exact mutexReleaseAllLoop_outer ..
  unfold Core.terminate
  simp only
  generalize (if c.mutexQueue t = [] then (c, false) else c.mutexReleaseAll t) = r at h ⊢
  split <;> exact h

/-- A change of one kind of objects. -/
theorem ExistStep.of_kind {y : ObjKind} (h : ExistStep cfg S y c c')
    (hf : ∀ x ≠ y, c'.freeList x = c.freeList x) (ha : ∀ x ≠ y, c'.atr x = c.atr x) (x : ObjKind) :
    ExistStep cfg S x c c' := by
  by_cases hx : x = y
  · rwa [hx]
  · exact .of_same (hf x hx) (ha x hx)

/-- The control blocks that are not those of wait objects. -/
def Core.others (c : Core) := (c.tcb, c.freeTcb, c.cyccb, c.freeCyccb, c.almcb, c.freeAlmcb)

theorem ExistStep.of_wobj (hi : c'.others = c.others)
    (hf : c'.freeWobj = Function.update c.freeWobj f l)
    (ha : c'.wobjatr = Function.update c.wobjatr (f, i) a) (h : ExistStep cfg S (.wobj f) c c')
    (x : ObjKind) : ExistStep cfg S x c c' := by
  simp only [Core.others, Prod.mk.injEq] at hi
  obtain ⟨h1, h2, h3, h4, h5, h6⟩ := hi
  have hne {g : WaitFactor} (hx : ObjKind.wobj g ≠ .wobj f) : g ≠ f := fun he => hx (he ▸ rfl)
  refine h.of_kind (fun x hx => ?_) (fun x hx => ?_) x
  · cases x with
    | tsk => exact h2
    | wobj g => exact (congrFun hf g).trans (Function.update_of_ne (hne hx) ..)
    | cyc => exact h4
    | alm => exact h6
  · cases x with
    | tsk => exact congrArg (fun (tcb : Nat → TCB) i => (tcb i).tinib.tskatr) h1
    | wobj g =>
      exact funext fun j => (congrFun ha (g, j)).trans
        (Function.update_of_ne (fun he => hne hx (congrArg Prod.fst he)) ..)
    | cyc => exact congrArg (fun (cb : Nat → CYCCB) i => (cb i).cycatr) h3
    | alm => exact congrArg (fun (cb : Nat → ALMCB) i => (cb i).almatr) h5

theorem atr_tsk (c : Core) (t : Nat) (p : TCB) (h : c'.tcb = Function.update c.tcb t p) :
    c'.atr .tsk = Function.update (c.atr .tsk) t p.tinib.tskatr := by
  unfold Core.atr
  rw [h]
  exact Function.comp_update (fun p : TCB => p.tinib.tskatr) c.tcb t p

theorem atr_wobj (h : c'.wobjatr = Function.update c.wobjatr (f, i) a) :
    c'.atr (.wobj f) = Function.update (c.atr (.wobj f)) i a := by
  unfold Core.atr
  rw [h]
  exact Function.update_comp_eq_of_injective' c.wobjatr (Prod.mk_right_injective f) i a

theorem atr_cyc (c : Core) (i : Nat) (p : CYCCB) (h : c'.cyccb = Function.update c.cyccb i p) :
    c'.atr .cyc = Function.update (c.atr .cyc) i p.cycatr := by
  unfold Core.atr
  rw [h]
  exact Function.comp_update CYCCB.cycatr c.cyccb i p

theorem enqueueCyc_atr (c : Core) (i : Nat) (evttim : EVTTIM) :
    (c.tmevtbEnqueueCyc i evttim).atr .cyc = c.atr .cyc :=
  (atr_cyc c i { c.cyccb i with evttim := evttim } rfl).trans
    (Function.update_eq_self i (c.atr .cyc))

theorem atr_alm (c : Core) (i : Nat) (p : ALMCB) (h : c'.almcb = Function.update c.almcb i p) :
    c'.atr .alm = Function.update (c.atr .alm) i p.almatr := by
  unfold Core.atr
  rw [h]
  exact Function.comp_update ALMCB.almatr c.almcb i p

/-- What a change does to the tasks, and to the objects of every kind. -/
theorem Move.exist (m : Move cfg S P R c b c') (h : CoreInv cfg noD c) :
    (∀ u, TaskStep S P u (c.pRuntsk = some u) b (c.tcb u) (c'.tcb u)) ∧
      ∀ x, ExistStep cfg S x c c' := by
  have keep (hf : TFrame (S.ends P) c c') (hi : c'.ids = c.ids) :
      (∀ u, TaskStep S P u (c.pRuntsk = some u) b (c.tcb u) (c'.tcb u)) ∧
        ∀ x, ExistStep cfg S x c c' :=
    ⟨fun u => .keep (hf u).1 (.calm (hf u).2),
      .of_ids hi fun u => congrArg TINIB.tskatr (hf u).1.tinib⟩
  have self {t : Nat} {p : TCB} (ht : c'.tcb = Function.update c.tcb t p)
      (hs : (c.tcb t).Same p) (hu : (c.tcb t).Turn S P t (c.pRuntsk = some t) p)
      (hi : c'.ids = c.ids) :
      (∀ u, TaskStep S P u (c.pRuntsk = some u) b (c.tcb u) (c'.tcb u)) ∧
        ∀ x, ExistStep cfg S x c c' := by
    refine ⟨.of_update ht (.keep hs hu), .of_ids hi fun u => ?_⟩
    rw [ht]
    by_cases hu : u = t
    · subst hu
      rw [Function.update_self, hs.tinib]
    · rw [Function.update_of_ne hu]
  have other (ht : c'.tcb = c.tcb) (hx : ∀ x, ExistStep cfg S x c c') :
      (∀ u, TaskStep S P u (c.pRuntsk = some u) b (c.tcb u) (c'.tcb u)) ∧
        ∀ x, ExistStep cfg S x c c' :=
    ⟨fun u => ht ▸ .keep (.refl _) (.calm (.refl _)), hx⟩
  cases m with
  | touch hO hl hi hx hu =>
    exact self rfl ⟨hi, hx, by rw [hl.tstat]⟩ (.own hO (by rw [hl.tstat]) hl.winfo) rfl
  | tex hX hl hi hu =>
    rename_i t p
    refine ⟨.of_update rfl (.tex hX hi hl hu), .of_ids rfl fun u => ?_⟩
    by_cases hu : u = t
    · subst hu
      rw [Core.setTcb_self, hi]
    · rw [Core.setTcb_of_ne _ _ hu]
  | mem hM areas freeOk => exact keep (.of_tcb rfl) rfl
  | flags hc hf hs hI => exact keep (.of_tcb rfl) rfl
  | activate hO hf hr hs =>
    rename_i t
    refine ⟨.of_update (t := t) (p := { c.tcb t with
      tstat := .RUNNABLE, texstk := [], texloop := false }) rfl (.start hO hs rfl rfl rfl rfl),
      .of_ids rfl fun u => ?_⟩
    change ((c.setTcb t _).tcb u).tinib.tskatr = _
    by_cases hu : u = t
    · subst hu
      rw [Core.setTcb_self]
    · rw [Core.setTcb_of_ne _ _ hu]
  | suspend hO hr hc hd =>
    rename_i t
    have hw := ((h.task t).legal.runnable hr).1
    refine self rfl (.of_tstat rfl rfl (ne_dormant_of_runnable hr) nofun) (.own hO ?_ rfl) rfl
    exact Prod.ext hw.symm ((h.task t).legal.factor hw).symm
  | setSuspended hO hw b =>
    exact self rfl (.of_tstat rfl rfl (ne_dormant_of_waiting hw) (ne_dormant_of_waiting hw))
      (.own hO rfl rfl) rfl
  | resume hO hs =>
    exact self rfl (.of_tstat rfl rfl (by rw [hs]; nofun) nofun) (.own hO (by rw [hs]; rfl) rfl) rfl
  | block hW ht hr hc hb hq w hm =>
    exact self rfl (.of_tstat rfl rfl (ne_dormant_of_runnable hr) nofun) (.block ht hr rfl) rfl
  | complete ht hh hq hw =>
    exact keep (.of_ending (Ending.complete c _ _) (h.of_mem ht).2 (.inl ⟨rfl, hq⟩) rfl)
      ((Ending.complete c _ _).same.trans (local_makeNonWait _ _)).ids
  | wakeup hO hs =>
    rename_i t
    have hf : (c.tcb t).tstat.factor = .SLP := beq_iff_eq.1 hs
    have he := (Ending.refl c t).waitDequeueTmevtb.setWercd E_OK
    have hw : (c.tcb t).tstat.waiting = true := by
      by_contra hw
      rw [(h.task t).legal.factor (Bool.eq_false_iff.2 hw)] at hf
      cases hf
    refine self he.end_tcb (.of_end hw _) (.wake hO hw ?_) (he.same.trans (local_makeNonWait _ t)).ids
    unfold TStat.waitWobj
    rw [hf]
    rfl
  | release hO hw hL =>
    rename_i t
    have he := (Ending.refl c t).waitDequeueWobj.waitDequeueTmevtb.setWercd E_RLWAI
    exact self he.end_tcb (.of_end hw _) (.release hO hL hw rfl rfl)
      (he.same.trans (local_makeNonWait _ t)).ids
  | initQueue q hI =>
    exact keep (tframe_initWaitQueueLoop h (.inr ⟨rfl, hI⟩) _) (local_initWaitQueue c q).ids
  | setBpriority hR hd hb hc =>
    rename_i t new
    have h1 : TFrame (S.ends P) c (c.setTcb t { c.tcb t with bpriority := new }) :=
      .of_update rfl ⟨rfl, rfl, .rfl⟩ (.of_same rfl rfl rfl)
    refine keep ?_ ?_
    · unfold Core.setBpriority
      simp only
      split
      · exact h1.trans (tframe_changePriority _ t new false)
      · exact h1
    · unfold Core.setBpriority
      simp only
      split
      · exact (local_changePriority _ t new false).ids
      · rfl
  | rotate pri => exact keep (.of_tcb rfl) rfl
  | lock ht hr hs hn hm hex hP =>
    rename_i t m
    refine keep ?_ ?_ <;> unfold Core.lock Core.mutexAcquire Core.mutexRaisePriority <;> simp only
    · split
      · split
        · exact .of_update (changePriority_tcb _ t _ true) ⟨rfl, rfl, .rfl⟩ (.of_same rfl rfl rfl)
        · exact .of_tcb rfl
      · exact .of_tcb rfl
    · split
      · split
        · exact (local_changePriority _ t _ true).ids
        · rfl
      · rfl
  | unlock ht hr hn hP =>
    rename_i t m
    have h1 : CoreInv cfg noD (c.mutexUnlink m) := h.flags
    have hk : TFrame (S.ends P) c (c.mutexUnlink m) := .of_tcb rfl
    refine keep ((tframe_drop hk t m).trans (tframe_mutexRelease (show CoreInv cfg noD _ from ?_) m
      (.inl ⟨rfl, hP⟩))) ?_
    · split
      · exact h1.mutexDropPriority rfl _
      · exact h1
    · exact ids_of_outer ((mutexRelease_outer ..).trans
        (drop_outer (c := c) (c.mutexUnlink m) rfl t m))
  | disown hR hn hq =>
    rename_i t m
    have hk : TFrame (S.ends P) c ((c.mutexUnlink m).setLoctsk m none) := .of_tcb rfl
    exact keep (tframe_drop hk t m)
      (ids_of_outer (drop_outer (c := c) ((c.mutexUnlink m).setLoctsk m none) rfl t m))
  | terminate hO hd hc hb ht hP hT =>
    rename_i t
    have hu := frame_unlink c t
    have hs (u : Nat) := taskStep_terminate (S := S) (b := b) (h.unlink (t := t) rfl hd) hO hP
      (hu.2 ▸ hd) (fun hr => hb (hu.1.pRuntsk ▸ hr)) hT u
    rw [hu.2, hu.1.pRuntsk] at hs
    exact ⟨fun u => (hs u).1,
      .of_ids (ids_of_outer ((terminate_outer ..).trans hu.1.outer)) fun u => congrArg TINIB.tskatr (hs u).2⟩
  | newTsk hO ht hi ha hx hK =>
    rename_i t cc tinib
    obtain ⟨_, _, _, _, hs⟩ := h.newTsk ht hi
    obtain ⟨l, hl, rfl⟩ := takeTcb_eq ht
    have htcb : (Core.initTcb { c with freeTcb := l } t tinib).tcb = Function.update c.tcb t
        { c.tcb t with
          tinib := tinib, actque := false, tstat := .DORMANT, bpriority := tinib.ipriority,
          priority := tinib.ipriority, wupque := false, enatex := false, texptn := 0,
          texraised := 0, texpassed := 0 } := by
      unfold Core.initTcb Core.makeDormant Core.setTcb
      simp only [Function.update_idem, Function.update_self]
    refine ⟨.of_update htcb (.create hO hK hs rfl hx rfl rfl ⟨rfl, rfl⟩), .of_kind (y := .tsk)
      (.of_take hK hl (h.free.tcb t (hl ▸ List.mem_cons_self ..)).2.2.1
        (a := tinib.tskatr) ?_ fun _ => ha) (fun x hx => ?_) fun x hx => ?_⟩
    · exact atr_tsk c t _ htcb
    · cases x <;> first | rfl | exact absurd rfl hx
    · cases x <;> first | rfl | exact absurd rfl hx
  | delTsk hO hn hs ht hd hK =>
    rename_i t
    refine ⟨.of_update (t := t) (p := { c.tcb t with
      tinib := { (c.tcb t).tinib with tskatr := TA_NOEXS } }) rfl (.delete hO hK hs hs rfl rfl rfl),
      .of_kind (y := .tsk) (.of_give (i := t) hK ⟨of_decide_eq_true hd, ht⟩ ?_ rfl
        (atr_tsk c t { c.tcb t with tinib := { (c.tcb t).tinib with tskatr := TA_NOEXS } } rfl))
        (fun x hx => ?_) fun x hx => ?_⟩
    · intro he
      unfold Core.noTsk at hn
      rw [show (c.tcb t).tinib.tskatr = TA_NOEXS from he] at hn
      cases hn
    · cases x <;> first | rfl | exact absurd rfl hx
    · cases x <;> first | rfl | exact absurd rfl hx
  | newWobj hm hf ht ha hK =>
    rename_i f i c1 atr
    obtain ⟨l, hl, rfl⟩ := takeWobj_eq ht
    exact other rfl (.of_wobj rfl rfl rfl (.of_take hK (i := i) (a := atr)
      (hl.trans (congrArg (i :: ·) (Function.update_self f l c.freeWobj).symm))
      (h.free.wobj f i (hl ▸ List.mem_cons_self ..)) (atr_wobj rfl) fun _ => ha))
  | freeWobj hm hf hq hex hd hK =>
    rename_i q
    exact other rfl (.of_wobj (i := q.2) rfl rfl rfl (.of_give hK hd (ne_noexs hex)
      (Function.update_self ..) (atr_wobj rfl)))
  | newMtx ht ha hK =>
    rename_i m c1 atr pri
    obtain ⟨l, hl, rfl⟩ := takeWobj_eq ht
    exact other rfl (.of_wobj rfl rfl rfl (.of_take hK (i := m) (a := atr)
      (hl.trans (congrArg (m :: ·) (Function.update_self WaitFactor.MTX l c.freeWobj).symm))
      (h.free.wobj .MTX m (hl ▸ List.mem_cons_self ..)) (atr_wobj rfl)
      fun hA => ha (hA.resolve_right fun hx => hx rfl)))
  | freeMtx hq hex hS hd hK =>
    rename_i m
    exact other rfl (.of_wobj (f := .MTX) (i := m) rfl rfl rfl (.of_give hK hd (ne_noexs hex)
      (Function.update_self WaitFactor.MTX _ c.freeWobj) (atr_wobj rfl)))
  | newCyc hl ht hp ha hK =>
    rename_i i l cyctim cycphs atr evttim
    refine other rfl (.of_kind (y := .cyc) (.of_take hK hl (a := atr)
      (h.free.cyc i (hl ▸ List.mem_cons_self ..)).2.1 ?_ fun _ => ha) (fun x hx => ?_)
      fun x hx => ?_)
    · exact atr_cyc { c with freeCyccb := l } i ⟨atr, cyctim, cycphs, false, evttim⟩ rfl
    · cases x <;> first | rfl | exact absurd rfl hx
    · cases x <;> first | rfl | exact absurd rfl hx
  | startCyc hn hr hs hC =>
    rename_i i
    refine other rfl (.of_kind (y := .cyc) (.of_same rfl ?_) (fun x hx => ?_) fun x hx => ?_)
    · have h1 : (c.setCyc i { c.cyccb i with cycsta := true }).atr .cyc = _ :=
        atr_cyc c i { c.cyccb i with cycsta := true } rfl
      have h2 := enqueueCyc_atr (c.setCyc i { c.cyccb i with cycsta := true }) i (c.cycStart i)
      rw [h2, h1]
      exact Function.update_eq_self i (c.atr .cyc)
    · cases x <;> rfl
    · cases x <;> first | rfl | exact absurd rfl hx
  | stopCyc hC =>
    rename_i i
    unfold Core.stopCyc at *
    split
    · refine ⟨fun u => .keep (.refl _) (.calm (.refl _)),
        .of_kind (y := .cyc) (.of_same rfl ?_) (fun x hx => ?_) fun x hx => ?_⟩
      · exact (atr_cyc c i { c.cyccb i with cycsta := false } rfl).trans
          (Function.update_eq_self i (c.atr .cyc))
      · cases x <;> rfl
      · cases x <;> first | rfl | exact absurd rfl hx
    · exact ⟨fun u => .keep (.refl _) (.calm (.refl _)), .of_ids rfl fun _ => rfl⟩
  | delCyc hn hr hs hd hK hex hC =>
    rename_i i
    refine other rfl (.of_kind (y := .cyc) (.of_give (i := i) hK ⟨of_decide_eq_true hd, hr⟩ ?_ rfl
      (atr_cyc c i { c.cyccb i with cycatr := TA_NOEXS } rfl)) (fun x hx => ?_) fun x hx => ?_)
    · intro he
      unfold Core.noCyc at hex
      rw [show (c.cyccb i).cycatr = TA_NOEXS from he] at hex
      cases hex
    · cases x <;> first | rfl | exact absurd rfl hx
    · cases x <;> first | rfl | exact absurd rfl hx
  | newAlm hl ha hK =>
    rename_i i l atr
    refine other rfl (.of_kind (y := .alm) (.of_take hK hl (a := atr)
      (h.free.alm i (hl ▸ List.mem_cons_self ..)).2.1 ?_ fun _ => ha) (fun x hx => ?_)
      fun x hx => ?_)
    · exact atr_alm { c with freeAlmcb := l } i ⟨atr, false⟩ rfl
    · cases x <;> first | rfl | exact absurd rfl hx
    · cases x <;> first | rfl | exact absurd rfl hx
  | startAlm hn hr hs ht =>
    rename_i i time
    refine other rfl (.of_kind (y := .alm) (.of_same rfl ?_) (fun x hx => ?_) fun x hx => ?_)
    · exact (atr_alm c i { c.almcb i with almsta := true } rfl).trans
        (Function.update_eq_self i (c.atr .alm))
    · cases x <;> rfl
    · cases x <;> first | rfl | exact absurd rfl hx
  | stopAlm i =>
    unfold Core.stopAlm at *
    split
    · refine ⟨fun u => .keep (.refl _) (.calm (.refl _)),
        .of_kind (y := .alm) (.of_same rfl ?_) (fun x hx => ?_) fun x hx => ?_⟩
      · exact (atr_alm c i { c.almcb i with almsta := false } rfl).trans
          (Function.update_eq_self i (c.atr .alm))
      · cases x <;> rfl
      · cases x <;> first | rfl | exact absurd rfl hx
    · exact ⟨fun u => .keep (.refl _) (.calm (.refl _)), .of_ids rfl fun _ => rfl⟩
  | delAlm hn hr hs hd hK hex =>
    rename_i i
    refine other rfl (.of_kind (y := .alm) (.of_give (i := i) hK ⟨of_decide_eq_true hd, hr⟩ ?_ rfl
      (atr_alm c i { c.almcb i with almatr := TA_NOEXS } rfl)) (fun x hx => ?_) fun x hx => ?_)
    · intro he
      unfold Core.noAlm at hex
      rw [show (c.almcb i).almatr = TA_NOEXS from he] at hex
      cases hex
    · cases x <;> first | rfl | exact absurd rfl hx
    · cases x <;> first | rfl | exact absurd rfl hx

/-- What every change keeps of a task, all changes of a call keep. -/
theorem Moves.tasks {Q : TCB → Prop} (m : Moves cfg S P R c b c') (h : CoreInv cfg noD c)
    (hQ : ∀ b p p', TaskStep S P u (c.pRuntsk = some u) b p p' → Q p → Q p')
    (hq : Q (c.tcb u)) : Q (c'.tcb u) := by
  induction m with
  | refl => exact hq
  | step hs hm ih => exact hQ _ _ _ ((hs.keep h).runtsk ▸ (hm.exist (hs.coreInv h)).1 u) ih

theorem Moves.same (m : Moves cfg S P R c b c') (h : CoreInv cfg noD c) (hK : ¬S.kinds x) :
    c'.freeList x = c.freeList x ∧ c'.atr x = c.atr x := by
  induction m with
  | refl => exact ⟨rfl, rfl⟩
  | step hs hm ih =>
    obtain ⟨h1, h2⟩ := ((hm.exist (hs.coreInv h)).2 x).same hK
    exact ⟨h1.trans ih.1, h2.trans ih.2⟩

theorem Moves.range (m : Moves cfg S P R c b c') (h : CoreInv cfg noD c)
    (hf : ∀ i ∈ c.freeList x, cfg.dyn x i) : ∀ i ∈ c'.freeList x, cfg.dyn x i := by
  induction m with
  | refl => exact hf
  | step hs hm ih => exact ((hm.exist (hs.coreInv h)).2 x).range ih

theorem Core.Alike.exist (h : c.Alike c') (x : ObjKind) :
    c'.freeList x = c.freeList x ∧ c'.atr x = c.atr x := by
  cases x with
  | tsk =>
    refine ⟨?_, funext fun u => congrArg TINIB.tskatr (h.tinib u)⟩
    obtain ⟨_, _, _, _, _, _, _, _, _, _, rfl⟩ := h.outside
    rfl
  | _ =>
    obtain ⟨_, _, _, _, _, _, _, _, _, _, rfl⟩ := h.outside
    exact ⟨rfl, rfl⟩

/-- A callback neither starts nor stops a task, and it creates and deletes no object. -/
theorem Fire.exist (h : Fire cfg c c') :
    (∀ u, (c.tcb u).Same (c'.tcb u)) ∧ ∀ x, c'.freeList x = c.freeList x ∧ c'.atr x = c.atr x := by
  cases h with
  | tsk hn hw he hq hi hc =>
    rename_i t e c2
    have hf (u : Nat) : (c.tcb u).Same ((c2.makeNonWait t).1.tcb u) := by
      rw [he.end_tcb]
      by_cases hu : u = t
      · subst hu
        rw [Function.update_self]
        exact .of_end hw _
      · rw [Function.update_of_ne hu]
        exact .refl _
    have hids : (c2.makeNonWait t).1.ids = c.ids :=
      (he.same.trans (local_makeNonWait c2 t)).ids (c := c.popped)
    refine ⟨hf, fun x => ?_⟩
    have hs : ExistStep cfg .texOnly x c _ := .of_ids hids
      (fun u => congrArg TINIB.tskatr (hf u).tinib) x
    exact hs.same id
  | cyc hn hs =>
    rename_i i
    refine ⟨fun _ => .refl _, fun x => ?_⟩
    cases x with
    | cyc =>
      refine ⟨rfl, (atr_cyc c i { c.cyccb i with
        evttim := (c.cyccb i).evttim + (c.cyccb i).cyctim } rfl).trans ?_⟩
      exact Function.update_eq_self i (c.atr .cyc)
    | _ => exact ⟨rfl, rfl⟩
  | alm hn hs =>
    rename_i i
    refine ⟨fun _ => .refl _, fun x => ?_⟩
    cases x with
    | alm =>
      refine ⟨rfl, (atr_alm c i { c.almcb i with almsta := false } rfl).trans ?_⟩
      exact Function.update_eq_self i (c.atr .alm)
    | _ => exact ⟨rfl, rfl⟩

/-- The kinds of the objects that an event's call creates or deletes. -/
def Event.kinds : Event → ObjKind → Prop
  | .call c => c.kinds
  | _ => fun _ => False

/-- No mutex is created with the attribute of a mutex that does not exist. -/
def Event.attrOk : Event → Prop
  | .call c => c.attrOk
  | _ => True

theorem slots_of_same (h : c'.freeList x = c.freeList x ∧ c'.atr x = c.atr x) :
    c'.slots x = c.slots x := by
  unfold Core.slots
  rw [h.1, h.2]

/-- A step creates and deletes objects only of the kinds that its call is about. -/
theorem RunInv.same {k k' : Kernel} (h : RunInv cfg k.core) (hs : Step cfg k e k')
    (hK : ¬e.kinds x) : k'.core.freeList x = k.core.freeList x ∧ k'.core.atr x = k.core.atr x := by
  cases h.coreStep hs with
  | call hc hm ha =>
    obtain ⟨h1, h2⟩ := hm.same h.inv hK
    obtain ⟨h3, h4⟩ := ha.exist x
    exact ⟨h3.trans h1, h4.trans h2⟩
  | fire hf => exact hf.exist.2 x
  | outside he hf ha => exact ha.exist x

/-- Only the control blocks of objects that are not created statically are ever free. -/
theorem RunInv.range {k k' : Kernel} (h : RunInv cfg k.core) (hs : Step cfg k e k')
    (hf : ∀ i ∈ k.core.freeList x, cfg.dyn x i) : ∀ i ∈ k'.core.freeList x, cfg.dyn x i := by
  cases h.coreStep hs with
  | call hc hm ha =>
    rw [(ha.exist x).1]
    exact hm.range h.inv hf
  | fire hr => rwa [(hr.exist.2 x).1]
  | outside he hr ha => rwa [(ha.exist x).1]

/-- Only static objects exist at the start. -/
theorem initializeAll_atr (cfg : Cfg) (x : ObjKind) (hi : (cfg.num x).tmaxS ≤ i) :
    (Core.initializeAll cfg).atr x i = TA_NOEXS := by
  have h := BootInv.all cfg
  have hrest := h.rest
  simp only [Core.rest, Prod.mk.injEq] at hrest
  obtain ⟨_, _, h2, _, _, _, _, _, h6, _, _⟩ := hrest
  cases x with
  | tsk =>
    refine (congrArg TINIB.tskatr (h.task i).tinib).trans ?_
    have hi : cfg.tsk.tmaxS ≤ i := hi
    change (if i < cfg.tsk.tmaxS then _ else (⟨TA_NOEXS, 0, false, 0, 0⟩ : TINIB)).tskatr = _
    rw [if_neg (Nat.not_lt.2 hi)]
  | wobj f =>
    refine (congrFun h2 (f, i)).trans ?_
    cases f with
    | DLY | SLP | RDTQ | RPDQ => rfl
    | SEM | FLG | SDTQ | SPDQ | MBX | MPF | MTX => exact if_neg (Nat.not_lt.2 hi)
  | cyc => exact (h.cycatr i).trans (if_neg (Nat.not_lt.2 hi))
  | alm => exact (congrArg ALMCB.almatr (congrFun h6 i)).trans (if_neg (Nat.not_lt.2 hi))

theorem boot_atr (cfg : Cfg) (x : ObjKind) (hi : (cfg.num x).tmaxS ≤ i) :
    (boot cfg).core.atr x i = TA_NOEXS := by
  unfold AspKernel.boot
  rw [((Core.Alike.dispatcher _).exist x).2]
  exact initializeAll_atr cfg x hi

/-- The objects that are not created statically are free at the start. -/
theorem partition_boot (cfg : Cfg) (x : ObjKind) :
    FreeList.Partition (cfg.dyn x) ((boot cfg).core.slots x) := by
  have hrest := (BootInv.all cfg).rest
  simp only [Core.rest, Prod.mk.injEq] at hrest
  obtain ⟨_, h1, _, h3, _, _, h4, h5, _, _, _⟩ := hrest
  have hl : (Core.initializeAll cfg).freeList x = (cfg.num x).free := by
    cases x with
    | tsk => exact h1
    | wobj f =>
      refine (congrFun h3 f).trans ?_
      cases f <;> rfl
    | cyc => exact h4
    | alm => exact h5
  unfold AspKernel.boot
  rw [slots_of_same ((Core.Alike.dispatcher _).exist x)]
  refine ⟨?_, fun i => ?_⟩
  · change ((Core.initializeAll cfg).freeList x).Nodup
    rw [hl]
    exact (cfg.num x).free_nodup
  · change i ∈ (Core.initializeAll cfg).freeList x ↔ _
    rw [hl, ObjNum.mem_free]
    exact ⟨fun hi => ⟨hi, not_not.2 (initializeAll_atr cfg x hi.1)⟩, And.left⟩

theorem Reachable.range (h : Reachable cfg k) (x : ObjKind) :
    ∀ i ∈ k.core.freeList x, cfg.dyn x i := by
  obtain ⟨es, hr⟩ := h
  exact (hr.along (I := fun k => RunInv cfg k.core)
    (J := fun k => ∀ i ∈ k.core.freeList x, cfg.dyn x i) (fun _ _ _ => id)
    (fun _ _ _ hi hs => hi.step hs) (fun _ _ _ hi hj hs => hi.range hs hj) (.boot cfg)
    fun i hi => ((partition_boot cfg x).mem i |>.1 hi).1).2

end

end AspKernel
