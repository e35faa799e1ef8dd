import AspKernel.Reach
import AspKernel.Exist
import Mathlib.Logic.Relation

namespace AspKernel
set_option autoImplicit true

/-- What a change of the kernel does to the time events of `Q`. -/
inductive Timer.Op (Q : TmevtbPtr → Prop) (tm : Timer) : Timer → Prop
  | enqueue (hQ : Q p) (hn : tm.heap.lookup p = none) (hd : d ≤ TMAX_RELTIM) (cb : CBack) :
    Op Q tm (tm.tmevtbEnqueue p d cb)
  | cyclic (hQ : Q (.cyc i)) (hn : tm.heap.lookup (.cyc i) = none) (hd : d ≤ TMAX_RELTIM) :
    Op Q tm (tm.tmevtbEnqueueEvttim (.cyc i) (tm.baseTime + d) .callCychdr)
  | dequeue (hQ : Q p) : Op Q tm (tm.tmevtbDequeue p)

abbrev Core.Ops (Q : TmevtbPtr → Prop) (c c' : Core) : Prop :=
  Relation.ReflTransGen (Timer.Op Q) c.tm c'.tm

/-- The times of a cyclic handler that exists. -/
structure CYCCB.Ok (p : CYCCB) : Prop where
  cyctim_pos : 0 < p.cyctim
  cyctim_le : p.cyctim ≤ TMAX_RELTIM
  cycphs_le : p.cycphs ≤ TMAX_RELTIM

def Core.CycOk (cfg : Cfg) (c : Core) : Prop :=
  ∀ i < cfg.cyc.tmax, i ∉ c.freeCyccb → (c.cyccb i).Ok

section
variable {cfg : Cfg} {S : Scope} {P : WQueue → Prop} {R : Nat → Prop} {Q : TmevtbPtr → Prop}
  {D : Nat → Bool} {c c' c'' : Core}

theorem Core.Ops.of_tm (h : c'.tm = c.tm) : c.Ops Q c' := by
  unfold Core.Ops
  rw [h]

theorem Core.Ops.congr (h : c.Ops Q c') (ht : c''.tm = c'.tm) : c.Ops Q c'' := by
  unfold Core.Ops
  rwa [ht]

theorem CoreInv.tmevtb (h : CoreInv cfg D c) (hd : D t = false)
    (hw : (c.tcb t).tstat.waiting = true) (hp : (c.tcb t).winfo.tmevtb = some p) : p = .tsk t := by
  unfold WInfo.tmevtb at hp
  rw [(h.task t).cell hd hw] at hp
  obtain ⟨_, _, he⟩ := Option.map_eq_some_iff.1 hp
  exact he.symm

theorem ops_waitDequeueTmevtb (hQ : ∀ t, Q (.tsk t)) (h : CoreInv cfg D c) (hd : D t = false)
    (hw : (c.tcb t).tstat.waiting = true) : c.Ops Q (c.waitDequeueTmevtb t) := by
  unfold Core.waitDequeueTmevtb
  split
  · rename_i p hp
    have ht : Q p := by
      rw [h.tmevtb hd hw hp]
      exact hQ t
    exact .single (.dequeue ht)
  · exact .refl

theorem makeNonWait_tm (c : Core) (t : Nat) : (c.makeNonWait t).1.tm = c.tm := by
  unfold Core.makeNonWait
  simp only
  split <;> rfl

theorem waitDequeueTmevtb_congr (ht : c'.tm = c.tm)
    (hw : (c'.tcb t).winfo.cell = (c.tcb t).winfo.cell) :
    (c'.waitDequeueTmevtb t).tm = (c.waitDequeueTmevtb t).tm := by
  have he : (c'.tcb t).winfo.tmevtb = (c.tcb t).winfo.tmevtb := by
    unfold WInfo.tmevtb
    rw [hw]
  unfold Core.waitDequeueTmevtb
  rw [he]
  split
  · exact congrArg (Timer.tmevtbDequeue · _) ht
  · exact ht

theorem waitDequeueWobj_tm (c : Core) (t : Nat) : (c.waitDequeueWobj t).tm = c.tm := by
  unfold Core.waitDequeueWobj
  split <;> rfl

/-- The end of a wait takes the time event of the task away. -/
theorem ops_endWait (hQ : ∀ t, Q (.tsk t)) (h : CoreInv cfg D c) (hd : D t = false)
    (hw : (c.tcb t).tstat.waiting = true) (c' : Core) (ht : c'.tm = c.tm)
    (hc : (c'.tcb t).winfo.cell = (c.tcb t).winfo.cell) (e : ER) :
    c.Ops Q (((c'.waitDequeueTmevtb t).setWercd t e).makeNonWait t).1 := by
  refine (ops_waitDequeueTmevtb hQ h hd hw).congr ?_
  rw [makeNonWait_tm]
  exact waitDequeueTmevtb_congr ht hc

theorem changePriority_tm (c : Core) (t new : Nat) (m : Bool) :
    (c.changePriority t new m).1.tm = c.tm := by
  unfold Core.changePriority Core.wobjChangePriority
  simp only
  split
  · rfl
  · split
    · split <;> rfl
    · rfl

theorem drop_tm (c' : Core) (ht : c'.tm = c.tm) (t m : Nat) : Core.tm
    (if c'.mtxCeiling m then c'.mutexDropPriority t (c'.ceilpri m) else (c', false)).1 = c.tm := by
  unfold Core.mutexDropPriority
  split
  · split
    · simp only
      split
      · exact (changePriority_tm c' t _ true).trans ht
      · exact ht
    · exact ht
  · exact ht

theorem ops_initWaitQueueLoop (hQ : ∀ t, Q (.tsk t)) (h : CoreInv cfg D c) (n : Nat) (q : WQueue) :
    c.Ops Q (Core.initWaitQueueLoop n c q).1 := by
  induction n generalizing c with
  | zero => exact .refl
  | succ n ih =>
    unfold Core.initWaitQueueLoop
    split
    · exact .refl
    · rename_i t ht
      obtain ⟨hd, hl⟩ := h.of_mem (mem_of_headTsk ht)
      exact .trans (ops_endWait hQ h hd (TCB.loc_eq_wait.1 hl).2.1 (c.queueDelete t) rfl rfl
        E_DLT) (ih (h.endQueueWait (mem_of_headTsk ht) E_DLT))

theorem ops_mutexRelease (hQ : ∀ t, Q (.tsk t)) (h : CoreInv cfg D c) (m : Nat) :
    c.Ops Q (c.mutexRelease m).1 := by
  unfold Core.mutexRelease
  split
  · exact .refl
  · rename_i t ht
    obtain ⟨hd, hl⟩ := h.of_mem (mem_of_headTsk ht)
    refine (ops_waitDequeueTmevtb hQ h hd (TCB.loc_eq_wait.1 hl).2.1).congr ?_
    rw [makeNonWait_tm]
    have he : ((c.queueDelete t).waitDequeueTmevtb t).tm = (c.waitDequeueTmevtb t).tm :=
      waitDequeueTmevtb_congr rfl rfl
    unfold Core.mutexHandOver
    simp only
    split
    · exact he
    · exact he

theorem ops_mutexReleaseAllLoop (hQ : ∀ t, Q (.tsk t)) (h : CoreInv cfg D c) (n t : Nat) :
    c.Ops Q (Core.mutexReleaseAllLoop n c t).1 := by
  induction n generalizing c with
  | zero => exact .refl
  | succ n ih =>
    unfold Core.mutexReleaseAllLoop
    split
    · exact .refl
    · rename_i m _ _
      have h1 : CoreInv cfg D (c.mutexUnlink m) := h.flags
      exact .trans (ops_mutexRelease hQ h1 m) (ih (h1.mutexRelease m))

theorem ops_terminate (hQ : ∀ t, Q (.tsk t)) (h : CoreInv cfg D c) (t : Nat) :
    c.Ops Q (c.terminate t).1 := by
  have h1 : c.Ops Q (if c.mutexQueue t = [] then (c, false) else c.mutexReleaseAll t).1 := by
    split
    · exact .refl
    · exact ops_mutexReleaseAllLoop hQ h _ t
  unfold Core.terminate
  simp only
  generalize (if c.mutexQueue t = [] then (c, false) else c.mutexReleaseAll t) = r at h1 ⊢
  split
  · exact h1.congr rfl
  · exact h1.congr rfl

/-- The time events that a change within a scope is about. -/
def Scope.touches (S : Scope) (p : TmevtbPtr) : Prop := ∀ i, p = .cyc i → S.cyc i

theorem touches_tsk (S : Scope) (t : Nat) : S.touches (.tsk t) := nofun

theorem touches_cyc (h : S.cyc i) : S.touches (.cyc i) := fun j hj => by
  cases hj
  exact h

theorem TStat.Legal.waiting_of_slp {s : TStat} (h : s.Legal) (hs : s.waitSlp = true) :
    s.waiting = true := by
  have hf : s.factor = .SLP := beq_iff_eq.1 hs
  by_contra hw
  rw [h.factor (Bool.eq_false_iff.2 hw)] at hf
  cases hf

theorem ops_unlink (hQ : ∀ t, Q (.tsk t)) (h : CoreInv cfg noD c) (t : Nat) :
    c.Ops Q (c.unlink t) := by
  unfold Core.unlink
  split
  · exact .refl
  · split
    · rename_i hw
      refine (ops_waitDequeueTmevtb hQ h rfl hw).congr ?_
      exact waitDequeueTmevtb_congr (waitDequeueWobj_tm c t) (by rw [Core.waitDequeueWobj_tcb])
    · exact .refl

theorem CoreInv.lookup_none (h : CoreInv cfg noD c) (hp : c.expects noD p = false) :
    c.tm.heap.lookup p = none := h.timer.lookup_none hp

theorem CoreInv.untimed (h : CoreInv cfg noD c) (hr : (c.tcb t).tstat.runnable = true) :
    c.expects noD (.tsk t) = false := by
  have hw := ((h.task t).legal.runnable hr).1
  change (true && ((c.tcb t).tstat.waiting && (c.tcb t).winfo.tmo.isSome)) = false
  rw [hw]
  rfl

theorem Move.ops (m : Move cfg S P R c b c') (h : CoreInv cfg noD c) (hc : c.CycOk cfg) :
    c.Ops S.touches c' := by
  have hQ := touches_tsk S
  cases m with
  | touch hO hl hi hx hu => exact .refl
  | tex hX hl hi hu => exact .refl
  | mem hM areas ok => exact .refl
  | flags hc hf hs hI => exact .refl
  | activate hO hf hr hs => exact .refl
  | suspend hO hr hc hd => exact .refl
  | setSuspended hO hw b => exact .refl
  | resume hO hs => exact .refl
  | block hW ht hr hc hb hq w hm =>
    rename_i t f ev q
    cases ev with
    | none => exact .refl
    | some e => exact .single (.enqueue (hQ _) (h.lookup_none (h.untimed hr)) (hb.time e rfl) _)
  | complete ht hh hq hw =>
    obtain ⟨hd, hl⟩ := h.of_mem ht
    rename_i q t w
    refine ops_endWait hQ h hd (TCB.loc_eq_wait.1 hl).2.1 ((c.queueDelete t).setWinfo t w)
      rfl ?_ _
    rw [Core.setWinfo_tcb]
    exact hw
  | wakeup hO hs =>
    exact ops_endWait hQ h rfl ((h.task _).legal.waiting_of_slp hs) _ rfl rfl _
  | release hO hw hL =>
    exact ops_endWait hQ h rfl hw _ (waitDequeueWobj_tm c _) (by rw [Core.waitDequeueWobj_tcb]) _
  | initQueue q hI => exact ops_initWaitQueueLoop hQ h _ q
  | setBpriority hR hd hb hc =>
    refine .of_tm ?_
    unfold Core.setBpriority
    simp only
    split
    · exact changePriority_tm ..
    · rfl
  | rotate pri => exact .refl
  | lock ht hr hs hn hm hex hP =>
    refine .of_tm ?_
    unfold Core.lock Core.mutexAcquire Core.mutexRaisePriority
    simp only
    split
    · split
      · exact changePriority_tm ..
      · rfl
    · rfl
  | unlock ht hr hn hP =>
    rename_i t m
    have h1 : CoreInv cfg noD (c.mutexUnlink m) := h.flags
    have hi : CoreInv cfg noD (if (c.mutexUnlink m).mtxCeiling m then
        (c.mutexUnlink m).mutexDropPriority t ((c.mutexUnlink m).ceilpri m)
        else (c.mutexUnlink m, false)).1 := by
      split
      · exact h1.mutexDropPriority rfl _
      · exact h1
    exact .trans (Core.Ops.of_tm (drop_tm (c.mutexUnlink m) rfl t m)) (ops_mutexRelease hQ hi m)
  | disown hR hn hq => exact .of_tm (drop_tm _ rfl ..)
  | terminate hO hd hc hb ht hP hT => exact .trans (ops_unlink hQ h _) (ops_terminate hQ (h.unlink rfl hd) _)
  | newTsk hO ht hi ha hx hK =>
    obtain ⟨_, _, rfl⟩ := takeTcb_eq ht
    exact .refl
  | delTsk hO hn hs ht hd hK => exact .refl
  | newWobj hm hf ht ha hK =>
    obtain ⟨_, _, rfl⟩ := takeWobj_eq ht
    exact .refl
  | freeWobj hm hf hq hex hd hK => exact .refl
  | newMtx ht ha hK =>
    obtain ⟨_, _, rfl⟩ := takeWobj_eq ht
    exact .refl
  | freeMtx hq hex hS hd hK => exact .refl
  | newCyc hl ht hp ha hK => exact .refl
  | startCyc hn hr hs hC =>
    rename_i i
    exact .single (.cyclic (touches_cyc hC) (h.lookup_none hs) (hc i hr hn).cycphs_le)
  | stopCyc hC =>
    unfold Core.stopCyc
    split
    · exact .single (.dequeue (touches_cyc hC))
    · exact .refl
  | delCyc hn hr hs hd hK hex hC => exact .refl
  | newAlm hl ha hK => exact .refl
  | startAlm hn hr hs ht =>
    rename_i i time
    exact .single (.enqueue (p := .alm i) nofun (h.lookup_none hs) ht _)
  | stopAlm i =>
    unfold Core.stopAlm
    split
    · exact .single (.dequeue nofun)
    · exact .refl
  | delAlm hn hr hs hd hK hex => exact .refl

/-- What a change does to the control blocks of cyclic handlers and to the memory. -/
structure Outer (cfg : Cfg) (S : Scope) (c c' : Core) : Prop where
  cyccb : ∀ i, ¬S.cyc i → i ∉ c.freeCyccb → c'.cyccb i = c.cyccb i
  free : ∀ i, i ∉ c.freeCyccb → i ∈ c'.freeCyccb → S.cyc i
  cycOk : c.CycOk cfg → c'.CycOk cfg
  memory : ¬S.mem → c'.areas = c.areas ∧ c'.freeOk = c.freeOk

theorem Outer.of_same (hi : c'.cyccb = c.cyccb) (hf : c'.freeCyccb = c.freeCyccb)
    (hm : ¬S.mem → c'.areas = c.areas ∧ c'.freeOk = c.freeOk) : Outer cfg S c c' where
  cyccb i _ _ := congrFun hi i
  free i hn hi := absurd (hf ▸ hi) hn
  cycOk h := by
    unfold Core.CycOk
    rwa [hi, hf]
  memory := hm

theorem Outer.of_outer (h : c'.outer = c.outer) : Outer cfg S c c' := by
  simp only [Core.outer, Prod.mk.injEq] at h
  exact .of_same h.2.2.2.1 h.2.2.2.2.1 fun _ => h.2.2.2.2.2.2.2

theorem Outer.trans (h : Outer cfg S c c') (h' : Outer cfg S c' c'') : Outer cfg S c c'' where
  cyccb i hC hn := (h'.cyccb i hC fun hi => hC (h.free i hn hi)).trans (h.cyccb i hC hn)
  free i hn hi := by
    by_cases hm : i ∈ c'.freeCyccb
    · exact h.free i hn hm
    · exact h'.free i hm hi
  cycOk hc := h'.cycOk (h.cycOk hc)
  memory hM := ⟨(h'.memory hM).1.trans (h.memory hM).1, (h'.memory hM).2.trans (h.memory hM).2⟩

/-- The control block of one cyclic handler is written. -/
theorem Outer.of_cyc (hi : c'.cyccb = Function.update c.cyccb i p)
    (hC : S.cyc i ∨ i ∈ c.freeCyccb) (hf : ∀ j ∈ c'.freeCyccb, j ∈ c.freeCyccb ∨ j = i ∧ S.cyc i)
    (hn : ∀ j ≠ i, j ∈ c.freeCyccb → j ∈ c'.freeCyccb)
    (hp : i < cfg.cyc.tmax → i ∉ c'.freeCyccb → (i ∉ c.freeCyccb → (c.cyccb i).Ok) → p.Ok)
    (hm : c'.areas = c.areas ∧ c'.freeOk = c.freeOk) : Outer cfg S c c' where
  cyccb j hj hj' := by
    refine (congrFun hi j).trans (Function.update_of_ne ?_ ..)
    rintro rfl
    exact hC.elim hj hj'
  free j hj hj' := by
    rcases hf j hj' with h | ⟨rfl, h⟩
    · exact absurd h hj
    · exact h
  cycOk hc j hlt hj := by
    rw [hi]
    by_cases he : j = i
    · subst he
      rw [Function.update_self]
      exact hp hlt hj (hc j hlt)
    · rw [Function.update_of_ne he]
      exact hc j hlt fun h => hj (hn j he h)
  memory _ := hm

theorem Move.outer (m : Move cfg S P R c b c') : Outer cfg S c c' := by
  cases m with
  | touch hO hl hi hx hu => exact .of_outer rfl
  | tex hX hl hi hu => exact .of_outer rfl
  | mem hM areas ok => exact .of_same rfl rfl fun h => absurd hM h
  | flags hc hf hs hI => exact .of_outer rfl
  | activate hO hf hr hs => exact .of_outer rfl
  | suspend hO hr hc hd => exact .of_outer rfl
  | setSuspended hO hw b => exact .of_outer rfl
  | resume hO hs => exact .of_outer rfl
  | block hW ht hr hc hb hq w hm => exact .of_outer rfl
  | complete ht hh hq hw =>
    exact .of_outer ((Ending.complete c _ _).same.trans (local_makeNonWait _ _)).outer
  | wakeup hO hs =>
    rename_i t
    have he := (Ending.refl c t).waitDequeueTmevtb.setWercd E_OK
    exact .of_outer (he.same.trans (local_makeNonWait _ t)).outer
  | release hO hw hL =>
    rename_i t
    have he := (Ending.refl c t).waitDequeueWobj.waitDequeueTmevtb.setWercd E_RLWAI
    exact .of_outer (he.same.trans (local_makeNonWait _ t)).outer
  | initQueue q hI => exact .of_outer (local_initWaitQueue c q).outer
  | setBpriority hR hd hb hc =>
    refine .of_outer ?_
    unfold Core.setBpriority
    simp only
    split
    · exact (local_changePriority ..).outer
    · rfl
  | rotate pri => exact .of_outer rfl
  | lock ht hr hs hn hm hex hP =>
    refine .of_outer ?_
    unfold Core.lock Core.mutexAcquire Core.mutexRaisePriority
    simp only
    split
    · split
      · exact (local_changePriority ..).outer
      · rfl
    · rfl
  | unlock ht hr hn hP =>
    rename_i t m
    exact .of_outer ((mutexRelease_outer ..).trans
      (drop_outer (c := c) (c.mutexUnlink m) rfl t m))
  | disown hR hn hq =>
    rename_i t m
    exact .of_outer (drop_outer (c := c) ((c.mutexUnlink m).setLoctsk m none) rfl t m)
  | terminate hO hd hc hb ht hP hT =>
    exact .of_outer ((terminate_outer ..).trans (frame_unlink c _).1.outer)
  | newTsk hO ht hi ha hx hK =>
    obtain ⟨_, _, rfl⟩ := takeTcb_eq ht
    exact .of_same rfl rfl fun _ => ⟨rfl, rfl⟩
  | delTsk hO hn hs ht hd hK => exact .of_same rfl rfl fun _ => ⟨rfl, rfl⟩
  | newWobj hm hf ht ha hK =>
    obtain ⟨_, _, rfl⟩ := takeWobj_eq ht
    exact .of_same rfl rfl fun _ => ⟨rfl, rfl⟩
  | freeWobj hm hf hq hex hd hK => exact .of_same rfl rfl fun _ => ⟨rfl, rfl⟩
  | newMtx ht ha hK =>
    obtain ⟨_, _, rfl⟩ := takeWobj_eq ht
    exact .of_same rfl rfl fun _ => ⟨rfl, rfl⟩
  | freeMtx hq hex hS hd hK => exact .of_same rfl rfl fun _ => ⟨rfl, rfl⟩
  | newCyc hl ht hp ha hK =>
    rename_i i l cyctim cycphs atr evttim
    refine .of_cyc rfl (.inr (hl ▸ List.mem_cons_self ..)) (fun j hj => .inl ?_)
      (fun j hj hm => ?_) (fun _ _ _ => ⟨ht.1, ht.2, hp⟩) ⟨rfl, rfl⟩
    · rw [hl]
      exact List.mem_cons_of_mem _ hj
    · rw [hl] at hm
      exact (List.mem_cons.1 hm).resolve_left hj
  | startCyc hn hr hs hC =>
    rename_i i
    refine .of_cyc (i := i) (p := { c.cyccb i with cycsta := true, evttim := c.cycStart i }) ?_
      (.inl hC) (fun _ => .inl) (fun _ _ => id) (fun _ _ h => ?_) ⟨rfl, rfl⟩
    · unfold Core.tmevtbEnqueueCyc
      simp only [Core.setCyc, Function.update_idem, Function.update_self]
    · exact ⟨(h hn).cyctim_pos, (h hn).cyctim_le, (h hn).cycphs_le⟩
  | stopCyc hC =>
    rename_i i
    unfold Core.stopCyc
    split
    · refine .of_cyc (i := i) (p := { c.cyccb i with cycsta := false }) rfl (.inl hC)
        (fun _ => .inl) (fun _ _ => id) (fun _ hn h => ?_) ⟨rfl, rfl⟩
      exact ⟨(h hn).cyctim_pos, (h hn).cyctim_le, (h hn).cycphs_le⟩
    · exact .of_outer rfl
  | delCyc hn hr hs hd hK hex hC =>
    rename_i i
    refine .of_cyc (i := i) (p := { c.cyccb i with cycatr := TA_NOEXS }) rfl (.inl hC)
      (fun j hj => ?_) (fun _ _ => List.mem_append_left _) (fun _ hn' _ => ?_) ⟨rfl, rfl⟩
    · rcases List.mem_append.1 hj with hj | hj
      · exact .inl hj
      · exact .inr ⟨List.mem_singleton.1 hj, hC⟩
    · exact absurd (List.mem_append_right _ (List.mem_singleton_self _)) hn'
  | newAlm hl ha hK => exact .of_same rfl rfl fun _ => ⟨rfl, rfl⟩
  | startAlm hn hr hs ht => exact .of_same rfl rfl fun _ => ⟨rfl, rfl⟩
  | stopAlm i =>
    unfold Core.stopAlm
    split
    · exact .of_same rfl rfl fun _ => ⟨rfl, rfl⟩
    · exact .of_outer rfl
  | delAlm hn hr hs hd hK hex => exact .of_same rfl rfl fun _ => ⟨rfl, rfl⟩

theorem Moves.ops (m : Moves cfg S P R c b c') (h : CoreInv cfg noD c) (hc : c.CycOk cfg) :
    c.Ops S.touches c' ∧ Outer cfg S c c' := by
  induction m with
  | refl => exact ⟨.refl, .of_outer rfl⟩
  | step hs hm ih => exact ⟨.trans ih.1 (hm.ops (hs.coreInv h) (ih.2.cycOk hc)), ih.2.trans hm.outer⟩

theorem calltex_same (c : Core) (t : Nat) :
    (c.calltex t).tm = c.tm ∧ (c.calltex t).outer = c.outer := by
  unfold Core.calltex
  simp only
  split <;> exact ⟨rfl, rfl⟩

theorem texLoop_same (c : Core) (t : Nat) :
    (c.texLoop t).tm = c.tm ∧ (c.texLoop t).outer = c.outer := by
  unfold Core.texLoop
  simp only
  split <;> exact ⟨rfl, rfl⟩

theorem dispatcher_same (c : Core) :
    c.dispatcher.tm = c.tm ∧ c.dispatcher.outer = c.outer := by
  unfold Core.dispatcher
  simp only
  split
  · exact ⟨rfl, rfl⟩
  · split
    · exact texLoop_same ..
    · exact calltex_same ..

theorem settle_same (r : Res Kernel) :
    r.settle.core.tm = r.st.core.tm ∧ r.settle.core.outer = r.st.core.outer := by
  unfold Res.settle
  split
  · exact dispatcher_same _
  · exact ⟨rfl, rfl⟩

theorem texReturn_same (c : Core) (t : Nat) :
    (c.texReturn t).tm = c.tm ∧ (c.texReturn t).outer = c.outer := by
  unfold Core.texReturn
  simp only
  split
  · exact dispatcher_same _
  · exact texLoop_same ..

theorem intExit_same (c : Core) : c.intExit.tm = c.tm ∧ c.intExit.outer = c.outer := by
  unfold Core.intExit
  simp only
  split
  · split
    · exact dispatcher_same _
    · split
      · exact dispatcher_same _
      · exact calltex_same ..
  · exact ⟨rfl, rfl⟩

theorem endWait_same (ht : c'.tm = c.tm) (ho : c'.outer = c.outer) (t : Nat) (e : ER) :
    ((c'.setWercd t e).makeNonWait t).1.tm = c.tm ∧
      ((c'.setWercd t e).makeNonWait t).1.outer = c.outer :=
  ⟨(makeNonWait_tm ..).trans ht, (local_makeNonWait ..).outer.trans ho⟩

/-- A callback changes the time events only if it is that of a cyclic handler. -/
theorem callback_same (c : Core) (cb : CBack) (p : TmevtbPtr) :
    (∃ i, p = .cyc i ∧ cb = .callCychdr ∧ c.callback cb p = c.callCychdr i) ∨
      (c.callback cb p).tm = c.tm ∧ (c.callback cb p).cyccb = c.cyccb ∧
        (c.callback cb p).freeCyccb = c.freeCyccb := by
  have outer {c' : Core} (h : c'.tm = c.tm ∧ c'.outer = c.outer) :
      c'.tm = c.tm ∧ c'.cyccb = c.cyccb ∧ c'.freeCyccb = c.freeCyccb := by
    obtain ⟨h, ho⟩ := h
    simp only [Core.outer, Prod.mk.injEq] at ho
    exact ⟨h, ho.2.2.2.1, ho.2.2.2.2.1⟩
  unfold Core.callback
  split
  · rename_i t
    exact .inr (outer (endWait_same (waitDequeueWobj_tm c t) (local_waitDequeueWobj c t).outer t _))
  · rename_i t
    exact .inr (outer (endWait_same rfl rfl t _))
  · exact .inl ⟨_, rfl, rfl, rfl⟩
  · exact .inr ⟨rfl, rfl, rfl⟩
  · exact .inr ⟨rfl, rfl, rfl⟩

/-- What happens to the time events and the cyclic handlers in a step. -/
theorem step_timer {k k' : Kernel} (h : RunInv cfg k.core) (hc : k.core.CycOk cfg)
    (hs : Step cfg k e k') :
    match e with
    | .call call => k.core.Ops (call.scope cfg k).touches k'.core ∧
      Outer cfg (call.scope cfg k) k.core k'.core
    | .sigBegin => k'.core.tm = k.core.tm.sigBegin cfg.ticNume cfg.ticDeno ∧
      k'.core.outer = k.core.outer
    | .sigFire => k.core.tm.due = true ∧
      ((∃ i, (k.core.tm.heap.node 1).id = .cyc i ∧ k'.core = k.core.popped.callCychdr i) ∨
        k'.core.tm = k.core.tm.sigPop ∧ k'.core.cyccb = k.core.cyccb ∧
          k'.core.freeCyccb = k.core.freeCyccb)
    | .sigEnd => k.core.tm.due = false ∧ k'.core.tm = k.core.tm.sigEnd ∧
      k'.core.outer = k.core.outer
    | _ => k'.core.tm = k.core.tm ∧ k'.core.outer = k.core.outer := by
  unfold Step Kernel.step at hs
  cases e with
  | call call =>
    simp only at hs ⊢
    split at hs
    · rename_i hg
      cases hs
      have hp := h.callPre hg.1
      have he := effect_exec hp call
      obtain ⟨ht, ho⟩ := settle_same (exec cfg k call)
      have key {b c'} (hm : Moves cfg (call.scope cfg k) call.serves (call.repri k) k.core b c')
          (hst : (exec cfg k call).st.core.tm = c'.tm ∧
            (exec cfg k call).st.core.outer = c'.outer) :
          k.core.Ops (call.scope cfg k).touches (exec cfg k call).settle.core ∧
            Outer cfg (call.scope cfg k) k.core (exec cfg k call).settle.core := by
        obtain ⟨h1, h2⟩ := hm.ops hp.inv hc
        exact ⟨h1.congr (ht.trans hst.1), h2.trans (.of_outer (ho.trans hst.2))⟩
      generalize hr : (exec cfg k call).map Kernel.core = r at he
      have hst : (exec cfg k call).st.core = r.st := congrArg Res.st hr
      cases he with
      | task hm hb hc => exact key hm (by rw [hst]; exact ⟨rfl, rfl⟩)
      | int hm hb hc => exact key hm (by rw [hst]; exact ⟨rfl, rfl⟩)
    · cases hs
  | writeMsg pkMsg msg =>
    cases hs
    exact ⟨rfl, rfl⟩
  | texReturn =>
    simp only at hs ⊢
    split at hs
    · cases hs
    · split at hs
      · cases hs
      · cases hs
        exact texReturn_same ..
  | intEnter =>
    simp only at hs ⊢
    split at hs
    · cases hs
    · cases hs
      exact ⟨rfl, rfl⟩
  | intExit =>
    simp only at hs ⊢
    split at hs
    · cases hs
    · cases hs
      exact intExit_same _
  | sigBegin =>
    simp only at hs ⊢
    split at hs
    · cases hs
      exact ⟨rfl, rfl⟩
    · cases hs
  | sigFire =>
    simp only at hs ⊢
    split at hs
    · rename_i hg
      cases hs
      refine ⟨hg.2, ?_⟩
      rcases callback_same k.core.popped (k.core.tm.callback (k.core.tm.heap.node 1).id)
        (k.core.tm.heap.node 1).id with ⟨i, hi, hcb, he⟩ | he
      · exact .inl ⟨i, hi, he⟩
      · exact .inr he
    · cases hs
  | sigEnd =>
    simp only at hs ⊢
    split at hs
    · rename_i hg
      cases hs
      exact ⟨hg.2, rfl, rfl⟩
    · cases hs

theorem RunInv.cycOk {k k' : Kernel} (h : RunInv cfg k.core) (hc : k.core.CycOk cfg)
    (hs : Step cfg k e k') : k'.core.CycOk cfg := by
  have ht := step_timer h hc hs
  have outer {c c' : Core} (ho : c'.outer = c.outer) (hc : c.CycOk cfg) : c'.CycOk cfg :=
    (Outer.of_outer (S := .texOnly) ho).cycOk hc
  cases e with
  | call call => exact ht.2.cycOk hc
  | sigFire =>
    obtain ⟨-, ⟨i, -, he⟩ | ⟨-, hi, hf⟩⟩ := ht
    · rw [he]
      intro j hlt hj
      have hok := hc j hlt hj
      unfold Core.callCychdr Core.tmevtbEnqueueCyc Core.setCyc
      by_cases hji : j = i
      · subst hji
        simp only [Function.update_self]
        exact ⟨hok.cyctim_pos, hok.cyctim_le, hok.cycphs_le⟩
      · simp only [Function.update_of_ne hji]
        exact hok
    · intro j
      rw [hi, hf]
      exact hc j
  | sigEnd => exact outer ht.2.2 hc
  | writeMsg | texReturn | intEnter | intExit | sigBegin => exact outer ht.2 hc

theorem boot_clock (cfg : Cfg) : (boot cfg).core.tm.clock = (initializeTmevt cfg).clock ∧
    (boot cfg).core.CycOk cfg := by
  have h := (BootInv.all cfg).rest
  simp only [Core.rest, Prod.mk.injEq] at h
  obtain ⟨_, _, _, _, _, _, hf, _, _, _, _, hc, ht⟩ := h
  obtain ⟨htm, ho⟩ := dispatcher_same (Core.initializeAll cfg)
  refine ⟨(congrArg Timer.clock htm).trans hc, ?_⟩
  refine (Outer.of_outer (S := .texOnly) ho).cycOk fun i hlt hi => ?_
  rw [hf] at hi
  have hi : i < cfg.cyc.tmaxS := Nat.lt_of_not_le fun hle => hi (ObjNum.mem_free.2 ⟨hle, hlt⟩)
  have ht := congrFun ht i
  simp only [Prod.mk.injEq] at ht
  refine ⟨?_, ?_, ?_⟩
  · rw [ht.1]
    exact cfg.cyctim_pos i hi
  · rw [ht.1]
    exact cfg.cyctim_le i hi
  · rw [ht.2]
    exact cfg.cycphs_le i hi

theorem Reachable.cycOk (h : Reachable cfg k) : k.core.CycOk cfg := by
  obtain ⟨es, hr⟩ := h
  exact (hr.along (I := fun k => RunInv cfg k.core)
    (J := fun k => k.core.CycOk cfg) (fun _ _ _ => id) (fun _ _ _ hi hs => hi.step hs)
    (fun _ _ _ hi hj hs => hi.cycOk hj hs) (.boot cfg) (boot_clock cfg).2).2

theorem Timer.Op.clock {tm tm' : Timer} (h : Timer.Op Q tm tm') : tm'.clock = tm.clock := by
  cases h <;> rfl

theorem ops_clock {tm tm' : Timer} (h : Relation.ReflTransGen (Timer.Op Q) tm tm') :
    tm'.clock = tm.clock := by
  induction h with
  | refl => rfl
  | tail _ ho ih => exact ho.clock.trans ih

/-- The clock moves in `signal_time` only. -/
theorem step_clock {k k' : Kernel} (h : Reachable cfg k) (hs : Step cfg k e k') :
    match e with
    | .sigBegin => k'.core.tm.clock = (k.core.tm.sigBegin cfg.ticNume cfg.ticDeno).clock
    | .sigEnd => k'.core.tm.clock = k.core.tm.sigEnd.clock
    | .sigFire => k'.core.tm.clock = k.core.tm.sigPop.clock
    | _ => k'.core.tm.clock = k.core.tm.clock := by
  have ht := step_timer h.runInv h.cycOk hs
  cases e with
  | call call => exact ops_clock ht.1
  | sigFire =>
    obtain ⟨-, ⟨i, -, he⟩ | ⟨ht, -⟩⟩ := ht
    · rw [he]
      rfl
    · exact congrArg Timer.clock ht
  | sigEnd => exact congrArg Timer.clock ht.2.1
  | writeMsg | texReturn | intEnter | intExit | sigBegin => exact congrArg Timer.clock ht.1

end

/-- What `signal_time` adds to `next_time`. -/
def Timer.advance (nume deno : BitVec 32) (tm : Timer) : Nat :=
  (nume / deno).toNat + if deno ≤ tm.nextSubtime + nume % deno then 1 else 0

/-- The clock after `n` ticks; `next` is `next_time` before its reduction modulo 2^32. -/
structure Timer.Exact (nume deno : BitVec 32) (n next : Nat) (tm : Timer) : Prop where
  ticks : tm.ticks = n
  next_eq : tm.nextTime = BitVec.ofNat 32 next
  current : tm.currentTime = BitVec.ofNat 32 (n * nume.toNat / deno.toNat)
  lt : tm.nextSubtime.toNat < deno.toNat
  sum : next * deno.toNat + tm.nextSubtime.toNat = (n + 1) * nume.toNat

/-- The sums of the lower digits stay below 2^32. -/
def ticOk (nume deno : BitVec 32) : Prop :=
  (nume % deno).toNat + deno.toNat < 2 ^ 32 + nume.toNat.gcd deno.toNat

section
variable {nume deno : BitVec 32} {n next : Nat} {tm tm' : Timer}

theorem ticOk_of_le (hd : 0 < deno) (h : deno.toNat ≤ 2 ^ 31) : ticOk nume deno := by
  unfold ticOk
  have hlt : (nume % deno).toNat < deno.toNat := BitVec.lt_def.1 (BitVec.umod_lt _ hd)
  have hg := Nat.gcd_pos_of_pos_right nume.toNat (BitVec.lt_def.1 hd)
  omega

theorem Timer.Exact.no_overflow (h : tm.Exact nume deno n next) (hok : ticOk nume deno) :
    tm.nextSubtime.toNat + (nume % deno).toNat < 2 ^ 32 := by
  have hg := Nat.gcd_dvd_right nume.toNat deno.toNat
  have hs : nume.toNat.gcd deno.toNat ∣ tm.nextSubtime.toNat := by
    refine (Nat.dvd_add_right (hg.mul_left next)).1 ?_
    rw [h.sum]
    exact (Nat.gcd_dvd_left ..).mul_left _
  have hle := Nat.le_of_dvd (Nat.sub_pos_of_lt h.lt) (Nat.dvd_sub hg hs)
  have hlt := h.lt
  unfold ticOk at hok
  omega

theorem Timer.Exact.congr (h : tm.Exact nume deno n next) (hc : tm'.clock = tm.clock) :
    tm'.Exact nume deno n next := by
  simp only [clock, Prod.mk.injEq] at hc
  obtain ⟨h1, _, h3, h4, h5, _⟩ := hc
  exact ⟨h5.trans h.ticks, h3.trans h.next_eq, h1.trans h.current, h4 ▸ h.lt, h4 ▸ h.sum⟩

theorem Timer.Exact.next_div (h : tm.Exact nume deno n next) :
    next = (n + 1) * nume.toNat / deno.toNat := by
  rw [← h.sum]
  exact (Nat.div_eq_of_lt_le (by omega) (by
    have := h.lt
    rw [Nat.succ_mul]
    omega)).symm

theorem Timer.Exact.sigBegin (h : tm.Exact nume deno n next) (hok : ticOk nume deno) :
    (tm.sigBegin nume deno).Exact nume deno (n + 1) (next + tm.advance nume deno) := by
  have hlt := h.lt
  have hsum := h.sum
  have hov := h.no_overflow hok
  have hx : (tm.nextSubtime + nume % deno).toNat =
      tm.nextSubtime.toNat + (nume % deno).toNat := by
    rw [BitVec.toNat_add, Nat.mod_eq_of_lt hov]
  have hr : (nume % deno).toNat < deno.toNat := by
    rw [BitVec.toNat_umod]
    exact Nat.mod_lt _ (by omega)
  have hn : (nume / deno).toNat * deno.toNat + (nume % deno).toNat = nume.toNat := by
    rw [BitVec.toNat_udiv, BitVec.toNat_umod]
    exact Nat.div_add_mod' ..
  have hmul : (n + 1 + 1) * nume.toNat = (n + 1) * nume.toNat + nume.toNat := Nat.succ_mul ..
  refine ⟨congrArg (· + 1) h.ticks, ?_, ?_, ?_, ?_⟩
  · unfold Timer.sigBegin Timer.advance
    simp only [h.next_eq]
    split
    · rw [← Nat.add_assoc, BitVec.ofNat_add, BitVec.ofNat_add, BitVec.ofNat_toNat,
        BitVec.setWidth_eq]
      rfl
    · rw [Nat.add_zero, BitVec.ofNat_add, BitVec.ofNat_toNat, BitVec.setWidth_eq]
  · rw [← h.next_div]
    exact h.next_eq
  · unfold Timer.sigBegin
    simp only
    split
    · rename_i hc
      rw [BitVec.toNat_sub_of_le hc, hx]
      omega
    · rename_i hc
      rw [BitVec.le_def, hx] at hc
      rw [hx]
      omega
  · unfold Timer.sigBegin Timer.advance
    simp only
    split
    · rename_i hc
      rw [BitVec.toNat_sub_of_le hc, hx, hmul, Nat.add_mul, Nat.add_mul]
      rw [BitVec.le_def, hx] at hc
      omega
    · rw [hx, hmul, Nat.add_zero, Nat.add_mul]
      omega

end

/-- What the calls of `signal_time` in a run add to `next_time`. -/
def advances (cfg : Cfg) : Kernel → List Event → List Nat :=
  Trans.observe (Kernel.step cfg) fun k e _ =>
    match e with
    | .sigBegin => [k.core.tm.advance cfg.ticNume cfg.ticDeno]
    | _ => []

section
variable {cfg : Cfg} {k k' : Kernel} {es : List Event}

theorem deno_pos (cfg : Cfg) : 0 < cfg.ticDeno.toNat := BitVec.lt_def.1 cfg.tic_deno_pos

theorem initializeTmevt_exact (cfg : Cfg) : (initializeTmevt cfg).Exact cfg.ticNume cfg.ticDeno 0
    (cfg.ticNume / cfg.ticDeno).toNat := by
  refine ⟨rfl, ?_, ?_, ?_, ?_⟩
  · rw [BitVec.ofNat_toNat, BitVec.setWidth_eq]
    rfl
  · rw [Nat.zero_mul, Nat.zero_div]
    rfl
  · exact BitVec.lt_def.1 (BitVec.umod_lt _ cfg.tic_deno_pos)
  · change (cfg.ticNume / cfg.ticDeno).toNat * _ + (cfg.ticNume % cfg.ticDeno).toNat = _
    rw [BitVec.toNat_udiv, BitVec.toNat_umod, Nat.zero_add, Nat.one_mul]
    exact Nat.div_add_mod' ..

theorem boot_exact (cfg : Cfg) : (boot cfg).core.tm.Exact cfg.ticNume cfg.ticDeno 0
    (cfg.ticNume / cfg.ticDeno).toNat := (initializeTmevt_exact cfg).congr (boot_clock cfg).1

theorem step_exact (h : Reachable cfg k) (hs : Step cfg k e k') (hok : ticOk cfg.ticNume cfg.ticDeno)
    (hx : k.core.tm.Exact cfg.ticNume cfg.ticDeno n next) :
    match e with
    | .sigBegin => k'.core.tm.Exact cfg.ticNume cfg.ticDeno (n + 1)
      (next + k.core.tm.advance cfg.ticNume cfg.ticDeno)
    | _ => k'.core.tm.Exact cfg.ticNume cfg.ticDeno n next := by
  have hc := step_clock h hs
  cases e with
  | sigBegin => exact (hx.sigBegin hok).congr hc
  | sigFire =>
    refine Timer.Exact.congr ?_ hc
    exact ⟨hx.ticks, hx.next_eq, hx.current, hx.lt, hx.sum⟩
  | sigEnd =>
    refine Timer.Exact.congr ?_ hc
    exact ⟨hx.ticks, hx.next_eq, hx.current, hx.lt, hx.sum⟩
  | call call => exact hx.congr hc
  | writeMsg | texReturn | intEnter | intExit => exact hx.congr hc

theorem run_exact (hr : Run cfg (boot cfg) es k) (hok : ticOk cfg.ticNume cfg.ticDeno) :
    k.core.tm.Exact cfg.ticNume cfg.ticDeno (advances cfg (boot cfg) es).length
      ((cfg.ticNume / cfg.ticDeno).toNat + (advances cfg (boot cfg) es).sum) := by
  unfold advances
  refine hr.observed _ (I := Reachable cfg) (P := fun _ => True)
    (R := fun _ l k => k.core.tm.Exact cfg.ticNume cfg.ticDeno l.length
      ((cfg.ticNume / cfg.ticDeno).toNat + l.sum)) (fun _ _ => trivial)
    (fun _ _ _ h hs => h.step hs) (boot_reachable cfg) (boot_exact cfg)
    fun t e u l ht _ hx hs => ?_
  have hstep := step_exact ht hs hok hx
  cases e with
  | sigBegin =>
    rw [List.length_append, List.sum_append, ← Nat.add_assoc, List.sum_singleton]
    exact hstep
  | sigFire | sigEnd | call | writeMsg | texReturn | intEnter | intExit =>
    rw [List.append_nil]
    exact hstep

theorem Timer.Exact.baseTime {tm : Timer} {nume deno : BitVec 32}
    (h : tm.Exact nume deno n next) :
    tm.baseTime = BitVec.ofNat 32 (((n + 1) * nume.toNat + (deno.toNat - 1)) / deno.toNat) := by
  have hlt := h.lt
  have hd : 0 < deno.toNat := by omega
  unfold Timer.baseTime
  rw [h.next_eq, ← h.sum]
  split
  · rename_i hs
    have hs : 0 < tm.nextSubtime.toNat := BitVec.lt_def.1 hs
    rw [show next * deno.toNat + tm.nextSubtime.toNat + (deno.toNat - 1) =
      (tm.nextSubtime.toNat - 1) + (next + 1) * deno.toNat by rw [Nat.succ_mul]; omega,
      Nat.add_mul_div_right _ _ hd, Nat.div_eq_of_lt (by omega), Nat.zero_add, BitVec.ofNat_add]
    rfl
  · rename_i hs
    have hs : ¬0 < tm.nextSubtime.toNat := fun h => hs (BitVec.lt_def.2 h)
    rw [show next * deno.toNat + tm.nextSubtime.toNat + (deno.toNat - 1) =
      (deno.toNat - 1) + next * deno.toNat by omega, Nat.add_mul_div_right _ _ hd,
      Nat.div_eq_of_lt (by omega), Nat.zero_add]
    exact BitVec.add_zero _

/-- The clock in every state that a system can reach, after `n` calls of `signal_time`, where the lower
digits do not overflow, which they do not for a `TIC_DENO` up to 2^31: `next` is `next_time` before its
reduction, the sum of what has been added to it. Time is exact: no part of a tick is lost, and
`base_time` is the time of the next tick rounded up. -/
theorem reachable_clock (hr : Run cfg (boot cfg) es k) :
    (cfg.ticDeno.toNat ≤ 2 ^ 31 → ticOk cfg.ticNume cfg.ticDeno) ∧
    (ticOk cfg.ticNume cfg.ticDeno →
      ∃ n next, n = (advances cfg (boot cfg) es).length ∧
        next = (cfg.ticNume / cfg.ticDeno).toNat + (advances cfg (boot cfg) es).sum ∧
        k.core.tm.nextTime = BitVec.ofNat 32 next ∧
        k.core.tm.nextSubtime < cfg.ticDeno ∧
        next * cfg.ticDeno.toNat + k.core.tm.nextSubtime.toNat = (n + 1) * cfg.ticNume.toNat ∧
        k.core.tm.currentTime = BitVec.ofNat 32 (n * cfg.ticNume.toNat / cfg.ticDeno.toNat) ∧
        k.core.tm.baseTime = BitVec.ofNat 32
          (((n + 1) * cfg.ticNume.toNat + (cfg.ticDeno.toNat - 1)) / cfg.ticDeno.toNat) ∧
        k.core.tm.nextSubtime.toNat + (cfg.ticNume % cfg.ticDeno).toNat < 2 ^ 32 ∧
        ∀ e k', Step cfg k e k' → k'.core.tm.currentTime =
          match e with
          | .sigBegin => k.core.tm.nextTime
          | _ => k.core.tm.currentTime) := by
  refine ⟨ticOk_of_le cfg.tic_deno_pos, fun hok => ?_⟩
  have hx := run_exact hr hok
  refine ⟨_, _, rfl, rfl, hx.next_eq, BitVec.lt_def.2 hx.lt, hx.sum, hx.current, hx.baseTime,
    hx.no_overflow hok, fun e k' hs => ?_⟩
  have hc := step_clock ⟨es, hr⟩ hs
  cases e with
  | sigBegin | sigFire | sigEnd | call | writeMsg | texReturn | intEnter | intExit =>
    exact congrArg Prod.fst hc

theorem reachable_clock_third : ∃ k,
    [Event.intEnter, .sigBegin, .sigEnd, .sigBegin].foldlM (Kernel.step .third) (boot .third) =
      some k ∧ k.core.tm.nextTime = 10 ∧ k.core.tm.currentTime = 6 ∧
    ∃ n next, k.core.tm.nextTime = BitVec.ofNat 32 next ∧
      next * 3 + k.core.tm.nextSubtime.toNat = (n + 1) * 10 := by
  have h : ([Event.intEnter, .sigBegin, .sigEnd, .sigBegin].foldlM (Kernel.step .third)
      (boot .third)).any (fun k =>
        decide (k.core.tm.nextTime = 10 ∧ k.core.tm.currentTime = 6)) = true := by
    decide +kernel
  obtain ⟨k, hk, h⟩ := (Option.any_eq_true _ _).1 h
  obtain ⟨h1, h2⟩ := of_decide_eq_true h
  obtain ⟨n, next, -, -, hn, -, hs, -⟩ := (reachable_clock (Trans.Run.of_foldlM hk)).2
    (ticOk_of_le (by decide) (by decide))
  exact ⟨k, hk, h1, h2, n, next, hn, hs⟩

/-- The sum of the lower digits overflows in the first call of `signal_time`, which adds nothing to
`next_time`. -/
theorem clock_overflow : ∃ k, [Event.intEnter, .sigBegin].foldlM (Kernel.step .fine) (boot .fine) =
      some k ∧ advances .fine (boot .fine) [Event.intEnter, .sigBegin] = [0] ∧
    ((0xfffffffe / 0xffffffff : Nat) + [0].sum) * 0xffffffff + k.core.tm.nextSubtime.toNat ≠
      (1 + 1) * 0xfffffffe := by
  have h : ([Event.intEnter, .sigBegin].foldlM (Kernel.step .fine) (boot .fine)).any (fun k =>
      decide (advances .fine (boot .fine) [Event.intEnter, .sigBegin] = [0] ∧
        ((0xfffffffe / 0xffffffff : Nat) + [0].sum) * 0xffffffff + k.core.tm.nextSubtime.toNat ≠
          (1 + 1) * 0xfffffffe)) = true := by
    decide +kernel
  obtain ⟨k, hk, h⟩ := (Option.any_eq_true _ _).1 h
  exact ⟨k, hk, of_decide_eq_true h⟩

end

end AspKernel
