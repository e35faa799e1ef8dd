import AspKernel.Lib.Queue
import AspKernel.FlgInv
import AspKernel.Clock

namespace AspKernel
set_option autoImplicit true

/-- The links of the queues of tasks. -/
abbrev TaskLinks := Queue.Mem TaskQueue Nat

/-- What `make_non_wait` does to the links. -/
def Core.makeNonWaitLinks (c : Core) (m : TaskLinks) (t : Nat) : TaskLinks :=
  if (c.tcb t).tstat.suspended then m
  else m.insertPrev (.head (.ready (c.priority t))) (.entry t)

/-- The loop of `set_flg` on the links; it finds its way by them alone. It has no result where the
cursor comes to the head of another queue, or where the steps are used up. -/
def setFlgScan (flgatr : ATR) (q : WQueue) :
    Nat → Queue.Node TaskQueue Nat → TaskLinks → Core → FLGPTN →
      Option (TaskLinks × Core × FLGPTN × Bool)
  | 0, _, _, _, _ => none
  | _ + 1, .head p, m, c, flgptn => if p = .wait q then some (m, c, flgptn, false) else none
  | n + 1, .entry t, m, c, flgptn =>
    -- the cursor moves on before the task is unlinked
    let pQueue := m.next (.entry t)
    let w := (c.tcb t).winfo
    if flgCond flgptn w.waiptn w.wfmode then
      let c := (c.setWinfo t { w with flgptn := flgptn }).queueDelete t
      let m := c.makeNonWaitLinks (m.delete (.entry t)) t
      let r := c.waitComplete t
      let flgptn := clearFlg flgatr flgptn
      if flgatr.has TA_CLR then some (m, r.1, flgptn, r.2)
      else
        (setFlgScan flgatr q n pQueue m r.1 flgptn).map fun r' =>
          (r'.1, r'.2.1, r'.2.2.1, r.2 || r'.2.2.2)
    else setFlgScan flgatr q n pQueue m c flgptn

/-- The condition of a task that waits for an event flag. -/
def Core.flgMeets (c : Core) (flgptn : FLGPTN) (t : Nat) : Bool :=
  flgCond flgptn (c.tcb t).winfo.waiptn (c.tcb t).winfo.wfmode

/-- The tasks that are released: with `TA_CLR` the first one whose condition holds, else all. -/
def flgReleased (flgatr : ATR) (meets : Nat → Bool) (l : List Nat) : List Nat :=
  if flgatr.has TA_CLR then (l.find? meets).toList else l.filter meets

/-- The flag afterwards: with `TA_CLR` a release clears it. -/
def flgLeft (flgatr : ATR) (flgptn : FLGPTN) (released : List Nat) : FLGPTN :=
  if flgatr.has TA_CLR ∧ released ≠ [] then 0 else flgptn

def Core.serveAll (c : Core) (flgptn : FLGPTN) (l : List Nat) : Core :=
  l.foldl (fun c t => c.serveFlg t flgptn) c

section
variable {c : Core} {cfg : Cfg} {i t u : Nat} {flgptn : FLGPTN} {l : List Nat}

theorem serveFlg_meets (hu : u ≠ t) :
    (c.serveFlg t flgptn).flgMeets flgptn u = c.flgMeets flgptn u := by
  unfold Core.flgMeets
  rw [serveFlg_tcb, Function.update_of_ne hu]

theorem flgReleased_cons (flgatr : ATR) (meets : Nat → Bool) (t : Nat) (l : List Nat) :
    flgReleased flgatr meets (t :: l) =
      if meets t then t :: (if flgatr.has TA_CLR then [] else flgReleased flgatr meets l)
      else flgReleased flgatr meets l := by
  unfold flgReleased
  rw [List.find?_cons, List.filter_cons]
  cases meets t with
  | false => rfl
  | true =>
    cases flgatr.has TA_CLR with
    | false => rfl
    | true => rfl

theorem flgReleased_congr {meets meets' : Nat → Bool} (flgatr : ATR)
    (h : ∀ t ∈ l, meets t = meets' t) : flgReleased flgatr meets l = flgReleased flgatr meets' l := by
  induction l with
  | nil => rfl
  | cons t l ih =>
    rw [flgReleased_cons, flgReleased_cons, h t List.mem_cons_self,
      ih fun u hu => h u (List.mem_cons_of_mem t hu)]

theorem flgReleased_sublist (flgatr : ATR) (meets : Nat → Bool) (l : List Nat) :
    (flgReleased flgatr meets l).Sublist l := by
  induction l with
  | nil =>
    unfold flgReleased
    split <;> exact .slnil
  | cons t l ih =>
    rw [flgReleased_cons]
    split
    · split
      · exact List.singleton_sublist.2 List.mem_cons_self
      · exact ih.cons_cons t
    · exact ih.cons t

/-- Whether the step of the loop for a task asks for a dispatch. -/
def Core.serveFlgReq (c : Core) (t : Nat) (flgptn : FLGPTN) : Bool :=
  (((c.setWinfo t { (c.tcb t).winfo with flgptn := flgptn }).queueDelete t).waitComplete t).2

theorem setFlgLoop_cons (flgatr : ATR) (t : Nat) (l : List Nat) (c : Core) (flgptn : FLGPTN) :
    setFlgLoop flgatr (t :: l) c flgptn =
      if c.flgMeets flgptn t then
        if flgatr.has TA_CLR then (c.serveFlg t flgptn, 0, c.serveFlgReq t flgptn)
        else
          let r := setFlgLoop flgatr l (c.serveFlg t flgptn) flgptn
          (r.1, r.2.1, c.serveFlgReq t flgptn || r.2.2)
      else setFlgLoop flgatr l c flgptn := by
  rw [setFlgLoop]
  unfold clearFlg
  by_cases hclr : flgatr.has TA_CLR = true
  · simp only [if_pos hclr]
    rfl
  · simp only [if_neg hclr]
    rfl

/-- The loop serves the tasks whose conditions hold at its start. -/
theorem setFlgLoop_eq (flgatr : ATR) (flgptn : FLGPTN) (hn : l.Nodup) :
    (setFlgLoop flgatr l c flgptn).1 =
        c.serveAll flgptn (flgReleased flgatr (c.flgMeets flgptn) l) ∧
      (setFlgLoop flgatr l c flgptn).2.1 =
        flgLeft flgatr flgptn (flgReleased flgatr (c.flgMeets flgptn) l) := by
  induction l generalizing c with
  | nil =>
    unfold setFlgLoop flgReleased flgLeft
    cases flgatr.has TA_CLR with
    | false => exact ⟨rfl, rfl⟩
    | true => exact ⟨rfl, rfl⟩
  | cons t l ih =>
    obtain ⟨ht, hn⟩ := List.nodup_cons.1 hn
    rw [flgReleased_cons, setFlgLoop_cons]
    cases c.flgMeets flgptn t with
    | false => exact ih hn
    | true =>
      cases hclr : flgatr.has TA_CLR with
      | true =>
        refine ⟨rfl, ?_⟩
        exact (if_pos ⟨hclr, List.cons_ne_nil _ _⟩).symm
      | false =>
        obtain ⟨h1, h2⟩ := ih (c := c.serveFlg t flgptn) hn
        have hr : flgReleased flgatr ((c.serveFlg t flgptn).flgMeets flgptn) l =
            flgReleased flgatr (c.flgMeets flgptn) l := by
          apply flgReleased_congr
          intro u hu
          apply serveFlg_meets
          rintro rfl
          exact ht hu
        have hleft (r : List Nat) : flgLeft flgatr flgptn r = flgptn := by
          apply if_neg
          rintro ⟨h, -⟩
          cases hclr.symm.trans h
        rw [hr] at h1
        refine ⟨h1, h2.trans ?_⟩
        rw [hleft, hleft]

theorem makeRunnable_links (s : Sched) (pri : Nat → Nat) (d : Bool) (t : Nat) :
    (s.makeRunnable pri d t).1.queue = (s.queueInsertPrev (.ready (pri t)) t).queue := by
  unfold Sched.makeRunnable
  simp only
  split
  · rfl
  · split <;> rfl

/-- The links after `make_non_wait`. -/
theorem makeNonWait_links {m : TaskLinks} (hm : m.Holds c.sched.queue)
    (hl : Links.Linked L c.sched.queue) (ht : L t = none) :
    (c.makeNonWaitLinks m t).Holds (c.makeNonWait t).1.sched.queue := by
  unfold Core.makeNonWaitLinks Core.makeNonWait
  simp only
  split
  · exact hm
  · change Queue.Mem.Holds _ (Sched.makeRunnable _ _ _ t).1.queue
    rw [makeRunnable_links]
    have hi := hm.insert (q := .ready (c.priority t)) hl ht (List.append_nil _).symm
    have hp : (Core.setTcb { c with assertOk := c.assertOk && (c.tcb t).tstat.waiting } t
        { c.tcb t with tstat := .RUNNABLE }).priority t = c.priority t := by
      unfold Core.priority
      rw [Core.setTcb_self]
    rw [hp]
    exact hi

theorem waitComplete_links {m : TaskLinks} (hm : m.Holds c.sched.queue)
    (hl : Links.Linked L c.sched.queue) (ht : L t = none) :
    (c.makeNonWaitLinks m t).Holds (c.waitComplete t).1.sched.queue := by
  have hs : ((c.waitDequeueTmevtb t).setWercd t E_OK).sched = c.sched :=
    waitDequeueTmevtb_sched c t
  have he : (((c.waitDequeueTmevtb t).setWercd t E_OK).makeNonWaitLinks m t) =
      c.makeNonWaitLinks m t := by
    unfold Core.makeNonWaitLinks Core.priority
    rw [show ((c.waitDequeueTmevtb t).setWercd t E_OK).tcb t = _ from Core.setTcb_self ..,
      Core.waitDequeueTmevtb_tcb]
  have hw := makeNonWait_links (c := (c.waitDequeueTmevtb t).setWercd t E_OK)
    (hs.symm ▸ hm) (hs.symm ▸ hl) ht
  rw [he] at hw
  exact hw

theorem serveFlg_eq (c : Core) (t : Nat) (flgptn : FLGPTN) : c.serveFlg t flgptn =
    (((c.queueDelete t).setWinfo t { (c.tcb t).winfo with flgptn := flgptn }).waitComplete t).1 :=
  rfl

theorem CoreInv.serveFlg (h : CoreInv cfg noD c) (ht : t ∈ c.sched.queue (.wait q))
    (flgptn : FLGPTN) : CoreInv cfg noD (c.serveFlg t flgptn) := h.waitComplete ht rfl

/-- The links after the step of the loop for a task whose condition holds. -/
def Core.serveLinks (c : Core) (t : Nat) (flgptn : FLGPTN) (m : TaskLinks) : TaskLinks :=
  ((c.setWinfo t { (c.tcb t).winfo with flgptn := flgptn }).queueDelete t).makeNonWaitLinks
    (m.delete (.entry t)) t

theorem CoreInv.serveLinks {m : TaskLinks} (h : CoreInv cfg noD c) (hm : m.Holds c.sched.queue)
    (ht : t ∈ c.sched.queue (.wait q)) (flgptn : FLGPTN) :
    (c.serveLinks t flgptn m).Holds (c.serveFlg t flgptn).sched.queue := by
  have hl := h.sched.linked
  unfold Core.serveLinks Core.serveFlg
  apply waitComplete_links
  · exact hm.delete hl (hl.mem.1 ht)
  · exact hl.delete t
  · exact Function.update_self ..

theorem setFlgScan_entry (flgatr : ATR) (q : WQueue) (n t : Nat) (m : TaskLinks) (c : Core)
    (flgptn : FLGPTN) : setFlgScan flgatr q (n + 1) (.entry t) m c flgptn =
      if c.flgMeets flgptn t then
        if flgatr.has TA_CLR then
          some (c.serveLinks t flgptn m, c.serveFlg t flgptn, 0, c.serveFlgReq t flgptn)
        else
          (setFlgScan flgatr q n (m.next (.entry t)) (c.serveLinks t flgptn m)
            (c.serveFlg t flgptn) flgptn).map fun r =>
              (r.1, r.2.1, r.2.2.1, c.serveFlgReq t flgptn || r.2.2.2)
      else setFlgScan flgatr q n (m.next (.entry t)) m c flgptn := by
  rw [setFlgScan]
  unfold clearFlg
  by_cases hclr : flgatr.has TA_CLR = true
  · simp only [if_pos hclr]
    rfl
  · simp only [if_neg hclr]
    rfl

/-- The loop on the links does what the loop on the list of the queue does. -/
theorem setFlgScan_eq {m : TaskLinks} (flgatr : ATR) (flgptn : FLGPTN) (h : CoreInv cfg noD c)
    (hm : m.Holds c.sched.queue) (hq : c.sched.queue (.wait q) = pre ++ l) (hn : l.length < n) :
    ∃ m', setFlgScan flgatr q n (Queue.front (.wait q) l) m c flgptn =
        some (m', setFlgLoop flgatr l c flgptn) ∧
      m'.Holds (setFlgLoop flgatr l c flgptn).1.sched.queue := by
  induction l generalizing pre m c n with
  | nil =>
    obtain ⟨n, rfl⟩ := Nat.exists_eq_add_of_lt hn
    exact ⟨m, if_pos rfl, hm⟩
  | cons t l ih =>
    obtain ⟨n, rfl⟩ := Nat.exists_eq_add_of_lt hn
    have ht : t ∈ c.sched.queue (.wait q) := hq ▸ List.mem_append_right pre List.mem_cons_self
    have hnext : m.next (.entry t) = Queue.front (.wait q) l := hm.next_entry hq
    have hn : l.length < (t :: l).length + n := by
      rw [List.length_cons]
      omega
    change ∃ m', setFlgScan flgatr q (_ + 1) (.entry t) m c flgptn = _ ∧ _
    rw [setFlgLoop_cons, setFlgScan_entry, hnext]
    cases c.flgMeets flgptn t with
    | false =>
      apply ih h hm _ hn
      · exact pre ++ [t]
      · rw [hq, List.append_assoc, List.singleton_append]
    | true =>
      have hs := h.serveFlg ht flgptn
      have hms := h.serveLinks hm ht flgptn
      cases flgatr.has TA_CLR with
      | true => exact ⟨_, rfl, hms⟩
      | false =>
        have hnd := h.sched.linked.nodup (.wait q)
        rw [hq] at hnd
        have hpre : t ∉ pre := fun hp => (List.nodup_append'.1 hnd).2.2 hp List.mem_cons_self
        have hqs : (c.serveFlg t flgptn).sched.queue (.wait q) = pre ++ l := by
          rw [serveFlg_queue, hq, List.erase_append_right _ hpre, List.erase_cons_head]
        obtain ⟨m', he, hm'⟩ := ih hs hms hqs hn
        refine ⟨m', ?_, hm'⟩
        simp only [Bool.false_eq_true, if_true, if_false]
        rw [he]
        rfl

/-- The task goes to the ready queue of the priority when its wait ends. -/
def Core.resumesAt (c : Core) (pri t : Nat) : Bool :=
  !(c.tcb t).tstat.suspended && c.priority t == pri

theorem serveFlg_resumesAt (hu : u ≠ t) (pri : Nat) :
    (c.serveFlg t flgptn).resumesAt pri u = c.resumesAt pri u := by
  unfold Core.resumesAt Core.priority
  rw [serveFlg_tcb, Function.update_of_ne hu]

theorem makeNonWait_ready (c : Core) (t pri : Nat) : (c.makeNonWait t).1.sched.ready pri =
    c.sched.ready pri ++ if c.resumesAt pri t then [t] else [] := by
  unfold Core.makeNonWait Core.resumesAt
  simp only
  cases (c.tcb t).tstat.suspended with
  | true =>
    rw [if_pos rfl, Bool.not_true, Bool.false_and, if_neg Bool.false_ne_true, List.append_nil]
    rfl
  | false =>
    rw [if_neg Bool.false_ne_true, Bool.not_false, Bool.true_and]
    have hp : (Core.setTcb { c with assertOk := c.assertOk && (c.tcb t).tstat.waiting } t
        { c.tcb t with tstat := .RUNNABLE }).priority t = c.priority t := by
      unfold Core.priority
      rw [Core.setTcb_self]
    change (Sched.makeRunnable _ _ _ t).1.queue (.ready pri) = _
    rw [makeRunnable_links, hp]
    by_cases he : c.priority t = pri
    · subst he
      rw [if_pos (beq_self_eq_true _)]
      exact Function.update_self ..
    · rw [if_neg (by rwa [beq_iff_eq]), List.append_nil]
      apply Function.update_of_ne
      rintro ⟨⟩
      exact he rfl

theorem CoreInv.serveFlg_ready (h : CoreInv cfg noD c) (ht : t ∈ c.sched.queue (.wait q))
    (flgptn : FLGPTN) (pri : Nat) : (c.serveFlg t flgptn).sched.ready pri =
      c.sched.ready pri ++ if c.resumesAt pri t then [t] else [] := by
  have hdel : Links.delete c.sched.queue t (.ready pri) = c.sched.ready pri := by
    apply Links.delete_eq_self h.sched.linked
    rw [h.sched.linked.mem.1 ht]
    exact nofun
  have he := Ending.complete c t { (c.tcb t).winfo with flgptn := flgptn }
  rw [serveFlg_eq, Core.waitComplete, makeNonWait_ready, ← hdel]
  congr 1
  · exact congrArg (fun s => s.ready pri) (waitDequeueTmevtb_sched _ t)
  · unfold Core.resumesAt Core.priority
    rw [he.tcb, Function.update_self]

theorem serveFlg_tm (c : Core) (t : Nat) (flgptn : FLGPTN) :
    (c.serveFlg t flgptn).tm = (c.waitDequeueTmevtb t).tm := by
  unfold Core.serveFlg Core.waitComplete
  rw [makeNonWait_tm]
  refine waitDequeueTmevtb_congr (c := c) rfl ?_
  change ((c.setWinfo t _).tcb t).winfo.cell = _
  rw [Core.setWinfo, Core.setTcb_self]

theorem CoreInv.serveFlg_lookup (h : CoreInv cfg noD c) (ht : t ∈ c.sched.queue (.wait q))
    (flgptn : FLGPTN) : (c.serveFlg t flgptn).tm.heap.lookup =
      Function.update c.tm.heap.lookup (.tsk t) none := by
  obtain ⟨hd, hl⟩ := h.of_mem ht
  obtain ⟨_, hw, _⟩ := TCB.loc_eq_wait.1 hl
  have hcell := (h.task t).cell hd hw
  have he : c.expects noD (.tsk t) = (c.tcb t).winfo.tmo.isSome := by
    change (true && ((c.tcb t).tstat.waiting && _)) = _
    rw [hw, Bool.true_and, Bool.true_and]
  rw [serveFlg_tm]
  unfold Core.waitDequeueTmevtb WInfo.tmevtb
  rw [hcell]
  cases htmo : (c.tcb t).winfo.tmo with
  | none =>
    rw [htmo] at he
    exact (Function.update_eq_self_iff.2 (h.lookup_none he).symm).symm
  | some tmo =>
    rw [htmo] at he
    obtain ⟨k, hk⟩ := h.timer.lookup_some he
    exact (h.timer.heap.delete hk).lookup_eq

theorem serveFlg_reg (c : Core) (t : Nat) (flgptn : FLGPTN) :
    (c.serveFlg t flgptn).tm.callback = c.tm.callback ∧ (c.serveFlg t flgptn).tm.reg = c.tm.reg := by
  rw [serveFlg_tm]
  unfold Core.waitDequeueTmevtb
  split <;> exact ⟨rfl, rfl⟩

/-- What the release of a list of tasks does; each of them receives the pattern. -/
structure Core.Released (c : Core) (flgptn : FLGPTN) (l : List Nat) (c' : Core) : Prop where
  served : ∀ t ∈ l, c'.tcb t = { c.tcb t with
    tstat := (c.tcb t).tstat.nonWait
    winfo := { (c.tcb t).winfo with flgptn := flgptn, cell := .wercd E_OK } }
  others : ∀ t ∉ l, c'.tcb t = c.tcb t
  waits : ∀ q, c'.sched.queue (.wait q) = (c.sched.queue (.wait q)).filter (· ∉ l)
  ready : ∀ pri, c'.sched.ready pri = c.sched.ready pri ++ l.filter (c.resumesAt pri)
  timeouts : ∀ p, c'.tm.heap.lookup p =
    if p ∈ l.map TmevtbPtr.tsk then none else c.tm.heap.lookup p
  callback : c'.tm.callback = c.tm.callback
  reg : c'.tm.reg = c.tm.reg

theorem Core.Released.nil (c : Core) (flgptn : FLGPTN) : c.Released flgptn [] c where
  served := nofun
  others _ _ := rfl
  waits q := by simp
  ready pri := by simp
  timeouts p := by simp
  callback := rfl
  reg := rfl

theorem CoreInv.released (h : CoreInv cfg noD c) (hl : ∀ t ∈ l, t ∈ c.sched.queue (.wait q))
    (hn : l.Nodup) (flgptn : FLGPTN) : c.Released flgptn l (c.serveAll flgptn l) := by
  induction l generalizing c with
  | nil => exact .nil c flgptn
  | cons t l ih =>
    obtain ⟨htl, hn⟩ := List.nodup_cons.1 hn
    have ht := hl t List.mem_cons_self
    have hne (u : Nat) (hu : u ∈ l) : u ≠ t := by
      rintro rfl
      exact htl hu
    have hs (u : Nat) (hu : u ≠ t) : (c.serveFlg t flgptn).tcb u = c.tcb u := by
      rw [serveFlg_tcb, Function.update_of_ne hu]
    have hr : (c.serveFlg t flgptn).Released flgptn l (c.serveAll flgptn (t :: l)) := by
      apply ih (h.serveFlg ht flgptn) _ hn
      intro u hu
      rw [serveFlg_queue]
      exact (List.mem_erase_of_ne (hne u hu)).2 (hl u (List.mem_cons_of_mem t hu))
    obtain ⟨hcb, hreg⟩ := serveFlg_reg c t flgptn
    refine ⟨?_, ?_, ?_, ?_, ?_, hr.callback.trans hcb, hr.reg.trans hreg⟩
    · intro u hu
      rcases List.mem_cons.1 hu with rfl | hu
      · rw [hr.others _ htl, serveFlg_tcb, Function.update_self]
      · rw [hr.served u hu, hs u (hne u hu)]
    · intro u hu
      obtain ⟨hut, hul⟩ := not_or.1 (List.mem_cons.not.1 hu)
      rw [hr.others u hul, hs u hut]
    · intro p
      rw [hr.waits, serveFlg_queue, (h.sched.linked.nodup _).erase_eq_filter, List.filter_filter]
      apply List.filter_congr
      intro u _
      simp only [List.mem_cons, not_or, Bool.decide_and, decide_not, Bool.and_comm, bne, beq_eq_decide]
    · intro pri
      have hf : l.filter ((c.serveFlg t flgptn).resumesAt pri) = l.filter (c.resumesAt pri) := by
        apply List.filter_congr
        intro u hu
        exact serveFlg_resumesAt (hne u hu) pri
      rw [hr.ready, h.serveFlg_ready ht, hf, List.append_assoc, List.filter_cons]
      congr 1
      split <;> rfl
    · intro p
      rw [hr.timeouts, h.serveFlg_lookup ht, List.map_cons]
      by_cases hp : p = .tsk t
      · subst hp
        rw [Function.update_self, if_pos List.mem_cons_self]
        split <;> rfl
      · rw [Function.update_of_ne hp]
        simp only [List.mem_cons, hp, false_or]

theorem Core.Released.request (h : c.Released flgptn l c') (b : Bool) :
    c.Released flgptn l (c'.request b) :=
  ⟨h.served, h.others, h.waits, h.ready, h.timeouts, h.callback, h.reg⟩

/-- `set_flg` and `iset_flg` for an event flag that exists, in any state with the invariant: the
tasks that are released, the flag afterwards, and the loop on the links. -/
theorem setFlg_released {o : Obj FLGCB} (h : CoreInv cfg noD o.core) (ctx : Ctx) (flgid : ID)
    (setptn : FLGPTN)
    (hl : ∀ p ∈ [(o.core.ctxUnl ctx, E_CTX), (cfg.flg.valid flgid, E_ID)], p.1 = true)
    (hex : o.core.noWobj (.FLG, index flgid) = false) :
    let i := index flgid
    let flgatr := o.core.wobjatr (.FLG, i)
    let queue := o.core.sched.queue (.wait (.FLG, i))
    let flgptn := (o.cb i).flgptn ||| setptn
    let released := flgReleased flgatr (o.core.flgMeets flgptn) queue
    let r := setFlgWith cfg o ctx flgid setptn
    r.ercd = some E_OK ∧ o.core.Released flgptn released r.st.core ∧
      r.st.cb = Function.update o.cb i
        { o.cb i with flgptn := flgLeft flgatr flgptn released } ∧
      ∀ m : TaskLinks, m.Holds o.core.sched.queue → ∀ n, queue.length < n → ∃ m' c' p b,
        setFlgScan flgatr (.FLG, i) n (m.next (.head (.wait (.FLG, i)))) m o.core flgptn =
          some (m', c', p, b) ∧
        r = ((o.setCore c').setCb i { o.cb i with flgptn := p }).ok ctx b .none ∧
        m'.Holds r.st.core.sched.queue := by
  intro i flgatr queue flgptn released r
  have hn : queue.Nodup := h.sched.linked.nodup _
  obtain ⟨hcore, hptn⟩ := setFlgLoop_eq (c := o.core) flgatr flgptn hn
  have hr : r = ((o.setCore (setFlgLoop flgatr queue o.core flgptn).1).setCb i
      { o.cb i with flgptn := (setFlgLoop flgatr queue o.core flgptn).2.1 }).ok ctx
        (setFlgLoop flgatr queue o.core flgptn).2.2 .none :=
    (check_pass hl).trans (if_neg (Bool.eq_false_iff.1 hex))
  have hrel : o.core.Released flgptn released (setFlgLoop flgatr queue o.core flgptn).1 := by
    rw [hcore]
    have hsub := flgReleased_sublist flgatr (o.core.flgMeets flgptn) queue
    exact h.released (fun t ht => hsub.subset ht) (hn.sublist hsub) flgptn
  refine ⟨?_, ?_, ?_, ?_⟩
  · rw [hr]
    cases ctx <;> rfl
  · rw [hr]
    cases ctx with
    | tsk => exact hrel
    | int => exact hrel.request _
  · rw [hr, ← hptn]
    cases ctx <;> rfl
  · intro m hm n hn
    obtain ⟨m', he, hm'⟩ := setFlgScan_eq flgatr flgptn h hm (List.nil_append _).symm hn
    rw [hm.next_head]
    refine ⟨m', _, _, _, he, hr, ?_⟩
    rw [hr]
    cases ctx <;> exact hm'

/-- Both tasks wait for the event flag, and a handler sets both bits. -/
theorem setFlg_released_both : ∃ k, Kernel.steps .small [.call (.actTsk 2),
      .call (.waiFlg 1 1 TWF_ORW), .call (.waiFlg 1 2 TWF_ANDW), .intEnter] = some k ∧
    k.core.sched.queue (.wait (.FLG, 0)) = [0, 1] ∧
    (setFlgWith .small ⟨k.core, k.flg⟩ .int 1 3).ercd = some E_OK ∧
    k.core.Released 3 [0, 1] (setFlgWith .small ⟨k.core, k.flg⟩ .int 1 3).st.core := by
  have h : ((Kernel.steps .small [.call (.actTsk 2), .call (.waiFlg 1 1 TWF_ORW),
      .call (.waiFlg 1 2 TWF_ANDW), .intEnter]).any fun k =>
      decide (k.core.sched.queue (.wait (.FLG, 0)) = [0, 1] ∧ (k.flg 0).flgptn ||| 3 = 3 ∧
        flgReleased (k.core.wobjatr (.FLG, 0)) (k.core.flgMeets 3)
          (k.core.sched.queue (.wait (.FLG, 0))) = [0, 1] ∧
        k.core.ctxUnl .int = true ∧ k.core.noWobj (.FLG, 0) = false)) = true := by
    decide +kernel
  obtain ⟨k, hk, h⟩ := (Option.any_eq_true _ _).1 h
  obtain ⟨hq, hp, hr, hc, hex⟩ := of_decide_eq_true h
  have hl : ∀ p ∈ [(k.core.ctxUnl .int, E_CTX), (Cfg.small.flg.valid 1, E_ID)], p.1 = true := by
    rw [hc]
    decide
  obtain ⟨he, hrel, -⟩ := setFlg_released (o := ⟨k.core, k.flg⟩)
    (reachable_of_steps hk).runInv.inv .int 1 3 hl hex
  refine ⟨k, hk, hq, he, ?_⟩
  change k.core.Released ((k.flg 0).flgptn ||| 3) (flgReleased (k.core.wobjatr (.FLG, 0))
    (k.core.flgMeets ((k.flg 0).flgptn ||| 3)) (k.core.sched.queue (.wait (.FLG, 0)))) _ at hrel
  rw [hp, hr] at hrel
  exact hrel

end

end AspKernel
