import AspKernel.SysArch
import AspKernel.ThreadTurn
import AspKernel.Lib.Token

/-! The critical section of lwIP. -/

namespace AspKernel.SysArch
open App
set_option autoImplicit true

inductive ProtectApi
  | sysInit
  | sysArchProtect (lwipSysMutex : ID)
  | sysArchUnprotect (lwipSysMutex : ID)

abbrev ProtectApi.Res : ProtectApi → Type
  | .sysInit => ID
  | .sysArchProtect _ => Int
  | .sysArchUnprotect _ => Unit

def protectLib : Library where
  Api := ProtectApi
  Res := ProtectApi.Res
  code
    | .sysInit => sysInit
    | .sysArchProtect lwipSysMutex => sysArchProtect lwipSysMutex
    | .sysArchUnprotect lwipSysMutex => sysArchUnprotect lwipSysMutex

/-- What a call that returns adds to the depth of its caller. -/
def ProtectApi.delta : ProtectApi → Int
  | .sysInit => 0
  | .sysArchProtect _ => 1
  | .sysArchUnprotect _ => -1

/-- How deep a task or a handler is in sections. -/
def depth (s : Sys protectLib) (v : Party) : Int :=
  ((s.own v).map fun r => ProtectApi.delta r.api).sum

/-- `sys_init` returns, and no one is within a function. -/
def Made (cfg : Cfg) (id : ID) (s : Sys protectLib) : Prop :=
  ∃ s0 x w hist, App.Reachable cfg s0 ∧ App.Step cfg s0 x s ∧
    s.rets = s0.rets ++ [⟨w, .sysInit, hist, id⟩] ∧ ∀ v, s.thread v = .idle

/-- The step is one of programs that bracket their sections, and of a system that leaves the
semaphore of the section to them. -/
def Brackets (id : ID) (s : Sys protectLib) : Act protectLib → Prop
  | .start .sysInit => False
  | .start (.sysArchProtect m) => m = id
  | .start (.sysArchUnprotect m) => m = id ∧ ∀ v, party s.kernel = some v → 0 < depth s v
  | .kernel (.call call) =>
    ∀ m, call.object = some (.wobj .SEM, m) → index m = index id → call = .refSem m
  | _ => True

/-- No one who is in a section enters another one. -/
def Flat (s : Sys protectLib) : Act protectLib → Prop
  | .start (.sysArchProtect _) => ∀ v, party s.kernel = some v → depth s v = 0
  | _ => True

/-- What the critical section is for. -/
structure Guards (id : ID) (s : Sys protectLib) : Prop where
  inner : ∀ v, 0 < depth s v → ∀ a hist call f, s.thread v ≠ .wait a hist call f
  excl : ∀ v w, 0 < depth s v → 0 < depth s w → v = w
  free : (∀ v, depth s v = 0) → (s.kernel.sem (index id)).semcnt = 1 ∧
    s.kernel.core.sched.queue (.wait (.SEM, index id)) = []

/-- What a step makes of a task or a handler that makes no service call in it. -/
inductive Part (id : ID) (s s' : Sys protectLib) (v : Party) : Prop
  | rest (hd : depth s' v = depth s v) (ha : ∀ a, (s'.thread v).api = some a →
      a = .sysArchProtect id ∧ depth s v = 0 ∨ a = .sysArchUnprotect id ∧ depth s v = 1)
    (hw : ∀ a hist call f, s'.thread v = .wait a hist call f → s.thread v = .wait a hist call f)
    (hs : ∀ t, v = .task t → t ∉ s.kernel.core.served s'.kernel.core (.SEM, index id))
  | served (hv : v = .task t) (hs : t ∈ s.kernel.core.served s'.kernel.core (.SEM, index id))
    (hd : depth s v = 0 ∧ depth s' v = 1) (hi : s'.thread v = .idle)

/-- Where a task or a handler may be. -/
structure Placed (id : ID) (s : Sys protectLib) (v : Party) : Prop where
  api : ∀ a, (s.thread v).api = some a →
    a = .sysArchProtect id ∧ depth s v = 0 ∨ a = .sysArchUnprotect id ∧ depth s v = 1
  wait : ∀ a hist call f, s.thread v = .wait a hist call f → a = .sysArchProtect id
  flat : depth s v = 0 ∨ depth s v = 1
  handler : ∀ n, v = .handler n → depth s v = 0

/-- A holder is at depth 1, and its section is the one that the semaphore guards. -/
structure Held (id : ID) (s : Sys protectLib) : Prop where
  exist : s.kernel.core.atr (.wobj .SEM) (index id) ≠ TA_NOEXS
  token : Token true (s.kernel.sem (index id)).semcnt
    (s.kernel.core.sched.queue (.wait (.SEM, index id))) fun t => decide (depth s (.task t) = 1)
  waits : ∀ t ∈ s.kernel.core.sched.queue (.wait (.SEM, index id)), ∃ hist f,
    s.thread (.task t) = .wait (.sysArchProtect id) hist (.waiSem id) f
  place : ∀ v, Placed id s v

/-- The functions of a section. -/
def ProtectApi.Brackets (id : ID) (a : ProtectApi) : Prop :=
  a = .sysArchProtect id ∨ a = .sysArchUnprotect id

section
variable {cfg : Cfg} {id : ID} {s s' : Sys protectLib} {x : Act protectLib} {v : Party}
  {a : ProtectApi} {hist : Hist} {call : Call}

theorem Held.guards (h : Held id s) : Guards id s := by
  have inside {v : Party} (hv : 0 < depth s v) :
      ∃ t, v = .task t ∧ decide (depth s (.task t) = 1) = true := by
    have h1 := (h.place v).flat.resolve_left fun h0 => absurd hv (by omega)
    cases v with
    | handler n => exact absurd ((h.place _).handler n rfl) (by omega)
    | task t => exact ⟨t, rfl, decide_eq_true h1⟩
  refine ⟨fun v hv a hist call f ht => ?_, fun v w hv hw => ?_, fun h0 => ?_⟩
  · rcases (h.place v).api a (by rw [ht]; rfl) with ⟨-, h0⟩ | ⟨he, -⟩
    · omega
    · exact nomatch he.symm.trans ((h.place v).wait a hist call f ht)
  · obtain ⟨t, rfl, ht⟩ := inside hv
    obtain ⟨u, rfl, hu⟩ := inside hw
    exact congrArg _ (h.token.uniq ht hu)
  · have hi := h.token.idle fun t => decide_eq_false fun h1 => absurd (h0 (.task t)) (by omega)
    exact ⟨hi.1.2 rfl, hi.2 rfl⟩

/-- What follows a service call returns unless the call has failed. -/
def Checked (b : α) (f : ER × AspKernel.Out → Code α) : Prop :=
  ∀ ercd out, (ercd = E_OK → f (ercd, out) = .ret b) ∧
    (ercd ≠ E_OK → ∃ g, f (ercd, out) = .call .exit g)

theorem Checked.of_trace {c : Call} {f k : ER × AspKernel.Out → Code α} (hk : Checked b k)
    (h : Prog.Trace (.call (.svc c) k) hist (.call (.svc call) f)) : call = c ∧ Checked b f := by
  rcases h.to_call with ⟨-, he⟩ | ⟨⟨ercd, out⟩, t, l, -, h'⟩
  · cases he
    exact ⟨rfl, hk⟩
  · by_cases ho : ercd = E_OK
    · rw [(hk ercd out).1 ho] at h'
      cases h'
    · obtain ⟨g, hg⟩ := (hk ercd out).2 ho
      rw [hg] at h'
      rcases h'.to_call with ⟨-, he⟩ | ⟨r, -⟩
      · cases he
      · cases r

theorem Checked.op_of_trace {c : Call} {k : ER × AspKernel.Out → Code α} {f : op.Out → Code α}
    (hk : Checked b k) (h : Prog.Trace (.call (.svc c) k) hist (.call op f)) :
    op = .svc c ∨ op = .exit := by
  rcases h.to_call with ⟨-, he⟩ | ⟨⟨ercd, out⟩, t, l, -, h'⟩
  · cases he
    exact .inl rfl
  · by_cases ho : ercd = E_OK
    · rw [(hk ercd out).1 ho] at h'
      cases h'
    · obtain ⟨g, hg⟩ := (hk ercd out).2 ho
      rw [hg] at h'
      rcases h'.to_call with ⟨-, he⟩ | ⟨r, -⟩
      · cases he
        exact .inr rfl
      · cases r

theorem bracket_op {f : op.Out → Code (protectLib.Res a)} (ha : a.Brackets id)
    (h : Prog.Trace (protectLib.code a) hist (.call op f)) : (∃ call, op = .svc call) ∨ op = .exit := by
  rcases ha with rfl | rfl
  · exact (Checked.op_of_trace (b := (1 : Int))
      (fun ercd out => ⟨fun ho => if_neg (not_not.2 ho), fun ho => ⟨_, if_pos ho⟩⟩) h).imp_left
        fun he => ⟨_, he⟩
  · exact (Checked.op_of_trace (b := ())
      (fun ercd out => ⟨fun ho => if_neg (not_not.2 ho), fun ho => ⟨_, if_pos ho⟩⟩) h).imp_left
        fun he => ⟨_, he⟩

theorem bracket_call {f : ER × AspKernel.Out → Code (protectLib.Res a)} (ha : a.Brackets id)
    (h : Prog.Trace (protectLib.code a) hist (.call (.svc call) f)) :
    (a = .sysArchProtect id ∧ call = .waiSem id ∨ a = .sysArchUnprotect id ∧ call = .sigSem id) ∧
      ∃ b, Checked b f := by
  rcases ha with rfl | rfl
  · obtain ⟨hc, hf⟩ := Checked.of_trace (b := (1 : Int))
      (fun ercd out => ⟨fun ho => if_neg (not_not.2 ho), fun ho => ⟨_, if_pos ho⟩⟩) h
    exact ⟨.inl ⟨rfl, hc⟩, _, hf⟩
  · obtain ⟨hc, hf⟩ := Checked.of_trace (b := ())
      (fun ercd out => ⟨fun ho => if_neg (not_not.2 ho), fun ho => ⟨_, if_pos ho⟩⟩) h
    exact ⟨.inr ⟨rfl, hc⟩, _, hf⟩

theorem next_ok {L : Library} {a : L.Api} {b : L.Res a} {f : ER × AspKernel.Out → Code (L.Res a)}
    (h : Checked b f) : Thread.next v a hist (.svc call) f (E_OK, out) time =
      (.idle, [⟨v, a, hist ++ [⟨.svc call, (E_OK, out), time⟩], b⟩]) := by
  unfold Thread.next
  rw [(h E_OK out).1 rfl]
  rfl

theorem next_err {L : Library} {a : L.Api} {b : L.Res a} {f : ER × AspKernel.Out → Code (L.Res a)}
    (h : Checked b f) (he : ercd ≠ E_OK) : ∃ hist' g, Thread.next v a hist (.svc call) f (ercd, out) n =
      (.run a hist' .exit g, []) := by
  unfold Thread.next
  obtain ⟨g, hg⟩ := (h ercd out).2 he
  rw [hg]
  exact ⟨_, g, rfl⟩

theorem depth_append (h : s'.own v = s.own v ++ l) :
    depth s' v = depth s v + (l.map fun r => ProtectApi.delta r.api).sum := by
  unfold depth
  rw [h, List.map_append, List.sum_append]

theorem Held.brackets (h : Held id s) (ha : (s.thread v).api = some a) : a.Brackets id := by
  rcases (h.place v).api a ha with ⟨h1, -⟩ | ⟨h1, -⟩
  · exact .inl h1
  · exact .inr h1

theorem Held.part (h : Held id s) (hI : s.Inv cfg) (hx : App.Step cfg s x s')
    (hb : Brackets id s x) (hf : Flat s x) (v : Party) (hv : x = .run → party s.kernel ≠ some v) :
    Part id s s' v := by
  obtain ⟨r, hr, hth, hown⟩ := step_turn hI.range hx v
  have hd := depth_append hown
  cases hr with
  | same hp hw =>
    simp only at hth
    refine .rest (hd.trans (add_zero _)) (fun a ha => (h.place v).api a (hth ▸ ha))
      (fun a hist call f ht => hth ▸ ht) fun t hvt hs => ?_
    subst hvt
    obtain ⟨hq, hc⟩ := List.mem_filter.1 hs
    obtain ⟨hist, f, ht⟩ := h.waits t hq
    rcases hw t _ hist _ f rfl ht with hk | ⟨e, -, -, -, hc'⟩
    · exact hI.cell hq _ (hk ▸ of_decide_eq_true hc)
    · exact hc' _ (of_decide_eq_true hc)
  | ended he hs hvt ht =>
    refine .rest (hd.trans (add_zero _)) (fun a ha => ?_) (fun a hist call f ht => ?_)
      fun t _ hm => ?_
    · rw [hth] at ha
      cases ha
    · rw [hth] at ht
      cases ht
    · rw [(sem_other hI.kernel hs h.exist fun call m he' ho =>
        absurd ho (ended_object (he' ▸ ht) _ m)).2.served] at hm
      cases hm
  | start hxs hp hi hk =>
    rename_i a
    subst hxs
    have hrun : ∃ op g, Thread.go v a [] (protectLib.code a) = (.run a [] op g, []) := by
      cases a <;> exact ⟨_, _, rfl⟩
    obtain ⟨op, g, hr⟩ := hrun
    rw [hr] at hth hd
    refine .rest (hd.trans (add_zero _)) (fun a' ha => ?_) (fun a hist call f ht => ?_)
      fun t hvt hs => ?_
    · rw [hth] at ha
      cases ha
      cases a with
      | sysInit => exact hb.elim
      | sysArchProtect m => exact .inl ⟨congrArg _ hb, hf v hp⟩
      | sysArchUnprotect m =>
        have hpos := hb.2 v hp
        exact .inr ⟨congrArg _ hb.1, (h.place v).flat.resolve_left fun h0 => absurd hpos (by omega)⟩
    · rw [hth] at ht
      cases ht
    · subst hvt
      obtain ⟨hist, f, ht⟩ := h.waits t (List.mem_filter.1 hs).1
      exact nomatch hi.symm.trans ht
  | op hr hp => exact absurd hp (hv hr)
  | svc hr hp => exact absurd hp (hv hr)
  | block hr hp => exact absurd hp (hv hr)
  | woken hvt ht he hs hn hc =>
    rename_i t a hist call f e ercd
    subst hvt
    have hap : (s.thread (.task t)).api = some a := by
      rw [ht]
      rfl
    obtain ⟨hcall, b, hch⟩ := bracket_call (h.brackets hap) (hI.trace_wait ht)
    cases (h.place _).wait _ _ _ _ ht
    rcases hcall with ⟨-, rfl⟩ | ⟨he, -⟩
    · have hq := hI.mem ht (waitsIn_waiSem cfg id)
      have h0 : depth s (.task t) = 0 := by
        rcases (h.place _).api _ hap with ⟨-, h0⟩ | ⟨he, -⟩
        · exact h0
        · cases he
      by_cases ho : ercd = E_OK
      · subst ho
        rw [next_ok hch] at hth hd
        refine .served rfl (List.mem_filter.2 ⟨hq, decide_eq_true hc⟩) ⟨h0, ?_⟩ hth
        rw [hd, h0]
        rfl
      · obtain ⟨hist', g, hr⟩ := next_err (v := .task t) (n := s.clock) hch ho
        rw [hr] at hth hd
        refine .rest (hd.trans (add_zero _)) (fun a' ha => ?_) (fun a hist call f ht => ?_)
          fun u hu hs => ?_
        · rw [hth] at ha
          cases ha
          exact .inl ⟨rfl, h0⟩
        · rw [hth] at ht
          cases ht
        · cases hu
          exact ho (WCell.wercd.inj (hc.symm.trans (of_decide_eq_true (List.mem_filter.1 hs).2)))
    · cases he

theorem Part.placed (hp : Part id s s' v) (h : Placed id s v) : Placed id s' v := by
  cases hp with
  | rest hd ha hw =>
    refine ⟨fun a hap => ?_, fun a hist call f ht => h.wait a hist call f (hw a hist call f ht), ?_,
      fun n hn => ?_⟩
    · rw [hd]
      exact ha a hap
    · rw [hd]
      exact h.flat
    · rw [hd]
      exact h.handler n hn
  | served hv hs hd hi =>
    refine ⟨fun a hap => ?_, fun a hist call f ht => ?_, .inr hd.2, fun n hn => ?_⟩
    · rw [hi] at hap
      cases hap
    · rw [hi] at ht
      cases ht
    · cases hv.symm.trans hn

theorem Part.depth_eq (hp : Part id s s' v)
    (hs : s.kernel.core.served s'.kernel.core (.SEM, index id) = []) : depth s' v = depth s v := by
  cases hp with
  | rest hd => exact hd
  | served hv ht =>
    rw [hs] at ht
    cases ht

/-- A step that leaves the semaphore alone, and serves no one who waits for it. -/
theorem Held.quiet (h : Held id s) (hI : s.Inv cfg) (hx : App.Step cfg s x s')
    (hp : ∀ v, Placed id s' v ∧ depth s' v = depth s v)
    (he : s'.kernel.core.atr (.wobj .SEM) (index id) ≠ TA_NOEXS)
    (hc : (s'.kernel.sem (index id)).semcnt = (s.kernel.sem (index id)).semcnt)
    (hq : ∀ t ∈ s'.kernel.core.sched.queue (.wait (.SEM, index id)),
      t ∈ s.kernel.core.sched.queue (.wait (.SEM, index id))) : Held id s' := by
  refine ⟨he, ?_, fun t ht => ?_, fun v => (hp v).1⟩
  · rw [hc]
    simp only [fun t => (hp (.task t)).2]
    refine h.token.perm fun hn => List.eq_nil_iff_forall_not_mem.2 fun t ht => ?_
    have hm := hq t ht
    rw [hn] at hm
    cases hm
  · obtain ⟨hist, f, hth⟩ := h.waits t (hq t ht)
    exact ⟨hist, f, hI.waiting hx hth (waitsIn_waiSem cfg id) ht⟩

/-- Who holds the section after a step that moves one task. -/
theorem holders (hd : ∀ u, Party.task u ≠ .task t → depth s' (.task u) = depth s (.task u)) :
    (fun u => decide (depth s' (.task u) = 1)) =
      Function.update (fun u => decide (depth s (.task u) = 1)) t
        (decide (depth s' (.task t) = 1)) := by
  funext u
  by_cases hu : u = t
  · subst hu
    rw [Function.update_self]
  · rw [Function.update_of_ne hu, hd u fun he => hu (Party.task.inj he)]

theorem Held.svc {f : ER × AspKernel.Out → Code (protectLib.Res a)} (h : Held id s)
    (hI : s.Inv cfg) (hx : App.Step cfg s .run s') (hp : party s.kernel = some v)
    (ht : s.thread v = .run a hist (.svc call) f) : Held id s' := by
  have hap : (s.thread v).api = some a := by
    rw [ht]
    rfl
  obtain ⟨hcall, b, hch⟩ := bracket_call (h.brackets hap) (hI.trace_run ht)
  have hobj : call.object = some (.wobj .SEM, id) ∧ call.del = none ∧
      ended cfg s.kernel (.call call) = none := by
    rcases hcall with ⟨-, rfl⟩ | ⟨-, rfl⟩ <;> exact ⟨rfl, rfl, rfl⟩
  obtain ⟨r, hr, hth, hown⟩ := step_turn hI.range hx v
  obtain ⟨hs, hres⟩ := hr.of_run hp ht hobj.2.2
  have hd := depth_append hown
  have hparts (w : Party) (hw : w ≠ v) : Part id s s' w :=
    h.part hI hx trivial trivial w fun _ hp' => hw (Option.some.inj (hp'.symm.trans hp))
  have hplace (w : Party) (hw : w ≠ v) : Placed id s' w := (hparts w hw).placed (h.place w)
  have hex : s'.kernel.core.atr (.wobj .SEM) (index id) ≠ TA_NOEXS := by
    rw [hI.kernel.atr_keep hs h.exist fun c hc => by cases hc; rw [hobj.2.1]; nofun]
    exact h.exist
  have hsem := semCall_step hI.kernel.runInv hs hobj.1
  have hdepth := (h.place v).api a hap
  have htask (ha : a = .sysArchProtect id)
      (hno : ∀ e, (exec cfg s.kernel call).ercd = some e → e = E_OK) : ∃ t, v = .task t := by
    rcases hcall with ⟨-, rfl⟩ | ⟨hu, -⟩
    · rcases exec_rejected cfg s.kernel (.waiSem id) with ⟨e, he, hr⟩ | hl
      · exact absurd (hno e (by rw [hr]; rfl)) he
      · exact party_task (hl _ (.head _)) hp
    · exact nomatch ha.symm.trans hu
  have htask' (ha : a = .sysArchUnprotect id) : ∃ t, v = .task t ∧ depth s v = 1 := by
    have h1 := (hdepth.resolve_left fun hu => nomatch ha.symm.trans hu.1).2
    cases v with
    | handler n => exact absurd (h1.symm.trans ((h.place _).handler n rfl)) (by decide)
    | task t => exact ⟨t, rfl, h1⟩
  have hinv := hI.kernel.runInv.inv
  have idle (hi : s'.thread v = .idle) (hf : depth s' v = 0 ∨ depth s' v = 1)
      (hh : ∀ n, v = .handler n → depth s' v = 0) : Placed id s' v := by
    refine ⟨fun a ha => ?_, fun a hist call f ht => ?_, hf, hh⟩
    · rw [hi] at ha
      cases ha
    · rw [hi] at ht
      cases ht
  have all (hv : Placed id s' v) (w : Party) : Placed id s' w := by
    by_cases hw : w = v
    · exact hw ▸ hv
    · exact (hparts w hw).placed (h.place w)
  generalize hre : (exec cfg s.kernel call).ercd = re at hsem hres htask
  cases hsem with
  | err he ha hk =>
    rcases hres with ⟨e, her, rfl⟩ | ⟨hn, -⟩
    · cases her
      obtain ⟨hist', g, hn⟩ := next_err (v := v) (n := s.clock) hch he
      rw [hn] at hth hd
      have hd' : depth s' v = depth s v := hd.trans (add_zero _)
      have hrest := (Idles.of_alike ha).rests hinv (.SEM, index id)
      refine h.quiet hI hx (fun w => ⟨all ⟨fun a' ha => ?_, fun a hist call f ht => ?_, ?_,
        fun n hn => ?_⟩ w, ?_⟩) hex (by rw [hk]) fun t ht => (hrest.mem t ht).1
      · rw [hth] at ha
        cases ha
        rwa [hd']
      · rw [hth] at ht
        cases ht
      · rw [hd']
        exact (h.place v).flat
      · rw [hd']
        exact (h.place v).handler n hn
      · by_cases hw : w = v
        · exact hw ▸ hd'
        · exact (hparts w hw).depth_eq hrest.served
    · cases hn
  | ref hc => rcases hcall with ⟨-, rfl⟩ | ⟨-, rfl⟩ <;> cases hc
  | ini hc => rcases hcall with ⟨-, rfl⟩ | ⟨-, rfl⟩ <;> cases hc
  | del hc => rcases hcall with ⟨-, rfl⟩ | ⟨-, rfl⟩ <;> cases hc
  | acquire hc hv hpos ha hk =>
    rcases hcall with ⟨rfl, rfl⟩ | ⟨-, rfl⟩
    · obtain ⟨t, rfl⟩ := htask rfl fun e he => (Option.some.inj he).symm
      rcases hres with ⟨e, her, rfl⟩ | ⟨hn, -⟩
      · cases her
        rw [next_ok hch] at hth hd
        have hd1 : depth s' (.task t) = 1 := by
          rw [hd, (hdepth.resolve_right fun hu => nomatch hu.1).2]
          rfl
        have hserved := ((Idles.of_alike ha).rests hinv (.SEM, index id)).served
        refine ⟨hex, ?_, fun u hu => ?_, all (idle hth (.inr hd1) nofun)⟩
        · rw [holders fun u hu => (hparts _ hu).depth_eq hserved, hd1, hk, Function.update_self,
            ha.sched]
          exact h.token.take hpos t
        · have hu' := hu
          rw [ha.sched] at hu'
          obtain ⟨hist, f, hw⟩ := h.waits u hu'
          exact ⟨hist, f, hI.waiting hx hw (waitsIn_waiSem cfg id) hu⟩
      · cases hn
    · cases hc
  | wait hc hz hb hk =>
    rcases hcall with ⟨rfl, rfl⟩ | ⟨-, rfl⟩
    · obtain ⟨t, rfl⟩ := htask rfl nofun
      rcases hres with ⟨e, her, -⟩ | ⟨-, rfl⟩
      · cases her
      · have hserved := hb.served hinv (.SEM, index id)
        have hd0 : depth s' (.task t) = depth s (.task t) := hd.trans (add_zero _)
        have hdw (w : Party) : depth s' w = depth s w := by
          by_cases hw : w = .task t
          · exact hw ▸ hd0
          · exact (hparts w hw).depth_eq hserved
        refine ⟨hex, ?_, fun u hu => ?_, all ⟨fun a' ha => ?_, fun a' hist' call' f' hw => ?_, ?_,
          nofun⟩⟩
        · simp only [hdw, hk, hz]
          exact (hz ▸ h.token).enqueue _
        · rcases (hb.mem _ _).1 hu with hm | ⟨-, rfl⟩
          · obtain ⟨hist, f, hw⟩ := h.waits u hm
            exact ⟨hist, f, hI.waiting hx hw (waitsIn_waiSem cfg id) hu⟩
          · rcases (hb.mem _ t).1 ((hI.step hx).mem hth (waitsIn_waiSem cfg id)) with hm | ⟨-, rfl⟩
            · obtain ⟨hist, f, hw⟩ := h.waits t hm
              exact nomatch ht.symm.trans hw
            · exact ⟨hist, f, hth⟩
        · rw [hth] at ha
          cases ha
          exact .inl ⟨rfl, hd0.trans (hdepth.resolve_right fun hu => nomatch hu.1).2⟩
        · rw [hth] at hw
          cases hw
          rfl
        · rw [hd0]
          exact (h.place _).flat
    · cases hc
  | hand hc hv hh hk =>
    rcases hcall with ⟨-, rfl⟩ | ⟨rfl, rfl⟩
    · cases hc
    · rename_i u
      obtain ⟨t, rfl, hd1⟩ := htask' rfl
      rcases hres with ⟨e, her, rfl⟩ | ⟨hn, -⟩
      · cases her
        rw [next_ok hch] at hth hd
        have hd0 : depth s' (.task t) = 0 := by
          rw [hd, hd1]
          rfl
        obtain ⟨hq, hserved, -⟩ := hh.tail hinv
        have hu : u ∈ s.kernel.core.sched.queue (.wait (.SEM, index id)) := hq ▸ List.mem_cons_self
        have hut : u ≠ t := by
          rintro rfl
          obtain ⟨hist, f, hw⟩ := h.waits u hu
          exact nomatch ht.symm.trans hw
        have hdu : depth s' (.task u) = 1 := by
          cases hparts _ fun he => hut (Party.task.inj he) with
          | rest hd ha hw hs => exact absurd (hserved ▸ List.mem_singleton_self u) (hs u rfl)
          | served hv hs hd => exact hd.2
        have hholds : (fun w => decide (depth s' (.task w) = 1)) = Function.update
            (Function.update (fun w => decide (depth s (.task w) = 1)) t false) u true := by
          funext w
          by_cases hwu : w = u
          · rw [hwu, Function.update_self, hdu]
            rfl
          · rw [Function.update_of_ne hwu]
            by_cases hwt : w = t
            · rw [hwt, Function.update_self, hd0]
              rfl
            · rw [Function.update_of_ne hwt]
              cases hparts _ fun he => hwt (Party.task.inj he) with
              | rest hd => rw [hd]
              | served hv hs =>
                cases hv
                rw [hserved] at hs
                exact absurd (List.mem_singleton.1 hs) hwu
        refine ⟨hex, ?_, fun w hw => ?_, all (idle hth (.inl hd0) nofun)⟩
        · rw [hholds, hk]
          exact (h.token.drop (decide_eq_true hd1)).take _ u
        · obtain ⟨hist, f, hw'⟩ := h.waits w (hq ▸ List.mem_cons_of_mem _ hw)
          exact ⟨hist, f, hI.waiting hx hw' (waitsIn_waiSem cfg id) hw⟩
      · cases hn
  | signal hc hv hq hlt ha hk =>
    rcases hcall with ⟨-, rfl⟩ | ⟨rfl, rfl⟩
    · cases hc
    · obtain ⟨t, rfl, hd1⟩ := htask' rfl
      rcases hres with ⟨e, her, rfl⟩ | ⟨hn, -⟩
      · cases her
        rw [next_ok hch] at hth hd
        have hd0 : depth s' (.task t) = 0 := by
          rw [hd, hd1]
          rfl
        have hserved := ((Idles.of_alike ha).rests hinv (.SEM, index id)).served
        have hnil : s.kernel.core.sched.queue (.wait (.SEM, index id)) = [] :=
          List.head?_eq_none_iff.1 hq
        refine ⟨hex, ?_, fun u hu => ?_, all (idle hth (.inl hd0) nofun)⟩
        · rw [holders fun u hu => (hparts _ hu).depth_eq hserved, hd0, hk, Function.update_self,
            ha.sched, hnil]
          exact (h.token.drop (decide_eq_true hd1)).free
        · rw [ha.sched, hnil] at hu
          cases hu
      · cases hn

theorem Held.step (h : Held id s) (hI : s.Inv cfg) (hb : Brackets id s x) (hf : Flat s x)
    (hx : App.Step cfg s x s') : Held id s' := by
  have stays (hv : x ≠ .run) (he : s'.kernel.core.atr (.wobj .SEM) (index id) ≠ TA_NOEXS)
      (hc : s'.kernel.sem (index id) = s.kernel.sem (index id))
      (hr : Rests (.SEM, index id) s.kernel.core s'.kernel.core) : Held id s' := by
    have hp (v : Party) := h.part hI hx hb hf v fun hr => absurd hr hv
    exact h.quiet hI hx (fun v => ⟨(hp v).placed (h.place v), (hp v).depth_eq hr.served⟩) he
      (by rw [hc]) fun t ht => (hr.mem t ht).1
  have same (hk : s'.kernel = s.kernel) : Rests (.SEM, index id) s.kernel.core s'.kernel.core := by
    rw [hk]
    exact ⟨hI.served_self _, fun u hu => ⟨hu, rfl⟩⟩
  cases step_cases hx with
  | start hp hi => exact stays nofun h.exist rfl (same rfl)
  | svc hp ht hs => exact h.svc hI hx hp ht
  | snsCtx hp ht =>
    have ha := h.brackets (v := _) (a := _) (by rw [ht]; rfl)
    rcases bracket_op ha (hI.trace_run ht) with ⟨c, hc⟩ | hc <;> cases hc
  | usTickerRead hp ht =>
    have ha := h.brackets (v := _) (a := _) (by rw [ht]; rfl)
    rcases bracket_op ha (hI.trace_run ht) with ⟨c, hc⟩ | hc <;> cases hc
  | kernel hs =>
    rename_i e k
    by_cases hn : ∀ call m, e = .call call → call.object = some (.wobj .SEM, m) → index m ≠ index id
    · obtain ⟨hk, hr⟩ := sem_other hI.kernel hs h.exist hn
      refine stays nofun ?_ hk hr
      change k.core.atr _ _ ≠ _
      rw [hI.kernel.atr_keep hs h.exist fun call he hd => hn call _ he (Call.object_of_del hd) (index_toId _)]
      exact h.exist
    · push Not at hn
      obtain ⟨call, m, rfl, ho, hm⟩ := hn
      cases hb m ho hm
      have hq : k.sem = s.kernel.sem ∧ s.kernel.core.Alike k.core := by
        have hsem := semCall_step hI.kernel.runInv hs ho
        generalize (AspKernel.exec cfg s.kernel (.refSem m)).ercd = re at hsem
        cases hsem with
        | err he ha hk => exact ⟨hk, ha⟩
        | ref hc ha hk => exact ⟨hk, ha⟩
        | hand hc => cases hc
        | signal hc => cases hc
        | acquire hc => cases hc
        | wait hc => cases hc
        | ini hc => cases hc
        | del hc => cases hc
      refine stays nofun ?_ (congrFun hq.1 _) ((Idles.of_alike hq.2).rests hI.kernel.runInv.inv _)
      change k.core.atr _ _ ≠ _
      rw [hI.kernel.atr_keep hs h.exist nofun]
      exact h.exist
  | elapse => exact stays nofun h.exist rfl (same rfl)

/-- `sys_init` creates a semaphore after it has read the ticker. -/
theorem sysInit_ret (h : Prog.Trace sysInit hist (.ret id)) : ∃ r t out t',
    hist = [⟨.usTickerRead, r, t⟩] ++ [⟨.svc (.acreSem ⟨TA_NULL, 1, 1⟩), (id, out), t'⟩] ∧
      0 ≤ id := by
  obtain ⟨r, t, l, rfl, h'⟩ := h.of_call
  obtain ⟨⟨ercd, out⟩, t', l, rfl, h2⟩ := h'.of_call
  change Prog.Trace (if ercd < 0 then _ else _) _ _ at h2
  split at h2
  · obtain ⟨r, -⟩ := h2.of_call
    cases r
  · obtain ⟨rfl, rfl⟩ := h2.of_ret
    exact ⟨r, t, out, t', rfl, Int.not_lt.1 ‹_›⟩

theorem Made.created (h : Made cfg id s) : ∃ k, AspKernel.Reachable cfg k ∧
    AspKernel.Step cfg k (.call (.acreSem ⟨TA_NULL, 1, 1⟩)) s.kernel ∧
    (exec cfg k (.acreSem ⟨TA_NULL, 1, 1⟩)).ercd = some id ∧ 0 ≤ id := by
  obtain ⟨s0, x, w, hist, h0, hx, hrets, hi⟩ := h
  have hI := h0.inv
  obtain ⟨r, hr, -, hown⟩ := step_turn hI.range hx w
  have hret : r.2 = [⟨w, .sysInit, hist, id⟩] := by
    refine List.append_cancel_left (hown.symm.trans ?_)
    unfold Sys.own
    rw [hrets, List.filter_append]
    exact congrArg _ (List.filter_cons_of_pos (decide_eq_true rfl))
  have hm : ⟨w, .sysInit, hist, id⟩ ∈ s.rets :=
    hrets ▸ List.mem_append_right _ (List.mem_singleton_self _)
  obtain ⟨r', t, out, t', hhist, hid⟩ := sysInit_ret ((hI.step hx).logged.ret _ hm).trace
  obtain ⟨hs, he⟩ := hr.last_svc hI (hret ▸ List.mem_singleton_self _) hhist fun k hk hn => by
    exact (acre_sem (fun i hi => (hk.range (.wobj .SEM) i hi).2) ⟨TA_NULL, 1, 1⟩).ercd_ne hn
  exact ⟨s0.kernel, hI.kernel, hs, he, hid⟩

theorem Made.held (h : Made cfg id s) : s.Inv cfg ∧ Held id s.fresh := by
  obtain ⟨k, hk, hs, hr, hid⟩ := h.created
  obtain ⟨s0, x, w, hist, h0, hx, -, hi⟩ := h
  obtain ⟨-, he, hsem, hq⟩ := sem_created hk hs hr hid
  refine ⟨h0.inv.step hx, he, ?_, fun t ht => ?_, fun v => ⟨fun a ha => ?_, fun a hist call f ht => ?_,
    .inl rfl, fun n hn => rfl⟩⟩
  · change Token true (s.kernel.sem _).semcnt (s.kernel.core.sched.queue _) fun t => decide ((0 : Int) = 1)
    rw [hsem, hq]
    exact Token.Due.free ⟨rfl, fun t => rfl⟩
  · change t ∈ s.kernel.core.sched.queue _ at ht
    rw [hq] at ht
    cases ht
  · change (s.thread v).api = _ at ha
    rw [hi] at ha
    cases ha
  · exact nomatch (hi v).symm.trans ht

/-- As long as no one enters a section from within one, the sections exclude each other. -/
theorem protect_guards (h : Made cfg id s)
    (hr : Trans.Run (fun s x s' => (Brackets id s x ∧ Flat s x) ∧ App.Step cfg s x s') s.fresh xs s') :
    Guards id s' := by
  obtain ⟨hI, hH⟩ := h.held
  refine (hr.invariant (I := fun s => s.Inv cfg ∧ Held id s) (fun t x u ht hx => ?_)
    ⟨hI.fresh, hH⟩).2.guards
  exact ⟨ht.1.step hx.2, ht.2.step ht.1 hx.1.1 hx.1.2 hx.2⟩

/-- The semaphore where nothing but `sys_init` has returned. -/
def madeId (s : Sys protectLib) : Option ID :=
  match s.rets with
  | [⟨_, ProtectApi.sysInit, _, id⟩] => some id
  | _ => none

/-- The first task calls `sys_init`, and goes on with the steps `xs`. -/
def initThen (cfg : Cfg) (id : ID) (xs : List (Act protectLib)) (p : Sys protectLib → Bool) : Bool :=
  ([.start ProtectApi.sysInit, .run].foldlM (Sys.solo cfg (.task 0)) (Sys.boot cfg)).any fun s0 =>
    s0.rets.isEmpty && (s0.solo cfg (.task 0) .run).any fun s =>
      (s.thread (.task 0)).isIdle && decide (madeId s = some id) &&
        (xs.foldlM (Sys.solo cfg (.task 0)) s.fresh).any p

theorem initThen_made {xs : List (Act protectLib)} (h : initThen cfg id xs p = true) :
    ∃ s s', Made cfg id s ∧ xs.foldlM (Sys.solo cfg (.task 0)) s.fresh = some s' ∧ p s' = true := by
  obtain ⟨s0, h0, h⟩ := (Option.any_eq_true _ _).1 h
  obtain ⟨hnil, h⟩ := Bool.and_eq_true_iff.1 h
  obtain ⟨s, hx, h⟩ := (Option.any_eq_true _ _).1 h
  obtain ⟨h, hs'⟩ := Bool.and_eq_true_iff.1 h
  obtain ⟨hidle, hid⟩ := Bool.and_eq_true_iff.1 h
  obtain ⟨s', hr, hp⟩ := (Option.any_eq_true _ _).1 hs'
  obtain ⟨hrun, hi⟩ := solo_run (App.Reachable.inv ⟨[], .nil⟩) h0 fun _ _ => rfl
  have hreach : App.Reachable cfg s0 := ⟨_, hrun⟩
  have hid' := of_decide_eq_true hid
  unfold madeId at hid'
  split at hid'
  · rename_i w hist id' hrets
    cases hid'
    refine ⟨s, s', ⟨s0, .run, w, hist, hreach, step_of_solo hx, ?_, fun v => ?_⟩, hr, hp⟩
    · rw [List.isEmpty_iff.1 hnil]
      exact hrets
    · by_cases hv : v = .task 0
      · subst hv
        unfold Thread.isIdle at hidle
        split at hidle
        · assumption
        · cases hidle
      · exact solo_idle hreach.inv hx hv (hi v hv)
  · cases hid'

theorem protect_guards_once : ∃ s xs s', Made .free 2 s ∧
    Trans.Run (fun s x s' => (Brackets 2 s x ∧ Flat s x) ∧ App.Step .free s x s') s.fresh xs s' ∧
    0 < depth s' (.task 0) ∧ Guards 2 s' := by
  have h : initThen .free 2 [.start (.sysArchProtect 2), .run]
      (fun s => decide (0 < depth s (.task 0))) = true := by
    decide +kernel
  obtain ⟨s, s', hm, hr, hd⟩ := initThen_made h
  obtain ⟨s1, h1, hr⟩ := Option.bind_eq_some_iff.1 hr
  obtain ⟨s2, h2, hr⟩ := Option.bind_eq_some_iff.1 hr
  cases hr
  have hrun : Trans.Run (fun s x s' => (Brackets 2 s x ∧ Flat s x) ∧ App.Step .free s x s') s.fresh
      [.start (.sysArchProtect 2), .run] s' :=
    .snoc (.snoc .nil ⟨⟨rfl, fun _ _ => rfl⟩, step_of_solo h1⟩) ⟨⟨trivial, trivial⟩, step_of_solo h2⟩
  exact ⟨s, _, s', hm, hrun, of_decide_eq_true hd, protect_guards hm hrun⟩

/-- A task blocks itself when it enters a section from within one. -/
theorem protect_blocks : ¬∀ cfg id s xs s', Made cfg id s →
    Trans.Run (fun s x s' => Brackets id s x ∧ App.Step cfg s x s') s.fresh xs s' → Guards id s' := by
  intro h
  have hb : initThen .free 2 [.start (.sysArchProtect 2), .run, .start (.sysArchProtect 2), .run]
      (fun s => decide (0 < depth s (.task 0)) && (s.thread (.task 0)).isWait) = true := by
    decide +kernel
  obtain ⟨s, s', hm, hr, hd⟩ := initThen_made hb
  obtain ⟨hd, hw⟩ := Bool.and_eq_true_iff.1 hd
  have hrun := (Trans.Run.of_foldlM hr).restrict
    (P := fun x => x = .start (.sysArchProtect 2) ∨ x = .run) (fun t x u hP hx =>
      (⟨by rcases hP with rfl | rfl; exacts [rfl, trivial], step_of_solo hx⟩ :
        Brackets 2 t x ∧ App.Step .free t x u)) (by simp)
  cases ht : s'.thread (.task 0) with
  | wait a hist call f => exact (h _ _ _ _ _ hm hrun).inner _ (of_decide_eq_true hd) _ _ _ _ ht
  | idle | run =>
    rw [ht] at hw
    cases hw

end

end AspKernel.SysArch
