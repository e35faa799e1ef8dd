import AspKernel.Thread

namespace AspKernel.App
set_option autoImplicit true

/-- The steps of a system, one constructor for each way. -/
inductive Moved {L : Library} (cfg : Cfg) (s : Sys L) : Act L → Sys L → Prop
  | start (hp : party s.kernel = some w) (hi : s.thread w = .idle) :
    Moved cfg s (.start a) (s.goto w (Thread.go w a [] (L.code a)))
  | svc (hp : party s.kernel = some w) (ht : s.thread w = .run a hist (.svc call) f)
    (hs : AspKernel.Step cfg s.kernel (.call call) k) :
    Moved cfg s .run ((s.after cfg (.call call) k).goto w (s.entered cfg w a hist call f))
  | snsCtx (hp : party s.kernel = some w) (ht : s.thread w = .run a hist .snsCtx f) :
    Moved cfg s .run
      (s.goto w (Thread.next w a hist .snsCtx f s.kernel.core.senseContext s.clock))
  | usTickerRead (hp : party s.kernel = some w) (ht : s.thread w = .run a hist .usTickerRead f) :
    Moved cfg s .run
      (s.goto w (Thread.next w a hist .usTickerRead f (BitVec.ofNat 32 s.clock) s.clock))
  | kernel (hs : AspKernel.Step cfg s.kernel e k) : Moved cfg s (.kernel e) (s.after cfg e k)
  | elapse : Moved cfg s (.elapse us) { s with clock := s.clock + us }

section
variable {L : Library} {cfg : Cfg} {s s' : Sys L} {w : Party} {a : L.Api} {hist : Hist} {k : Kernel}

theorem step_cases (h : Step cfg s x s') : Moved cfg s x s' := by
  unfold Step Sys.step at h
  cases x with
  | start a =>
    simp only at h
    split at h
    · cases h
    · rename_i w hp
      split at h
      · rename_i hi
        cases h
        refine .start hp ?_
        generalize s.thread w = th at hi
        cases th with
        | idle => rfl
        | run => cases hi
        | wait => cases hi
      · cases h
  | run =>
    simp only at h
    split at h
    · cases h
    · rename_i w hp
      split at h
      · rename_i a hist op f ht
        cases op with
        | svc call =>
          obtain ⟨k, hk, rfl⟩ := Option.map_eq_some_iff.1 h
          exact .svc hp ht hk
        | snsCtx =>
          cases h
          exact .snsCtx hp ht
        | usTickerRead =>
          cases h
          exact .usTickerRead hp ht
        | exit => cases h
      · cases h
  | kernel e =>
    simp only at h
    split at h
    · cases h
    · obtain ⟨k, hk, rfl⟩ := Option.map_eq_some_iff.1 h
      exact .kernel hk
  | elapse us =>
    cases h
    exact .elapse

/-- The event of the kernel in a step. -/
def Sys.event (s : Sys L) : Act L → Option Event
  | .kernel e => some e
  | .run =>
    match (party s.kernel).map s.thread with
    | some (.run _ _ (.svc call) _) => some (.call call)
    | _ => none
  | _ => none

theorem step_kernel (h : Step cfg s x s') : s'.kernel = s.kernel ∧ s.event x = none ∨
    ∃ e, s.event x = some e ∧ AspKernel.Step cfg s.kernel e s'.kernel := by
  cases step_cases h with
  | start hp hi => exact .inl ⟨rfl, rfl⟩
  | svc hp ht hs =>
    refine .inr ⟨_, ?_, hs⟩
    unfold Sys.event
    rw [hp, Option.map_some, ht]
  | snsCtx hp ht =>
    refine .inl ⟨rfl, ?_⟩
    unfold Sys.event
    rw [hp, Option.map_some, ht]
  | usTickerRead hp ht =>
    refine .inl ⟨rfl, ?_⟩
    unfold Sys.event
    rw [hp, Option.map_some, ht]
  | kernel hs => exact .inr ⟨_, rfl, hs⟩
  | elapse => exact .inl ⟨rfl, rfl⟩

/-- The kernel of a system is reachable. -/
theorem Reachable.kernel (h : Reachable cfg s) : AspKernel.Reachable cfg s.kernel := by
  obtain ⟨xs, hr⟩ := h
  refine hr.invariant (I := fun s => AspKernel.Reachable cfg s.kernel) (fun t x u ht hx => ?_)
    ⟨[], .nil⟩
  rcases step_kernel hx with ⟨he, -⟩ | ⟨e, -, he⟩
  · rwa [he]
  · obtain ⟨es, hes⟩ := ht
    exact ⟨es ++ [e], hes.snoc he⟩

theorem Reachable.snoc (h : Reachable cfg s) (hx : Step cfg s x s') : Reachable cfg s' := by
  obtain ⟨xs, hr⟩ := h
  exact ⟨xs ++ [x], hr.snoc hx⟩

/-- A reading of the ticker gives the time, as far as it has room. -/
def ticked : Prog.Entry Op Op.Out Nat → Prop
  | ⟨.usTickerRead, r, time⟩ => r = BitVec.ofNat 32 time
  | _ => True

/-- The record of a call that has still to execute `p`. -/
structure Logged (time : Nat) (a : L.Api) (hist : Hist) (p : Code (L.Res a)) : Prop where
  trace : Prog.Trace (L.code a) hist p
  sorted : hist.Pairwise fun x y => x.note ≤ y.note
  past : ∀ x ∈ hist, x.note ≤ time
  tick : ∀ x ∈ hist, ticked x

theorem Logged.nil (time : Nat) (a : L.Api) : Logged time a [] (L.code a) :=
  ⟨.nil, .nil, fun _ hx => (List.not_mem_nil hx).elim, fun _ hx => (List.not_mem_nil hx).elim⟩

theorem Logged.mono {p : Code (L.Res a)} (h : Logged time a hist p) (ht : time ≤ time') :
    Logged time' a hist p :=
  ⟨h.trace, h.sorted, fun x hx => Nat.le_trans (h.past x hx) ht, h.tick⟩

theorem Logged.next {f : op.Out → Code (L.Res a)} (h : Logged time a hist (.call op f)) {r : op.Out}
    (hr : ticked ⟨op, r, time⟩) : Logged time a (hist ++ [⟨op, r, time⟩]) (f r) := by
  refine ⟨h.trace.snoc r time, List.pairwise_append.2 ⟨h.sorted, List.pairwise_singleton _ _, ?_⟩, ?_, ?_⟩
  · intro x hx y hy
    cases List.mem_singleton.1 hy
    exact h.past x hx
  · intro x hx
    rcases List.mem_append.1 hx with hx | hx
    · exact h.past x hx
    · cases List.mem_singleton.1 hx
      exact Nat.le_refl _
  · intro x hx
    rcases List.mem_append.1 hx with hx | hx
    · exact h.tick x hx
    · cases List.mem_singleton.1 hx
      exact hr

def Thread.Logged (time : Nat) : Thread L → Prop
  | .idle => True
  | .run a hist op f => App.Logged time a hist (.call op f)
  | .wait a hist call f => App.Logged time a hist (.call (.svc call) f)

def Ret.Logged (time : Nat) (r : Ret L) : Prop := App.Logged time r.api r.hist (.ret r.res)

/-- All calls are recorded. -/
structure Sys.Logged (s : Sys L) : Prop where
  thread : ∀ w, (s.thread w).Logged s.clock
  ret : ∀ r ∈ s.rets, r.Logged s.clock

/-- A thread and the calls that have returned with it are recorded. -/
def Recorded (time : Nat) (r : Thread L × List (Ret L)) : Prop :=
  r.1.Logged time ∧ ∀ x ∈ r.2, x.Logged time

theorem Recorded.go {p : Code (L.Res a)} (h : Logged time a hist p) :
    Recorded time (Thread.go w a hist p) := by
  cases p with
  | ret v =>
    refine ⟨trivial, fun x hx => ?_⟩
    cases List.mem_singleton.1 hx
    exact h
  | call op f => exact ⟨h, nofun⟩

theorem Recorded.next {f : op.Out → Code (L.Res a)} (h : Logged time a hist (.call op f))
    {r : op.Out} (hr : ticked ⟨op, r, time⟩) :
    Recorded time (Thread.next w a hist op f r time) := .go (h.next hr)

theorem Recorded.wake {th : Thread L} (h : th.Logged time) (p : WInfo) :
    Recorded time (th.wake w p time) := by
  cases th with
  | idle => exact ⟨trivial, nofun⟩
  | run a hist op f => exact ⟨h, nofun⟩
  | wait a hist call f =>
    unfold Thread.wake
    simp only
    split
    · exact .next h trivial
    · exact ⟨h, nofun⟩

theorem Sys.Logged.goto (h : s.Logged) (hr : Recorded s.clock r) : (s.goto w r).Logged := by
  refine ⟨fun v => ?_, fun x hx => ?_⟩
  · change (Function.update s.thread w r.1 v).Logged s.clock
    by_cases hv : v = w
    · subst hv
      rw [Function.update_self]
      exact hr.1
    · rw [Function.update_of_ne hv]
      exact h.thread v
  · rcases List.mem_append.1 hx with hx | hx
    · exact h.ret x hx
    · exact hr.2 x hx

theorem Sys.Logged.after (h : s.Logged) (e : Event) (k : Kernel) : (s.after cfg e k).Logged := by
  have hw t : Recorded s.clock (s.woken cfg e k t) := by
    unfold Sys.woken
    split
    · exact ⟨trivial, nofun⟩
    · exact .wake (h.thread _) _
  refine ⟨fun v => ?_, fun x hx => ?_⟩
  · cases v with
    | task t => exact (hw t).1
    | handler n => exact h.thread (.handler n)
  · rcases List.mem_append.1 hx with hx | hx
    · exact h.ret x hx
    · obtain ⟨t, -, ht⟩ := List.mem_flatMap.1 hx
      exact (hw t).2 x ht

theorem Sys.Logged.step (h : s.Logged) (hx : Step cfg s x s') : s'.Logged := by
  cases step_cases hx with
  | start hp hi => exact h.goto (.go (.nil _ _))
  | svc hp ht hs =>
    rename_i w a hist call f k
    have hl := h.thread w
    rw [ht] at hl
    refine (h.after _ _).goto ?_
    unfold Sys.entered
    simp only
    split
    · exact .next hl trivial
    · refine ⟨?_, nofun⟩
      split
      · exact hl
      · exact trivial
  | snsCtx hp ht =>
    rename_i w a hist f
    have hl := h.thread w
    rw [ht] at hl
    exact h.goto (.next hl trivial)
  | usTickerRead hp ht =>
    rename_i w a hist f
    have hl := h.thread w
    rw [ht] at hl
    exact h.goto (.next hl rfl)
  | kernel hs => exact h.after _ _
  | elapse =>
    refine ⟨fun w => ?_, fun r hr => (h.ret r hr).mono (Nat.le_add_right _ _)⟩
    have hl := h.thread w
    change (s.thread w).Logged (s.clock + _)
    generalize s.thread w = th at hl
    cases th with
    | idle => trivial
    | run => exact App.Logged.mono hl (Nat.le_add_right _ _)
    | wait => exact App.Logged.mono hl (Nat.le_add_right _ _)

theorem Reachable.logged (h : Reachable cfg s) : s.Logged := by
  obtain ⟨xs, hr⟩ := h
  exact hr.invariant (I := Sys.Logged) (fun t x u ht hx => ht.step hx) ⟨fun _ => trivial, nofun⟩

end

end AspKernel.App
