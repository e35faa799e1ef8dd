import AspKernel.Code
import AspKernel.Run

/-! Tasks and interrupt handlers that call the functions above the kernel. -/

namespace AspKernel.App
set_option autoImplicit true

structure Library where
  Api : Type
  Res : Api → Type
  code : (a : Api) → Code (Res a)

/-- Who calls functions: a task, or the interrupt handler at a nesting level. -/
inductive Party
  | task (t : Nat)
  | handler (n : Nat)
  deriving DecidableEq

/-- The operations of a call of a function, with their outcomes and the times of these. -/
abbrev Hist := List (Prog.Entry Op Op.Out Nat)

/-- Where a task or a handler is: outside the functions, before an operation of a function, or
within a service call that waits. -/
inductive Thread (L : Library)
  | idle
  | run (a : L.Api) (hist : Hist) (op : Op) (f : op.Out → Code (L.Res a))
  | wait (a : L.Api) (hist : Hist) (call : Call) (f : ER × AspKernel.Out → Code (L.Res a))

/-- A call of a function that has returned. -/
structure Ret (L : Library) where
  who : Party
  api : L.Api
  hist : Hist
  res : L.Res api

/-- The clock counts microseconds. `rets` is no variable of the system: it records the calls that
have returned. -/
structure Sys (L : Library) where
  kernel : Kernel
  clock : Nat
  thread : Party → Thread L
  rets : List (Ret L)

section
variable {L : Library}

def Thread.isIdle : Thread L → Bool
  | .idle => true
  | _ => false

def Thread.isWait : Thread L → Bool
  | .wait .. => true
  | _ => false

namespace Thread

/-- A function goes on, or has returned. -/
def go (w : Party) (a : L.Api) (hist : Hist) : Code (L.Res a) → Thread L × List (Ret L)
  | .ret v => (.idle, [⟨w, a, hist, v⟩])
  | .call op f => (.run a hist op f, [])

/-- A function that has got an outcome. -/
def next (w : Party) (a : L.Api) (hist : Hist) (op : Op) (f : op.Out → Code (L.Res a)) (r : op.Out)
    (time : Nat) : Thread L × List (Ret L) := go w a (hist ++ [⟨op, r, time⟩]) (f r)

/-- A function within a service call goes on as soon as there is an error code in the waiting
information of its task, which nothing else writes before the task waits again. -/
def wake (w : Party) (p : WInfo) (time : Nat) : Thread L → Thread L × List (Ret L)
  | .wait a hist call f =>
    match p.cell with
    | .wercd ercd => next w a hist (.svc call) f (ercd, call.woken p ercd) time
    | .pTmevtb _ => (.wait a hist call f, [])
  | th => (th, [])

end Thread

end

/-- The task that an event ends. -/
def ended (cfg : Cfg) (k : Kernel) : Event → Option Nat
  | .call (.terTsk tskid) =>
    if (exec cfg k (.terTsk tskid)).ercd = some E_OK then some (index tskid) else none
  | .call .extTsk => if (exec cfg k .extTsk).ercd = none then k.core.pRuntsk else none
  | _ => none

/-- Who executes. -/
def party (k : Kernel) : Option Party :=
  if k.core.senseContext then some (.handler k.core.intnest) else k.core.pRuntsk.map .task

/-- The events at which a handler returns, or a callback of `signal_time`. -/
def leaves : Event → Bool
  | .intExit | .sigFire | .sigEnd => true
  | _ => false

namespace Sys
variable {L : Library} (cfg : Cfg)

def boot : Sys L := ⟨AspKernel.boot cfg, 0, fun _ => .idle, []⟩

def goto (s : Sys L) (w : Party) (r : Thread L × List (Ret L)) : Sys L :=
  { s with thread := Function.update s.thread w r.1, rets := s.rets ++ r.2 }

/-- What an event makes of the thread of a task. -/
def woken (s : Sys L) (e : Event) (k : Kernel) (t : Nat) : Thread L × List (Ret L) :=
  if ended cfg s.kernel e = some t then (.idle, [])
  else (s.thread (.task t)).wake (.task t) (k.core.tcb t).winfo s.clock

/-- The state after an event of the kernel. -/
def after (s : Sys L) (e : Event) (k : Kernel) : Sys L where
  kernel := k
  clock := s.clock
  thread
    | .task t => (s.woken cfg e k t).1
    | .handler n => s.thread (.handler n)
  rets := s.rets ++ (List.range cfg.tsk.tmax).flatMap fun t => (s.woken cfg e k t).2

/-- What a service call makes of the thread of its caller: it returns, or it waits. -/
def entered (s : Sys L) (w : Party) (a : L.Api) (hist : Hist) (call : Call)
    (f : ER × AspKernel.Out → Code (L.Res a)) : Thread L × List (Ret L) :=
  let r := AspKernel.exec cfg s.kernel call
  match r.ercd with
  | some ercd => Thread.next w a hist (.svc call) f (ercd, r.out) s.clock
  | none => (if ended cfg s.kernel (.call call) = none then .wait a hist call f else .idle, [])

/-- The next operation of a function. -/
def exec (s : Sys L) (w : Party) (a : L.Api) (hist : Hist) :
    (op : Op) → (op.Out → Code (L.Res a)) → Option (Sys L)
  | .svc call, f =>
    (s.kernel.step cfg (.call call)).map fun k =>
      (s.after cfg (.call call) k).goto w (s.entered cfg w a hist call f)
  | .snsCtx, f => some (s.goto w (Thread.next w a hist .snsCtx f s.kernel.core.senseContext s.clock))
  | .usTickerRead, f =>
    some (s.goto w (Thread.next w a hist .usTickerRead f (BitVec.ofNat 32 s.clock) s.clock))
  | .exit, _ => none

end Sys

/-- What can happen: the one who executes calls a function, or goes on with it; an event of the
kernel, among these the service calls of all other code; time passes. -/
inductive Act (L : Library)
  | start (a : L.Api)
  | run
  | kernel (e : Event)
  | elapse (us : Nat)

def Sys.step {L : Library} (cfg : Cfg) (s : Sys L) : Act L → Option (Sys L)
  | .start a =>
    match party s.kernel with
    | none => none
    | some w => if (s.thread w).isIdle then some (s.goto w (Thread.go w a [] (L.code a))) else none
  | .run =>
    match party s.kernel with
    | none => none
    | some w =>
      match s.thread w with
      | .run a hist op f => s.exec cfg w a hist op f
      | _ => none
  | .kernel e =>
    if leaves e && !(s.thread (.handler s.kernel.core.intnest)).isIdle then none
    else (s.kernel.step cfg e).map (s.after cfg e)
  | .elapse us => some { s with clock := s.clock + us }

def Step {L : Library} (cfg : Cfg) (s : Sys L) (x : Act L) (s' : Sys L) : Prop :=
  s.step cfg x = some s'

abbrev Run {L : Library} (cfg : Cfg) : Sys L → List (Act L) → Sys L → Prop := Trans.Run (Step cfg)

def Reachable {L : Library} (cfg : Cfg) (s : Sys L) : Prop := ∃ xs, Run cfg (.boot cfg) xs s

end AspKernel.App
