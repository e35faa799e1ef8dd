import AspKernel.System
import AspKernel.Lib.Run

namespace AspKernel
set_option autoImplicit true

/-- A control block as the start of the program leaves it. -/
def TCB.zero (tinib : TINIB) : TCB where
  tinib := tinib
  tstat := .DORMANT
  bpriority := 0
  priority := 0
  actque := false
  wupque := false
  enatex := false
  texptn := 0
  winfo := .local
  texstk := []
  texloop := false
  texraised := 0
  texpassed := 0

/-- The indices of the objects that are not created statically, in order. -/
def ObjNum.free (n : ObjNum) : List Nat := List.range' n.tmaxS (n.tmax - n.tmaxS)

/-- The attribute of a control block after the initialisation. -/
def ObjNum.initAtr (n : ObjNum) (atr : Nat → ATR) (i : Nat) : ATR :=
  if i < n.tmaxS then atr i else TA_NOEXS

/-- The objects of a kind of wait object and their static attributes. -/
def Cfg.wobj (cfg : Cfg) : WaitFactor → Option (ObjNum × (Nat → ATR))
  | .SEM => some (cfg.sem, fun i => (cfg.seminib i).sematr)
  | .FLG => some (cfg.flg, fun i => (cfg.flginib i).flgatr)
  | .SDTQ => some (cfg.dtq, fun i => (cfg.dtqinib i).dtqatr)
  | .SPDQ => some (cfg.pdq, fun i => (cfg.pdqinib i).pdqatr)
  | .MBX => some (cfg.mbx, fun i => (cfg.mbxinib i).mbxatr)
  | .MPF => some (cfg.mpf, fun i => (cfg.mpfinib i).mpfatr)
  | .MTX => some (cfg.mtx, fun i => (cfg.mtxinib i).mtxatr)
  | .DLY | .SLP | .RDTQ | .RPDQ => none

/-- `initialize_tmevt`. -/
def initializeTmevt (cfg : Cfg) : Timer where
  currentTime := 0
  minTime := 0
  nextTime := cfg.ticNume / cfg.ticDeno
  nextSubtime := cfg.ticNume % cfg.ticDeno
  heap := ⟨0, fun _ => ⟨0, .tsk 0⟩, fun _ => 0⟩
  callback := fun _ => .waitTmout
  ticks := 0
  serials := 0
  reg := fun _ => ⟨0, 0, none⟩
  fired := []
  removed := []
  dequeueOk := true

/-- The state before any task is activated and any cyclic handler is started. -/
def Core.zero (cfg : Cfg) : Core where
  tcb t := .zero (if t < cfg.tsk.tmaxS then cfg.tinib t else ⟨TA_NOEXS, 0, false, 0, 0⟩)
  freeTcb := cfg.tsk.free
  pRuntsk := none
  reqflg := false
  ipmflg := true
  disdsp := false
  dspflg := true
  sched := ⟨fun _ => [], 0, none, fun _ => 0, 0, true⟩
  wobjatr q := match cfg.wobj q.1 with
    | some (n, atr) => n.initAtr atr q.2
    | none => TA_NOEXS
  freeWobj f := match cfg.wobj f with
    | some (n, _) => n.free
    | none => []
  mtxcb m := ⟨(cfg.mtxinib m).ceilpri, none⟩
  mutexQueue _ := []
  tm := initializeTmevt cfg
  cyccb i := ⟨cfg.cyc.initAtr (fun i => (cfg.cycinib i).cycatr) i, (cfg.cycinib i).cyctim,
    (cfg.cycinib i).cycphs, false, 0⟩
  freeCyccb := cfg.cyc.free
  almcb i := ⟨cfg.alm.initAtr cfg.almatr i, false⟩
  freeAlmcb := cfg.alm.free
  intnest := 0
  cpulock := false
  sigtim := none
  assertOk := true
  areas := []
  freeOk := true

/-- One step of the loop of `initialize_task`. -/
def Core.initializeTsk (c : Core) (t : Nat) : Core :=
  let c := (c.setTcb t { c.tcb t with actque := false }).makeDormant t
  if (c.tcb t).tinib.tskatr.has TA_ACT then (c.makeActive t).1 else c

/-- One step of the loop of `initialize_cyclic`. -/
def Core.initializeCyc (c : Core) (i : Nat) : Core :=
  if (c.cyccb i).cycatr.has TA_STA then
    (c.setCyc i { c.cyccb i with cycsta := true }).tmevtbEnqueueCyc i (c.cyccb i).cycphs
  else c

def Core.initializeAll (cfg : Cfg) : Core :=
  (List.range cfg.cyc.tmaxS).foldl Core.initializeCyc
    (cfg.torder.foldl Core.initializeTsk (.zero cfg))

/-- The state when the first task is dispatched. -/
def boot (cfg : Cfg) : Kernel where
  core := (Core.initializeAll cfg).dispatcher
  sem i := ⟨(cfg.seminib i).isemcnt, (cfg.seminib i).maxsem, (cfg.seminib i).isemcnt⟩
  flg i := ⟨(cfg.flginib i).iflgptn, (cfg.flginib i).iflgptn⟩
  dtq i := ⟨(cfg.dtqinib i).dtqcnt, (cfg.dtqinib i).pDtqmb, fun _ => 0, 0, 0, 0⟩
  pdq i := ⟨(cfg.pdqinib i).pdqcnt, (cfg.pdqinib i).maxdpri, (cfg.pdqinib i).pPdqmb,
    fun _ => ⟨none, 0, 0⟩, 0, none, 0, none⟩
  mbx i := ⟨(cfg.mbxinib i).maxmpri, 0, 0⟩
  msg _ := ⟨0, 0⟩
  mpf i := ⟨(cfg.mpfinib i).blkcnt, (cfg.mpfinib i).blksz, (cfg.mpfinib i).mpf,
    (cfg.mpfinib i).pMpfmb, fun _ => 0, (cfg.mpfinib i).blkcnt, 0, INDEX_NULL⟩

/-- A system with two tasks, the first of which is activated at the start, and one object of each
kind; its mutexes and its tick are given. -/
def Cfg.sample (mtx : ObjNum) (ticNume ticDeno : BitVec 32) (hn : 0 < ticNume) (hd : 0 < ticDeno) :
    Cfg where
  tsk := ⟨2, 2, Nat.le_refl _⟩
  sem := ⟨1, 1, Nat.le_refl _⟩
  flg := ⟨1, 1, Nat.le_refl _⟩
  dtq := ⟨1, 1, Nat.le_refl _⟩
  pdq := ⟨1, 1, Nat.le_refl _⟩
  mbx := ⟨1, 1, Nat.le_refl _⟩
  mpf := ⟨1, 1, Nat.le_refl _⟩
  mtx := mtx
  cyc := ⟨1, 1, Nat.le_refl _⟩
  alm := ⟨1, 1, Nat.le_refl _⟩
  target := ⟨fun _ => true, fun _ => true, fun _ => true, fun _ => true, fun _ => true,
    fun _ => true, 0, 3, 2, by decide, by decide⟩
  ticNume := ticNume
  ticDeno := ticDeno
  tinib t := ⟨if t = 0 then TA_ACT else TA_NULL, 8, false, 0x100, 0x4000⟩
  torder := [0, 1]
  seminib _ := ⟨TA_NULL, 0, 1⟩
  flginib _ := ⟨TA_WMUL, 0⟩
  dtqinib _ := ⟨TA_NULL, 1, 0x2000⟩
  pdqinib _ := ⟨TA_NULL, 1, TMAX_DPRI, 0x3000⟩
  mbxinib _ := ⟨TA_NULL, TMAX_MPRI⟩
  mpfinib _ := ⟨TA_NULL, 1, 16, 0x1000, 0x1800⟩
  mtxinib _ := ⟨TA_CEILING, 4⟩
  cycinib _ := ⟨TA_NULL, 10, 0⟩
  almatr _ := TA_NULL
  tic_nume_pos := hn
  tic_deno_pos := hd
  torder_nodup := by decide
  torder_mem t := by
    rw [List.mem_cons, List.mem_singleton]
    change t = 0 ∨ t = 1 ↔ t < 2
    omega
  ipriority_lt _ := (by decide : 8 < TNUM_TPRI)
  cyctim_pos _ _ := by decide
  cyctim_le _ _ := by decide
  cycphs_le _ _ := by decide
  mpf_area _ _ := ⟨by decide, by decide, by decide⟩

/-- A configuration in which all mutexes are static. -/
abbrev Cfg.small : Cfg := .sample ⟨1, 1, Nat.le_refl _⟩ 1 1 (by decide) (by decide)

/-- A configuration with objects that are still to be created. -/
abbrev Cfg.free : Cfg := { Cfg.small with
  sem := ⟨2, 1, by decide⟩
  flg := ⟨2, 1, by decide⟩
  dtq := ⟨2, 1, by decide⟩ }

/-- A system with a memory pool that is created by a service call. -/
abbrev Cfg.dynMpf : Cfg := { Cfg.small with mpf := ⟨2, 1, by decide⟩ }

/-- A tick of 10/3 milliseconds. -/
abbrev Cfg.third : Cfg := .sample ⟨1, 1, Nat.le_refl _⟩ 10 3 (by decide) (by decide)

/-- A tick a little shorter than a millisecond, with a `TIC_DENO` near 2^32. -/
abbrev Cfg.fine : Cfg :=
  .sample ⟨1, 1, Nat.le_refl _⟩ 0xfffffffe 0xffffffff (by decide) (by decide)

/-- A tick of nearly 2^32 milliseconds. -/
abbrev Cfg.long : Cfg := .sample ⟨1, 1, Nat.le_refl _⟩ 0xffffffff 1 (by decide) (by decide)

/-- A tick of 2.5 microseconds. -/
abbrev Utm.fast : Cfg := .sample ⟨1, 1, Nat.le_refl _⟩ 5 2000 (by decide) (by decide)

/-- What happens in a system: service calls of the running task or of an interrupt handler, the
return of a task exception routine, the entry and the exit of an interrupt handler, and the parts
of `signal_time`, between which its callbacks unlock the CPU; and the application writes the headers
of its messages. -/
inductive Event
  | call (call : Call)
  | writeMsg (pkMsg : Addr) (msg : T_MSG)
  | texReturn
  | intEnter
  | intExit
  | sigBegin
  | sigFire
  | sigEnd

namespace Core

/-- The callback of a time event, up to the point where it unlocks the CPU. -/
def callback (c : Core) (cb : CBack) (p : TmevtbPtr) : Core :=
  match cb, p with
  | .waitTmout, .tsk t => c.waitTmout t
  | .waitTmoutOk, .tsk t => c.waitTmoutOk t
  | .callCychdr, .cyc i => c.callCychdr i
  | .callAlmhdr, .alm i => c.callAlmhdr i
  | _, _ => c

/-- A step of the loop of `signal_time`. -/
def sigFire (c : Core) : Core :=
  let p := (c.tm.heap.node 1).id
  ({ c with tm := c.tm.sigPop, cpulock := false } : Core).callback (c.tm.callback p) p

/-- A mutex is linked in the queue of some task. -/
def mutexLinked (cfg : Cfg) (c : Core) (m : Nat) : Bool :=
  (List.range cfg.tsk.tmax).any fun t => decide (m ∈ c.mutexQueue t)

/-- The release of all mutexes of a task meets no block of `free_mtxcb`, whose links are not
those of a wait queue. -/
def releasable (c : Core) (t : Nat) : Bool :=
  (c.mutexQueue t).all fun m => !decide (m ∈ c.freeWobj .MTX)

end Core

/-- The call has a behaviour in C. The others follow the link of a control block as if it were in
another queue than it is: `ini_mtx` of a mutex that does not exist, the end of a task with such
a mutex in its queue, and the acquisition of a mutex that is still linked. -/
def Call.defined (cfg : Cfg) (k : Kernel) : Call → Bool
  | .iniMtx mtxid => !decide (index mtxid ∈ k.core.freeWobj .MTX)
  | .extTsk => k.core.releasable k.core.runtsk
  | .terTsk tskid => k.core.releasable (index tskid)
  | .locMtx mtxid | .plocMtx mtxid | .tlocMtx mtxid _ =>
    !((k.core.mtxcb (index mtxid)).pLoctsk = none ∧ k.core.mutexLinked cfg (index mtxid))
  | _ => true

/-- The state after an outcome: the dispatcher runs where it is called. -/
def Res.settle (r : Res Kernel) : Kernel :=
  if r.disp then r.st.setCore r.st.core.dispatcher else r.st

/-- A step of the system, for an event that can happen. -/
def Kernel.step (cfg : Cfg) (k : Kernel) : Event → Option Kernel
  | .call call =>
    if (k.core.senseContext ∨ k.core.pRuntsk ≠ none) ∧ call.defined cfg k then
      some (exec cfg k call).settle
    else none
  | .writeMsg pkMsg msg => some { k with msg := Function.update k.msg pkMsg msg }
  | .texReturn =>
    match k.core.pRuntsk with
    | none => none
    | some t =>
      if k.core.senseContext ∨ (k.core.tcb t).texstk = [] then none
      else some (k.setCore (k.core.texReturn t))
  | .intEnter => if k.core.cpulock then none else some (k.setCore k.core.intEnter)
  | .intExit =>
    if k.core.intnest = 0 ∨ k.core.sigtim = some k.core.intnest then none
    else some (k.setCore k.core.intExit)
  | .sigBegin =>
    if k.core.senseContext ∧ k.core.cpulock = false ∧ k.core.sigtim = none then
      some (k.setCore { k.core with
        tm := k.core.tm.sigBegin cfg.ticNume cfg.ticDeno
        sigtim := some k.core.intnest })
    else none
  | .sigFire =>
    if k.core.sigtim = some k.core.intnest ∧ k.core.tm.due then some (k.setCore k.core.sigFire)
    else none
  | .sigEnd =>
    if k.core.sigtim = some k.core.intnest ∧ k.core.tm.due = false then
      some (k.setCore { k.core with tm := k.core.tm.sigEnd, sigtim := none, cpulock := false })
    else none

def Step (cfg : Cfg) (k : Kernel) (e : Event) (k' : Kernel) : Prop := k.step cfg e = some k'

abbrev Run (cfg : Cfg) : Kernel → List Event → Kernel → Prop := Trans.Run (Step cfg)

/-- The states that the system can reach. -/
def Reachable (cfg : Cfg) (k : Kernel) : Prop := ∃ es, Run cfg (boot cfg) es k

end AspKernel
