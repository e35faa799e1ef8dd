import AspKernel.Wait

namespace AspKernel
set_option autoImplicit true

/-- The numbers `tmax_???id` and `tmax_s???id` of a kind of object. -/
structure ObjNum where
  tmax : Nat
  tmaxS : Nat
  le : tmaxS ≤ tmax

/-- `VALID_???ID`. -/
def ObjNum.valid (n : ObjNum) (id : Int) : Bool := decide (1 ≤ id ∧ id ≤ n.tmax)

/-- The control block is that of a dynamically created object. -/
def ObjNum.dynamic (n : ObjNum) (i : Nat) : Bool := decide (n.tmaxS ≤ i)

/-- `INDEX_???`. -/
def index (id : Int) : Nat := (id - 1).toNat

/-- `???ID`. -/
def toId (i : Nat) : Int := i + 1

theorem ObjNum.valid_index {n : ObjNum} {id : Int} (h : n.valid id = true) :
    index id < n.tmax ∧ toId (index id) = id := by
  have hb : 1 ≤ id ∧ id ≤ n.tmax := of_decide_eq_true h
  unfold index toId
  omega

structure SEMINIB where
  sematr : ATR
  isemcnt : Nat
  maxsem : Nat

structure FLGINIB where
  flgatr : ATR
  iflgptn : FLGPTN

structure DTQINIB where
  dtqatr : ATR
  dtqcnt : Nat
  pDtqmb : Addr

structure PDQINIB where
  pdqatr : ATR
  pdqcnt : Nat
  maxdpri : PRI
  pPdqmb : Addr

structure MBXINIB where
  mbxatr : ATR
  maxmpri : PRI

structure MPFINIB where
  mpfatr : ATR
  blkcnt : Nat
  blksz : Nat
  mpf : Addr
  pMpfmb : Addr

structure MTXINIB where
  mtxatr : ATR
  ceilpri : Nat

structure CYCINIB where
  cycatr : ATR
  cyctim : RELTIM
  cycphs : RELTIM

/-- The area of a fixed memory pool lies in the address space, and its block numbers differ from
the marks `INDEX_NULL` and `INDEX_ALLOC`. -/
structure MPFINIB.Area (p : MPFINIB) : Prop where
  blksz_pos : 0 < p.blksz
  blkcnt_lt : p.blkcnt < 2 ^ 32 - 1
  fits : p.mpf.toNat + p.blksz * p.blkcnt ≤ 2 ^ 32

/-- `TOPPERS_ROUND_SZ`, where the unit is a power of 2. -/
def roundSz (sz unit : BitVec 32) : BitVec 32 := (sz + unit - 1) &&& ~~~(unit - 1)

/-- The macros of the target; `STK_T` and `MPF_T` have `2 ^ stkLog` and `2 ^ mpfLog` bytes. -/
structure Target where
  funcAligned : Addr → Bool
  funcNonnull : Addr → Bool
  stkszAligned : BitVec 32 → Bool
  stackAligned : Addr → Bool
  mpfAligned : Addr → Bool
  mbAligned : Addr → Bool
  minStksz : BitVec 32
  stkLog : Nat
  mpfLog : Nat
  stkLog_lt : stkLog < 32
  mpfLog_lt : mpfLog < 32

/-- `ROUND_STK_T`. -/
def Target.roundStk (t : Target) (stksz : BitVec 32) : BitVec 32 :=
  roundSz stksz (1#32 <<< t.stkLog)

/-- `ROUND_MPF_T`. -/
def Target.roundMpf (t : Target) (blksz : Nat) : Nat :=
  (roundSz (BitVec.ofNat 32 blksz) (1#32 <<< t.mpfLog)).toNat

/-- What the configurator generates from the static API, with what it checks. -/
structure Cfg where
  tsk : ObjNum
  sem : ObjNum
  flg : ObjNum
  dtq : ObjNum
  pdq : ObjNum
  mbx : ObjNum
  mpf : ObjNum
  mtx : ObjNum
  cyc : ObjNum
  alm : ObjNum
  target : Target
  ticNume : BitVec 32
  ticDeno : BitVec 32
  tinib : Nat → TINIB
  torder : List Nat
  seminib : Nat → SEMINIB
  flginib : Nat → FLGINIB
  dtqinib : Nat → DTQINIB
  pdqinib : Nat → PDQINIB
  mbxinib : Nat → MBXINIB
  mpfinib : Nat → MPFINIB
  mtxinib : Nat → MTXINIB
  cycinib : Nat → CYCINIB
  almatr : Nat → ATR
  tic_nume_pos : 0 < ticNume
  tic_deno_pos : 0 < ticDeno
  torder_nodup : torder.Nodup
  torder_mem : ∀ t, t ∈ torder ↔ t < tsk.tmaxS
  ipriority_lt : ∀ t, (tinib t).ipriority < TNUM_TPRI
  cyctim_pos : ∀ i < cyc.tmaxS, 0 < (cycinib i).cyctim
  cyctim_le : ∀ i < cyc.tmaxS, (cycinib i).cyctim ≤ TMAX_RELTIM
  cycphs_le : ∀ i < cyc.tmaxS, (cycinib i).cycphs ≤ TMAX_RELTIM
  mpf_area : ∀ i < mpf.tmaxS, (mpfinib i).Area

/-- The context that a form of a service call is for. -/
inductive Ctx
  | tsk | int
  deriving DecidableEq, Repr

/-- The forms of a call that may wait: without limit, not at all, or for a given time. -/
inductive WaitMode
  | fevr
  | pol (ctx : Ctx)
  | tmo (tmout : TMO)
  deriving DecidableEq, Repr

namespace WaitMode

/-- The context of the form. -/
def ctx : WaitMode → Ctx
  | pol ctx => ctx
  | _ => .tsk

/-- `CHECK_TMOUT`, in the form that has a time-out. -/
def valid : WaitMode → Bool
  | tmo tmout => validTmout tmout
  | _ => true

/-- The call answers `E_TMOUT` where it would have to wait. -/
def polls : WaitMode → Bool
  | fevr => false
  | pol _ => true
  | tmo tmout => tmout == TMO_POL

end WaitMode

/-- The task states `TTS_???` of `ref_tsk`. -/
inductive TTS
  | RUN | RDY | WAI | SUS | WAS | DMT
  deriving DecidableEq, Repr

/-- The packet of `ref_tsk`; the fields that it does not store are left out. -/
structure T_RTSK where
  tskstat : TTS
  tskpri : Option PRI
  tskbpri : Option PRI
  tskwait : Option WaitFactor
  wobjid : Option ID
  lefttmo : Option TMO
  actcnt : Nat
  wupcnt : Option Nat
  deriving DecidableEq, Repr

/-- What a service call stores through its pointer arguments. -/
inductive Out
  | none
  | data (data : IntPtr)
  | pridata (data : IntPtr) (datapri : PRI)
  | msg (pkMsg : Addr)
  | blk (blk : Addr)
  | flgptn (flgptn : FLGPTN)
  | tskid (tskid : ID)
  | tskpri (tskpri : PRI)
  | rtsk (pk : T_RTSK)
  | rtex (enatex : Bool) (pndptn : TEXPTN)
  | rsem (wtskid : ID) (semcnt : Nat)
  | rflg (wtskid : ID) (flgptn : FLGPTN)
  | rdtq (stskid rtskid : ID) (sdtqcnt : Nat)
  | rpdq (stskid rtskid : ID) (spdqcnt : Nat)
  | rmbx (wtskid : ID) (pkMsg : Addr)
  | rmpf (wtskid : ID) (fblkcnt : Nat)
  | rmtx (htskid wtskid : ID)
  | rcyc (lefttim : Option RELTIM)
  | ralm (lefttim : Option RELTIM)
  deriving DecidableEq, Repr

/-- The outcome of a service call: the state when it calls `dispatch` or returns, its error code
(none when the caller has to wait, whose code and results are those in its waiting information
then), whether it calls `dispatch`, and its results. -/
structure Res (σ : Type) where
  st : σ
  ercd : Option ER
  disp : Bool
  out : Out

namespace Res

def err (st : σ) (ercd : ER) : Res σ := ⟨st, some ercd, false, .none⟩
def wait (st : σ) : Res σ := ⟨st, none, true, .none⟩
def map (f : σ → τ) (r : Res σ) : Res τ := ⟨f r.st, r.ercd, r.disp, r.out⟩

/-- `E_OK`, with a dispatch or its request where one is due. -/
def ok (ctx : Ctx) (c : Core) (dspreq : Bool) (out : Out) : Res Core :=
  match ctx with
  | .tsk => ⟨c, some E_OK, dspreq, out⟩
  | .int => ⟨c.request dspreq, some E_OK, false, out⟩

/-- A non-negative result. -/
def value (st : σ) (v : Int) : Res σ := ⟨st, some v, false, .none⟩

end Res

/-- The checks of a service call in their order, each with its error code. -/
def check (l : List (Bool × ER)) (st : σ) (body : Res σ) : Res σ :=
  match l.find? fun p => !p.1 with
  | some p => .err st p.2
  | none => body

theorem check_cases (l : List (Bool × ER)) (st : σ) (body : Res σ) :
    (∃ p ∈ l, p.1 = false ∧ check l st body = .err st p.2) ∨
      ((∀ p ∈ l, p.1 = true) ∧ check l st body = body) := by
  unfold check
  split
  · rename_i p hp
    exact .inl ⟨p, List.mem_of_find?_eq_some hp, by simpa using List.find?_some hp, rfl⟩
  · rename_i hf
    refine .inr ⟨?_, rfl⟩
    simpa only [List.find?_eq_none, Bool.not_eq_true', Bool.not_eq_false] using hf

theorem check_pass {body : Res σ} (h : ∀ p ∈ l, p.1 = true) : check l st body = body := by
  unfold check
  split
  · rename_i p hp
    have h1 := List.find?_some hp
    rw [h p (List.mem_of_find?_eq_some hp)] at h1
    cases h1
  · rfl

theorem check_map {body : Res σ} {f : σ → τ} (h : ∀ p ∈ l, p.1 = true) :
    (check l st body).map f = body.map f := congrArg (Res.map f) (check_pass h)

/-- The kernel as the calls of one kind of object see it: its control blocks and the rest. -/
structure Obj (β : Type) where
  core : Core
  cb : Nat → β

namespace Obj

def setCore (o : Obj β) (c : Core) : Obj β := { o with core := c }
def setCb (o : Obj β) (i : Nat) (p : β) : Obj β := { o with cb := Function.update o.cb i p }

/-- `E_OK`, with a dispatch or its request where one is due. -/
def ok (o : Obj β) (ctx : Ctx) (dspreq : Bool) (out : Out) : Res (Obj β) :=
  (Res.ok ctx o.core dspreq out).map o.setCore

end Obj

namespace Core

/-- `CHECK_TSKCTX_UNL` and `CHECK_INTCTX_UNL`. -/
def ctxUnl (c : Core) : Ctx → Bool
  | .tsk => !c.senseContext && !c.cpulock
  | .int => c.senseContext && !c.cpulock

/-- `CHECK_DISPATCH`. -/
def canDispatch (c : Core) : Bool := !c.senseContext && !c.cpulock && c.dspflg

/-- `get_tcb_self`. -/
def tcbSelf (c : Core) (id : ID) : Nat := if id = TSK_SELF then c.runtsk else index id

/-- The control block is not in use. -/
def noTsk (c : Core) (t : Nat) : Bool := (c.tcb t).tinib.tskatr == TA_NOEXS
def noWobj (c : Core) (q : WQueue) : Bool := c.wobjatr q == TA_NOEXS

/-- The check of the context in the forms of a call that may wait. -/
def ctxMode (c : Core) : WaitMode → Bool
  | .pol ctx => c.ctxUnl ctx
  | _ => c.canDispatch

/-- The running task starts to wait in the wait queue of an object. -/
def waitWobj (c : Core) (m : WaitMode) (q : WQueue) (w : WInfo) : Core :=
  match m with
  | .tmo tmout => (c.setWaiting q.1).wobjMakeWaitTmout q w tmout
  | _ => (c.setWaiting q.1).wobjMakeWait q w

/-- The running task starts to wait in a queue of receivers, which is in the order of arrival. -/
def waitReceive (c : Core) (m : WaitMode) (q : WQueue) : Core :=
  let c := c.setWaiting q.1
  let c' := match m with
    | .tmo tmout => c.makeWaitTmout .local tmout
    | _ => c.makeWait .local
  (c'.queueInsertRuntsk q false).setWobjcb c.runtsk q.2

/-- The result of `queue_delete_next` on a free list of wait objects. -/
def takeWobj (n : ObjNum) (c : Core) (f : WaitFactor) : Option (Nat × Core) :=
  match c.freeWobj f with
  | [] => none
  | i :: l =>
    if n.tmax = 0 then none else some (i, { c with freeWobj := Function.update c.freeWobj f l })

/-- `queue_initialize` of a wait queue. -/
def initQueue (c : Core) (q : WQueue) : Core :=
  { c with sched := { c.sched with queue := Function.update c.sched.queue (.wait q) [] } }

/-- The creation of a wait object: its attribute is set and its wait queue initialised. -/
def initWobj (c : Core) (q : WQueue) (atr : ATR) : Core :=
  { c.initQueue q with wobjatr := Function.update c.wobjatr q atr }

/-- The deletion of a wait object, after its wait queue has been emptied. -/
def freeWobjcb (c : Core) (q : WQueue) : Core :=
  { c with
    wobjatr := Function.update c.wobjatr q TA_NOEXS
    freeWobj := Function.update c.freeWobj q.1 (c.freeWobj q.1 ++ [q.2]) }

/-- `kernel_malloc`, which returns `mem`. -/
def kernelMalloc (c : Core) (size : BitVec 32) (mem : Addr) : Core :=
  if mem = 0 then c else { c with areas := ⟨mem, size⟩ :: c.areas }

def kernelFree (c : Core) (p : Addr) : Core :=
  { c with
    areas := c.areas.eraseP (·.addr == p)
    freeOk := c.freeOk && c.areas.any (·.addr == p) }

/-- `wait_tskid`. -/
def waitTskid (c : Core) (q : WQueue) : ID :=
  match c.sched.queue (.wait q) with
  | [] => TSK_NONE
  | t :: _ => toId t

end Core

end AspKernel
