import Mathlib.Data.BitVec
import Mathlib.Logic.Function.Basic

namespace AspKernel
set_option autoImplicit true

/-- Error codes, and for the calls of type `ER_UINT` also non-negative results. -/
abbrev ER := Int
abbrev ID := Int
abbrev PRI := Int
abbrev ATR := BitVec 32
abbrev TMO := BitVec 32
abbrev RELTIM := BitVec 32
abbrev EVTTIM := BitVec 32
abbrev FLGPTN := BitVec 32
abbrev TEXPTN := BitVec 32
abbrev MODE := BitVec 32
abbrev IntPtr := BitVec 32
/-- An address of the 32-bit machine; `NULL` is 0. -/
abbrev Addr := BitVec 32

def E_OK : ER := 0
def E_SYS : ER := -5
def E_NOSPT : ER := -9
def E_RSATR : ER := -11
def E_PAR : ER := -17
def E_ID : ER := -18
def E_CTX : ER := -25
def E_ILUSE : ER := -28
def E_NOMEM : ER := -33
def E_NOID : ER := -34
def E_OBJ : ER := -41
def E_NOEXS : ER := -42
def E_QOVR : ER := -43
def E_RLWAI : ER := -49
def E_TMOUT : ER := -50
def E_DLT : ER := -51

def TA_NULL : ATR := 0
def TA_ACT : ATR := 0x02
def TA_TPRI : ATR := 0x01
def TA_MPRI : ATR := 0x02
def TA_WMUL : ATR := 0x02
def TA_CLR : ATR := 0x04
def TA_CEILING : ATR := 0x03
def TA_STA : ATR := 0x02
/-- `TARGET_TSKATR`, which no target defines. -/
def TARGET_TSKATR : ATR := 0
def TA_MEMALLOC : ATR := 0x8000
def TA_MBALLOC : ATR := 0x4000
/-- `(ATR)(-1)`: the attribute of a control block that is not in use. -/
def TA_NOEXS : ATR := BitVec.allOnes 32

def TWF_ORW : MODE := 0x01
def TWF_ANDW : MODE := 0x02

def TMO_POL : TMO := 0
def TMO_FEVR : TMO := BitVec.allOnes 32
/-- `LONG_MAX`, the smaller of it and `UINT_MAX` with 32-bit `long_t`. -/
def TMAX_RELTIM : RELTIM := 0x7fffffff

def TSK_SELF : ID := 0
def TSK_NONE : ID := 0
def TPRI_SELF : PRI := 0
def TPRI_INI : PRI := 0
def TIPM_ENAALL : PRI := 0
def TMIN_TPRI : PRI := 1
def TMAX_TPRI : PRI := 16
def TMIN_DPRI : PRI := 1
def TMAX_DPRI : PRI := 16
def TMIN_MPRI : PRI := 1
def TMAX_MPRI : PRI := 16
def TNUM_TPRI : Nat := 16

/-- `(atr & bit) != 0U`. -/
def ATR.has (atr bit : ATR) : Bool := atr &&& bit != 0

/-- `INT_PRIORITY`: the external priorities start at 1, the internal ones at 0. -/
def intPriority (pri : PRI) : Nat := (pri - TMIN_TPRI).toNat

def validTpri (tpri : PRI) : Bool := decide (TMIN_TPRI ≤ tpri ∧ tpri ≤ TMAX_TPRI)
def validDpri (dpri : PRI) : Bool := decide (TMIN_DPRI ≤ dpri ∧ dpri ≤ TMAX_DPRI)
def validMpri (mpri : PRI) : Bool := decide (TMIN_MPRI ≤ mpri ∧ mpri ≤ TMAX_MPRI)
/-- `CHECK_TMOUT`: `TMO_FEVR <= tmout` as signed integers. -/
def validTmout (tmout : TMO) : Bool := decide (TMO_FEVR.toInt ≤ tmout.toInt)

theorem intPriority_lt {pri : Int} (h : validTpri pri = true) :
    intPriority pri < TNUM_TPRI := by
  have hb : 1 ≤ pri ∧ pri ≤ 16 := of_decide_eq_true h
  change (pri - 1).toNat < 16
  omega

/-- The wait factors `TS_WAIT_???`, in the order of their codes. -/
inductive WaitFactor
  | DLY | SLP | RDTQ | RPDQ | SEM | FLG | SDTQ | SPDQ | MBX | MPF | MTX
  deriving DecidableEq, Repr

def WaitFactor.code : WaitFactor → Nat
  | DLY => 0 | SLP => 1 | RDTQ => 2 | RPDQ => 3 | SEM => 4 | FLG => 5
  | SDTQ => 6 | SPDQ => 7 | MBX => 8 | MPF => 9 | MTX => 10

/-- The task state byte: bits `TS_RUNNABLE`, `TS_WAITING`, `TS_SUSPENDED` and the wait factor. -/
structure TStat where
  runnable : Bool
  waiting : Bool
  suspended : Bool
  factor : WaitFactor
  deriving DecidableEq, Repr

namespace TStat

def DORMANT : TStat := ⟨false, false, false, .DLY⟩
def RUNNABLE : TStat := ⟨true, false, false, .DLY⟩
def SUSPENDED : TStat := ⟨false, false, true, .DLY⟩
/-- `(TS_WAITING | TS_WAIT_???)`. -/
def WAITING (f : WaitFactor) : TStat := ⟨false, true, false, f⟩

def isDormant (s : TStat) : Bool := s == DORMANT
def waitSlp (s : TStat) : Bool := s.factor == .SLP
def waitMtx (s : TStat) : Bool := s.factor == .MTX
/-- `TSTAT_WAIT_WOBJ`: linked in a wait queue of some object. -/
def waitWobj (s : TStat) : Bool := WaitFactor.RDTQ.code ≤ s.factor.code
/-- `TSTAT_WAIT_WOBJCB`: linked in the wait queue of the common part of a control block. -/
def waitWobjcb (s : TStat) : Bool := WaitFactor.SEM.code ≤ s.factor.code

end TStat

/-- A wait queue is named by the wait factor of its tasks and the index of the object. -/
abbrev WQueue := WaitFactor × Nat

/-- The time event blocks: one on the stack of every waiting task, one in every handler block. -/
inductive TmevtbPtr
  | tsk (t : Nat)
  | cyc (i : Nat)
  | alm (i : Nat)
  deriving DecidableEq, Repr

inductive CBack
  | waitTmout | waitTmoutOk | callCychdr | callAlmhdr
  deriving DecidableEq, Repr

/-- The union `WINFO`: the error code overwrites the pointer to the time event block. -/
inductive WCell
  | pTmevtb (p : Option TmevtbPtr)
  | wercd (ercd : ER)
  deriving DecidableEq, Repr

/-- The waiting information block on the stack of a waiting task, with the fields that the
objects add to it. `tmo` is none of these: it records the finite time that the wait was started
with. -/
structure WInfo where
  cell : WCell
  tmo : Option TMO
  wobjcb : Nat
  data : IntPtr
  datapri : PRI
  waiptn : FLGPTN
  wfmode : MODE
  flgptn : FLGPTN
  pkMsg : Addr
  blk : Addr

/-- A local `WINFO` variable before its fields are set. -/
def WInfo.local : WInfo := ⟨.pTmevtb none, none, 0, 0, 0, 0, 0, 0, 0, 0⟩

def WInfo.tmevtb (w : WInfo) : Option TmevtbPtr :=
  match w.cell with
  | .pTmevtb p => p
  | .wercd _ => none

structure TINIB where
  tskatr : ATR
  ipriority : Nat
  texrtn : Bool
  stksz : BitVec 32
  stk : Addr

structure TCB where
  tinib : TINIB
  tstat : TStat
  bpriority : Nat
  priority : Nat
  actque : Bool
  wupque : Bool
  enatex : Bool
  texptn : TEXPTN
  winfo : WInfo
  /-- The saved `disdsp` of every `call_texrtn` that has not returned, innermost first. -/
  texstk : List Bool
  /-- The innermost `call_texrtn` is at the test of its loop. -/
  texloop : Bool
  /-- The factors raised since the activation, and those passed to the routine; these two are no
  fields of the kernel. -/
  texraised : TEXPTN
  texpassed : TEXPTN

/-- An area that `kernel_malloc` has returned for a request. -/
structure Area where
  addr : Addr
  size : BitVec 32
  deriving DecidableEq, Repr

end AspKernel
