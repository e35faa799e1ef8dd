import AspKernel.Lib.Queue
import AspKernel.Service

namespace AspKernel
set_option autoImplicit true

abbrev INTNO := BitVec 32
abbrev ISR := Addr

/-- `TARGET_ISRATR`, which no target defines. -/
def TARGET_ISRATR : ATR := 0
def TMIN_ISRPRI : PRI := 1
def TMAX_ISRPRI : PRI := 16

/-- An entry of `isr_queue_list`; its queue is given by the place in `isr_queue_table`. -/
structure ISR_ENTRY where
  intno : INTNO
  pIsrQueue : Nat

structure ISRINIB where
  isratr : ATR
  exinf : IntPtr
  intno : INTNO
  pIsrQueue : Nat
  isr : ISR
  isrpri : PRI

/-- The packet of `acre_isr`. -/
structure T_CISR where
  isratr : ATR
  exinf : IntPtr
  intno : INTNO
  isr : ISR
  isrpri : PRI

/-- A result of `int_t` arithmetic; there is none where it overflows. -/
def intT (x : Int) : Option Int := if -2 ^ 31 ≤ x ∧ x < 2 ^ 31 then some x else none

/-- `isr_queue_list[i]`. -/
def entryAt (list : List ISR_ENTRY) (i : Int) : Option ISR_ENTRY :=
  if i < 0 then none else list[i.toNat]?

/-- The loop of `search_isr_queue`. It has no result where the steps are used up. -/
def searchIsrLoop (list : List ISR_ENTRY) (intno : INTNO) : Nat → Int → Int → Option Int
  | 0, _, _ => none
  | n + 1, left, right =>
    if left < right then do
      let sum ← intT (left + right)
      let sum ← intT (sum + 1)
      let i := sum.tdiv 2
      let e ← entryAt list i
      if intno < e.intno then
        let right ← intT (i - 1)
        searchIsrLoop list intno n left right
      else searchIsrLoop list intno n i right
    else some left

/-- The queue of an interrupt number, or `NULL`. -/
def searchIsrQueue (list : List ISR_ENTRY) (intno : INTNO) : Option (Option Nat) :=
  if list.length = 0 then some none
  else do
    let right ← intT (list.length - 1)
    let left ← searchIsrLoop list intno list.length 0 right
    let e ← entryAt list left
    return if e.intno = intno then some e.pIsrQueue else none

/-- What the configurator generates for the interrupt service routines, with what it checks. An entry
of `isr_queue_list` takes eight bytes of the memory. -/
structure IsrCfg where
  target : Target
  validIntnoCreisr : INTNO → Bool
  isrQueueList : List ISR_ENTRY
  sorted : isrQueueList.Pairwise fun a b => a.intno < b.intno
  queues : isrQueueList.map ISR_ENTRY.pIsrQueue = List.range isrQueueList.length
  fits : 8 * isrQueueList.length < 2 ^ 32
  sisrinib : List ISRINIB
  sisr_queue : ∀ x ∈ sisrinib, ⟨x.intno, x.pIsrQueue⟩ ∈ isrQueueList
  sisr_atr : ∀ x ∈ sisrinib, (x.isratr.has (~~~TARGET_ISRATR)) = false
  tmaxIsrid : Nat

namespace IsrCfg

def tnumSisr (cfg : IsrCfg) : Nat := cfg.sisrinib.length
def tnumIsr (cfg : IsrCfg) : Nat := cfg.tmaxIsrid + cfg.tnumSisr

/-- `INDEX_ISR`: the static ones come first and have no ID. -/
def indexIsr (cfg : IsrCfg) (isrid : Int) : Nat := (isrid - 1).toNat + cfg.tnumSisr

/-- `ISRID`. -/
def isrid (cfg : IsrCfg) (t : Nat) : Int := t - cfg.tnumSisr + 1

def validIsrid (cfg : IsrCfg) (isrid : Int) : Bool := decide (1 ≤ isrid ∧ isrid ≤ cfg.tmaxIsrid)

end IsrCfg

/-- The heads of the queues of `isr_queue_table`, and `free_isrcb`. -/
inductive IsrHead
  | queue (i : Nat)
  | free
  deriving DecidableEq

/-- `p_isrinib`: an element of `sisrinib_table` or of `aisrinib_table`. -/
inductive IsrinibPtr
  | sisr (i : Nat)
  | aisr (j : Nat)

/-- The control blocks, with the links of their queues. -/
structure IsrSys where
  link : Queue.Mem IsrHead Nat
  pIsrinib : Nat → IsrinibPtr
  aisrinib : Nat → ISRINIB

/-- The first check of a service call that fails. -/
def failed (l : List (Bool × ER)) : Option ER := (l.find? fun p => !p.1).map Prod.snd

structure Cpu where
  lock : Bool
  ipm : PRI

namespace IsrSys

/-- `*(p_isrcb->p_isrinib)`. -/
def isrinib (cfg : IsrCfg) (s : IsrSys) (t : Nat) : Option ISRINIB :=
  match s.pIsrinib t with
  | .sisr i => cfg.sisrinib[i]?
  | .aisr j => some (s.aisrinib j)

/-- A static one is constant. -/
def setIsrinib (s : IsrSys) (t : Nat) (x : ISRINIB) : Option IsrSys :=
  match s.pIsrinib t with
  | .sisr _ => none
  | .aisr j => some { s with aisrinib := Function.update s.aisrinib j x }

def enqueueIsr (cfg : IsrCfg) (s : IsrSys) (q t : Nat) : Option IsrSys := do
  let x ← s.isrinib cfg t
  let entry ← s.link.scan (.queue q)
    (fun u => (s.isrinib cfg u).map fun y => decide (x.isrpri < y.isrpri))
    (cfg.tnumIsr + 1) (s.link.next (.head (.queue q)))
  some { s with link := s.link.insertPrev entry (.entry t) }

def initializeQueue (s : IsrSys) (h : IsrHead) : IsrSys :=
  { s with link := s.link.initHead (.head h) }

/-- The step of `initialize_isr` for a static routine. -/
def initializeSisr (cfg : IsrCfg) (s : IsrSys) (i : Nat) : Option IsrSys := do
  let s := { s with pIsrinib := Function.update s.pIsrinib i (.sisr i) }
  let x ← s.isrinib cfg i
  s.enqueueIsr cfg x.pIsrQueue i

/-- The step of `initialize_isr` for a control block that is free at first. -/
def initializeAisr (cfg : IsrCfg) (s : IsrSys) (j : Nat) : IsrSys where
  aisrinib := Function.update s.aisrinib j { s.aisrinib j with isratr := TA_NOEXS }
  pIsrinib := Function.update s.pIsrinib (cfg.tnumSisr + j) (.aisr j)
  link := s.link.insertPrev (.head .free) (.entry (cfg.tnumSisr + j))

def initializeIsr (cfg : IsrCfg) (s : IsrSys) : Option IsrSys := do
  let s := (List.range cfg.isrQueueList.length).foldl (fun s i => s.initializeQueue (.queue i)) s
  let s ← (List.range cfg.tnumSisr).foldlM (initializeSisr cfg) s
  return (List.range cfg.tmaxIsrid).foldl (initializeAisr cfg) (s.initializeQueue .free)

/-- `unl` says that the call comes from a task with the CPU unlocked. -/
def acreIsr (cfg : IsrCfg) (s : IsrSys) (unl : Bool) (pk : T_CISR) : Option (IsrSys × ER) :=
  match failed [(unl, E_CTX), (!pk.isratr.has (~~~TARGET_ISRATR), E_RSATR),
      (cfg.validIntnoCreisr pk.intno, E_PAR), (cfg.target.funcAligned pk.isr, E_PAR),
      (cfg.target.funcNonnull pk.isr, E_PAR),
      (decide (TMIN_ISRPRI ≤ pk.isrpri ∧ pk.isrpri ≤ TMAX_ISRPRI), E_PAR)] with
  | some ercd => some (s, ercd)
  | none => do
    match ← searchIsrQueue cfg.isrQueueList pk.intno with
    | none => some (s, E_OBJ)
    | some q =>
      if cfg.tnumIsr = 0 ∨ s.link.next (.head .free) = .head .free then some (s, E_NOID)
      else
        match s.link.deleteNext (.head .free) with
        | (_, .head _) => none
        | (link, .entry t) =>
          let s ← { s with link := link }.setIsrinib t
            ⟨pk.isratr, pk.exinf, pk.intno, q, pk.isr, pk.isrpri⟩
          let s ← s.enqueueIsr cfg q t
          some (s, cfg.isrid t)

def delIsr (cfg : IsrCfg) (s : IsrSys) (unl : Bool) (isrid : ID) : Option (IsrSys × ER) :=
  match failed [(unl, E_CTX), (cfg.validIsrid isrid, E_ID)] with
  | some ercd => some (s, ercd)
  | none => do
    let t := cfg.indexIsr isrid
    let x ← s.isrinib cfg t
    if x.isratr = TA_NOEXS then some (s, E_NOEXS)
    else
      let s ← { s with link := s.link.delete (.entry t) }.setIsrinib t { x with isratr := TA_NOEXS }
      some ({ s with link := s.link.insertPrev (.head .free) (.entry t) }, E_OK)

/-- The loop of `call_isr`, with what every routine does to the CPU's state: the routines in their
order, each with the state that it finds. -/
def callIsrLoop (cfg : IsrCfg) (s : IsrSys) (run : ISR → IntPtr → Cpu → Cpu) (q : Nat)
    (savedIpm : PRI) : Nat → Queue.Node IsrHead Nat → Cpu → Option (List (ISRINIB × Cpu) × Cpu)
  | 0, _, _ => none
  | _ + 1, .head h, cpu => if h = .queue q then some ([], cpu) else none
  | n + 1, .entry t, cpu => do
    let x ← s.isrinib cfg t
    let cpu' := run x.isr x.exinf cpu
    let next := s.link.next (.entry t)
    -- back to the state before the call
    let cpu' := if next ≠ .head (.queue q) then ⟨false, savedIpm⟩ else cpu'
    let (called, cpu') ← callIsrLoop cfg s run q savedIpm n next cpu'
    some ((x, cpu) :: called, cpu')

def callIsr (cfg : IsrCfg) (s : IsrSys) (run : ISR → IntPtr → Cpu → Cpu) (q : Nat) (cpu : Cpu) :
    Option (List (ISRINIB × Cpu) × Cpu) :=
  s.callIsrLoop cfg run q cpu.ipm (cfg.tnumIsr + 1) (s.link.next (.head (.queue q))) cpu

end IsrSys

inductive IsrCall
  | init
  | acre (unl : Bool) (pk : T_CISR)
  | del (unl : Bool) (isrid : ID)

def IsrSys.step (cfg : IsrCfg) (s : IsrSys) : IsrCall → Option (IsrSys × ER)
  | .init => (s.initializeIsr cfg).map fun s => (s, E_OK)
  | .acre unl pk => s.acreIsr cfg unl pk
  | .del unl isrid => s.delIsr cfg unl isrid

/-- A registered routine, as it has been given; `key` is its control block. -/
structure Registered where
  key : Nat
  exinf : IntPtr
  intno : INTNO
  isr : ISR
  isrpri : PRI
  deriving DecidableEq

/-- The static routines in the order of the configuration. -/
def IsrCfg.statics (cfg : IsrCfg) : List Registered :=
  cfg.sisrinib.zipIdx.map fun (x, i) => ⟨i, x.exinf, x.intno, x.isr, x.isrpri⟩

/-- The registered routines after a call, in the order of their registration. -/
def IsrCfg.register (cfg : IsrCfg) (reg : List Registered) : IsrCall → ER → List Registered
  | .init, _ => cfg.statics
  | .acre _ pk, ercd =>
    if 0 < ercd then reg ++ [⟨cfg.indexIsr ercd, pk.exinf, pk.intno, pk.isr, pk.isrpri⟩] else reg
  | .del _ isrid, ercd =>
    if ercd = E_OK then reg.filter fun r => r.key ≠ cfg.indexIsr isrid else reg

/-- A call, with the routines registered. -/
def IsrSys.track (cfg : IsrCfg) (p : IsrSys × List Registered) (call : IsrCall) :
    Option (IsrSys × List Registered) :=
  (p.1.step cfg call).map fun r => (r.1, cfg.register p.2 call r.2)

/-- The order of the routines in a queue. -/
def Registered.Before (reg : List Registered) (a b : Registered) : Prop :=
  a.isrpri < b.isrpri ∨ a.isrpri = b.isrpri ∧ [a, b].Sublist reg

end AspKernel
