import AspKernel.Basic
import AspKernel.Lib.Prog
import Mathlib.Data.List.Perm.Basic

/-! The serial interface driver: one port, the tasks that call it, and its callbacks. -/

namespace AspKernel.Serial
set_option autoImplicit true

abbrev Char := BitVec 8

def IOCTL_ECHO : BitVec 32 := 0x0001
def IOCTL_CRLF : BitVec 32 := 0x0010
def IOCTL_FCSND : BitVec 32 := 0x0100
def IOCTL_FCANY : BitVec 32 := 0x0200
def IOCTL_FCRCV : BitVec 32 := 0x0400

def NUL : Char := 0
def LF : Char := 0x0a
def CR : Char := 0x0d
def FC_STOP : Char := 0x13
def FC_START : Char := 0x11

/-- `++` and `--` of the type `uint_t`. -/
def inc (n : Nat) : Nat := (n + 1) % 2 ^ 32
def dec (n : Nat) : Nat := (n + (2 ^ 32 - 1)) % 2 ^ 32

/-- `INC_PTR`. -/
def incPtr (ptr bufsz : Nat) : Nat := if inc ptr = bufsz then 0 else inc ptr

def bufcntStop (bufsz : Nat) : Nat := bufsz * 3 % 2 ^ 32 / 4
def bufcntStart (bufsz : Nat) : Nat := bufsz / 2

/-- The sizes of the two buffers, which are arrays. -/
structure SPINIB where
  rcvBufsz : Nat
  sndBufsz : Nat
  rcv_pos : 0 < rcvBufsz
  snd_pos : 0 < sndBufsz
  rcv_lt : rcvBufsz < 2 ^ 32
  snd_lt : sndBufsz < 2 ^ 32

/-- The sizes when none are configured. -/
def SPINIB.default : SPINIB := ⟨256, 256, by decide, by decide, by decide, by decide⟩

/-- The routines of the SIO driver that depend on the target, over the states of its port: the
transmission of a character, the callback `SIO_RDY_SND` that is enabled and disabled, whether it can
be called, and what the device does by itself. -/
structure Sio (δ : Type) where
  sndChr : δ → Char → Bool × δ
  enaCbr : δ → δ
  disCbr : δ → δ
  irdy : δ → Bool
  tick : δ → δ

/-- A device with a transmit register for one character. -/
structure Register where
  full : Bool
  cbr : Bool

def Register.sio : Sio Register where
  sndChr r _ := if r.full then (false, r) else (true, { r with full := true })
  enaCbr r := { r with cbr := true }
  disCbr r := { r with cbr := false }
  irdy r := !r.full && r.cbr
  tick r := { r with full := false }

structure SPCB (δ : Type) where
  siopcb : δ
  openflag : Bool
  errorflag : Bool
  ioctl : BitVec 32
  rcvBuffer : Nat → Char
  rcvReadPtr : Nat
  rcvWritePtr : Nat
  rcvCount : Nat
  rcvFcChr : Char
  rcvStopped : Bool
  sndBuffer : Nat → Char
  sndReadPtr : Nat
  sndWritePtr : Nat
  sndCount : Nat
  sndStopped : Bool

/-- The semaphores of the port. -/
inductive SemId
  | rcv | snd
  deriving DecidableEq

section
variable {δ : Type} (D : Sio δ) (ini : SPINIB)

namespace SPCB

/-- The control block before any port has been opened. -/
def cleared (siopcb : δ) : SPCB δ where
  siopcb
  openflag := false
  errorflag := false
  ioctl := 0
  rcvBuffer _ := NUL
  rcvReadPtr := 0
  rcvWritePtr := 0
  rcvCount := 0
  rcvFcChr := NUL
  rcvStopped := false
  sndBuffer _ := NUL
  sndReadPtr := 0
  sndWritePtr := 0
  sndCount := 0
  sndStopped := false

/-- `(ioctl & bit) != 0U`. -/
def ioc (p : SPCB δ) (bit : BitVec 32) : Bool := p.ioctl &&& bit != 0

/-- What `serial_opn_por` makes of the control block. -/
def opnPor (p : SPCB δ) (siopcb : δ) : SPCB δ :=
  { p with
    siopcb, openflag := true, errorflag := false
    ioctl := IOCTL_ECHO ||| IOCTL_CRLF ||| IOCTL_FCSND ||| IOCTL_FCRCV
    rcvReadPtr := 0, rcvWritePtr := 0, rcvCount := 0, rcvFcChr := NUL, rcvStopped := false
    sndReadPtr := 0, sndWritePtr := 0, sndCount := 0, sndStopped := false }

def serialSndChr (p : SPCB δ) (c : Char) : Bool × SPCB δ :=
  let r := D.sndChr p.siopcb c
  if r.1 then (true, { p with siopcb := r.2 })
  else (false, { p with siopcb := D.enaCbr r.2 })

/-- The section of `serial_wri_chr` with the CPU locked; the result is `buffer_full`. -/
def wriChr (p : SPCB δ) (c : Char) : Bool × SPCB δ :=
  let r := if p.sndCount = 0 ∧ p.sndStopped = false then p.serialSndChr D c else (false, p)
  if r.1 then (false, r.2)
  else
    let n := inc r.2.sndCount
    (n == ini.sndBufsz,
      { r.2 with
        sndBuffer := Function.update r.2.sndBuffer r.2.sndWritePtr c
        sndWritePtr := incPtr r.2.sndWritePtr ini.sndBufsz
        sndCount := n })

/-- The section of `serial_rea_chr` with the CPU locked: the character and `buffer_empty`. -/
def reaChr (p : SPCB δ) : (Char × Bool) × SPCB δ :=
  let n := dec p.rcvCount
  let q := { p with rcvReadPtr := incPtr p.rcvReadPtr ini.rcvBufsz, rcvCount := n }
  ((p.rcvBuffer p.rcvReadPtr, n == 0),
    if q.rcvStopped ∧ n ≤ bufcntStart ini.rcvBufsz then
      let r := q.serialSndChr D FC_START
      { r.2 with rcvFcChr := if r.1 then r.2.rcvFcChr else FC_START, rcvStopped := false }
    else q)

/-- A character has been taken from the send buffer; the second component is the semaphore that is
signaled. -/
def sent (p : SPCB δ) : SPCB δ × Option SemId :=
  ({ p with sndReadPtr := incPtr p.sndReadPtr ini.sndBufsz, sndCount := dec p.sndCount },
    if p.sndCount = ini.sndBufsz then some .snd else none)

def irdySnd (p : SPCB δ) : SPCB δ × Option SemId :=
  if p.rcvFcChr ≠ NUL then
    ({ p with siopcb := (D.sndChr p.siopcb p.rcvFcChr).2, rcvFcChr := NUL }, none)
  else if p.sndStopped = false ∧ 0 < p.sndCount then
    sent ini { p with siopcb := (D.sndChr p.siopcb (p.sndBuffer p.sndReadPtr)).2 }
  else ({ p with siopcb := D.disCbr p.siopcb }, none)

/-- The character makes the output go on. -/
def restarts (p : SPCB δ) (c : Char) : Bool :=
  !(p.ioc IOCTL_FCSND && c == FC_STOP) && p.sndStopped && (c == FC_START || p.ioc IOCTL_FCANY)

def irdyRcv (p : SPCB δ) (c : Char) : SPCB δ × Option SemId :=
  if p.ioc IOCTL_FCSND ∧ c = FC_STOP then ({ p with sndStopped := true }, none)
  else if p.sndStopped ∧ (c = FC_START ∨ p.ioc IOCTL_FCANY) then
    let p := { p with sndStopped := false }
    if 0 < p.sndCount then
      let r := p.serialSndChr D (p.sndBuffer p.sndReadPtr)
      if r.1 then sent ini r.2 else (r.2, none)
    else (p, none)
  else if p.ioc IOCTL_FCSND ∧ c = FC_START then (p, none)
  else if p.rcvCount = ini.rcvBufsz then (p, none)
  else
    let s := if p.rcvCount = 0 then some .rcv else none
    let p := { p with
      rcvBuffer := Function.update p.rcvBuffer p.rcvWritePtr c
      rcvWritePtr := incPtr p.rcvWritePtr ini.rcvBufsz
      rcvCount := inc p.rcvCount }
    if p.ioc IOCTL_FCRCV ∧ p.rcvStopped = false ∧ bufcntStop ini.rcvBufsz ≤ p.rcvCount then
      let r := p.serialSndChr D FC_STOP
      ({ r.2 with rcvFcChr := if r.1 then r.2.rcvFcChr else FC_STOP, rcvStopped := true }, s)
    else (p, s)

end SPCB

end

/-- What a task calls and reads within the service calls, each in one piece. -/
inductive Op
  | openflag | errorflag | ioctl | setErrorflag
  | waiSem (s : SemId) | sigSem (s : SemId)
  | wriChr (c : Char) | reaChr

abbrev Op.Out : Op → Type
  | .openflag | .errorflag | .wriChr _ => Bool
  | .ioctl => BitVec 32
  | .setErrorflag => Unit
  | .waiSem _ | .sigSem _ => ER
  | .reaChr => Char × Bool

abbrev Code := Prog Op Op.Out

def openflag : Code Bool := .call .openflag .ret
def errorflag : Code Bool := .call .errorflag .ret
def ioctl : Code (BitVec 32) := .call .ioctl .ret
def waiSem (s : SemId) : Code ER := .call (.waiSem s) .ret
def sigSem (s : SemId) : Code ER := .call (.sigSem s) .ret
def serialReaChr : Code (Char × Bool) := .call .reaChr .ret

def genErcdSys : Code ER := .call .setErrorflag fun _ => .ret E_SYS

def genErcdWait (rercd : ER) : Code ER :=
  if rercd = E_RLWAI ∨ rercd = E_DLT then pure rercd else genErcdSys

/-- `serial_wri_chr` without the test for LF. -/
def putChr (c : Char) : Code ER := do
  let bufferFull : Bool ← .call (.wriChr c) .ret
  return if bufferFull then 1 else 0

/-- The call of itself is for CR. -/
def serialWriChr (c : Char) : Code ER := do
  if c = LF then
    if (← ioctl) &&& IOCTL_CRLF ≠ 0 then
      let rercd ← putChr CR
      if rercd < 0 then return rercd
      if rercd ≠ 0 then
        let rercd ← waiSem .snd
        if rercd < 0 then return ← genErcdWait rercd
  putChr c

/-- What the calls return at `error_exit`. -/
def exitCode (cnt : Nat) (ercd : ER) : ER := if 0 < cnt then cnt else ercd

def wriLoop : List Char → Nat → Bool → Code ER
  | [], wricnt, bufferFull => do
    if !bufferFull then
      if (← sigSem .snd) < 0 then return exitCode wricnt (← genErcdSys)
    return exitCode wricnt E_OK
  | c :: buf, wricnt, bufferFull => do
    if bufferFull then
      let rercd ← waiSem .snd
      if rercd < 0 then return exitCode wricnt (← genErcdWait rercd)
    let rercd ← serialWriChr c
    if rercd < 0 then return exitCode wricnt rercd
    wriLoop buf (wricnt + 1) (rercd != 0)

def serialWriDat (buf : List Char) : Code ER := do
  if !(← openflag) then return E_OBJ
  if ← errorflag then return E_SYS
  wriLoop buf 0 true

/-- The loop of `serial_rea_dat` with `len - reacnt` characters to go; `buf` has those read. -/
def reaLoop : Nat → Nat → List Char → Bool → Code (ER × List Char)
  | 0, reacnt, buf, bufferEmpty => do
    if !bufferEmpty then
      if (← sigSem .rcv) < 0 then return (exitCode reacnt (← genErcdSys), buf)
    return (exitCode reacnt E_OK, buf)
  | n + 1, reacnt, buf, bufferEmpty => do
    if bufferEmpty then
      let rercd ← waiSem .rcv
      if rercd < 0 then return (exitCode reacnt (← genErcdWait rercd), buf)
    let (c, bufferEmpty) ← serialReaChr
    let buf := buf ++ [c]
    let reacnt := reacnt + 1
    if (← ioctl) &&& IOCTL_ECHO ≠ 0 then
      let rercd ← waiSem .snd
      if rercd < 0 then return (exitCode reacnt (← genErcdWait rercd), buf)
      let rercd ← serialWriChr c
      if rercd < 0 then return (exitCode reacnt rercd, buf)
      if rercd = 0 then
        if (← sigSem .snd) < 0 then return (exitCode reacnt (← genErcdSys), buf)
    reaLoop n reacnt buf bufferEmpty

def serialReaDat (len : Nat) : Code (ER × List Char) := do
  if !(← openflag) then return (E_OBJ, [])
  if ← errorflag then return (E_SYS, [])
  reaLoop len 0 [] true

/-- A semaphore with the maximum count 1, and the tasks that wait for it. -/
structure Sem where
  semcnt : Nat
  waitQueue : List Nat

/-- A task with respect to the port: within a call, unless that has returned, or waiting for a
semaphore within it. -/
inductive Task
  | run (p : Code (ER × List Char))
  | wait (s : SemId) (k : ER → Code (ER × List Char))

/-- `held s t`: the task has got the semaphore within its call, and has neither returned it since
nor emptied or filled the buffer. -/
structure Sys (δ : Type) where
  spcb : SPCB δ
  sem : SemId → Sem
  task : Nat → Task
  held : SemId → Nat → Bool

namespace Sys
variable {δ : Type} (D : Sio δ) (ini : SPINIB)

/-- The port has just been opened. -/
def opened (p : SPCB δ) (siopcb : δ) : Sys δ where
  spcb := p.opnPor siopcb
  sem := fun | .rcv => ⟨0, []⟩ | .snd => ⟨1, []⟩
  task _ := .run (.ret (E_OK, []))
  held _ _ := false

/-- A port opened for the first time, whose device has a register. -/
def first : Sys Register := opened (.cleared ⟨false, false⟩) ⟨false, false⟩

def hold (k : Sys δ) (s : SemId) (t : Nat) (b : Bool) : Sys δ :=
  { k with held := Function.update k.held s (Function.update (k.held s) t b) }

/-- The task goes on; a task that leaves the call holds no semaphore. -/
def goto (k : Sys δ) (t : Nat) (p : Code (ER × List Char)) : Sys δ :=
  { k with
    task := Function.update k.task t (.run p)
    held := if p.returned then fun s => Function.update (k.held s) t false else k.held }

def setSem (k : Sys δ) (s : SemId) (m : Sem) : Sys δ :=
  { k with sem := Function.update k.sem s m }

/-- `sig_sem` and `isig_sem`. -/
def signal (k : Sys δ) (s : SemId) : ER × Sys δ :=
  match (k.sem s).waitQueue with
  | [] =>
    if (k.sem s).semcnt < 1 then (E_OK, k.setSem s { k.sem s with semcnt := (k.sem s).semcnt + 1 })
    else (E_QOVR, k)
  | t :: q =>
    let k' := k.setSem s { k.sem s with waitQueue := q }
    match k.task t with
    | .wait _ f => (E_OK, (k'.hold s t true).goto t (f E_OK))
    | .run _ => (E_OK, k')

def setErrorflag (k : Sys δ) : Sys δ := { k with spcb := { k.spcb with errorflag := true } }

/-- What a callback does: `errorflag` is set when `isig_sem` fails. -/
def callback (k : Sys δ) (r : SPCB δ × Option SemId) : Sys δ :=
  let k := { k with spcb := r.1 }
  match r.2 with
  | none => k
  | some s => if (k.signal s).1 < 0 then (k.signal s).2.setErrorflag else (k.signal s).2

/-- The next operation of a task. -/
def exec (k : Sys δ) (t : Nat) : (op : Op) → (op.Out → Code (ER × List Char)) → Sys δ
  | .openflag, f => k.goto t (f k.spcb.openflag)
  | .errorflag, f => k.goto t (f k.spcb.errorflag)
  | .ioctl, f => k.goto t (f k.spcb.ioctl)
  | .setErrorflag, f => k.setErrorflag.goto t (f ())
  | .waiSem s, f =>
    if 0 < (k.sem s).semcnt then
      ((k.setSem s { k.sem s with semcnt := (k.sem s).semcnt - 1 }).hold s t true).goto t (f E_OK)
    else
      { k.setSem s { k.sem s with waitQueue := (k.sem s).waitQueue ++ [t] } with
        task := Function.update k.task t (.wait s f) }
  | .sigSem s, f =>
    let r := (k.hold s t false).signal s
    r.2.goto t (f r.1)
  | .wriChr c, f =>
    let r := k.spcb.wriChr D ini c
    ({ k with spcb := r.2 }.hold .snd t !r.1).goto t (f r.1)
  | .reaChr, f =>
    let r := k.spcb.reaChr D ini
    ({ k with spcb := r.2 }.hold .rcv t !r.1.2).goto t (f r.1)

end Sys

/-- What can happen at a port. The queue of a semaphore is in the order of priority: `reorder`
stands for the place of a task that comes and for a change of priority. -/
inductive Event
  | serialReaDat (t len : Nat) | serialWriDat (t : Nat) (buf : List Char)
  | serialCtlPor (ioctl : BitVec 32)
  | run (t : Nat) | relWai (t : Nat) | reorder (s : SemId) (q : List Nat)
  | irdyRcv (c : Char) | irdySnd | tick

def Sys.step {δ : Type} (D : Sio δ) (ini : SPINIB) (k : Sys δ) : Event → Option (Sys δ)
  | .serialReaDat t len =>
    match k.task t with
    | .run (.ret _) => some (k.goto t (serialReaDat len))
    | _ => none
  | .serialWriDat t buf =>
    match k.task t with
    | .run (.ret _) => some (k.goto t (do return (← serialWriDat buf, [])))
    | _ => none
  | .serialCtlPor ioctl =>
    some (if k.spcb.openflag = false ∨ k.spcb.errorflag then k
      else { k with spcb := { k.spcb with ioctl } })
  | .run t =>
    match k.task t with
    | .run (.call op f) => some (k.exec D ini t op f)
    | _ => none
  | .relWai t =>
    match k.task t with
    | .wait s f =>
      let q := (k.sem s).waitQueue.erase t
      some ((k.setSem s { k.sem s with waitQueue := q }).goto t (f E_RLWAI))
    | _ => none
  | .reorder s q =>
    if q.Perm (k.sem s).waitQueue then some (k.setSem s { k.sem s with waitQueue := q }) else none
  | .irdyRcv c => some (k.callback (k.spcb.irdyRcv D ini c))
  | .irdySnd => if D.irdy k.spcb.siopcb then some (k.callback (k.spcb.irdySnd D ini)) else none
  | .tick => some { k with spcb := { k.spcb with siopcb := D.tick k.spcb.siopcb } }

end AspKernel.Serial
