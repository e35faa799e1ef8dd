import AspKernel.Service

namespace AspKernel
set_option autoImplicit true

def INDEX_NULL : Nat := 2 ^ 32 - 1
def INDEX_ALLOC : Nat := 2 ^ 32 - 2

/-- `sizeof(MPFMB)`. -/
def sizeofMPFMB : BitVec 32 := 4

/-- `mb` holds the field `next` of the management blocks in the area `p_mpfmb`. -/
structure MPFCB where
  blkcnt : Nat
  blksz : Nat
  mpf : Addr
  pMpfmb : Addr
  mb : Nat → Nat
  fblkcnt : Nat
  unused : Nat
  freelist : Nat

namespace MPFCB

def clear (p : MPFCB) : MPFCB :=
  { p with fblkcnt := p.blkcnt, unused := 0, freelist := INDEX_NULL }

/-- The address of a block. -/
def blkAddr (p : MPFCB) (blkidx : Nat) : Addr := p.mpf + BitVec.ofNat 32 (p.blksz * blkidx)

def getMpfBlock (p : MPFCB) : Addr × MPFCB :=
  let (blkidx, p) :=
    if p.freelist ≠ INDEX_NULL then (p.freelist, { p with freelist := p.mb p.freelist })
    else (p.unused, { p with unused := p.unused + 1 })
  (p.blkAddr blkidx,
    { p with fblkcnt := p.fblkcnt - 1, mb := Function.update p.mb blkidx INDEX_ALLOC })

def blkoffset (p : MPFCB) (blk : Addr) : Nat := (blk - p.mpf).toNat

/-- The test of `rel_mpf` that the address is that of an allocated block. -/
def validBlk (p : MPFCB) (blk : Addr) : Bool :=
  decide (p.mpf ≤ blk) && p.blkoffset blk % p.blksz == 0 &&
  decide (p.blkoffset blk / p.blksz < p.unused) &&
  p.mb (p.blkoffset blk / p.blksz) == INDEX_ALLOC

/-- The return of a block to the free list. -/
def relBlock (p : MPFCB) (blk : Addr) : MPFCB :=
  let blkidx := p.blkoffset blk / p.blksz
  { p with
    fblkcnt := p.fblkcnt + 1
    mb := Function.update p.mb blkidx p.freelist
    freelist := blkidx }

end MPFCB

/-- `memMpf` and `memMb` are what `kernel_malloc` returns for the two areas. -/
def acreMpf (cfg : Cfg) (o : Obj MPFCB) (pk : MPFINIB) (memMpf memMb : Addr) : Res (Obj MPFCB) :=
  check [(o.core.ctxUnl .tsk, E_CTX), (!pk.mpfatr.has (~~~TA_TPRI), E_RSATR),
    (pk.blkcnt != 0, E_PAR), (pk.blksz != 0, E_PAR),
    (pk.mpf == 0 || cfg.target.mpfAligned pk.mpf, E_PAR),
    (pk.pMpfmb == 0 || cfg.target.mbAligned pk.pMpfmb, E_PAR)] o <|
  match o.core.takeWobj cfg.mpf .MPF with
  | none => .err o E_NOID
  | some (i, c) =>
    let blksz := cfg.target.roundMpf pk.blksz
    let mpf := if pk.mpf = 0 then memMpf else pk.mpf
    let mpfatr := if pk.mpf = 0 then pk.mpfatr ||| TA_MEMALLOC else pk.mpfatr
    let mpfSize := BitVec.ofNat 32 blksz * BitVec.ofNat 32 pk.blkcnt
    let mbSize := sizeofMPFMB * BitVec.ofNat 32 pk.blkcnt
    if mpf = 0 then .err o E_NOMEM
    else
      let pMpfmb := if pk.pMpfmb = 0 then memMb else pk.pMpfmb
      let mpfatr := if pk.pMpfmb = 0 then mpfatr ||| TA_MBALLOC else mpfatr
      if pMpfmb = 0 then
        let c := if pk.mpf = 0 then o.core.kernelMalloc mpfSize memMpf else o.core
        .err (o.setCore (if pk.mpf = 0 then c.kernelFree mpf else c)) E_NOMEM
      else
        let c := if pk.mpf = 0 then c.kernelMalloc mpfSize memMpf else c
        let c := if pk.pMpfmb = 0 then c.kernelMalloc mbSize memMb else c
        let p : MPFCB := ⟨pk.blkcnt, blksz, mpf, pMpfmb, (o.cb i).mb, pk.blkcnt, 0, INDEX_NULL⟩
        .value ((o.setCore (c.initWobj (.MPF, i) mpfatr)).setCb i p) (toId i)

def delMpf (cfg : Cfg) (o : Obj MPFCB) (mpfid : ID) : Res (Obj MPFCB) :=
  check [(o.core.ctxUnl .tsk, E_CTX), (cfg.mpf.valid mpfid, E_ID)] o <|
  let q := (.MPF, index mpfid)
  if o.core.noWobj q then .err o E_NOEXS
  else if cfg.mpf.dynamic q.2 then
    let r := o.core.initWaitQueue q
    let p := o.cb q.2
    let mpfatr := o.core.wobjatr q
    let c := if mpfatr.has TA_MEMALLOC then r.1.kernelFree p.mpf else r.1
    let c := if mpfatr.has TA_MBALLOC then c.kernelFree p.pMpfmb else c
    (o.setCore (c.freeWobjcb q)).ok .tsk r.2 .none
  else .err o E_OBJ

/-- `get_mpf`, `pget_mpf` and `tget_mpf`. -/
def getMpfWith (cfg : Cfg) (o : Obj MPFCB) (mpfid : ID) (m : WaitMode) : Res (Obj MPFCB) :=
  check [(o.core.ctxMode m, E_CTX), (cfg.mpf.valid mpfid, E_ID), (m.valid, E_PAR)] o <|
  let i := index mpfid
  let p := o.cb i
  if o.core.noWobj (.MPF, i) then .err o E_NOEXS
  else if 0 < p.fblkcnt then
    let r := p.getMpfBlock
    (o.setCb i r.2).ok .tsk false (.blk r.1)
  else if m.polls then .err o E_TMOUT
  else .wait (o.setCore (o.core.waitWobj m (.MPF, i) .local))

def getMpf (cfg : Cfg) (o : Obj MPFCB) (mpfid : ID) : Res (Obj MPFCB) := getMpfWith cfg o mpfid .fevr
def pgetMpf (cfg : Cfg) (o : Obj MPFCB) (mpfid : ID) : Res (Obj MPFCB) :=
  getMpfWith cfg o mpfid (.pol .tsk)
def tgetMpf (cfg : Cfg) (o : Obj MPFCB) (mpfid : ID) (tmout : TMO) : Res (Obj MPFCB) :=
  getMpfWith cfg o mpfid (.tmo tmout)

def relMpf (cfg : Cfg) (o : Obj MPFCB) (mpfid : ID) (blk : Addr) : Res (Obj MPFCB) :=
  check [(o.core.ctxUnl .tsk, E_CTX), (cfg.mpf.valid mpfid, E_ID)] o <|
  let i := index mpfid
  let p := o.cb i
  if o.core.noWobj (.MPF, i) then .err o E_NOEXS
  else if p.validBlk blk = false then .err o E_PAR
  else
    match o.core.headTsk (.MPF, i) with
    | some t =>
      let w := { (o.core.tcb t).winfo with blk := blk }
      let r := ((o.core.queueDelete t).setWinfo t w).waitComplete t
      (o.setCore r.1).ok .tsk r.2 .none
    | none => (o.setCb i (p.relBlock blk)).ok .tsk false .none

def iniMpf (cfg : Cfg) (o : Obj MPFCB) (mpfid : ID) : Res (Obj MPFCB) :=
  check [(o.core.ctxUnl .tsk, E_CTX), (cfg.mpf.valid mpfid, E_ID)] o <|
  let i := index mpfid
  if o.core.noWobj (.MPF, i) then .err o E_NOEXS
  else
    let r := o.core.initWaitQueue (.MPF, i)
    ((o.setCore r.1).setCb i (o.cb i).clear).ok .tsk r.2 .none

def refMpf (cfg : Cfg) (o : Obj MPFCB) (mpfid : ID) : Res (Obj MPFCB) :=
  check [(o.core.ctxUnl .tsk, E_CTX), (cfg.mpf.valid mpfid, E_ID)] o <|
  let i := index mpfid
  if o.core.noWobj (.MPF, i) then .err o E_NOEXS
  else o.ok .tsk false (.rmpf (o.core.waitTskid (.MPF, i)) (o.cb i).fblkcnt)

end AspKernel
