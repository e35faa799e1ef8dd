import AspKernel.TaskManage
import AspKernel.TaskRefer
import AspKernel.TaskSync
import AspKernel.TaskExcept
import AspKernel.SysManage
import AspKernel.Cyclic
import AspKernel.Alarm
import AspKernel.Semaphore
import AspKernel.EventFlag
import AspKernel.PriDataQ
import AspKernel.Mailbox
import AspKernel.MemPFix

namespace AspKernel
set_option autoImplicit true

structure Kernel where
  core : Core
  sem : Nat → SEMCB
  flg : Nat → FLGCB
  dtq : Nat → DTQCB
  pdq : Nat → PDQCB
  mbx : Nat → MBXCB
  msg : Addr → T_MSG
  mpf : Nat → MPFCB

namespace Kernel

def setCore (k : Kernel) (c : Core) : Kernel := { k with core := c }

/-- The calls of one kind of object see its control blocks. -/
def onCore (k : Kernel) (f : Core → Res Core) : Res Kernel := (f k.core).map k.setCore
def onSem (k : Kernel) (f : Obj SEMCB → Res (Obj SEMCB)) : Res Kernel :=
  (f ⟨k.core, k.sem⟩).map fun o => { k with core := o.core, sem := o.cb }
def onFlg (k : Kernel) (f : Obj FLGCB → Res (Obj FLGCB)) : Res Kernel :=
  (f ⟨k.core, k.flg⟩).map fun o => { k with core := o.core, flg := o.cb }
def onDtq (k : Kernel) (f : Obj DTQCB → Res (Obj DTQCB)) : Res Kernel :=
  (f ⟨k.core, k.dtq⟩).map fun o => { k with core := o.core, dtq := o.cb }
def onPdq (k : Kernel) (f : Obj PDQCB → Res (Obj PDQCB)) : Res Kernel :=
  (f ⟨k.core, k.pdq⟩).map fun o => { k with core := o.core, pdq := o.cb }
def onMbx (k : Kernel) (f : MbxObj → Res MbxObj) : Res Kernel :=
  (f ⟨⟨k.core, k.mbx⟩, k.msg⟩).map fun o => { k with core := o.core, mbx := o.cb, msg := o.msg }
def onMpf (k : Kernel) (f : Obj MPFCB → Res (Obj MPFCB)) : Res Kernel :=
  (f ⟨k.core, k.mpf⟩).map fun o => { k with core := o.core, mpf := o.cb }

end Kernel

/-- The service calls with their arguments. -/
inductive Call
  | acreTsk (pk : T_CTSK) (mem : Addr) | delTsk (tskid : ID)
  | actTsk (tskid : ID) | iactTsk (tskid : ID) | canAct (tskid : ID) | extTsk | terTsk (tskid : ID)
  | chgPri (tskid : ID) (tskpri : PRI) | getPri (tskid : ID) | refTsk (tskid : ID)
  | slpTsk | tslpTsk (tmout : TMO) | wupTsk (tskid : ID) | iwupTsk (tskid : ID) | canWup (tskid : ID)
  | relWai (tskid : ID) | irelWai (tskid : ID) | susTsk (tskid : ID) | rsmTsk (tskid : ID)
  | dlyTsk (dlytim : RELTIM)
  | defTex (tskid : ID) (texatr : ATR) (texrtn : Addr) | rasTex (tskid : ID) (rasptn : TEXPTN)
  | irasTex (tskid : ID) (rasptn : TEXPTN) | disTex | enaTex | refTex (tskid : ID)
  | acreSem (pk : SEMINIB) | delSem (semid : ID) | sigSem (semid : ID) | isigSem (semid : ID)
  | waiSem (semid : ID) | polSem (semid : ID) | twaiSem (semid : ID) (tmout : TMO)
  | iniSem (semid : ID) | refSem (semid : ID)
  | acreFlg (pk : FLGINIB) | delFlg (flgid : ID) | setFlg (flgid : ID) (setptn : FLGPTN)
  | isetFlg (flgid : ID) (setptn : FLGPTN) | clrFlg (flgid : ID) (clrptn : FLGPTN)
  | waiFlg (flgid : ID) (waiptn : FLGPTN) (wfmode : MODE)
  | polFlg (flgid : ID) (waiptn : FLGPTN) (wfmode : MODE)
  | twaiFlg (flgid : ID) (waiptn : FLGPTN) (wfmode : MODE) (tmout : TMO) | iniFlg (flgid : ID)
  | refFlg (flgid : ID)
  | acreDtq (pk : DTQINIB) (mem : Addr) | delDtq (dtqid : ID)
  | sndDtq (dtqid : ID) (data : IntPtr) | psndDtq (dtqid : ID) (data : IntPtr)
  | ipsndDtq (dtqid : ID) (data : IntPtr) | tsndDtq (dtqid : ID) (data : IntPtr) (tmout : TMO)
  | fsndDtq (dtqid : ID) (data : IntPtr) | ifsndDtq (dtqid : ID) (data : IntPtr)
  | rcvDtq (dtqid : ID) | prcvDtq (dtqid : ID) | trcvDtq (dtqid : ID) (tmout : TMO)
  | iniDtq (dtqid : ID) | refDtq (dtqid : ID)
  | acrePdq (pk : PDQINIB) (mem : Addr) | delPdq (pdqid : ID)
  | sndPdq (pdqid : ID) (data : IntPtr) (datapri : PRI)
  | psndPdq (pdqid : ID) (data : IntPtr) (datapri : PRI)
  | ipsndPdq (pdqid : ID) (data : IntPtr) (datapri : PRI)
  | tsndPdq (pdqid : ID) (data : IntPtr) (datapri : PRI) (tmout : TMO)
  | rcvPdq (pdqid : ID) | prcvPdq (pdqid : ID) | trcvPdq (pdqid : ID) (tmout : TMO)
  | iniPdq (pdqid : ID) | refPdq (pdqid : ID)
  | acreMbx (pk : MBXINIB) (mprihd : Addr) | delMbx (mbxid : ID)
  | sndMbx (mbxid : ID) (pkMsg : Addr) | rcvMbx (mbxid : ID) | prcvMbx (mbxid : ID)
  | trcvMbx (mbxid : ID) (tmout : TMO) | iniMbx (mbxid : ID) | refMbx (mbxid : ID)
  | acreMpf (pk : MPFINIB) (memMpf memMb : Addr) | delMpf (mpfid : ID)
  | getMpf (mpfid : ID) | pgetMpf (mpfid : ID) | tgetMpf (mpfid : ID) (tmout : TMO)
  | relMpf (mpfid : ID) (blk : Addr) | iniMpf (mpfid : ID) | refMpf (mpfid : ID)
  | acreMtx (mtxatr : ATR) (ceilpri : PRI) | delMtx (mtxid : ID)
  | locMtx (mtxid : ID) | plocMtx (mtxid : ID) | tlocMtx (mtxid : ID) (tmout : TMO)
  | unlMtx (mtxid : ID) | iniMtx (mtxid : ID) | refMtx (mtxid : ID)
  | acreCyc (pk : CYCINIB) (cychdr : Addr) | delCyc (cycid : ID) | staCyc (cycid : ID)
  | stpCyc (cycid : ID) | refCyc (cycid : ID)
  | acreAlm (almatr : ATR) (almhdr : Addr) | delAlm (almid : ID)
  | staAlm (almid : ID) (almtim : RELTIM) | istaAlm (almid : ID) (almtim : RELTIM)
  | stpAlm (almid : ID) | istpAlm (almid : ID) | refAlm (almid : ID)
  | rotRdq (tskpri : PRI) | irotRdq (tskpri : PRI) | getTid | igetTid
  | locCpu | ilocCpu | unlCpu | iunlCpu | disDsp | enaDsp | chgIpm (intpri : PRI) (valid : Bool)

/-- The body of a service call. -/
def exec (cfg : Cfg) (k : Kernel) : Call → Res Kernel
  | .acreTsk pk mem => k.onCore (·.acreTsk cfg pk mem)
  | .delTsk tskid => k.onCore (Core.delTsk cfg · tskid)
  | .actTsk tskid => k.onCore (Core.actTsk cfg · tskid)
  | .iactTsk tskid => k.onCore (Core.iactTsk cfg · tskid)
  | .canAct tskid => k.onCore (Core.canAct cfg · tskid)
  | .extTsk => k.onCore Core.extTsk
  | .terTsk tskid => k.onCore (Core.terTsk cfg · tskid)
  | .chgPri tskid tskpri => k.onCore (Core.chgPri cfg · tskid tskpri)
  | .getPri tskid => k.onCore (Core.getPri cfg · tskid)
  | .refTsk tskid => k.onCore (Core.refTsk cfg · tskid)
  | .slpTsk => k.onCore Core.slpTsk
  | .tslpTsk tmout => k.onCore (Core.tslpTsk · tmout)
  | .wupTsk tskid => k.onCore (Core.wupTsk cfg · tskid)
  | .iwupTsk tskid => k.onCore (Core.iwupTsk cfg · tskid)
  | .canWup tskid => k.onCore (Core.canWup cfg · tskid)
  | .relWai tskid => k.onCore (Core.relWai cfg · tskid)
  | .irelWai tskid => k.onCore (Core.irelWai cfg · tskid)
  | .susTsk tskid => k.onCore (Core.susTsk cfg · tskid)
  | .rsmTsk tskid => k.onCore (Core.rsmTsk cfg · tskid)
  | .dlyTsk dlytim => k.onCore (Core.dlyTsk · dlytim)
  | .defTex tskid texatr texrtn => k.onCore (Core.defTex cfg · tskid texatr texrtn)
  | .rasTex tskid rasptn => k.onCore (Core.rasTex cfg · tskid rasptn)
  | .irasTex tskid rasptn => k.onCore (Core.irasTex cfg · tskid rasptn)
  | .disTex => k.onCore Core.disTex
  | .enaTex => k.onCore Core.enaTex
  | .refTex tskid => k.onCore (Core.refTex cfg · tskid)
  | .acreSem pk => k.onSem (AspKernel.acreSem cfg · pk)
  | .delSem semid => k.onSem (AspKernel.delSem cfg · semid)
  | .sigSem semid => k.onSem (AspKernel.sigSem cfg · semid)
  | .isigSem semid => k.onSem (AspKernel.isigSem cfg · semid)
  | .waiSem semid => k.onSem (AspKernel.waiSem cfg · semid)
  | .polSem semid => k.onSem (AspKernel.polSem cfg · semid)
  | .twaiSem semid tmout => k.onSem (AspKernel.twaiSem cfg · semid tmout)
  | .iniSem semid => k.onSem (AspKernel.iniSem cfg · semid)
  | .refSem semid => k.onSem (AspKernel.refSem cfg · semid)
  | .acreFlg pk => k.onFlg (AspKernel.acreFlg cfg · pk)
  | .delFlg flgid => k.onFlg (AspKernel.delFlg cfg · flgid)
  | .setFlg flgid setptn => k.onFlg (AspKernel.setFlg cfg · flgid setptn)
  | .isetFlg flgid setptn => k.onFlg (AspKernel.isetFlg cfg · flgid setptn)
  | .clrFlg flgid clrptn => k.onFlg (AspKernel.clrFlg cfg · flgid clrptn)
  | .waiFlg flgid waiptn wfmode => k.onFlg (AspKernel.waiFlg cfg · flgid waiptn wfmode)
  | .polFlg flgid waiptn wfmode => k.onFlg (AspKernel.polFlg cfg · flgid waiptn wfmode)
  | .twaiFlg flgid waiptn wfmode tmout =>
    k.onFlg (AspKernel.twaiFlg cfg · flgid waiptn wfmode tmout)
  | .iniFlg flgid => k.onFlg (AspKernel.iniFlg cfg · flgid)
  | .refFlg flgid => k.onFlg (AspKernel.refFlg cfg · flgid)
  | .acreDtq pk mem => k.onDtq (AspKernel.acreDtq cfg · pk mem)
  | .delDtq dtqid => k.onDtq (AspKernel.delDtq cfg · dtqid)
  | .sndDtq dtqid data => k.onDtq (AspKernel.sndDtq cfg · dtqid data)
  | .psndDtq dtqid data => k.onDtq (AspKernel.psndDtq cfg · dtqid data)
  | .ipsndDtq dtqid data => k.onDtq (AspKernel.ipsndDtq cfg · dtqid data)
  | .tsndDtq dtqid data tmout => k.onDtq (AspKernel.tsndDtq cfg · dtqid data tmout)
  | .fsndDtq dtqid data => k.onDtq (AspKernel.fsndDtq cfg · dtqid data)
  | .ifsndDtq dtqid data => k.onDtq (AspKernel.ifsndDtq cfg · dtqid data)
  | .rcvDtq dtqid => k.onDtq (AspKernel.rcvDtq cfg · dtqid)
  | .prcvDtq dtqid => k.onDtq (AspKernel.prcvDtq cfg · dtqid)
  | .trcvDtq dtqid tmout => k.onDtq (AspKernel.trcvDtq cfg · dtqid tmout)
  | .iniDtq dtqid => k.onDtq (AspKernel.iniDtq cfg · dtqid)
  | .refDtq dtqid => k.onDtq (AspKernel.refDtq cfg · dtqid)
  | .acrePdq pk mem => k.onPdq (AspKernel.acrePdq cfg · pk mem)
  | .delPdq pdqid => k.onPdq (AspKernel.delPdq cfg · pdqid)
  | .sndPdq pdqid data datapri => k.onPdq (AspKernel.sndPdq cfg · pdqid data datapri)
  | .psndPdq pdqid data datapri => k.onPdq (AspKernel.psndPdq cfg · pdqid data datapri)
  | .ipsndPdq pdqid data datapri => k.onPdq (AspKernel.ipsndPdq cfg · pdqid data datapri)
  | .tsndPdq pdqid data datapri tmout =>
    k.onPdq (AspKernel.tsndPdq cfg · pdqid data datapri tmout)
  | .rcvPdq pdqid => k.onPdq (AspKernel.rcvPdq cfg · pdqid)
  | .prcvPdq pdqid => k.onPdq (AspKernel.prcvPdq cfg · pdqid)
  | .trcvPdq pdqid tmout => k.onPdq (AspKernel.trcvPdq cfg · pdqid tmout)
  | .iniPdq pdqid => k.onPdq (AspKernel.iniPdq cfg · pdqid)
  | .refPdq pdqid => k.onPdq (AspKernel.refPdq cfg · pdqid)
  | .acreMbx pk mprihd => k.onMbx (AspKernel.acreMbx cfg · pk mprihd)
  | .delMbx mbxid => k.onMbx (AspKernel.delMbx cfg · mbxid)
  | .sndMbx mbxid pkMsg => k.onMbx (AspKernel.sndMbx cfg · mbxid pkMsg)
  | .rcvMbx mbxid => k.onMbx (AspKernel.rcvMbx cfg · mbxid)
  | .prcvMbx mbxid => k.onMbx (AspKernel.prcvMbx cfg · mbxid)
  | .trcvMbx mbxid tmout => k.onMbx (AspKernel.trcvMbx cfg · mbxid tmout)
  | .iniMbx mbxid => k.onMbx (AspKernel.iniMbx cfg · mbxid)
  | .refMbx mbxid => k.onMbx (AspKernel.refMbx cfg · mbxid)
  | .acreMpf pk memMpf memMb => k.onMpf (AspKernel.acreMpf cfg · pk memMpf memMb)
  | .delMpf mpfid => k.onMpf (AspKernel.delMpf cfg · mpfid)
  | .getMpf mpfid => k.onMpf (AspKernel.getMpf cfg · mpfid)
  | .pgetMpf mpfid => k.onMpf (AspKernel.pgetMpf cfg · mpfid)
  | .tgetMpf mpfid tmout => k.onMpf (AspKernel.tgetMpf cfg · mpfid tmout)
  | .relMpf mpfid blk => k.onMpf (AspKernel.relMpf cfg · mpfid blk)
  | .iniMpf mpfid => k.onMpf (AspKernel.iniMpf cfg · mpfid)
  | .refMpf mpfid => k.onMpf (AspKernel.refMpf cfg · mpfid)
  | .acreMtx mtxatr ceilpri => k.onCore (Core.acreMtx cfg · mtxatr ceilpri)
  | .delMtx mtxid => k.onCore (Core.delMtx cfg · mtxid)
  | .locMtx mtxid => k.onCore (Core.locMtx cfg · mtxid)
  | .plocMtx mtxid => k.onCore (Core.plocMtx cfg · mtxid)
  | .tlocMtx mtxid tmout => k.onCore (Core.tlocMtx cfg · mtxid tmout)
  | .unlMtx mtxid => k.onCore (Core.unlMtx cfg · mtxid)
  | .iniMtx mtxid => k.onCore (Core.iniMtx cfg · mtxid)
  | .refMtx mtxid => k.onCore (Core.refMtx cfg · mtxid)
  | .acreCyc pk cychdr => k.onCore (Core.acreCyc cfg · pk cychdr)
  | .delCyc cycid => k.onCore (Core.delCyc cfg · cycid)
  | .staCyc cycid => k.onCore (Core.staCyc cfg · cycid)
  | .stpCyc cycid => k.onCore (Core.stpCyc cfg · cycid)
  | .refCyc cycid => k.onCore (Core.refCyc cfg · cycid)
  | .acreAlm almatr almhdr => k.onCore (Core.acreAlm cfg · almatr almhdr)
  | .delAlm almid => k.onCore (Core.delAlm cfg · almid)
  | .staAlm almid almtim => k.onCore (Core.staAlm cfg · almid almtim)
  | .istaAlm almid almtim => k.onCore (Core.istaAlm cfg · almid almtim)
  | .stpAlm almid => k.onCore (Core.stpAlm cfg · almid)
  | .istpAlm almid => k.onCore (Core.istpAlm cfg · almid)
  | .refAlm almid => k.onCore (Core.refAlm cfg · almid)
  | .rotRdq tskpri => k.onCore (Core.rotRdq · tskpri)
  | .irotRdq tskpri => k.onCore (Core.irotRdq · tskpri)
  | .getTid => k.onCore Core.getTid
  | .igetTid => k.onCore Core.igetTid
  | .locCpu => k.onCore Core.locCpu
  | .ilocCpu => k.onCore Core.ilocCpu
  | .unlCpu => k.onCore Core.unlCpu
  | .iunlCpu => k.onCore Core.iunlCpu
  | .disDsp => k.onCore Core.disDsp
  | .enaDsp => k.onCore Core.enaDsp
  | .chgIpm intpri valid => k.onCore (Core.chgIpm · intpri valid)

end AspKernel
