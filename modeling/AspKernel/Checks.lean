import AspKernel.RunInv

namespace AspKernel
set_option autoImplicit true

/-- The object that a call names. -/
def Call.object : Call → Option (ObjKind × ID)
  | .delTsk id | .actTsk id | .iactTsk id | .canAct id | .terTsk id | .chgPri id _ | .getPri id
  | .refTsk id | .wupTsk id | .iwupTsk id | .canWup id | .relWai id | .irelWai id | .susTsk id
  | .rsmTsk id | .defTex id _ _ | .rasTex id _ | .irasTex id _ | .refTex id => some (.tsk, id)
  | .delSem id | .sigSem id | .isigSem id | .waiSem id | .polSem id | .twaiSem id _ | .iniSem id
  | .refSem id => some (.wobj .SEM, id)
  | .delFlg id | .setFlg id _ | .isetFlg id _ | .clrFlg id _ | .waiFlg id _ _ | .polFlg id _ _
  | .twaiFlg id _ _ _ | .iniFlg id | .refFlg id => some (.wobj .FLG, id)
  | .delDtq id | .sndDtq id _ | .psndDtq id _ | .ipsndDtq id _ | .tsndDtq id _ _ | .fsndDtq id _
  | .ifsndDtq id _ | .rcvDtq id | .prcvDtq id | .trcvDtq id _ | .iniDtq id | .refDtq id =>
    some (.wobj .SDTQ, id)
  | .delPdq id | .sndPdq id _ _ | .psndPdq id _ _ | .ipsndPdq id _ _ | .tsndPdq id _ _ _
  | .rcvPdq id | .prcvPdq id | .trcvPdq id _ | .iniPdq id | .refPdq id => some (.wobj .SPDQ, id)
  | .delMbx id | .sndMbx id _ | .rcvMbx id | .prcvMbx id | .trcvMbx id _ | .iniMbx id
  | .refMbx id => some (.wobj .MBX, id)
  | .delMpf id | .getMpf id | .pgetMpf id | .tgetMpf id _ | .relMpf id _ | .iniMpf id
  | .refMpf id => some (.wobj .MPF, id)
  | .delMtx id | .locMtx id | .plocMtx id | .tlocMtx id _ | .unlMtx id | .iniMtx id
  | .refMtx id => some (.wobj .MTX, id)
  | .delCyc id | .staCyc id | .stpCyc id | .refCyc id => some (.cyc, id)
  | .delAlm id | .staAlm id _ | .istaAlm id _ | .stpAlm id | .istpAlm id | .refAlm id =>
    some (.alm, id)
  | _ => none

/-- The kind of the object that a call creates. -/
def Call.acre : Call → Option ObjKind
  | .acreTsk .. => some .tsk
  | .acreSem _ => some (.wobj .SEM)
  | .acreFlg _ => some (.wobj .FLG)
  | .acreDtq .. => some (.wobj .SDTQ)
  | .acrePdq .. => some (.wobj .SPDQ)
  | .acreMbx .. => some (.wobj .MBX)
  | .acreMpf .. => some (.wobj .MPF)
  | .acreMtx .. => some (.wobj .MTX)
  | .acreCyc .. => some .cyc
  | .acreAlm .. => some .alm
  | _ => none

/-- The object that a call deletes. -/
def Call.del : Call → Option (ObjKind × ID)
  | .delTsk id => some (.tsk, id)
  | .delSem id => some (.wobj .SEM, id)
  | .delFlg id => some (.wobj .FLG, id)
  | .delDtq id => some (.wobj .SDTQ, id)
  | .delPdq id => some (.wobj .SPDQ, id)
  | .delMbx id => some (.wobj .MBX, id)
  | .delMpf id => some (.wobj .MPF, id)
  | .delMtx id => some (.wobj .MTX, id)
  | .delCyc id => some (.cyc, id)
  | .delAlm id => some (.alm, id)
  | _ => none

/-- The checks of the context and of the parameters that a call makes before it looks at its
object, each with its error code. -/
def Call.checks (cfg : Cfg) (c : Core) : Call → List (Bool × ER)
  | .acreTsk pk _ => [(c.ctxUnl .tsk, E_CTX),
    (!pk.tskatr.has (~~~(TA_ACT ||| TARGET_TSKATR)), E_RSATR),
    (cfg.target.funcAligned pk.task, E_PAR), (cfg.target.funcNonnull pk.task, E_PAR),
    (validTpri pk.itskpri, E_PAR), (decide (cfg.target.minStksz ≤ pk.stksz), E_PAR),
    (pk.stk == 0 || cfg.target.stkszAligned pk.stksz, E_PAR),
    (pk.stk == 0 || cfg.target.stackAligned pk.stk, E_PAR)]
  | .delTsk id | .rsmTsk id | .relWai id => [(c.ctxUnl .tsk, E_CTX), (cfg.tsk.valid id, E_ID)]
  | .irelWai id => [(c.ctxUnl .int, E_CTX), (cfg.tsk.valid id, E_ID)]
  | .actTsk id | .wupTsk id =>
    [(c.ctxUnl .tsk, E_CTX), (cfg.tsk.valid id || Ctx.tsk == .tsk && id == TSK_SELF, E_ID)]
  | .iactTsk id | .iwupTsk id =>
    [(c.ctxUnl .int, E_CTX), (cfg.tsk.valid id || Ctx.int == .tsk && id == TSK_SELF, E_ID)]
  | .canAct id | .getPri id | .refTsk id | .canWup id | .susTsk id | .refTex id =>
    [(c.ctxUnl .tsk, E_CTX), (cfg.tsk.valid id || id == TSK_SELF, E_ID)]
  | .extTsk => [(!c.senseContext, E_CTX)]
  | .terTsk id =>
    [(c.ctxUnl .tsk, E_CTX), (cfg.tsk.valid id, E_ID), (c.pRuntsk != some (index id), E_ILUSE)]
  | .chgPri id pri => [(c.ctxUnl .tsk, E_CTX), (cfg.tsk.valid id || id == TSK_SELF, E_ID),
    (validTpri pri || pri == TPRI_INI, E_PAR)]
  | .slpTsk => [(c.canDispatch, E_CTX), (WaitMode.fevr.valid, E_PAR)]
  | .tslpTsk tmout => [(c.canDispatch, E_CTX), ((WaitMode.tmo tmout).valid, E_PAR)]
  | .dlyTsk dlytim => [(c.canDispatch, E_CTX), (decide (dlytim ≤ TMAX_RELTIM), E_PAR)]
  | .defTex id texatr texrtn =>
    [(c.ctxUnl .tsk, E_CTX), (cfg.tsk.valid id || id == TSK_SELF, E_ID),
      (!texatr.has (~~~TA_NULL), E_RSATR), (texrtn == 0 || cfg.target.funcAligned texrtn, E_PAR),
      (texrtn == 0 || cfg.target.funcNonnull texrtn, E_PAR)]
  | .rasTex id rasptn => [(c.ctxUnl .tsk, E_CTX), (cfg.tsk.valid id || id == TSK_SELF, E_ID),
    (rasptn != 0, E_PAR)]
  | .irasTex id rasptn =>
    [(c.ctxUnl .int, E_CTX), (cfg.tsk.valid id, E_ID), (rasptn != 0, E_PAR)]
  | .disTex | .enaTex | .getTid | .disDsp | .enaDsp => [(c.ctxUnl .tsk, E_CTX)]
  | .igetTid => [(c.ctxUnl .int, E_CTX)]
  | .acreSem pk => [(c.ctxUnl .tsk, E_CTX), (!pk.sematr.has (~~~TA_TPRI), E_RSATR),
    (decide (pk.isemcnt ≤ pk.maxsem), E_PAR),
    (decide (1 ≤ pk.maxsem ∧ pk.maxsem ≤ TMAX_MAXSEM), E_PAR)]
  | .delSem id | .sigSem id | .iniSem id | .refSem id =>
    [(c.ctxUnl .tsk, E_CTX), (cfg.sem.valid id, E_ID)]
  | .isigSem id => [(c.ctxUnl .int, E_CTX), (cfg.sem.valid id, E_ID)]
  | .waiSem id => waits .fevr (cfg.sem.valid id)
  | .polSem id => waits (.pol .tsk) (cfg.sem.valid id)
  | .twaiSem id tmout => waits (.tmo tmout) (cfg.sem.valid id)
  | .acreFlg pk => [(c.ctxUnl .tsk, E_CTX),
    (!pk.flgatr.has (~~~(TA_TPRI ||| TA_WMUL ||| TA_CLR)), E_RSATR)]
  | .delFlg id | .setFlg id _ | .clrFlg id _ | .iniFlg id | .refFlg id =>
    [(c.ctxUnl .tsk, E_CTX), (cfg.flg.valid id, E_ID)]
  | .isetFlg id _ => [(c.ctxUnl .int, E_CTX), (cfg.flg.valid id, E_ID)]
  | .waiFlg id waiptn wfmode => flgWaits .fevr id waiptn wfmode
  | .polFlg id waiptn wfmode => flgWaits (.pol .tsk) id waiptn wfmode
  | .twaiFlg id waiptn wfmode tmout => flgWaits (.tmo tmout) id waiptn wfmode
  | .acreDtq pk _ => [(c.ctxUnl .tsk, E_CTX), (!pk.dtqatr.has (~~~TA_TPRI), E_RSATR),
    (pk.pDtqmb == 0 || cfg.target.mbAligned pk.pDtqmb, E_PAR)]
  | .delDtq id | .fsndDtq id _ | .iniDtq id | .refDtq id =>
    [(c.ctxUnl .tsk, E_CTX), (cfg.dtq.valid id, E_ID)]
  | .ifsndDtq id _ => [(c.ctxUnl .int, E_CTX), (cfg.dtq.valid id, E_ID)]
  | .sndDtq id _ | .rcvDtq id => waits .fevr (cfg.dtq.valid id)
  | .psndDtq id _ | .prcvDtq id => waits (.pol .tsk) (cfg.dtq.valid id)
  | .ipsndDtq id _ => waits (.pol .int) (cfg.dtq.valid id)
  | .tsndDtq id _ tmout | .trcvDtq id tmout => waits (.tmo tmout) (cfg.dtq.valid id)
  | .acrePdq pk _ => [(c.ctxUnl .tsk, E_CTX), (!pk.pdqatr.has (~~~TA_TPRI), E_RSATR),
    (validDpri pk.maxdpri, E_PAR), (pk.pPdqmb == 0 || cfg.target.mbAligned pk.pPdqmb, E_PAR)]
  | .delPdq id | .iniPdq id | .refPdq id => [(c.ctxUnl .tsk, E_CTX), (cfg.pdq.valid id, E_ID)]
  | .sndPdq id _ datapri => pdqSends .fevr id datapri
  | .psndPdq id _ datapri => pdqSends (.pol .tsk) id datapri
  | .ipsndPdq id _ datapri => pdqSends (.pol .int) id datapri
  | .tsndPdq id _ datapri tmout => pdqSends (.tmo tmout) id datapri
  | .rcvPdq id => waits .fevr (cfg.pdq.valid id)
  | .prcvPdq id => waits (.pol .tsk) (cfg.pdq.valid id)
  | .trcvPdq id tmout => waits (.tmo tmout) (cfg.pdq.valid id)
  | .acreMbx pk mprihd => [(c.ctxUnl .tsk, E_CTX),
    (!pk.mbxatr.has (~~~(TA_TPRI ||| TA_MPRI)), E_RSATR), (validMpri pk.maxmpri, E_PAR),
    (mprihd == 0, E_NOSPT)]
  | .delMbx id | .sndMbx id _ | .iniMbx id | .refMbx id =>
    [(c.ctxUnl .tsk, E_CTX), (cfg.mbx.valid id, E_ID)]
  | .rcvMbx id => waits .fevr (cfg.mbx.valid id)
  | .prcvMbx id => waits (.pol .tsk) (cfg.mbx.valid id)
  | .trcvMbx id tmout => waits (.tmo tmout) (cfg.mbx.valid id)
  | .acreMpf pk _ _ => [(c.ctxUnl .tsk, E_CTX), (!pk.mpfatr.has (~~~TA_TPRI), E_RSATR),
    (pk.blkcnt != 0, E_PAR), (pk.blksz != 0, E_PAR),
    (pk.mpf == 0 || cfg.target.mpfAligned pk.mpf, E_PAR),
    (pk.pMpfmb == 0 || cfg.target.mbAligned pk.pMpfmb, E_PAR)]
  | .delMpf id | .relMpf id _ | .iniMpf id | .refMpf id =>
    [(c.ctxUnl .tsk, E_CTX), (cfg.mpf.valid id, E_ID)]
  | .getMpf id => waits .fevr (cfg.mpf.valid id)
  | .pgetMpf id => waits (.pol .tsk) (cfg.mpf.valid id)
  | .tgetMpf id tmout => waits (.tmo tmout) (cfg.mpf.valid id)
  | .acreMtx _ ceilpri => [(c.ctxUnl .tsk, E_CTX), (validTpri ceilpri, E_PAR)]
  | .delMtx id | .unlMtx id | .iniMtx id | .refMtx id =>
    [(c.ctxUnl .tsk, E_CTX), (cfg.mtx.valid id, E_ID)]
  | .locMtx id => waits .fevr (cfg.mtx.valid id)
  | .plocMtx id => waits (.pol .tsk) (cfg.mtx.valid id)
  | .tlocMtx id tmout => waits (.tmo tmout) (cfg.mtx.valid id)
  | .acreCyc pk cychdr => [(c.ctxUnl .tsk, E_CTX), (!pk.cycatr.has (~~~TA_STA), E_RSATR),
    (cfg.target.funcAligned cychdr, E_PAR), (cfg.target.funcNonnull cychdr, E_PAR),
    (decide (0 < pk.cyctim ∧ pk.cyctim ≤ TMAX_RELTIM), E_PAR),
    (decide (pk.cycphs ≤ TMAX_RELTIM), E_PAR)]
  | .delCyc id | .staCyc id | .stpCyc id | .refCyc id =>
    [(c.ctxUnl .tsk, E_CTX), (cfg.cyc.valid id, E_ID)]
  | .acreAlm almatr almhdr => [(c.ctxUnl .tsk, E_CTX), (!almatr.has (~~~TA_NULL), E_RSATR),
    (cfg.target.funcAligned almhdr, E_PAR), (cfg.target.funcNonnull almhdr, E_PAR)]
  | .delAlm id | .stpAlm id | .refAlm id => [(c.ctxUnl .tsk, E_CTX), (cfg.alm.valid id, E_ID)]
  | .istpAlm id => [(c.ctxUnl .int, E_CTX), (cfg.alm.valid id, E_ID)]
  | .staAlm id almtim => [(c.ctxUnl .tsk, E_CTX), (cfg.alm.valid id, E_ID),
    (decide (almtim ≤ TMAX_RELTIM), E_PAR)]
  | .istaAlm id almtim => [(c.ctxUnl .int, E_CTX), (cfg.alm.valid id, E_ID),
    (decide (almtim ≤ TMAX_RELTIM), E_PAR)]
  | .rotRdq pri => [(c.ctxUnl .tsk, E_CTX), (validTpri pri || pri == TPRI_SELF, E_PAR)]
  | .irotRdq pri => [(c.ctxUnl .int, E_CTX), (validTpri pri, E_PAR)]
  | .locCpu | .unlCpu => [(c.senseContext == (Ctx.tsk == .int), E_CTX)]
  | .ilocCpu | .iunlCpu => [(c.senseContext == (Ctx.int == .int), E_CTX)]
  | .chgIpm _ valid => [(c.ctxUnl .tsk, E_CTX), (valid, E_PAR)]
where
  waits (m : WaitMode) (valid : Bool) : List (Bool × ER) :=
    [(c.ctxMode m, E_CTX), (valid, E_ID), (m.valid, E_PAR)]
  flgWaits (m : WaitMode) (id : ID) (waiptn : FLGPTN) (wfmode : MODE) : List (Bool × ER) :=
    [(c.ctxMode m, E_CTX), (cfg.flg.valid id, E_ID), (waiptn != 0, E_PAR),
      (wfmode == TWF_ORW || wfmode == TWF_ANDW, E_PAR), (m.valid, E_PAR)]
  pdqSends (m : WaitMode) (id : ID) (datapri : PRI) : List (Bool × ER) :=
    [(c.ctxMode m, E_CTX), (cfg.pdq.valid id, E_ID), (m.valid, E_PAR),
      (decide (TMIN_DPRI ≤ datapri), E_PAR)]

/-- A call whose checks do not all pass gives the code of one that fails, and changes nothing. -/
theorem exec_check (cfg : Cfg) (k : Kernel) (call : Call) :
    (∃ p ∈ call.checks cfg k.core, p.1 = false ∧ exec cfg k call = .err k p.2) ∨
      ∀ p ∈ call.checks cfg k.core, p.1 = true := by
  have key {σ : Type} (l : List (Bool × ER)) (st : σ) (body : Res σ) (f : σ → Kernel) :
      (∃ p ∈ l, p.1 = false ∧ (check l st body).map f = .err (f st) p.2) ∨
        ∀ p ∈ l, p.1 = true := by
    rcases check_cases l st body with ⟨p, hp, hn, he⟩ | ⟨hl, _⟩
    · refine .inl ⟨p, hp, hn, ?_⟩
      rw [he]
      rfl
    · exact .inr hl
  cases call <;> (unfold exec; exact key _ _ _ _)

end AspKernel
