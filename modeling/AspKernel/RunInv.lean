import AspKernel.EffectObj
import AspKernel.Run

namespace AspKernel
set_option autoImplicit true

/-- The wait queues in which a call lets a task start a wait or complete one. -/
def Call.queues : Call → List WQueue
  | .sigSem id | .isigSem id | .waiSem id | .polSem id | .twaiSem id _ => [(.SEM, index id)]
  | .setFlg id _ | .isetFlg id _ | .waiFlg id _ _ | .polFlg id _ _ | .twaiFlg id _ _ _ =>
    [(.FLG, index id)]
  | .sndDtq id _ | .psndDtq id _ | .ipsndDtq id _ | .tsndDtq id _ _ | .fsndDtq id _
  | .ifsndDtq id _ | .rcvDtq id | .prcvDtq id | .trcvDtq id _ =>
    [(.SDTQ, index id), (.RDTQ, index id)]
  | .sndPdq id _ _ | .psndPdq id _ _ | .ipsndPdq id _ _ | .tsndPdq id _ _ _
  | .rcvPdq id | .prcvPdq id | .trcvPdq id _ => [(.SPDQ, index id), (.RPDQ, index id)]
  | .sndMbx id _ | .rcvMbx id | .prcvMbx id | .trcvMbx id _ => [(.MBX, index id)]
  | .getMpf id | .pgetMpf id | .tgetMpf id _ | .relMpf id _ => [(.MPF, index id)]
  | .locMtx id | .plocMtx id | .tlocMtx id _ | .unlMtx id => [(.MTX, index id)]
  | _ => []

/-- The wait queues that a call serves. A task that ends hands over the mutexes that it holds. -/
def Call.serves : Call → WQueue → Prop
  | .extTsk, q | .terTsk _, q => q.1 = .MTX
  | call, q => q ∈ call.queues

/-- The call does not delete a mutex that a task holds. -/
def Call.delUnlocked (cfg : Cfg) (k : Kernel) : Call → Prop
  | .delMtx mtxid => cfg.mtx.valid mtxid = true → k.core.noWobj (.MTX, index mtxid) = false →
    cfg.mtx.dynamic (index mtxid) = true → (k.core.mtxcb (index mtxid)).pLoctsk = none
  | _ => True

/-- The attribute that a call gives to a new mutex is not that of a mutex that does not exist. -/
def Call.attrOk : Call → Prop
  | .acreMtx mtxatr _ => mtxatr ≠ TA_NOEXS
  | _ => True

/-- The kinds of the objects that a call creates or deletes. -/
def Call.kinds : Call → ObjKind → Prop
  | .acreTsk .., x | .delTsk _, x => x = .tsk
  | .acreSem _, x | .delSem _, x => x = .wobj .SEM
  | .acreFlg _, x | .delFlg _, x => x = .wobj .FLG
  | .acreDtq .., x | .delDtq _, x => x = .wobj .SDTQ
  | .acrePdq .., x | .delPdq _, x => x = .wobj .SPDQ
  | .acreMbx .., x | .delMbx _, x => x = .wobj .MBX
  | .acreMpf .., x | .delMpf _, x => x = .wobj .MPF
  | .acreMtx .., x | .delMtx _, x => x = .wobj .MTX
  | .acreCyc .., x | .delCyc _, x => x = .cyc
  | .acreAlm .., x | .delAlm _, x => x = .alm
  | _, _ => False

/-- The calls that take memory and give it back. -/
def Call.mem : Call → Prop
  | .acreTsk .. | .delTsk _ | .acreDtq .. | .delDtq _ | .acrePdq .. | .delPdq _ | .acreMpf ..
  | .delMpf _ => True
  | _ => False

/-- The calls that are about the exception handling of tasks. -/
def Call.tex : Call → Prop
  | .defTex .. | .rasTex .. | .irasTex .. | .disTex | .enaTex | .chgIpm .. => True
  | _ => False

/-- The calls that change the interrupt priority mask. -/
def Call.ipm : Call → Prop
  | .chgIpm .. | .extTsk => True
  | _ => False

/-- The cyclic handlers that a call may start, stop or delete. -/
def Call.cyc (k : Kernel) : Call → Nat → Prop
  | .acreCyc .., i => i ∈ k.core.freeCyccb
  | .delCyc id, i | .staCyc id, i | .stpCyc id, i => i = index id
  | _, _ => False

/-- The tasks that a call is about, other than as the ones that it serves. -/
def Call.own (k : Kernel) : Call → Nat → Prop
  | .actTsk id | .iactTsk id | .canAct id | .wupTsk id | .iwupTsk id | .canWup id | .susTsk id =>
    fun t => t = k.core.tcbSelf id
  | .delTsk id | .terTsk id | .relWai id | .irelWai id | .rsmTsk id => fun t => t = index id
  | .extTsk | .slpTsk | .tslpTsk _ => fun t => t = k.core.runtsk
  | .acreTsk .. => fun t => k.core.freeTcb.head? = some t
  | _ => fun _ => False

/-- The wait queues that a call empties. -/
def Call.init : Call → WQueue → Prop
  | .iniSem id | .delSem id => fun q => q = (.SEM, index id)
  | .iniFlg id | .delFlg id => fun q => q = (.FLG, index id)
  | .iniDtq id | .delDtq id => fun q => q = (.SDTQ, index id) ∨ q = (.RDTQ, index id)
  | .iniPdq id | .delPdq id => fun q => q = (.SPDQ, index id) ∨ q = (.RPDQ, index id)
  | .iniMbx id | .delMbx id => fun q => q = (.MBX, index id)
  | .iniMpf id | .delMpf id => fun q => q = (.MPF, index id)
  | .iniMtx id | .delMtx id => fun q => q = (.MTX, index id)
  | _ => fun _ => False

/-- The calls that the running task may wait in. -/
def Call.waits : Call → Prop
  | .slpTsk | .tslpTsk _ | .dlyTsk _ | .waiSem _ | .twaiSem .. | .waiFlg .. | .twaiFlg ..
  | .sndDtq .. | .tsndDtq .. | .rcvDtq _ | .trcvDtq .. | .sndPdq .. | .tsndPdq .. | .rcvPdq _
  | .trcvPdq .. | .rcvMbx _ | .trcvMbx .. | .getMpf _ | .tgetMpf .. | .locMtx _ | .tlocMtx .. =>
    True
  | _ => False

def Call.rel : Call → Prop
  | .relWai _ | .irelWai _ => True
  | _ => False

def Call.ter : Call → Prop
  | .extTsk | .terTsk _ => True
  | _ => False

/-- What the changes of a call are about. -/
def Call.scope (cfg : Cfg) (k : Kernel) (call : Call) : Scope :=
  ⟨call.delUnlocked cfg k, call.attrOk, call.kinds, call.mem, call.tex, call.ipm, call.cyc k,
    call.own k, call.init, call.waits, call.rel, call.ter⟩

/-- The tasks whose priority a call changes although they may wait. -/
def Call.repri (k : Kernel) : Call → Nat → Prop
  | .chgPri tskid _, t => t = k.core.tcbSelf tskid
  | .iniMtx mtxid, t => (k.core.mtxcb (index mtxid)).pLoctsk = some t
  | _, _ => False

theorem effect_exec {k : Kernel} (h : CallPre cfg k.core) (call : Call) :
    Effect cfg (call.scope cfg k) call.serves (call.repri k) k.core
      ((exec cfg k call).map Kernel.core) := by
  have hm (q : WQueue) (l : List WQueue) : q ∈ q :: l := List.mem_cons_self ..
  have hm2 (q r : WQueue) : r ∈ [q, r] := List.mem_cons_of_mem _ (List.mem_singleton_self r)
  cases call with
  | acreTsk pk mem => exact effect_acreTsk h pk mem rfl trivial fun _ => id
  | delTsk id => exact effect_delTsk k.core id rfl trivial rfl
  | actTsk id => exact effect_actTsk h .tsk id rfl
  | iactTsk id => exact effect_actTsk h .int id rfl
  | canAct id => exact effect_canAct k.core id rfl
  | extTsk => exact effect_extTsk h (fun _ => rfl) trivial rfl trivial
  | terTsk id => exact effect_terTsk k.core id (fun _ => rfl) rfl trivial
  | chgPri id pri => exact effect_chgPri h id pri rfl
  | getPri id => exact effect_getPri k.core id
  | refTsk id => exact effect_refTsk k.core id
  | slpTsk => exact effect_slpTsk h .fevr trivial rfl
  | tslpTsk tmout => exact effect_slpTsk h (.tmo tmout) trivial rfl
  | wupTsk id => exact effect_wupTsk k.core .tsk id rfl
  | iwupTsk id => exact effect_wupTsk k.core .int id rfl
  | canWup id => exact effect_canWup k.core id rfl
  | relWai id => exact effect_relWai k.core .tsk id rfl trivial
  | irelWai id => exact effect_relWai k.core .int id rfl trivial
  | susTsk id => exact effect_susTsk h id rfl
  | rsmTsk id => exact effect_rsmTsk h id rfl
  | dlyTsk dlytim => exact effect_dlyTsk h dlytim trivial
  | defTex id atr rtn => exact effect_defTex trivial k.core id atr rtn
  | rasTex id ptn => exact effect_rasTex trivial k.core id ptn
  | irasTex id ptn => exact effect_irasTex trivial k.core id ptn
  | disTex => exact effect_disTex trivial k.core
  | enaTex => exact effect_enaTex trivial k.core
  | refTex id => exact effect_refTex k.core id
  | acreSem pk => exact effect_acreSem ⟨k.core, k.sem⟩ pk rfl
  | delSem id => exact effect_delSem ⟨k.core, k.sem⟩ id rfl rfl
  | sigSem id => exact effect_sigSem ⟨k.core, k.sem⟩ .tsk id (hm _ _)
  | isigSem id => exact effect_sigSem ⟨k.core, k.sem⟩ .int id (hm _ _)
  | waiSem id => exact effect_waiSem (o := ⟨k.core, k.sem⟩) h id .fevr (hm _ _) fun _ => trivial
  | polSem id => exact effect_waiSem (o := ⟨k.core, k.sem⟩) h id (.pol .tsk) (hm _ _) nofun
  | twaiSem id tmout =>
    exact effect_waiSem (o := ⟨k.core, k.sem⟩) h id (.tmo tmout) (hm _ _) fun _ => trivial
  | iniSem id => exact effect_iniSem ⟨k.core, k.sem⟩ id rfl
  | refSem id => exact effect_refSem ⟨k.core, k.sem⟩ id
  | acreFlg pk => exact effect_acreFlg ⟨k.core, k.flg⟩ pk rfl
  | delFlg id => exact effect_delFlg ⟨k.core, k.flg⟩ id rfl rfl
  | setFlg id ptn => exact effect_setFlg (o := ⟨k.core, k.flg⟩) h.inv .tsk id ptn (hm _ _)
  | isetFlg id ptn => exact effect_setFlg (o := ⟨k.core, k.flg⟩) h.inv .int id ptn (hm _ _)
  | clrFlg id ptn => exact effect_clrFlg ⟨k.core, k.flg⟩ id ptn
  | waiFlg id ptn mode =>
    exact effect_waiFlg (o := ⟨k.core, k.flg⟩) h id ptn mode .fevr (hm _ _) fun _ => trivial
  | polFlg id ptn mode =>
    exact effect_waiFlg (o := ⟨k.core, k.flg⟩) h id ptn mode (.pol .tsk) (hm _ _) nofun
  | twaiFlg id ptn mode tmout =>
    exact effect_waiFlg (o := ⟨k.core, k.flg⟩) h id ptn mode (.tmo tmout) (hm _ _) fun _ => trivial
  | iniFlg id => exact effect_iniFlg ⟨k.core, k.flg⟩ id rfl
  | refFlg id => exact effect_refFlg ⟨k.core, k.flg⟩ id
  | acreDtq pk mem => exact effect_acreDtq (o := ⟨k.core, k.dtq⟩) h.inv pk mem rfl trivial
  | delDtq id =>
    exact effect_delDtq (o := ⟨k.core, k.dtq⟩) h.inv id rfl (.inl rfl) (.inr rfl) trivial
  | sndDtq id d =>
    exact effect_sndDtq (o := ⟨k.core, k.dtq⟩) h id d .fevr (hm _ _) (hm2 _ _) fun _ => trivial
  | psndDtq id d =>
    exact effect_sndDtq (o := ⟨k.core, k.dtq⟩) h id d (.pol .tsk) (hm _ _) (hm2 _ _) nofun
  | ipsndDtq id d =>
    exact effect_sndDtq (o := ⟨k.core, k.dtq⟩) h id d (.pol .int) (hm _ _) (hm2 _ _) nofun
  | tsndDtq id d tmout =>
    exact effect_sndDtq (o := ⟨k.core, k.dtq⟩) h id d (.tmo tmout) (hm _ _)
      (hm2 _ _) fun _ => trivial
  | fsndDtq id d => exact effect_fsndDtq ⟨k.core, k.dtq⟩ .tsk id d (hm2 _ _)
  | ifsndDtq id d => exact effect_fsndDtq ⟨k.core, k.dtq⟩ .int id d (hm2 _ _)
  | rcvDtq id =>
    exact effect_rcvDtq (o := ⟨k.core, k.dtq⟩) h id (m := .fevr) rfl (hm _ _)
      (hm2 _ _) fun _ => trivial
  | prcvDtq id =>
    exact effect_rcvDtq (o := ⟨k.core, k.dtq⟩) h id (m := .pol .tsk) rfl (hm _ _) (hm2 _ _) nofun
  | trcvDtq id tmout =>
    exact effect_rcvDtq (o := ⟨k.core, k.dtq⟩) h id (m := .tmo tmout) rfl (hm _ _)
      (hm2 _ _) fun _ => trivial
  | iniDtq id => exact effect_iniDtq ⟨k.core, k.dtq⟩ id (.inl rfl) (.inr rfl)
  | refDtq id => exact effect_refDtq ⟨k.core, k.dtq⟩ id
  | acrePdq pk mem => exact effect_acrePdq (o := ⟨k.core, k.pdq⟩) h.inv pk mem rfl trivial
  | delPdq id =>
    exact effect_delPdq (o := ⟨k.core, k.pdq⟩) h.inv id rfl (.inl rfl) (.inr rfl) trivial
  | sndPdq id d pri =>
    exact effect_sndPdq (o := ⟨k.core, k.pdq⟩) h id d pri .fevr (hm _ _) (hm2 _ _) fun _ => trivial
  | psndPdq id d pri =>
    exact effect_sndPdq (o := ⟨k.core, k.pdq⟩) h id d pri (.pol .tsk) (hm _ _) (hm2 _ _) nofun
  | ipsndPdq id d pri =>
    exact effect_sndPdq (o := ⟨k.core, k.pdq⟩) h id d pri (.pol .int) (hm _ _) (hm2 _ _) nofun
  | tsndPdq id d pri tmout =>
    exact effect_sndPdq (o := ⟨k.core, k.pdq⟩) h id d pri (.tmo tmout) (hm _ _)
      (hm2 _ _) fun _ => trivial
  | rcvPdq id =>
    exact effect_rcvPdq (o := ⟨k.core, k.pdq⟩) h id (m := .fevr) rfl (hm _ _)
      (hm2 _ _) fun _ => trivial
  | prcvPdq id =>
    exact effect_rcvPdq (o := ⟨k.core, k.pdq⟩) h id (m := .pol .tsk) rfl (hm _ _) (hm2 _ _) nofun
  | trcvPdq id tmout =>
    exact effect_rcvPdq (o := ⟨k.core, k.pdq⟩) h id (m := .tmo tmout) rfl (hm _ _)
      (hm2 _ _) fun _ => trivial
  | iniPdq id => exact effect_iniPdq ⟨k.core, k.pdq⟩ id (.inl rfl) (.inr rfl)
  | refPdq id => exact effect_refPdq ⟨k.core, k.pdq⟩ id
  | acreMbx pk a => exact effect_acreMbx ⟨⟨k.core, k.mbx⟩, k.msg⟩ pk a rfl
  | delMbx id => exact effect_delMbx ⟨⟨k.core, k.mbx⟩, k.msg⟩ id rfl rfl
  | sndMbx id a => exact effect_sndMbx ⟨⟨k.core, k.mbx⟩, k.msg⟩ id a (hm _ _)
  | rcvMbx id =>
    exact effect_rcvMbx (o := ⟨⟨k.core, k.mbx⟩, k.msg⟩) h id .fevr (hm _ _) fun _ => trivial
  | prcvMbx id =>
    exact effect_rcvMbx (o := ⟨⟨k.core, k.mbx⟩, k.msg⟩) h id (.pol .tsk) (hm _ _) nofun
  | trcvMbx id tmout =>
    exact effect_rcvMbx (o := ⟨⟨k.core, k.mbx⟩, k.msg⟩) h id (.tmo tmout) (hm _ _) fun _ => trivial
  | iniMbx id => exact effect_iniMbx ⟨⟨k.core, k.mbx⟩, k.msg⟩ id rfl
  | refMbx id => exact effect_refMbx ⟨⟨k.core, k.mbx⟩, k.msg⟩ id
  | acreMpf pk m1 m2 => exact effect_acreMpf ⟨k.core, k.mpf⟩ pk m1 m2 rfl trivial
  | delMpf id => exact effect_delMpf ⟨k.core, k.mpf⟩ id rfl rfl trivial
  | getMpf id => exact effect_getMpf (o := ⟨k.core, k.mpf⟩) h id .fevr (hm _ _) fun _ => trivial
  | pgetMpf id => exact effect_getMpf (o := ⟨k.core, k.mpf⟩) h id (.pol .tsk) (hm _ _) nofun
  | tgetMpf id tmout =>
    exact effect_getMpf (o := ⟨k.core, k.mpf⟩) h id (.tmo tmout) (hm _ _) fun _ => trivial
  | relMpf id a => exact effect_relMpf ⟨k.core, k.mpf⟩ id a (hm _ _)
  | iniMpf id => exact effect_iniMpf ⟨k.core, k.mpf⟩ id rfl
  | refMpf id => exact effect_refMpf ⟨k.core, k.mpf⟩ id
  | acreMtx atr pri => exact effect_acreMtx k.core atr pri (fun h => h) rfl
  | delMtx id => exact effect_delMtx k.core id (fun h => h) rfl rfl
  | locMtx id => exact effect_locMtx h id (m := .fevr) rfl (hm _ _) fun _ => trivial
  | plocMtx id => exact effect_locMtx h id (m := .pol .tsk) rfl (hm _ _) nofun
  | tlocMtx id tmout => exact effect_locMtx h id (m := .tmo tmout) rfl (hm _ _) fun _ => trivial
  | unlMtx id => exact effect_unlMtx h id (hm _ _)
  | iniMtx id => exact effect_iniMtx k.core id (fun _ ht => ht) rfl
  | refMtx id => exact effect_refMtx k.core id
  | acreCyc pk hdr => exact effect_acreCyc h.inv pk hdr rfl fun _ => id
  | delCyc id => exact effect_delCyc h.inv id rfl rfl
  | staCyc id => exact effect_staCyc h.inv id rfl
  | stpCyc id => exact effect_stpCyc k.core id rfl
  | refCyc id => exact effect_refCyc k.core id
  | acreAlm atr hdr => exact effect_acreAlm k.core atr hdr rfl
  | delAlm id => exact effect_delAlm h.inv id rfl
  | staAlm id tim => exact effect_staAlm h.inv .tsk id tim
  | istaAlm id tim => exact effect_staAlm h.inv .int id tim
  | stpAlm id => exact effect_stpAlm k.core .tsk id
  | istpAlm id => exact effect_stpAlm k.core .int id
  | refAlm id => exact effect_refAlm k.core id
  | rotRdq pri => exact effect_rotRdq k.core pri
  | irotRdq pri => exact effect_irotRdq k.core pri
  | getTid => exact effect_getTid k.core
  | igetTid => exact effect_igetTid k.core
  | locCpu => exact effect_locCpu k.core .tsk
  | ilocCpu => exact effect_locCpu k.core .int
  | unlCpu => exact effect_unlCpu k.core .tsk
  | iunlCpu => exact effect_unlCpu k.core .int
  | disDsp => exact effect_disDsp k.core
  | enaDsp => exact effect_enaDsp k.core
  | chgIpm pri valid => exact effect_chgIpm trivial trivial k.core pri valid

/-- What holds of the core in every state of the system. -/
structure RunInv (cfg : Cfg) (c : Core) : Prop where
  inv : CoreInv cfg noD c
  flags : c.FlagsOk
  running : c.Running
  settled : c.senseContext = false → c.Settled
  requested : c.Settled ∨ c.reqflg = true
  sigtim : ∀ n, c.sigtim = some n → 0 < n

/-- The state in which a callback is called. -/
def Core.popped (c : Core) : Core := { c with tm := c.tm.sigPop, cpulock := false }

/-- The callbacks: the wait of a task ends, or a handler is called. -/
inductive Fire (cfg : Cfg) (c : Core) : Core → Prop
  | tsk (hn : (c.tm.heap.node 1).id = .tsk t) (hw : (c.tcb t).tstat.waiting = true)
    (he : Ending t { (c.tcb t).winfo with cell := .wercd e } c.popped c')
    (hq : e = E_OK → (c.tcb t).tstat.waitWobj = false)
    (hi : CoreInv cfg noD ((c'.makeNonWait t).1.request (c'.makeNonWait t).2))
    (hc : e = E_OK ∨ e = E_TMOUT) : Fire cfg c ((c'.makeNonWait t).1.request (c'.makeNonWait t).2)
  | cyc (hn : (c.tm.heap.node 1).id = .cyc i) (hs : (c.cyccb i).cycsta = true) :
    Fire cfg c (c.popped.callCychdr i)
  | alm (hn : (c.tm.heap.node 1).id = .alm i) (hs : (c.almcb i).almsta = true) :
    Fire cfg c (c.popped.callAlmhdr i)

section
variable {cfg : Cfg} {S : Scope} {P : WQueue → Prop} {R : Nat → Prop} {c c' : Core}

theorem RunInv.callPre (h : RunInv cfg c) (hr : c.senseContext = true ∨ c.pRuntsk ≠ none) :
    CallPre cfg c where
  inv := h.inv
  flags := h.flags
  running := h.running
  settled := h.settled
  runtsk hc := by
    rcases hr with hr | hr
    · rw [hr] at hc
      cases hc
    · obtain ⟨t, ht⟩ := Option.ne_none_iff_exists'.1 hr
      unfold Core.runtsk
      rw [ht]
      rfl

theorem CoreInv.top_runnable (h : CoreInv cfg noD c) (hs : c.sched.pSchedtsk = some t) :
    (c.tcb t).tstat.runnable = true := by
  have hl := (h.sched.top_pri hs).2
  rw [Core.loc_attached rfl] at hl
  unfold TCB.loc at hl
  split at hl
  · rename_i hr
    exact hr
  · split at hl <;> cases hl

/-- The scope of the dispatcher and of the return of a task exception routine. -/
abbrev Scope.texOnly : Scope :=
  ⟨True, True, fun _ => False, False, True, True, fun _ => False, fun _ => False, fun _ => False,
    True, False, False⟩

theorem moves_texLoop (hX : S.tex) (c : Core) (t : Nat) :
    Moves cfg S P R c false (c.texLoop t) := by
  unfold Core.texLoop
  simp only
  split
  · refine .one ?_
    exact .tex_self hX rfl rfl rfl rfl rfl rfl
  · refine .one ?_
    exact .tex_self hX rfl rfl rfl rfl rfl rfl

/-- The change of the running task, and what the dispatcher does for it. -/
theorem moves_dispatcher (hX : S.tex) (c : Core) :
    Moves cfg S P R { c with pRuntsk := c.sched.pSchedtsk } false c.dispatcher := by
  unfold Core.dispatcher
  simp only
  split
  · exact .refl
  · split
    · exact moves_texLoop hX _ _
    · exact moves_calltex hX _ _

/-- A change after which no dispatch is due. -/
theorem RunInv.moves (h : RunInv cfg c) (hm : Moves cfg S P R c false c') : RunInv cfg c' := by
  have hf := hm.frame h.inv
  have hsense := senseContext_eq hf.nest
  refine ⟨hm.coreInv h.inv, hf.flags h.flags, hf.running ?_ h.running, fun hc => ?_, ?_, ?_⟩
  · by_cases hc : c.senseContext = true
    · exact .inr hc
    · exact .inl ⟨rfl, h.settled (Bool.eq_false_iff.2 hc)⟩
  · exact hf.settled rfl (h.settled (hsense ▸ hc))
  · rw [hf.reqflg]
    exact h.requested.imp_left (hf.settled rfl)
  · rw [hf.sigtim]
    exact h.sigtim

theorem RunInv.dispatcher (h : CoreInv cfg noD c) (hf : c.FlagsOk)
    (hs : ∀ n, c.sigtim = some n → 0 < n) : RunInv cfg c.dispatcher := by
  have h1 : RunInv cfg { c with pRuntsk := c.sched.pSchedtsk } :=
    ⟨h.flags, hf, fun _ ht => h.top_runnable ht, fun _ => .inl rfl, .inl (.inl rfl), hs⟩
  exact h1.moves (S := .texOnly) (P := fun _ => False) (R := fun _ => False)
    (moves_dispatcher trivial c)

/-- A change in an interrupt handler, with a request for a dispatch where one is due. -/
theorem RunInv.interrupt (h : RunInv cfg c) (hc : c.senseContext = true)
    (hi : CoreInv cfg noD c') (hf : StepFrame P b c c') (hb : b = true → dspreq = true) :
    RunInv cfg (c'.request dspreq) := by
  have hsense : c'.senseContext = true := (senseContext_eq hf.nest).trans hc
  refine ⟨hi.request _, hf.flags h.flags, hf.running (.inr hc) h.running, fun hc' => ?_, ?_, ?_⟩
  · rw [show (c'.request dspreq).senseContext = c'.senseContext from rfl, hsense] at hc'
    cases hc'
  · change c'.Settled ∨ (c'.reqflg || dspreq) = true
    rw [hf.reqflg]
    cases hb' : b with
    | true =>
      rw [hb hb', Bool.or_true]
      exact .inr rfl
    | false =>
      rcases h.requested with hs | hr
      · exact .inl (hf.settled hb' hs)
      · rw [hr]
        exact .inr rfl
  · change ∀ n, c'.sigtim = some n → 0 < n
    rw [hf.sigtim]
    exact h.sigtim

/-- The state after a service call. -/
theorem RunInv.effect (h : RunInv cfg c) (he : Effect cfg S P R c r) :
    RunInv cfg (if r.disp then r.st.dispatcher else r.st) := by
  cases he with
  | task hm hb hc =>
    rename_i b c' disp ercd out
    have hf := hm.frame h.inv
    simp only
    cases hd : disp with
    | true =>
      rw [if_pos rfl]
      refine .dispatcher (hm.coreInv h.inv) (hf.flags h.flags) ?_
      rw [hf.sigtim]
      exact h.sigtim
    | false =>
      rw [if_neg Bool.false_ne_true]
      have hb' : b = false := by
        by_contra hne
        have := hb (Bool.not_eq_false _ ▸ hne)
        rw [hd] at this
        cases this
      subst hb'
      exact h.moves hm
  | int hm hb hc => exact h.interrupt hc (hm.coreInv h.inv) (hm.frame h.inv) hb

theorem settle_core (r : Res Kernel) : r.settle.core =
    if (r.map Kernel.core).disp then (r.map Kernel.core).st.dispatcher
    else (r.map Kernel.core).st := by
  unfold Res.settle
  change (if r.disp then _ else _ : Kernel).core = if r.disp then _ else _
  split <;> rfl

/-- The return of a task exception routine. -/
theorem RunInv.texReturn (h : RunInv cfg c) (hc : c.senseContext = false) (t : Nat) :
    RunInv cfg (c.texReturn t) := by
  unfold Core.texReturn
  simp only
  have h1 : Moves cfg .texOnly (fun _ => False) (fun _ => False) c true (c.setFlags true
      ((c.tcb t).texstk.headD false) (!(c.tcb t).texstk.headD false) false) :=
    .one (.flags (.inl hc) (fun _ => (Bool.true_and _).symm) nofun (.inr trivial))
  let c1 := c.setFlags true ((c.tcb t).texstk.headD false) (!(c.tcb t).texstk.headD false) false
  have h2 : Moves cfg .texOnly (fun _ => False) (fun _ => False) c1 false
      (c1.setTcb t { c1.tcb t with enatex := false, texloop := true }) := by
    refine .one ?_
    exact .tex_self trivial rfl rfl rfl rfl rfl rfl
  have hm := h1.trans h2
  have hf := hm.frame h.inv
  have hi := hm.coreInv h.inv
  have hs : ∀ n, (c1.setTcb t { c1.tcb t with enatex := false, texloop := true }).sigtim = some n →
      0 < n := by
    rw [hf.sigtim]
    exact h.sigtim
  split
  · exact .dispatcher hi (hf.flags h.flags) hs
  · rename_i hn
    have hset : (c1.setTcb t { c1.tcb t with enatex := false, texloop := true }).Settled := by
      by_contra hns
      unfold Core.Settled at hns
      rw [not_or] at hns
      exact hn ⟨hns.1, Bool.not_eq_false _ ▸ hns.2⟩
    have hrun : (c1.setTcb t { c1.tcb t with enatex := false, texloop := true }).Running := by
      intro u hu
      have hr : (c.tcb u).tstat.runnable = true := h.running u hu
      by_cases hut : u = t
      · subst hut
        rw [Core.setTcb_self]
        exact hr
      · rw [Core.setTcb_of_ne _ _ hut]
        exact hr
    have hr : RunInv cfg (c1.setTcb t { c1.tcb t with enatex := false, texloop := true }) :=
      ⟨hi, hf.flags h.flags, hrun, fun _ => hset, .inl hset, hs⟩
    exact hr.moves (S := .texOnly) (P := fun _ => False) (R := fun _ => False)
      (moves_texLoop trivial _ t)

theorem RunInv.intEnter (h : RunInv cfg c) : RunInv cfg c.intEnter := by
  refine ⟨h.inv.flags, h.flags, h.running, fun hc => ?_, h.requested, h.sigtim⟩
  have he : c.intEnter.senseContext = true := bne_iff_ne.2 (Nat.succ_ne_zero c.intnest)
  rw [he] at hc
  cases hc

theorem RunInv.intExit (h : RunInv cfg c) : RunInv cfg c.intExit := by
  unfold Core.intExit
  simp only
  split
  · split
    · exact .dispatcher h.inv.flags h.flags h.sigtim
    · rename_i t ht
      split
      · exact .dispatcher h.inv.flags h.flags h.sigtim
      · rename_i hn
        have hset : c.Settled := by
          by_contra hns
          unfold Core.Settled at hns
          rw [not_or] at hns
          refine hn ⟨Bool.not_eq_false _ ▸ hns.2, fun he => hns.1 ?_⟩
          exact ht.trans he.symm
        have h1 : RunInv cfg { c with intnest := c.intnest - 1, cpulock := false, reqflg := false } :=
          ⟨h.inv.flags, h.flags, h.running, fun _ => hset, .inl hset, h.sigtim⟩
        exact h1.moves (S := .texOnly) (P := fun _ => False) (R := fun _ => False)
          (moves_calltex trivial _ t)
  · rename_i hn
    refine ⟨h.inv.flags, h.flags, h.running, fun hc => ?_, h.requested, h.sigtim⟩
    rcases h.requested with hs | hr
    · exact hs
    · have h0 : c.intnest - 1 = 0 := by
        by_contra hne
        have he : (c.intnest - 1 != 0) = true := bne_iff_ne.2 hne
        exact Bool.false_ne_true (hc.symm.trans he)
      exact absurd ⟨h0, hr⟩ hn

theorem due_pos {tm : Timer} (h : tm.due = true) : 0 < tm.heap.last :=
  of_decide_eq_true (Bool.and_eq_true_iff.1 h).1

theorem request_false (c : Core) : c.request false = c := by
  unfold Core.request
  rw [Bool.or_false]

/-- The task that a time event belongs to waits with it. -/
theorem timed_waiting (he : c.expects noD (.tsk t) = true) :
    (c.tcb t).tstat.waiting = true := by
  simp only [Core.expects, TCB.timed, Bool.not_false, Bool.true_and, Bool.and_eq_true] at he
  exact he.1

theorem CoreInv.fire (h : CoreInv cfg noD c) (hdue : c.tm.due = true) : Fire cfg c c.sigFire := by
  have hreg := h.timer.registered (due_pos hdue)
  have hpop := h.timer.sigPop (due_pos hdue)
  have hcb := h.timer.callback _ hreg
  unfold Core.sigFire
  simp only
  rw [hcb]
  cases hp : (c.tm.heap.node 1).id with
  | tsk t =>
    rw [hp] at hreg hpop
    have hw := timed_waiting hreg
    by_cases hf : (c.tcb t).tstat.factor = .DLY
    · have hq : (c.tcb t).tstat.waitWobj = false := by
        unfold TStat.waitWobj
        rw [hf]
        rfl
      simp only [Core.callbackOf, hf, if_true]
      exact .tsk hp hw ((Ending.refl c.popped t).setWercd E_OK) (fun _ => hq)
        (h.waitTmoutOk rfl hw hq hpop) (.inl rfl)
    · simp only [Core.callbackOf, hf, if_false]
      exact .tsk hp hw ((Ending.refl c.popped t).waitDequeueWobj.setWercd E_TMOUT)
        (fun he => by cases he) (h.waitTmout rfl hw hpop) (.inr rfl)
  | cyc i =>
    rw [hp] at hreg
    exact .cyc hp hreg
  | alm i =>
    rw [hp] at hreg
    exact .alm hp hreg

theorem Fire.coreInv (h : CoreInv cfg noD c) (hdue : c.tm.due = true) (hf : Fire cfg c c') :
    CoreInv cfg noD c' := by
  have hpop := h.timer.sigPop (due_pos hdue)
  cases hf with
  | tsk hn hw he hq hi hc => exact hi
  | cyc hn hs =>
    rename_i i
    rw [hn] at hpop
    have hni : i ∉ c.freeCyccb := fun hm => by
      rw [(h.free.cyc i hm).2.2] at hs
      cases hs
    have hr := h.free.cyc_range i hs
    exact (h.enqueueCyc hni hr (p := { c.cyccb i with
      evttim := (c.cyccb i).evttim + (c.cyccb i).cyctim }) hs hpop _).flags
  | alm hn hs =>
    rename_i i
    rw [hn] at hpop
    exact (h.setAlm (i := i) (p := { c.almcb i with almsta := false })
      (fun hm => ⟨(h.free.alm i hm).2.1, rfl⟩) nofun hpop).flags

/-- What a callback leaves alone. -/
theorem Fire.frame (h : CoreInv cfg noD c) (hf : Fire cfg c c') :
    ∃ b c2, StepFrame P b c c2 ∧ c' = c2.request b ∧ MFrame c c2 := by
  have hpop : StepFrame P false c c.popped :=
    ⟨fun _ _ _ h => ⟨h, rfl⟩, rfl, rfl, rfl, rfl, id, fun _ => ⟨rfl, rfl⟩, fun _ => id, fun _ => id⟩
  have hm : MFrame c c.popped :=
    ⟨rfl, rfl, fun _ => rfl, rfl, fun _ => rfl, fun _ => rfl, fun _ h => h⟩
  cases hf with
  | tsk hn hw he hq hi hc =>
    obtain ⟨h1, h2⟩ := he.frame (N := fun _ => False) (P := P) ((h.task _).legal.not_runnable hw)
    have h3 := hpop.trans (.of_rframe' h1)
    rw [Bool.false_or] at h3
    exact ⟨_, _, h3, rfl, hm.trans h2⟩
  | cyc hn hs =>
    rename_i i
    have h1 : StepFrame P false c.popped (c.popped.callCychdr i) := .of_tcb rfl rfl rfl
    exact ⟨false, _, hpop.trans h1, (request_false _).symm,
      ⟨rfl, rfl, fun _ => rfl, rfl, fun _ => rfl, fun _ => rfl, fun _ h => h⟩⟩
  | alm hn hs =>
    rename_i i
    have h1 : StepFrame P false c.popped (c.popped.callAlmhdr i) := .of_tcb rfl rfl rfl
    exact ⟨false, _, hpop.trans h1, (request_false _).symm,
      ⟨rfl, rfl, fun _ => rfl, rfl, fun _ => rfl, fun _ => rfl, fun _ h => h⟩⟩

theorem RunInv.sigFire (h : RunInv cfg c) (hs : c.sigtim = some c.intnest)
    (hdue : c.tm.due = true) : RunInv cfg c.sigFire := by
  have hc : c.senseContext = true := bne_iff_ne.2 (Nat.ne_of_gt (h.sigtim _ hs))
  have hfire := h.inv.fire hdue
  have hi := hfire.coreInv h.inv hdue
  obtain ⟨b, c2, hf, he, _⟩ := hfire.frame (P := fun _ => False) h.inv
  rw [he] at hi ⊢
  have hi2 : CoreInv cfg noD c2 := hi.flags
  exact h.interrupt hc hi2 hf id

theorem RunInv.sigBegin (h : RunInv cfg c) (hc : c.senseContext = true) (nume deno : BitVec 32) :
    RunInv cfg { c with tm := c.tm.sigBegin nume deno, sigtim := some c.intnest } := by
  have hi : CoreInv cfg noD { c with tm := c.tm.sigBegin nume deno } :=
    ⟨h.inv.sched, h.inv.timer.sigBegin nume deno, h.inv.task, ⟨h.inv.free.1, h.inv.free.2,
      h.inv.free.3, h.inv.free.4, h.inv.free.5, h.inv.free.6, h.inv.free.7, h.inv.free.8,
      h.inv.free.9, h.inv.free.10⟩, h.inv.exist, h.inv.asserts⟩
  refine ⟨hi.flags, h.flags, h.running, h.settled, h.requested, ?_⟩
  rintro n ⟨⟩
  exact Nat.pos_of_ne_zero (bne_iff_ne.1 hc)

theorem RunInv.sigEnd (h : RunInv cfg c) (hd : c.tm.due = false) :
    RunInv cfg { c with tm := c.tm.sigEnd, sigtim := none, cpulock := false } := by
  have hi : CoreInv cfg noD { c with tm := c.tm.sigEnd } :=
    ⟨h.inv.sched, h.inv.timer.sigEnd hd, h.inv.task, ⟨h.inv.free.1, h.inv.free.2,
      h.inv.free.3, h.inv.free.4, h.inv.free.5, h.inv.free.6, h.inv.free.7, h.inv.free.8,
      h.inv.free.9, h.inv.free.10⟩, h.inv.exist, h.inv.asserts⟩
  exact ⟨hi.flags, h.flags, h.running, h.settled, h.requested, nofun⟩

/-- Every step of the system keeps the invariant. -/
theorem RunInv.step (h : RunInv cfg k.core) (hs : Step cfg k e k') : RunInv cfg k'.core := by
  unfold Step Kernel.step at hs
  cases e with
  | call call =>
    simp only at hs
    split at hs
    · rename_i hc
      cases hs
      rw [settle_core]
      exact h.effect (effect_exec (h.callPre hc.1) call)
    · cases hs
  | writeMsg a m =>
    cases hs
    exact h
  | texReturn =>
    simp only at hs
    split at hs
    · cases hs
    · split at hs
      · cases hs
      · rename_i hn
        cases hs
        exact h.texReturn (Bool.eq_false_iff.2 fun hc => hn (.inl hc)) _
  | intEnter =>
    simp only at hs
    split at hs
    · cases hs
    · cases hs
      exact h.intEnter
  | intExit =>
    simp only at hs
    split at hs
    · cases hs
    · cases hs
      exact h.intExit
  | sigBegin =>
    simp only at hs
    split at hs
    · rename_i hc
      cases hs
      exact h.sigBegin hc.1 _ _
    · cases hs
  | sigFire =>
    simp only at hs
    split at hs
    · rename_i hc
      cases hs
      exact h.sigFire hc.1 hc.2
    · cases hs
  | sigEnd =>
    simp only at hs
    split at hs
    · rename_i hc
      cases hs
      exact h.sigEnd hc.2
    · cases hs

end

end AspKernel
