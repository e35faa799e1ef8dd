import AspKernel.Lib.Ownership
import AspKernel.DtqInv
import AspKernel.PdqInv
import AspKernel.MpfInv
import AspKernel.Clock

namespace AspKernel
set_option autoImplicit true

/-- What there is where a bit of the attribute says that `kernel_malloc` has returned an area. -/
def ATR.piece (atr bit : ATR) (a : α) : List α := if atr.has bit then [a] else []

def TINIB.stkArea (p : TINIB) : Area := ⟨p.stk, p.stksz⟩
/-- What is given by the creation of a data queue. -/
def DTQCB.shape (p : DTQCB) := (p.dtqcnt, p.pDtqmb)
def PDQCB.shape (p : PDQCB) := (p.pdqcnt, p.pPdqmb)

def DTQCB.mbArea (p : DTQCB) : Area := ⟨p.pDtqmb, sizeofDTQMB * BitVec.ofNat 32 p.dtqcnt⟩
def PDQCB.mbArea (p : PDQCB) : Area := ⟨p.pPdqmb, sizeofPDQMB * BitVec.ofNat 32 p.pdqcnt⟩
def MPFCB.mpfArea (p : MPFCB) : AspKernel.Area := ⟨p.mpf, BitVec.ofNat 32 p.blksz * BitVec.ofNat 32 p.blkcnt⟩
def MPFCB.mbArea (p : MPFCB) : AspKernel.Area := ⟨p.pMpfmb, sizeofMPFMB * BitVec.ofNat 32 p.blkcnt⟩

/-- The areas that have been allocated for an object, by its attribute. -/
def Kernel.allocated (k : Kernel) (x : ObjKind) (i : Nat) : List Area :=
  match x with
  | .tsk => (k.core.tcb i).tinib.tskatr.piece TA_MEMALLOC (k.core.tcb i).tinib.stkArea
  | .wobj .SDTQ => (k.core.wobjatr (.SDTQ, i)).piece TA_MBALLOC (k.dtq i).mbArea
  | .wobj .SPDQ => (k.core.wobjatr (.SPDQ, i)).piece TA_MBALLOC (k.pdq i).mbArea
  | .wobj .MPF => (k.core.wobjatr (.MPF, i)).piece TA_MEMALLOC (k.mpf i).mpfArea ++
      (k.core.wobjatr (.MPF, i)).piece TA_MBALLOC (k.mpf i).mbArea
  | _ => []

instance (cfg : Cfg) (x : ObjKind) (i : Nat) : Decidable (cfg.dyn x i) := by
  unfold Cfg.dyn
  infer_instance

/-- The areas of the objects that exist and have been created by calls. -/
def Kernel.areasOf (cfg : Cfg) (k : Kernel) (p : ObjKind × Nat) : List Area :=
  if cfg.dyn p.1 p.2 ∧ k.core.atr p.1 p.2 ≠ TA_NOEXS then k.allocated p.1 p.2 else []

/-- What is allocated is what the objects have that exist, each area one object. -/
structure MallocInv (cfg : Cfg) (k : Kernel) : Prop where
  holds : Ownership.Holds Area.addr k.core.areas (k.areasOf cfg)
  freeOk : k.core.freeOk = true

/-- A correct `kernel_malloc` returns areas that are not allocated. -/
def Call.fresh (cfg : Cfg) (k : Kernel) (call : Call) : Prop :=
  ∀ id, (exec cfg k call).ercd = some id → 0 < id →
    ((call.got cfg).map Area.addr).Nodup ∧ ∀ a ∈ call.got cfg, a.addr ∉ k.core.areas.map Area.addr

/-- The steps of a system with a correct allocator. -/
def MallocStep (cfg : Cfg) (k : Kernel) (e : Event) (k' : Kernel) : Prop :=
  Step cfg k e k' ∧ ∀ call, e = .call call → call.fresh cfg k

section
variable {cfg : Cfg} {k k' : Kernel} {x : ObjKind} {id : ID} {call : Call} {f : WaitFactor} {e : Event}

theorem map_piece (atr bit : ATR) (a : Area) :
    (atr.piece bit a).map Area.addr = Kernel.owned.area atr bit a.addr := by
  unfold ATR.piece Kernel.owned.area
  split <;> rfl

theorem map_allocated (k : Kernel) (x : ObjKind) (i : Nat) :
    (k.allocated x i).map Area.addr = k.owned x i := by
  cases x with
  | tsk => exact map_piece ..
  | wobj f =>
    cases f with
    | SDTQ => exact map_piece ..
    | SPDQ => exact map_piece ..
    | MPF => exact List.map_append.trans (congrArg₂ (· ++ ·) (map_piece ..) (map_piece ..))
    | _ => rfl
  | _ => rfl

theorem piece_area {b : Prop} [Decidable b] {atr bit : ATR} {a : α} {p : Addr}
    (h : Kernel.owned.area atr bit p = if b then [p] else []) :
    atr.piece bit a = if b then [a] else [] := by
  unfold Kernel.owned.area at h
  unfold ATR.piece
  by_cases hb : b
  · rw [if_pos hb] at h ⊢
    split at h
    · rename_i ha
      rw [if_pos ha]
    · cases h
  · rw [if_neg hb] at h ⊢
    split at h
    · cases h
    · rename_i ha
      rw [if_neg ha]

/-- The one area that a call may get is that of the object where its address and its size are. -/
theorem piece_got {b : Prop} [Decidable b] {atr bit : ATR} {a a' : Area} {l : List Area}
    (hl : l = if b then [a'] else []) (hs : b → a.size = a'.size)
    (h : Kernel.owned.area atr bit a.addr = (l.map Area.addr).reverse) :
    atr.piece bit a = l.reverse := by
  by_cases hb : b
  · rw [if_pos hb] at hl
    subst hl
    unfold Kernel.owned.area at h
    unfold ATR.piece
    split at h
    · rename_i ha
      have haddr : a.addr = a'.addr := List.singleton_inj.1 h
      have hsize := hs hb
      rw [if_pos ha]
      cases a
      cases a'
      cases haddr
      cases hsize
      rfl
    · cases h
  · rw [if_neg hb] at hl
    subst hl
    rw [piece_area (b := False) (h.trans (if_neg id).symm)]
    rfl

/-- What a call leaves, where its checks and its body do. -/
theorem check_st {l : List (Bool × ER)} {st : σ} {body : Res σ} {Q : σ → Prop} (h0 : Q st)
    (h : Q body.st) : Q (check l st body).st := by
  rcases check_cases l st body with ⟨p, _, _, he⟩ | ⟨_, he⟩
  · rw [he]
    exact h0
  · rwa [he]

/-- A property `sh` of the control blocks is the same for all of them. -/
def Obj.Fixed (sh : β → γ) (o o' : Obj β) : Prop := ∀ i, sh (o'.cb i) = sh (o.cb i)

section
variable {β γ : Type} {sh : β → γ} {o o' : Obj β}

theorem Obj.Fixed.refl (o : Obj β) : o.Fixed sh o := fun _ => rfl

theorem Obj.Fixed.setCb {i : Nat} {p : β} (h : sh p = sh (o.cb i)) : o.Fixed sh (o.setCb i p) := by
  intro j
  refine (Function.apply_update (fun _ => sh) o.cb i p j).trans ?_
  rw [h]
  exact congrFun (Function.update_eq_self i fun j => sh (o.cb j)) j

theorem Obj.Fixed.ok {ctx : Ctx} {b : Bool} {out : Out} (h : o.Fixed sh o') :
    o.Fixed sh (o'.ok ctx b out).st := by
  cases ctx <;> exact h

end

section
variable {o : Obj DTQCB} {i : Nat} {data : IntPtr}

theorem sendData_fixed {r : Obj DTQCB × Bool} (h : sendData o i data = some r) :
    o.Fixed DTQCB.shape r.1 := by
  unfold sendData at h
  simp only at h
  split at h
  · cases h
    exact .refl o
  · split at h
    · cases h
      exact .setCb rfl
    · cases h

theorem forceSendData_fixed : o.Fixed DTQCB.shape (forceSendData o i data).1 := by
  unfold forceSendData
  split
  · exact .refl o
  · refine .setCb ?_
    unfold DTQCB.forceEnqueueData
    simp only
    split <;> rfl

theorem receiveData_fixed {r : Obj DTQCB × IntPtr × Bool} (h : receiveData o i = some r) :
    o.Fixed DTQCB.shape r.1 := by
  unfold receiveData at h
  simp only at h
  split at h
  · split at h
    · cases h
      exact .setCb (o := o.setCore _) rfl
    · cases h
      exact .setCb rfl
  · split at h
    · cases h
      exact .refl o
    · cases h

theorem sndDtqWith_fixed (m : WaitMode) : o.Fixed DTQCB.shape (sndDtqWith cfg o id data m).st := by
  unfold sndDtqWith
  refine check_st (.refl o) ?_
  simp only
  split
  · exact .refl o
  · split
    · rename_i r hr
      exact (sendData_fixed hr).ok
    · split <;> exact .refl o

theorem fsndDtqWith_fixed (ctx : Ctx) : o.Fixed DTQCB.shape (fsndDtqWith cfg o ctx id data).st := by
  unfold fsndDtqWith
  refine check_st (.refl o) ?_
  simp only
  split
  · exact .refl o
  · split
    · exact .refl o
    · exact forceSendData_fixed.ok

theorem rcvDtqWith_fixed (m : WaitMode) : o.Fixed DTQCB.shape (rcvDtqWith cfg o id m).st := by
  unfold rcvDtqWith
  refine check_st (.refl o) ?_
  simp only
  split
  · exact .refl o
  · split
    · rename_i r hr
      exact (receiveData_fixed hr).ok
    · split <;> exact .refl o

theorem iniDtq_fixed : o.Fixed DTQCB.shape (iniDtq cfg o id).st := by
  unfold iniDtq
  refine check_st (.refl o) ?_
  simp only
  split
  · exact .refl o
  · exact .ok (.setCb (o := o.setCore _) rfl)

theorem delDtq_fixed : o.Fixed DTQCB.shape (delDtq cfg o id).st := by
  unfold delDtq
  refine check_st (.refl o) ?_
  simp only
  split
  · exact .refl o
  · split
    · exact .ok (.refl o)
    · exact .refl o

theorem refDtq_fixed : o.Fixed DTQCB.shape (refDtq cfg o id).st := by
  unfold refDtq
  refine check_st (.refl o) ?_
  simp only
  split
  · exact .refl o
  · exact .ok (.refl o)

/-- A call that names a data queue does not move its area. -/
theorem dtq_fixed (ho : call.object = some (.wobj .SDTQ, id)) (i : Nat) :
    ((exec cfg k call).st.dtq i).shape = (k.dtq i).shape := by
  cases call with
  | sndDtq | psndDtq | ipsndDtq | tsndDtq => exact sndDtqWith_fixed (o := ⟨k.core, k.dtq⟩) _ i
  | fsndDtq | ifsndDtq => exact fsndDtqWith_fixed (o := ⟨k.core, k.dtq⟩) _ i
  | rcvDtq | prcvDtq | trcvDtq => exact rcvDtqWith_fixed (o := ⟨k.core, k.dtq⟩) _ i
  | iniDtq => exact iniDtq_fixed (o := ⟨k.core, k.dtq⟩) i
  | delDtq => exact delDtq_fixed (o := ⟨k.core, k.dtq⟩) i
  | refDtq => exact refDtq_fixed (o := ⟨k.core, k.dtq⟩) i
  | _ => cases ho

end

theorem PDQCB.setNext_shape (p : PDQCB) (prev next : Option Nat) :
    (p.setNext prev next).shape = p.shape := by
  cases prev <;> rfl

theorem PDQCB.allocBlock_shape (p : PDQCB) : p.allocBlock.2.shape = p.shape := by
  unfold PDQCB.allocBlock
  split <;> rfl

theorem PDQCB.enqueuePridata_shape (p : PDQCB) (data : IntPtr) (datapri : PRI) :
    (p.enqueuePridata data datapri).shape = p.shape := by
  unfold PDQCB.enqueuePridata
  exact (PDQCB.setNext_shape ..).trans p.allocBlock_shape

section
variable {o : Obj PDQCB} {i : Nat} {data : IntPtr} {datapri : PRI}

theorem sendPridata_fixed {r : Obj PDQCB × Bool} (h : sendPridata o i data datapri = some r) :
    o.Fixed PDQCB.shape r.1 := by
  unfold sendPridata at h
  simp only at h
  split at h
  · cases h
    exact .refl o
  · split at h
    · cases h
      exact .setCb (PDQCB.enqueuePridata_shape ..)
    · cases h

theorem receivePridata_fixed {r : Obj PDQCB × (IntPtr × PRI) × Bool}
    (h : receivePridata o i = some r) : o.Fixed PDQCB.shape r.1 := by
  unfold receivePridata at h
  simp only at h
  split at h
  · split at h
    · cases h
      exact .setCb (o := o.setCore _) (PDQCB.enqueuePridata_shape ..)
    · cases h
      exact .setCb rfl
  · split at h
    · cases h
      exact .refl o
    · cases h

theorem sndPdqWith_fixed (m : WaitMode) :
    o.Fixed PDQCB.shape (sndPdqWith cfg o id data datapri m).st := by
  unfold sndPdqWith
  refine check_st (.refl o) ?_
  simp only
  split
  · exact .refl o
  · split
    · exact .refl o
    · split
      · rename_i r hr
        exact (sendPridata_fixed hr).ok
      · split <;> exact .refl o

theorem rcvPdqWith_fixed (m : WaitMode) : o.Fixed PDQCB.shape (rcvPdqWith cfg o id m).st := by
  unfold rcvPdqWith
  refine check_st (.refl o) ?_
  simp only
  split
  · exact .refl o
  · split
    · rename_i r hr
      exact (receivePridata_fixed hr).ok
    · split <;> exact .refl o

theorem iniPdq_fixed : o.Fixed PDQCB.shape (iniPdq cfg o id).st := by
  unfold iniPdq
  refine check_st (.refl o) ?_
  simp only
  split
  · exact .refl o
  · exact .ok (.setCb (o := o.setCore _) rfl)

theorem delPdq_fixed : o.Fixed PDQCB.shape (delPdq cfg o id).st := by
  unfold delPdq
  refine check_st (.refl o) ?_
  simp only
  split
  · exact .refl o
  · split
    · exact .ok (.refl o)
    · exact .refl o

theorem refPdq_fixed : o.Fixed PDQCB.shape (refPdq cfg o id).st := by
  unfold refPdq
  refine check_st (.refl o) ?_
  simp only
  split
  · exact .refl o
  · exact .ok (.refl o)

/-- A call that names a priority data queue does not move its area. -/
theorem pdq_fixed (ho : call.object = some (.wobj .SPDQ, id)) (i : Nat) :
    ((exec cfg k call).st.pdq i).shape = (k.pdq i).shape := by
  cases call with
  | sndPdq | psndPdq | ipsndPdq | tsndPdq => exact sndPdqWith_fixed (o := ⟨k.core, k.pdq⟩) _ i
  | rcvPdq | prcvPdq | trcvPdq => exact rcvPdqWith_fixed (o := ⟨k.core, k.pdq⟩) _ i
  | iniPdq => exact iniPdq_fixed (o := ⟨k.core, k.pdq⟩) i
  | delPdq => exact delPdq_fixed (o := ⟨k.core, k.pdq⟩) i
  | refPdq => exact refPdq_fixed (o := ⟨k.core, k.pdq⟩) i
  | _ => cases ho

end

/-- A call that names a memory pool does not move its areas. -/
theorem mpf_fixed (h : CallPre cfg k.core) (ho : call.object = some (.wobj .MPF, id)) :
    ((exec cfg k call).st.mpf (index id)).shape = (k.mpf (index id)).shape := (mpfCall h ho).shape

/-- What the calls keep that name an object, all steps keep of an object that exists. -/
theorem Blocked.shape {cb : Kernel → Nat → β} {sh : β → γ} (hb : Blocked cfg f cb)
    (hsh : ∀ k call id, CallPre cfg k.core → call.object = some (.wobj f, id) →
      sh (cb (exec cfg k call).st (index id)) = sh (cb k (index id)))
    (h : Reachable cfg k) (hs : Step cfg k e k') (hi : k.core.atr (.wobj f) i ≠ TA_NOEXS) :
    sh (cb k' i) = sh (cb k i) := by
  by_cases hn : ∀ call id, e = .call call → call.object = some (.wobj f, id) → index id ≠ i
  · rw [hb.keep h hs hi hn]
  · push Not at hn
    obtain ⟨call, id, rfl, ho, rfl⟩ := hn
    obtain ⟨hc, rfl⟩ := step_call hs
    rw [settle_eq]
    refine (congrArg sh (congrFun (hb.outside (exec cfg k call).st _ _) _)).trans ?_
    exact hsh k call id (h.runInv.callPre hc.1) ho

/-- The creation of a task writes the initialisation block of the new task. -/
theorem acreTsk_tinib (pk : T_CTSK) (mem : Addr) :
    (∃ e, exec cfg k (.acreTsk pk mem) = .err k e) ∨ ∃ t l tskatr, k.core.freeTcb = t :: l ∧
      (fun u => ((exec cfg k (.acreTsk pk mem)).st.core.tcb u).tinib) =
        Function.update (fun u => (k.core.tcb u).tinib) t ⟨tskatr, intPriority pk.itskpri, false,
          if pk.stk = 0 then cfg.target.roundStk pk.stksz else pk.stksz,
          if pk.stk = 0 then mem else pk.stk⟩ := by
  rcases exec_rejected cfg k (.acreTsk pk mem) with ⟨e, _, hr⟩ | hl
  · exact .inl ⟨e, hr⟩
  · rw [show exec cfg k (.acreTsk pk mem) = _ from
      show k.onCore (·.acreTsk cfg pk mem) = _ from check_map hl]
    simp only
    rcases takeTcb_cases k.core with ⟨ht, _⟩ | ⟨t, l, hf, ht⟩
    · rw [ht]
      exact .inl ⟨_, rfl⟩
    · rw [ht]
      simp only
      by_cases hm : (if pk.stk = 0 then mem else pk.stk) = 0
      · rw [if_pos hm]
        exact .inl ⟨_, rfl⟩
      · rw [if_neg hm]
        obtain ⟨areas, hc⟩ := malloc_eq { k.core with freeTcb := l } (pk.stk = 0)
          (if pk.stk = 0 then cfg.target.roundStk pk.stksz else pk.stksz) mem
        rw [hc]
        generalize (if pk.stk = 0 then pk.tskatr ||| TA_MEMALLOC else pk.tskatr) = atr
        obtain ⟨tinib, hti⟩ : ∃ tinib : TINIB, tinib = ⟨atr, intPriority pk.itskpri, false,
          if pk.stk = 0 then cfg.target.roundStk pk.stksz else pk.stksz,
          if pk.stk = 0 then mem else pk.stk⟩ := ⟨_, rfl⟩
        rw [← hti]
        refine .inr ⟨t, l, atr, hf, ?_⟩
        rw [← hti]
        have hnew := activate_new (Core.initTcb { k.core with freeTcb := l, areas := areas } t tinib)
          (atr.has TA_ACT) t
        exact hnew.2.2.trans (initTcb_tinib ..)

theorem delTsk_stkArea (tskid : ID) (u : Nat) :
    ((exec cfg k (.delTsk tskid)).st.core.tcb u).tinib.stkArea = (k.core.tcb u).tinib.stkArea := by
  change ((Core.delTsk cfg k.core tskid).st.tcb u).tinib.stkArea = _
  unfold Core.delTsk
  refine check_st (Q := fun c : Core => (c.tcb u).tinib.stkArea = (k.core.tcb u).tinib.stkArea) rfl ?_
  simp only
  split
  · rfl
  · split
    · obtain ⟨l, ok, he⟩ := free_eq k.core
        ((k.core.tcb (index tskid)).tinib.tskatr.has TA_MEMALLOC = true)
        (k.core.tcb (index tskid)).tinib.stk
      rw [he]
      refine (Function.apply_update (fun _ (p : TCB) => p.tinib.stkArea) k.core.tcb (index tskid) _ u).trans ?_
      exact congrFun (Function.update_eq_self (index tskid) fun u => (k.core.tcb u).tinib.stkArea) u
    · rfl

theorem Core.Alike.memory {c c' : Core} (h : c.Alike c') : c'.memory = c.memory := by
  obtain ⟨_, _, _, _, _, _, _, _, _, _, rfl⟩ := h.outside
  rfl

theorem Fire.memory {c c' : Core} (h : Fire cfg c c') : c'.memory = c.memory := by
  cases h with
  | tsk hn hw he hq hi hc =>
    rename_i t e c2
    exact (he.same.trans (local_makeNonWait c2 t)).memory (c := c.popped)
  | cyc hn hs => rfl
  | alm hn hs => rfl

theorem Moves.memory {c c' : Core} {S : Scope} {P : WQueue → Prop} {R : Nat → Prop} {b : Bool}
    (m : Moves cfg S P R c b c') (hM : ¬S.mem) : c'.memory = c.memory := by
  induction m with
  | refl => rfl
  | step hs hm ih => exact (Prod.ext (hm.outer.memory hM).1 (hm.outer.memory hM).2).trans ih

/-- Only the calls that take or give back memory change what is allocated. -/
theorem RunInv.memory (h : RunInv cfg k.core) (hs : Step cfg k e k')
    (hM : ∀ call, e = .call call → ¬call.mem) : k'.core.memory = k.core.memory := by
  cases h.coreStep hs with
  | call hc hm ha => exact ha.memory.trans (hm.memory (hM _ rfl))
  | fire hf => exact hf.memory
  | outside he hf ha => exact ha.memory

/-- The stack of a task that exists stays where it is. -/
theorem Reachable.stkArea (h : Reachable cfg k) (hs : Step cfg k e k')
    (hu : k.core.atr .tsk u ≠ TA_NOEXS) :
    (k'.core.tcb u).tinib.stkArea = (k.core.tcb u).tinib.stkArea := by
  have hr := h.runInv
  by_cases hK : e.kinds .tsk
  · cases e with
    | call call =>
      obtain ⟨_, rfl⟩ := step_call hs
      rw [(settle_alike (exec cfg k call)).tinib u]
      cases call with
      | acreTsk pk mem =>
        rcases acreTsk_tinib pk mem with ⟨e, he⟩ | ⟨t, l, atr, hf, ht⟩
        · rw [he]
          rfl
        · have hne : u ≠ t := by
            rintro rfl
            refine hu ((Core.noexs_iff _ .tsk u).1 (hr.inv.noexs_of_free (x := .tsk) ?_))
            change u ∈ k.core.freeTcb
            rw [hf]
            exact List.mem_cons_self ..
          have htu := congrFun ht u
          rw [Function.update_of_ne hne] at htu
          exact congrArg TINIB.stkArea htu
      | delTsk tskid => exact delTsk_stkArea tskid u
      | _ => cases hK
    | _ => exact hK.elim
  · cases hr.coreStep hs with
    | call hc hm ha =>
      rw [ha.tinib u]
      refine hm.tasks (Q := fun p => p.tinib.stkArea = (k.core.tcb u).tinib.stkArea) hr.inv
        (fun b p p' ht hp => ?_) rfl
      cases ht with
      | keep hsame => rw [hsame.tinib, hp]
      | tex hX hi =>
        rw [hi]
        exact hp
      | start _ _ _ hi | stop _ _ _ hi | restart _ _ _ hi => rw [hi, hp]
      | create _ hK' | delete _ hK' => exact absurd hK' hK
    | fire hf => rw [(hf.exist.1 u).tinib]
    | outside he hf ha => rw [ha.tinib u]

/-- What the creation of an object has given stays the same. -/
theorem Reachable.dtq_shape (h : Reachable cfg k) (hs : Step cfg k e k')
    (hi : k.core.atr (.wobj .SDTQ) i ≠ TA_NOEXS) : (k'.dtq i).shape = (k.dtq i).shape :=
  ((dtq_on cfg).blocked).shape (fun _ _ _ _ ho => dtq_fixed ho _) h hs hi

theorem Reachable.pdq_shape (h : Reachable cfg k) (hs : Step cfg k e k')
    (hi : k.core.atr (.wobj .SPDQ) i ≠ TA_NOEXS) : (k'.pdq i).shape = (k.pdq i).shape :=
  ((pdq_on cfg).blocked).shape (fun _ _ _ _ ho => pdq_fixed ho _) h hs hi

theorem Reachable.mpf_shape (h : Reachable cfg k) (hs : Step cfg k e k')
    (hi : k.core.atr (.wobj .MPF) i ≠ TA_NOEXS) : (k'.mpf i).shape = (k.mpf i).shape :=
  (mpf_blocked cfg).shape (fun _ _ _ => mpf_fixed) h hs hi

/-- The areas of an object that exists stay the same. -/
theorem Reachable.allocated (h : Reachable cfg k) (hs : Step cfg k e k')
    (hi : k.core.atr x i ≠ TA_NOEXS) (ha : k'.core.atr x i = k.core.atr x i) :
    k'.allocated x i = k.allocated x i := by
  cases x with
  | tsk => exact congrArg₂ (ATR.piece · TA_MEMALLOC ·) ha (h.stkArea hs hi)
  | wobj f =>
    cases f with
    | SDTQ =>
      have hsh := h.dtq_shape hs hi
      simp only [DTQCB.shape, Prod.mk.injEq] at hsh
      have hatr : k'.core.wobjatr (.SDTQ, i) = k.core.wobjatr (.SDTQ, i) := ha
      simp only [Kernel.allocated, DTQCB.mbArea, hatr, hsh.1, hsh.2]
    | SPDQ =>
      have hsh := h.pdq_shape hs hi
      simp only [PDQCB.shape, Prod.mk.injEq] at hsh
      have hatr : k'.core.wobjatr (.SPDQ, i) = k.core.wobjatr (.SPDQ, i) := ha
      simp only [Kernel.allocated, PDQCB.mbArea, hatr, hsh.1, hsh.2]
    | MPF =>
      have hsh := h.mpf_shape hs hi
      simp only [MPFCB.shape, Prod.mk.injEq] at hsh
      obtain ⟨h1, h2, h3, h4⟩ := hsh
      have hatr : k'.core.wobjatr (.MPF, i) = k.core.wobjatr (.MPF, i) := ha
      simp only [Kernel.allocated, MPFCB.mpfArea, MPFCB.mbArea, hatr, h1, h2, h3, h4]
    | _ => rfl
  | _ => rfl

/-- The areas of a new object are those that the call has got. -/
theorem exec_allocated (hr : ∀ x, ∀ i ∈ k.core.freeList x, i < (cfg.num x).tmax)
    (hc : call.acre = some x) (hl : ∀ p ∈ call.checks cfg k.core, p.1 = true)
    (he : ∀ e, exec cfg k call ≠ .err k e) (hf : k.core.freeList x = i :: l)
    (hw : (exec cfg k call).st.owned x i = ((call.got cfg).map Area.addr).reverse) :
    (exec cfg k call).st.allocated x i = (call.got cfg).reverse := by
  cases call with
  | acreTsk pk mem =>
    cases hc
    rcases acreTsk_tinib pk mem with ⟨e, h⟩ | ⟨t, l', atr, hf', ht⟩
    · exact absurd h (he e)
    · obtain rfl : t = i := (List.cons.inj (hf'.symm.trans hf)).1
      have htt := congrFun ht t
      rw [Function.update_self] at htt
      have hsz : ((exec cfg k (.acreTsk pk mem)).st.core.tcb t).tinib.stksz = _ := congrArg TINIB.stksz htt
      change ATR.piece _ _ _ = _
      exact piece_got rfl (fun hb => hsz.trans (if_pos hb)) hw
  | acreDtq pk mem =>
    cases hc
    rcases acreDtq_dtq (hr (.wobj .SDTQ)) pk mem with ⟨e, h⟩ | ⟨j, l', a, hf', ht⟩
    · exact absurd h (he e)
    · obtain rfl : j = i := (List.cons.inj (hf'.symm.trans hf)).1
      have htt := congrFun ht j
      rw [Function.update_self] at htt
      have hsz : ((exec cfg k (.acreDtq pk mem)).st.dtq j).dtqcnt = pk.dtqcnt := congrArg DTQCB.dtqcnt htt
      change ATR.piece _ _ _ = _
      refine piece_got rfl (fun hb => ?_) hw
      exact congrArg (fun n => sizeofDTQMB * BitVec.ofNat 32 n) hsz
  | acrePdq pk mem =>
    cases hc
    rcases acrePdq_pdq (hr (.wobj .SPDQ)) pk mem with ⟨e, h⟩ | ⟨j, l', a, hf', ht⟩
    · exact absurd h (he e)
    · obtain rfl : j = i := (List.cons.inj (hf'.symm.trans hf)).1
      have htt := congrFun ht j
      rw [Function.update_self] at htt
      have hsz : ((exec cfg k (.acrePdq pk mem)).st.pdq j).pdqcnt = pk.pdqcnt := congrArg PDQCB.pdqcnt htt
      change ATR.piece _ _ _ = _
      refine piece_got rfl (fun hb => ?_) hw
      exact congrArg (fun n => sizeofPDQMB * BitVec.ofNat 32 n) hsz
  | acreMpf pk memMpf memMb =>
    cases hc
    rcases acreMpf_mpf (hr (.wobj .MPF)) pk memMpf memMb with ⟨e, h⟩ | ⟨j, l', hf', ht, ha⟩
    · exact absurd h (he e)
    · obtain rfl : j = i := (List.cons.inj (hf'.symm.trans hf)).1
      have htt := congrFun ht j
      rw [Function.update_self] at htt
      have hatr : (!pk.mpfatr.has (~~~TA_TPRI)) = true := hl _ (.tail _ (.head _))
      obtain ⟨h1, h2⟩ := area_mpf hatr (pk.mpf = 0) (pk.pMpfmb = 0)
        (if pk.mpf = 0 then memMpf else pk.mpf) (if pk.pMpfmb = 0 then memMb else pk.pMpfmb)
      rw [← ha] at h1 h2
      refine (congrArg₂ (· ++ ·) (piece_area h1) (piece_area h2)).trans ?_
      rw [htt]
      simp only [MPFCB.mpfArea, MPFCB.mbArea, Call.got]
      by_cases hb : pk.mpf = 0
      · by_cases hb' : pk.pMpfmb = 0
        · simp only [if_pos hb, if_pos hb']
          rfl
        · simp only [if_pos hb, if_neg hb']
          rfl
      · by_cases hb' : pk.pMpfmb = 0
        · simp only [if_neg hb, if_pos hb']
          rfl
        · simp only [if_neg hb, if_neg hb']
          rfl
  | acreSem | acreFlg | acreMbx | acreMtx | acreCyc | acreAlm =>
    cases hc
    rfl
  | _ => cases hc

theorem settle_allocated (r : Res Kernel) (x : ObjKind) (i : Nat) :
    r.settle.allocated x i = r.st.allocated x i := by
  have ha := settle_alike r
  have hatr (f : WaitFactor) : r.settle.core.wobjatr (f, i) = r.st.core.wobjatr (f, i) :=
    congrFun (ha.exist (.wobj f)).2 i
  unfold Kernel.allocated
  rw [ha.tinib i, hatr, hatr, hatr, settle_eq]

theorem areasOf_exist (hd : cfg.dyn x i) (hex : k.core.atr x i ≠ TA_NOEXS) :
    k.areasOf cfg (x, i) = k.allocated x i := if_pos ⟨hd, hex⟩

theorem areasOf_noexs (h : k.core.atr x i = TA_NOEXS) : k.areasOf cfg (x, i) = [] :=
  if_neg fun hd => hd.2 h

/-- The areas of an object whose attribute is the same. -/
theorem Reachable.areasOf (h : Reachable cfg k) (hs : Step cfg k e k')
    (ha : k'.core.atr x i = k.core.atr x i) : k'.areasOf cfg (x, i) = k.areasOf cfg (x, i) := by
  unfold Kernel.areasOf
  simp only
  rw [ha]
  by_cases hd : cfg.dyn x i ∧ k.core.atr x i ≠ TA_NOEXS
  · rw [if_pos hd, if_pos hd, h.allocated hs hd.2 ha]
  · rw [if_neg hd, if_neg hd]

theorem MallocInv.same (h : MallocInv cfg k) (hm : k'.core.memory = k.core.memory)
    (ha : ∀ p, k'.areasOf cfg p = k.areasOf cfg p) : MallocInv cfg k' := by
  refine ⟨?_, (congrArg Prod.snd hm).trans h.freeOk⟩
  rw [show k'.core.areas = k.core.areas from congrArg Prod.fst hm, funext ha]
  exact h.holds

/-- The return of areas that are allocated. -/
theorem kernelFree_all {ps : List Addr} (c : Core) (hn : (c.areas.map Area.addr).Nodup)
    (hp : ps.Nodup) (hm : ∀ p ∈ ps, p ∈ c.areas.map Area.addr) (hok : c.freeOk = true) :
    (ps.foldl Core.kernelFree c).memory = (ps.foldl (Ownership.free Area.addr) c.areas, true) := by
  induction ps generalizing c with
  | nil => exact Prod.ext rfl hok
  | cons p ps ih =>
    obtain ⟨hp1, hp2⟩ := List.nodup_cons.1 hp
    rw [List.foldl_cons, List.foldl_cons]
    refine ih (c.kernelFree p) (Ownership.nodup_free hn p) hp2 (fun q hq => ?_) ?_
    · obtain ⟨a, ha, rfl⟩ := List.mem_map.1 (hm q (.tail _ hq))
      refine List.mem_map_of_mem ((Ownership.mem_free hn).2 ⟨ha, ?_⟩)
      rintro rfl
      exact hp1 hq
    · obtain ⟨a, ha, hap⟩ := List.mem_map.1 (hm p (List.mem_cons_self ..))
      refine Bool.and_eq_true_iff.2 ⟨hok, List.any_eq_true.2 ⟨a, ha, ?_⟩⟩
      rw [hap, beq_self_eq_true]

theorem kinds_of_mem (h : call.mem) : ∃ x, call.kinds x := by
  cases call <;> first
    | exact ⟨_, rfl⟩
    | exact h.elim

theorem kinds_acre (hc : call.acre = some x) (hy : call.kinds y) : y = x := by
  cases call <;> first
    | (cases hc; exact hy)
    | cases hc

theorem kinds_del (hc : call.del = some (x, id)) (hy : call.kinds y) : y = x := by
  cases call <;> first
    | (cases hc; exact hy)
    | cases hc

theorem got_of_not_attrOk (h : ¬call.attrOk) : call.got cfg = [] := by
  cases call <;> first
    | rfl
    | exact absurd trivial h

/-- The objects of other kinds than that of the call. -/
theorem Reachable.areasOf_kinds (h : Reachable cfg k) (hs : Step cfg k e k') (hK : ¬e.kinds x) :
    k'.areasOf cfg (x, i) = k.areasOf cfg (x, i) :=
  h.areasOf hs (congrFun (h.runInv.same hs hK).2 i)

/-- What a call gets that creates an object. -/
theorem Reachable.acre (h : Reachable cfg k) (hc : call.acre = some x) :
    (∃ e, exec cfg k call = .err k e) ∨ ∃ i l a, (∀ p ∈ call.checks cfg k.core, p.1 = true) ∧
      (exec cfg k call).ercd = some (toId i) ∧ k.core.freeList x = i :: l ∧
      (exec cfg k call).st.core.atr x = Function.update (k.core.atr x) i a ∧
      (call.attrOk → a ≠ TA_NOEXS) ∧
      (exec cfg k call).st.core.memory = (call.got cfg ++ k.core.areas, k.core.freeOk) ∧
      (exec cfg k call).st.allocated x i = (call.got cfg).reverse := by
  have hrange (x : ObjKind) (i : Nat) (hi : i ∈ k.core.freeList x) := (h.range x i hi).2
  generalize hr : exec cfg k call = r
  cases hr ▸ exec_acre k hrange hc with
  | created hl hf ha hA hg hm hw =>
    rename_i i a k' b
    have hst : (exec cfg k call).st = k' := congrArg Res.st hr
    refine .inr ⟨i, _, a, hl, rfl, hf, ha, hA, hg, ?_⟩
    change k'.allocated x i = _
    rw [← hst] at hw ⊢
    refine exec_allocated hrange hc hl (fun e he => ?_) hf hw
    cases hr.symm.trans he
    exact List.cons_ne_self _ _ hf.symm
  | _ => exact .inl ⟨_, rfl⟩

/-- What a call gives back that deletes an object. -/
theorem exec_delete (cfg : Cfg) (k : Kernel) (hc : call.del = some (x, id)) :
    (∃ e, e ≠ E_OK ∧ exec cfg k call = .err k e) ∨ (exec cfg k call).ercd = some E_OK ∧
      cfg.dyn x (index id) ∧ k.core.atr x (index id) ≠ TA_NOEXS ∧
      (exec cfg k call).st.core.atr x = Function.update (k.core.atr x) (index id) TA_NOEXS ∧
      (exec cfg k call).st.core.memory =
        (((k.allocated x (index id)).map Area.addr).foldl Core.kernelFree k.core).memory := by
  generalize hr : exec cfg k call = r
  cases hr ▸ exec_del cfg k hc with
  | deleted hl hd hn hf ha hg =>
    rw [map_allocated]
    exact .inr ⟨rfl, hd, hn, ha, hg⟩
  | check hp hf =>
    refine .inl ⟨_, fun h0 => ?_, rfl⟩
    have hneg := (ne_noid_of_code (checks_code _ call _ hp)).2
    rw [h0] at hneg
    exact absurd hneg (by decide)
  | noexs hn => exact .inl ⟨_, by decide, rfl⟩
  | obj => exact .inl ⟨_, by decide, rfl⟩

/-- The areas of an object that exists are given back. -/
theorem MallocInv.freed (hv : MallocInv cfg k) (hd : cfg.dyn x i) (hex : k.core.atr x i ≠ TA_NOEXS) :
    (((k.allocated x i).map Area.addr).foldl Core.kernelFree k.core).memory =
      (((k.allocated x i).map Area.addr).foldl (Ownership.free Area.addr) k.core.areas, true) := by
  rw [← areasOf_exist hd hex]
  refine kernelFree_all k.core hv.holds.nodup (hv.holds.each (x, i)) (fun p hp => ?_) hv.freeOk
  obtain ⟨a, ha, rfl⟩ := List.mem_map.1 hp
  exact List.mem_map_of_mem ((hv.holds.mem a).2 ⟨_, ha⟩)

/-- A call without effect. -/
theorem MallocInv.err {e : ER} (hv : MallocInv cfg k) (h : Reachable cfg k)
    (hs : Step cfg k (.call call) k') (he : exec cfg k call = .err k e) : MallocInv cfg k' := by
  obtain ⟨_, hk⟩ := step_call hs
  have hka : k.core.Alike k'.core := by
    rw [hk, he]
    exact settle_alike (.err k e)
  exact hv.same hka.memory fun p => h.areasOf hs (congrFun (hka.exist p.1).2 p.2)

/-- A call that creates an object. -/
theorem MallocInv.acre (hv : MallocInv cfg k) (h : Reachable cfg k)
    (hs : Step cfg k (.call call) k') (hc : call.acre = some x) (hn : call.fresh cfg k) :
    MallocInv cfg k' := by
  rcases h.acre hc with ⟨e, he⟩ | ⟨i, l, a, -, he, hf, ha, hA, hm, hal⟩
  · exact hv.err h hs he
  · obtain ⟨_, hk⟩ := step_call hs
    have hka : (exec cfg k call).st.core.Alike k'.core := hk ▸ settle_alike _
    have hmem := hka.memory.trans hm
    have hatr := (hka.exist x).2.trans ha
    have hmemb : i ∈ k.core.freeList x := hf ▸ List.mem_cons_self ..
    have hno : k.core.atr x i = TA_NOEXS := (Core.noexs_iff _ x i).1 (h.runInv.inv.noexs_of_free hmemb)
    have hown : k'.areasOf cfg = Function.update (k.areasOf cfg) (x, i) (call.got cfg).reverse := by
      funext ⟨y, j⟩
      by_cases hp : (y, j) = (x, i)
      · cases hp
        rw [Function.update_self]
        have hal' : k'.allocated x i = (call.got cfg).reverse := by
          rw [hk, settle_allocated, hal]
        by_cases hex : k'.core.atr x i = TA_NOEXS
        · have hok : ¬call.attrOk := by
            intro hok
            rw [hatr, Function.update_self] at hex
            exact hA hok hex
          rw [areasOf_noexs hex, got_of_not_attrOk hok]
          rfl
        · exact (if_pos ⟨h.range x i hmemb, hex⟩).trans hal'
      · rw [Function.update_of_ne hp]
        by_cases hy : y = x
        · subst hy
          refine h.areasOf hs ?_
          rw [hatr, Function.update_of_ne]
          rintro rfl
          exact hp rfl
        · exact h.areasOf_kinds hs fun hK => hy (kinds_acre hc hK)
    obtain ⟨hnd, hfresh⟩ := hn (toId i) he (toId_pos i)
    refine ⟨?_, (congrArg Prod.snd hmem).trans hv.freeOk⟩
    rw [hown, show k'.core.areas = call.got cfg ++ k.core.areas from congrArg Prod.fst hmem]
    exact hv.holds.create (areasOf_noexs hno) hnd hfresh

/-- A call that deletes an object. -/
theorem MallocInv.del (hv : MallocInv cfg k) (h : Reachable cfg k)
    (hs : Step cfg k (.call call) k') (hc : call.del = some (x, id)) : MallocInv cfg k' := by
  rcases exec_delete cfg k hc with ⟨e, -, he⟩ | ⟨-, hd, hex, ha, hm⟩
  · exact hv.err h hs he
  · obtain ⟨_, hk⟩ := step_call hs
    have hka : (exec cfg k call).st.core.Alike k'.core := hk ▸ settle_alike _
    have hatr := (hka.exist x).2.trans ha
    have hown : k'.areasOf cfg = Function.update (k.areasOf cfg) (x, index id) [] := by
      funext ⟨y, j⟩
      by_cases hp : (y, j) = (x, index id)
      · cases hp
        rw [Function.update_self]
        exact areasOf_noexs (by rw [hatr, Function.update_self])
      · rw [Function.update_of_ne hp]
        by_cases hy : y = x
        · subst hy
          refine h.areasOf hs ?_
          rw [hatr, Function.update_of_ne]
          rintro rfl
          exact hp rfl
        · exact h.areasOf_kinds hs fun hK => hy (kinds_del hc hK)
    have hmem := hka.memory.trans (hm.trans (hv.freed hd hex))
    rw [← areasOf_exist hd hex] at hmem
    refine ⟨?_, congrArg Prod.snd hmem⟩
    rw [hown, show k'.core.areas = _ from congrArg Prod.fst hmem]
    exact hv.holds.delete (x, index id)

theorem MallocInv.step (hv : MallocInv cfg k) (h : Reachable cfg k) (hs : MallocStep cfg k e k') :
    MallocInv cfg k' := by
  by_cases hK : ∃ x, e.kinds x
  · obtain ⟨x, hK⟩ := hK
    cases e with
    | call call =>
      rcases kinds_cases hK with hc | ⟨id, hc⟩
      · exact hv.acre h hs.1 hc (hs.2 call rfl)
      · exact hv.del h hs.1 hc
    | _ => exact hK.elim
  · refine hv.same (h.runInv.memory hs.1 fun call he hM => ?_) fun p => h.areasOf_kinds hs.1 fun h => hK ⟨_, h⟩
    subst he
    exact hK (kinds_of_mem hM)

/-- Nothing is allocated at the start. -/
theorem boot_memory (cfg : Cfg) : (boot cfg).core.memory = ([], true) := by
  have hrest := (BootInv.all cfg).rest
  simp only [Core.rest, Prod.mk.injEq] at hrest
  obtain ⟨_, _, _, _, _, _, _, _, _, ha, ho, _, _⟩ := hrest
  have hd : (boot cfg).core.memory = (Core.initializeAll cfg).memory :=
    (Core.Alike.dispatcher (Core.initializeAll cfg)).memory
  exact hd.trans (Prod.ext ha ho)

theorem MallocInv.boot (cfg : Cfg) : MallocInv cfg (boot cfg) := by
  have hm := boot_memory cfg
  have hown (p : ObjKind × Nat) : (AspKernel.boot cfg).areasOf cfg p = [] :=
    if_neg fun h => h.2 (boot_atr cfg p.1 h.1.1)
  refine ⟨?_, congrArg Prod.snd hm⟩
  rw [show (AspKernel.boot cfg).core.areas = [] from congrArg Prod.fst hm, funext hown]
  exact .start

/-- An area that `kernel_malloc` has returned belongs to exactly one object, from the creation of the
object to its deletion, by which it is given back once; it is an area that the creation has been given
none for. A creation that fails leaves the blocks and the areas as they are. -/
theorem reachable_malloc (h : Trans.Run (MallocStep cfg) (boot cfg) es k) :
    (k.core.areas.map Area.addr).Nodup ∧ k.core.freeOk = true ∧
    (∀ a ∈ k.core.areas, ∃! p : ObjKind × Nat, a ∈ k.areasOf cfg p) ∧
    (∀ p, ∀ a ∈ k.areasOf cfg p, a ∈ k.core.areas) ∧
    (∀ call x, call.acre = some x → ∀ e, e = E_NOMEM ∨ e = E_NOID →
      (exec cfg k call).ercd = some e → exec cfg k call = .err k e) ∧
    (∀ call x k', Step cfg k (.call call) k' → call.acre = some x →
      (∃ e, exec cfg k call = .err k e) ∨ ∃ i, (exec cfg k call).ercd = some (toId i) ∧
        k.core.atr x i = TA_NOEXS ∧ k'.allocated x i = (call.got cfg).reverse ∧
        k'.core.areas = call.got cfg ++ k.core.areas) ∧
    (∀ call x id k', Step cfg k (.call call) k' → call.del = some (x, id) →
      (exec cfg k call).ercd = some E_OK → k'.core.freeOk = true ∧
        (∀ a ∈ k.allocated x (index id), a ∈ k.core.areas) ∧
        ∀ a, a ∈ k'.core.areas ↔ a ∈ k.core.areas ∧ a ∉ k.allocated x (index id)) ∧
    (∀ e k' x i, Step cfg k e k' → k.core.atr x i ≠ TA_NOEXS → k'.core.atr x i ≠ TA_NOEXS →
      k'.allocated x i = k.allocated x i) ∧
    ∀ e k', Step cfg k e k' → (∀ call, e = .call call → ¬call.mem) → k'.core.areas = k.core.areas := by
  obtain ⟨hr, hv⟩ := h.along (I := Reachable cfg) (J := MallocInv cfg) (fun _ _ _ => And.left)
    (fun _ _ _ => Reachable.step) (fun _ _ _ hi hj hs => hj.step hi hs) (boot_reachable cfg) (.boot cfg)
  refine ⟨hv.holds.nodup, hv.freeOk, fun a ha => ?_, fun p a ha => (hv.holds.mem a).2 ⟨p, ha⟩,
    fun call x hc e he hex => ?_, fun call x k' hs hc => ?_, fun call x id k' hs hc he => ?_,
    fun e k' x i hs hi hi' => hr.allocated hs hi (hr.atr_same hs hi hi'),
    fun e k' hs hM => congrArg Prod.fst (hr.runInv.memory hs hM)⟩
  · obtain ⟨p, hp⟩ := (hv.holds.mem a).1 ha
    exact ⟨p, hp, fun q hq => hv.holds.unique q p a hq hp⟩
  · rcases hr.acre hc with ⟨e', hx⟩ | ⟨i, -, -, -, hx, -⟩
    · rw [hx] at hex ⊢
      cases hex
      rfl
    · have hpos := toId_pos i
      rw [Option.some.inj (hx.symm.trans hex)] at hpos
      rcases he with rfl | rfl <;> exact absurd hpos (by decide)
  · rcases hr.acre hc with hx | ⟨i, l, a, -, hx, hf, ha, hA, hm, hal⟩
    · exact .inl hx
    · obtain ⟨_, hk⟩ := step_call hs
      have hka : (exec cfg k call).st.core.Alike k'.core := hk ▸ settle_alike _
      have hmemb : i ∈ k.core.freeList x := hf ▸ List.mem_cons_self ..
      refine .inr ⟨i, hx, (Core.noexs_iff _ x i).1 (hr.runInv.inv.noexs_of_free hmemb), ?_, ?_⟩
      · rw [hk, settle_allocated, hal]
      · exact congrArg Prod.fst (hka.memory.trans hm)
  · rcases exec_delete cfg k hc with ⟨e', hne, hx⟩ | ⟨-, hd, hex, ha, hm⟩
    · rw [hx] at he
      exact absurd (Option.some.inj he) hne
    · obtain ⟨_, hk⟩ := step_call hs
      have hka : (exec cfg k call).st.core.Alike k'.core := hk ▸ settle_alike _
      have hmem := hka.memory.trans (hm.trans (hv.freed hd hex))
      have hin : ∀ a ∈ k.allocated x (index id), a ∈ k.core.areas := fun a ha =>
        (hv.holds.mem a).2 ⟨(x, index id), areasOf_exist hd hex ▸ ha⟩
      refine ⟨congrArg Prod.snd hmem, hin, fun a => ?_⟩
      rw [show k'.core.areas = _ from congrArg Prod.fst hmem, Ownership.mem_freeAll hv.holds.nodup]
      refine and_congr_right fun ha => not_congr ⟨fun hp => ?_, List.mem_map_of_mem⟩
      obtain ⟨b, hb, hba⟩ := List.mem_map.1 hp
      exact Ownership.eq_of_key hv.holds.nodup (hin b hb) ha hba ▸ hb

/-- A pool with two allocated areas is created and deleted. -/
theorem reachable_malloc_pool : ∃ k, Step .dynMpf (boot .dynMpf)
      (.call (.acreMpf ⟨TA_NULL, 3, 16, 0, 0⟩ 0x20000000 0x1000)) k ∧
    k.core.areas = [⟨0x1000, 12⟩, ⟨0x20000000, 48⟩] ∧
    (∀ a ∈ k.core.areas, ∃! p : ObjKind × Nat, a ∈ k.areasOf .dynMpf p) ∧
    ∀ k', Step .dynMpf k (.call (.delMpf 2)) k' → k'.core.freeOk = true ∧ k'.core.areas = [] := by
  have h : (((boot .dynMpf).step .dynMpf
      (.call (.acreMpf ⟨TA_NULL, 3, 16, 0, 0⟩ 0x20000000 0x1000))).any fun k =>
      decide (k.core.areas = [⟨0x1000, 12⟩, ⟨0x20000000, 48⟩] ∧
        k.allocated (.wobj .MPF) 1 = [⟨0x20000000, 48⟩, ⟨0x1000, 12⟩] ∧
        (exec .dynMpf k (.delMpf 2)).ercd = some E_OK)) = true := by
    decide +kernel
  obtain ⟨k, hk, h⟩ := (Option.any_eq_true _ _).1 h
  obtain ⟨hareas, hal, hdel⟩ := of_decide_eq_true h
  have hfirst : MallocStep .dynMpf (boot .dynMpf)
      (.call (.acreMpf ⟨TA_NULL, 3, 16, 0, 0⟩ 0x20000000 0x1000)) k := by
    refine ⟨hk, fun call hc id _ _ => ?_⟩
    cases hc
    exact ⟨by decide, by simp [show (boot .dynMpf).core.areas = [] from congrArg Prod.fst (boot_memory .dynMpf)]⟩
  obtain ⟨-, -, hone, -, -, -, hgive, -⟩ := reachable_malloc (Trans.Run.one hfirst)
  refine ⟨k, hk, hareas, hone, fun k' hs => ?_⟩
  obtain ⟨hok, -, hmem⟩ := hgive (.delMpf 2) (.wobj .MPF) 2 k' hs rfl hdel
  refine ⟨hok, List.eq_nil_iff_forall_not_mem.2 fun a ha => ?_⟩
  obtain ⟨ha, hn⟩ := (hmem a).1 ha
  rw [hareas] at ha
  refine hn ?_
  change a ∈ k.allocated (.wobj .MPF) 1
  rw [hal]
  simpa [or_comm] using ha

end

end AspKernel
