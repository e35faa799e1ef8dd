import AspKernel.Comm
import AspKernel.Lib.Ring

namespace AspKernel
set_option autoImplicit true

namespace DTQCB

/-- The values in the ring buffer, the oldest one first. -/
def contents (p : DTQCB) : List IntPtr := Ring.slots p.mb p.dtqcnt p.head p.count

/-- The positions in the ring buffer. A queue without an area never uses them. -/
structure Wf (p : DTQCB) : Prop where
  count : p.count ≤ p.dtqcnt
  head : p.head < p.dtqcnt ∨ p.dtqcnt = 0 ∧ p.head = 0
  tail : p.tail = (p.head + p.count) % p.dtqcnt

section
variable {p : DTQCB}

theorem contents_nil (h : p.count = 0) : p.contents = [] := by
  unfold contents
  rw [h]
  rfl

theorem contents_length (p : DTQCB) : p.contents.length = p.count := Ring.slots_length ..

theorem Wf.clear (p : DTQCB) : p.clear.Wf :=
  ⟨Nat.zero_le _, p.dtqcnt.eq_zero_or_pos.symm.imp_right fun h => ⟨h, rfl⟩, (Nat.zero_mod _).symm⟩

theorem Wf.head_lt (h : p.Wf) (hp : 0 < p.dtqcnt) : p.head < p.dtqcnt :=
  h.head.resolve_right fun hn => Nat.ne_of_gt hp hn.1

theorem Wf.enqueueData (h : p.Wf) (hc : p.count < p.dtqcnt) (data : IntPtr) :
    (p.enqueueData data).Wf ∧ (p.enqueueData data).contents = p.contents ++ [data] := by
  have hpos := Nat.zero_lt_of_lt hc
  have ht : p.tail < p.dtqcnt := h.tail ▸ Nat.mod_lt _ hpos
  refine ⟨⟨hc, .inl (h.head_lt hpos), ?_⟩, ?_⟩
  · refine (Ring.wrap_eq ht).trans ?_
    rw [h.tail, Nat.mod_add_mod]
    rfl
  · refine (congrArg (Ring.slots · p.dtqcnt p.head (p.count + 1)) ?_).trans
      (Ring.slots_put p.mb hc data)
    exact congrArg (Function.update p.mb · data) h.tail

theorem Wf.dequeueData (h : p.Wf) (hc : 0 < p.count) :
    p.dequeueData.2.Wf ∧ p.contents = p.dequeueData.1 :: p.dequeueData.2.contents := by
  have hh := h.head_lt (Nat.lt_of_lt_of_le hc h.count)
  obtain ⟨n, hn⟩ : ∃ n, p.count = n + 1 := ⟨_, (Nat.succ_pred_eq_of_pos hc).symm⟩
  have hw : p.wrap (p.head + 1) = (p.head + 1) % p.dtqcnt := Ring.wrap_eq hh
  refine ⟨⟨Nat.le_trans (Nat.sub_le _ _) h.count, .inl ?_, ?_⟩, ?_⟩
  · change p.wrap (p.head + 1) < _
    rw [hw]
    exact Nat.mod_lt _ (Nat.zero_lt_of_lt hh)
  · change p.tail = (p.wrap (p.head + 1) + (p.count - 1)) % p.dtqcnt
    rw [hw, Nat.mod_add_mod, h.tail, hn]
    congr 1
    omega
  · unfold contents
    rw [hn, Ring.slots_cons, Nat.mod_eq_of_lt hh]
    change _ = p.mb p.head :: Ring.slots p.mb p.dtqcnt (p.wrap (p.head + 1)) (p.count - 1)
    rw [hw, hn]
    rfl

/-- A forced value goes into a full buffer in the place of the oldest one. -/
theorem Wf.forceEnqueueData (h : p.Wf) (hpos : 0 < p.dtqcnt) (hc : ¬p.count < p.dtqcnt)
    (data : IntPtr) : (p.forceEnqueueData data).Wf ∧
      ∃ b l, p.contents = b :: l ∧ (p.forceEnqueueData data).contents = l ++ [data] := by
  have hn : p.count = p.dtqcnt := Nat.le_antisymm h.count (Nat.not_lt.1 hc)
  obtain ⟨n, hd⟩ : ∃ n, p.dtqcnt = n + 1 := ⟨_, (Nat.succ_pred_eq_of_pos hpos).symm⟩
  have hh := h.head_lt hpos
  have ht : p.tail = p.head := by
    rw [h.tail, hn, Nat.add_mod_right, Nat.mod_eq_of_lt hh]
  have hw : p.wrap (p.tail + 1) = (p.head + 1) % p.dtqcnt := by
    rw [ht]
    exact Ring.wrap_eq hh
  have he : p.forceEnqueueData data = { p with
      mb := Function.update p.mb p.head data
      head := (p.head + 1) % p.dtqcnt
      tail := (p.head + 1) % p.dtqcnt } := by
    unfold DTQCB.forceEnqueueData
    rw [if_neg hc, hw, ht]
  rw [he]
  refine ⟨⟨h.count, .inl (Nat.mod_lt _ hpos), ?_⟩, p.mb p.head,
    Ring.slots p.mb p.dtqcnt ((p.head + 1) % p.dtqcnt) n, ?_, ?_⟩
  · change (p.head + 1) % p.dtqcnt = ((p.head + 1) % p.dtqcnt + p.count) % p.dtqcnt
    rw [hn, Nat.add_mod_right, Nat.mod_mod]
  · unfold contents
    rw [hn, hd, Ring.slots_cons, Nat.mod_eq_of_lt (hd ▸ hh)]
  · change Ring.slots (Function.update p.mb p.head data) p.dtqcnt ((p.head + 1) % p.dtqcnt) p.count = _
    rw [hn, hd, ← Ring.slots_put p.mb (Nat.lt_succ_self n)]
    congr 2
    rw [Nat.mod_add_mod, show p.head + 1 + n = p.head + (n + 1) by omega, Nat.add_mod_right,
      Nat.mod_eq_of_lt (hd ▸ hh)]

theorem forceEnqueueData_dtqcnt (p : DTQCB) (data : IntPtr) :
    (p.forceEnqueueData data).dtqcnt = p.dtqcnt := by
  unfold forceEnqueueData
  simp only
  split <;> rfl

end

end DTQCB

/-- What a call does to a data queue. -/
def Call.dtqOp : Call → Option (ID × Op IntPtr)
  | .sndDtq id data | .psndDtq id data | .ipsndDtq id data | .tsndDtq id data _ =>
    some (id, .send data)
  | .fsndDtq id data | .ifsndDtq id data => some (id, .force data)
  | .rcvDtq id | .prcvDtq id | .trcvDtq id _ => some (id, .receive)
  | _ => none

def Out.data? : Out → Option IntPtr
  | .data d => some d
  | _ => Option.none

/-- The data queues as channels: the values come out in the order in which they go in. -/
def dtqPort : Port IntPtr Nat where
  kind := .SDTQ
  sndq := some .SDTQ
  rcvq := .RDTQ
  key _ := 0
  hold k i := ((k.dtq i).dtqcnt, (k.dtq i).contents)
  op _ := Call.dtqOp
  offer w := w.data
  taken _ w := w.data
  result _ := Out.data?
  sndq_main := by
    rintro f ⟨⟩ i
    rfl
  rcvq_main _ := rfl
  sndq_ne := nofun
  kind_ne := nofun
  hold_core _ _ := rfl
  fits _ := True
  op_ini k call x h := by
    cases call <;> first
      | rfl
      | cases h
  op_object k call id o h := by
    cases call <;> cases h <;> rfl

section
variable {cfg : Cfg} {k k' : Kernel} {call : Call} {id : ID} {i : Nat}

theorem dtq_room : (dtqPort.chan k i).room ↔ (k.dtq i).count < (k.dtq i).dtqcnt := by
  refine Iff.trans ?_ (Nat.cast_lt (α := ℕ∞))
  unfold Channel.Chan.room
  change ((k.dtq i).contents.length : ℕ∞) < _ ↔ _
  rw [DTQCB.contents_length]
  rfl

theorem dtq_put (a : IntPtr) (l : List IntPtr) : Channel.insert dtqPort.key a l = l ++ [a] :=
  Channel.insert_append fun _ _ => Nat.le_refl _

/-- What a call does that names a data queue. -/
abbrev DtqCall (k : Kernel) (call : Call) (id : ID) (r : Res Kernel) : Prop :=
  dtqPort.CallOn Kernel.dtq DTQCB.Wf k call id r

theorem dtq_hold {p : DTQCB} (h : k.dtq i = p) : dtqPort.hold k i = ((p.dtqcnt : ℕ∞), p.contents) :=
  congrArg (fun p : DTQCB => ((p.dtqcnt : ℕ∞), p.contents)) h

theorem dtqCall_ok {o : Obj DTQCB} (ctx : Ctx) (h : DtqCall k call id
    ⟨{ k with core := o.core, dtq := o.cb }, some E_OK, dspreq, out⟩) :
    DtqCall k call id ((o.ok ctx dspreq out).map fun o => { k with core := o.core, dtq := o.cb }) := by
  cases ctx with
  | tsk => exact h
  | int =>
    exact ⟨fun hw => (h.does hw).imp (·.alike (.request _ _)) (·.alike (.request _ _)), h.wf,
      h.other⟩

theorem dtqCall_hand (ho : call.dtqOp = some (id, o)) (hs : o = .send data ∨ o = .force data)
    (hv : toId (index id) = id) (hh : k.core.headTsk (.RDTQ, index id) = some t) :
    DtqCall k call id ⟨{ k with core := (k.core.completeWithData t data).1 }, some E_OK, d, out⟩ := by
  have hd := hands_complete hh { (k.core.tcb t).winfo with data := data }
  exact .same rfl (.inl (.hand ho hv hs hd (congrArg WInfo.data hd.self) rfl))

theorem dtqCall_put (ho : call.dtqOp = some (id, o)) (hs : o = .send data ∨ o = .force data)
    (hv : toId (index id) = id) (hh : k.core.headTsk (.RDTQ, index id) = none)
    (hc : (k.dtq (index id)).count < (k.dtq (index id)).dtqcnt) :
    DtqCall k call id ⟨{ k with
      dtq := Function.update k.dtq (index id) ((k.dtq (index id)).enqueueData data) },
      some E_OK, d, out⟩ := by
  refine .update rfl fun hw => ⟨(hw.enqueueData hc data).1, fun hold => .inl ?_⟩
  refine .put ho hv hs (List.head?_eq_none_iff.1 hh) (dtq_room.2 hc) (.of_alike (.refl _)) ?_
  rw [dtq_hold hold, dtq_put, (hw.enqueueData hc data).2]
  rfl

theorem dtqCall_snd {m : WaitMode} (h : CallPre cfg k.core)
    (ho : call.dtqOp = some (id, .send data))
    (hl : ∀ p ∈ [(k.core.ctxMode m, E_CTX), (cfg.dtq.valid id, E_ID), (m.valid, E_PAR)],
      p.1 = true) : DtqCall k call id (k.onDtq (sndDtqWith cfg · id data m)) := by
  have hv := (ObjNum.valid_index (hl _ (.tail _ (.head _)))).2
  rw [show k.onDtq (sndDtqWith cfg · id data m) = _ from check_map hl]
  simp only [sendData]
  split
  · exact .err (by decide)
  · rename_i hex
    cases hh : k.core.headTsk (.RDTQ, index id) with
    | some t => exact dtqCall_ok _ (dtqCall_hand ho (.inl rfl) hv hh)
    | none =>
      by_cases hc : (k.dtq (index id)).count < (k.dtq (index id)).dtqcnt
      · simp only [if_pos hc]
        exact dtqCall_ok _ (dtqCall_put ho (.inl rfl) hv hh hc)
      · simp only [if_neg hc]
        split
        · exact .err (by decide)
        · rename_i hp
          have hb := blocks_waitWobj h (hl _ (.head _)) (hl _ (.tail _ (.tail _ (.head _))))
            (Bool.eq_false_iff.2 hp) (Bool.eq_false_iff.2 hex) (by decide) (by decide)
            { WInfo.local with data := data }
          obtain ⟨ev, b, hw⟩ := hb.self
          exact .same rfl (.inl (.send ho rfl (List.head?_eq_none_iff.1 hh)
            (fun hn => hc (dtq_room.1 hn)) hb (congrArg WInfo.data hw) rfl))

theorem dtqCall_fsnd {ctx : Ctx} (ho : call.dtqOp = some (id, .force data))
    (hl : ∀ p ∈ [(k.core.ctxUnl ctx, E_CTX), (cfg.dtq.valid id, E_ID)], p.1 = true) :
    DtqCall k call id (k.onDtq (fsndDtqWith cfg · ctx id data)) := by
  have hv := (ObjNum.valid_index (hl _ (.tail _ (.head _)))).2
  rw [show k.onDtq (fsndDtqWith cfg · ctx id data) = _ from check_map hl]
  simp only [forceSendData]
  split
  · exact .err (by decide)
  · split
    · exact .err (by decide)
    · rename_i hz
      cases hh : k.core.headTsk (.RDTQ, index id) with
      | some t => exact dtqCall_ok _ (dtqCall_hand ho (.inr rfl) hv hh)
      | none =>
        refine dtqCall_ok _ ?_
        by_cases hc : (k.dtq (index id)).count < (k.dtq (index id)).dtqcnt
        · have he : (k.dtq (index id)).forceEnqueueData data =
              (k.dtq (index id)).enqueueData data := if_pos hc
          rw [he]
          exact dtqCall_put ho (.inr rfl) hv hh hc
        · refine .update rfl fun hw => ?_
          obtain ⟨hw', b, l, hb, hl⟩ := hw.forceEnqueueData (Nat.pos_of_ne_zero hz) hc data
          refine ⟨hw', fun hold => .inl ?_⟩
          refine .force ho hv (List.head?_eq_none_iff.1 hh) (fun hn => hc (dtq_room.1 hn)) hb
            (.of_alike (.refl _)) ?_
          rw [dtq_hold hold, dtq_put, hl, DTQCB.forceEnqueueData_dtqcnt]
          rfl

theorem dtqCall_rcv {m : WaitMode} (h : CallPre cfg k.core)
    (ho : call.dtqOp = some (id, .receive))
    (hl : ∀ p ∈ [(k.core.ctxMode m, E_CTX), (cfg.dtq.valid id, E_ID), (m.valid, E_PAR)],
      p.1 = true) : DtqCall k call id (k.onDtq (rcvDtqWith cfg · id m)) := by
  have hv := (ObjNum.valid_index (hl _ (.tail _ (.head _)))).2
  rw [show k.onDtq (rcvDtqWith cfg · id m) = _ from check_map hl]
  simp only [receiveData]
  split
  · exact .err (by decide)
  · rename_i hex
    by_cases hc : 0 < (k.dtq (index id)).count
    · simp only [if_pos hc]
      cases hh : k.core.headTsk (.SDTQ, index id) with
      | some t =>
        refine dtqCall_ok .tsk (.update rfl fun hw => ?_)
        obtain ⟨hw', hcont⟩ := hw.dequeueData hc
        have hlt : (k.dtq (index id)).dequeueData.2.count < (k.dtq (index id)).dequeueData.2.dtqcnt :=
          Nat.lt_of_lt_of_le (Nat.sub_one_lt_of_lt hc) hw.count
        obtain ⟨hw'', hcont'⟩ := hw'.enqueueData hlt (k.core.waitData t)
        refine ⟨hw'', fun hold => .inl ?_⟩
        refine .refill ho hv rfl (hands_complete' hh) hcont rfl ?_
        rw [dtq_hold hold, dtq_put, hcont']
        rfl
      | none =>
        refine dtqCall_ok .tsk (.update rfl fun hw => ?_)
        obtain ⟨hw', hcont⟩ := hw.dequeueData hc
        exact ⟨hw', fun hold => .inl (.get ho hv (List.head?_eq_none_iff.1 hh) hcont
          (.of_alike (.refl _)) rfl (dtq_hold hold))⟩
    · simp only [if_neg hc]
      have hcont : dtqPort.buf k (index id) = [] := DTQCB.contents_nil (by omega)
      cases hh : k.core.headTsk (.SDTQ, index id) with
      | some t =>
        exact dtqCall_ok .tsk (.same rfl
          (.inl (.direct ho hv rfl (hands_complete' hh) hcont rfl rfl)))
      | none =>
        simp only
        split
        · exact .err (by decide)
        · rename_i hp
          exact .same rfl (.inl (.receive ho (List.head?_eq_none_iff.1 hh) hcont
            (blocks_waitReceive h (hl _ (.head _)) (hl _ (.tail _ (.tail _ (.head _))))
              (Bool.eq_false_iff.2 hp) (Bool.eq_false_iff.2 hex) (.inl rfl)) rfl))

theorem dtqCall_ini (hl : ∀ p ∈ (Call.iniDtq id).checks cfg k.core, p.1 = true) :
    DtqCall k (.iniDtq id) id (k.onDtq (iniDtq cfg · id)) := by
  have hv := (ObjNum.valid_index (hl _ (.tail _ (.head _)))).2
  rw [show k.onDtq (iniDtq cfg · id) = _ from check_map hl]
  simp only
  split
  · exact .err (by decide)
  · refine dtqCall_ok .tsk (.update rfl fun _ => ⟨.clear _, fun hold => .inr ⟨.inl ⟨?_, ?_⟩, ?_⟩⟩)
    · rw [hv]
      rfl
    · exact (congrArg Prod.snd (dtq_hold hold)).trans (DTQCB.contents_nil rfl)
    · exact init2_queue k.core (.SDTQ, index id) (.RDTQ, index id)

theorem dtqCall_del (hl : ∀ p ∈ (Call.delDtq id).checks cfg k.core, p.1 = true) :
    DtqCall k (.delDtq id) id (k.onDtq (delDtq cfg · id)) := by
  have hv := (ObjNum.valid_index (hl _ (.tail _ (.head _)))).2
  rw [show k.onDtq (delDtq cfg · id) = _ from check_map hl]
  simp only
  split
  · exact .err (by decide)
  · split
    · refine dtqCall_ok .tsk (.same rfl (.inr ⟨.inr ⟨?_, rfl⟩, ?_⟩))
      · rw [hv]
        rfl
      · have hq := init2_queue k.core (.SDTQ, index id) (.RDTQ, index id)
        cases (k.core.wobjatr (.SDTQ, index id)).has TA_MBALLOC <;> exact hq
    · exact .err (by decide)

theorem dtqCall_ref (hl : ∀ p ∈ (Call.refDtq id).checks cfg k.core, p.1 = true) :
    DtqCall k (.refDtq id) id (k.onDtq (refDtq cfg · id)) := by
  rw [show k.onDtq (refDtq cfg · id) = _ from check_map hl]
  simp only
  split
  · exact .err (by decide)
  · exact dtqCall_ok .tsk (.same rfl (.inl (.rest (.inr ⟨rfl, rfl⟩) (.of_alike (.refl _)) rfl)))

theorem dtqCall (h : CallPre cfg k.core) (ho : call.object = some (.wobj .SDTQ, id)) :
    DtqCall k call id (exec cfg k call) := by
  rcases exec_rejected cfg k call with ⟨e, he, hr⟩ | hl
  · rw [hr]
    exact .err he
  · cases call with
    | sndDtq | psndDtq | ipsndDtq | tsndDtq => cases ho; exact dtqCall_snd h rfl hl
    | fsndDtq | ifsndDtq => cases ho; exact dtqCall_fsnd rfl hl
    | rcvDtq | prcvDtq | trcvDtq => cases ho; exact dtqCall_rcv h rfl hl
    | iniDtq => cases ho; exact dtqCall_ini hl
    | delDtq => cases ho; exact dtqCall_del hl
    | refDtq => cases ho; exact dtqCall_ref hl
    | _ => cases ho

theorem acreDtq_dtq (h : ∀ i ∈ k.core.freeWobj .SDTQ, i < cfg.dtq.tmax) (pk : DTQINIB)
    (mem : Addr) :
    (∃ e, k.onDtq (acreDtq cfg · pk mem) = .err k e) ∨ ∃ i l a, k.core.freeWobj .SDTQ = i :: l ∧
      (k.onDtq (acreDtq cfg · pk mem)).st.dtq =
        Function.update k.dtq i ⟨pk.dtqcnt, a, (k.dtq i).mb, 0, 0, 0⟩ := by
  rcases exec_rejected cfg k (.acreDtq pk mem) with ⟨e, _, hr⟩ | hl
  · exact .inl ⟨e, hr⟩
  · rw [show k.onDtq (acreDtq cfg · pk mem) = _ from check_map hl]
    simp only
    rcases takeWobj_cases h with ⟨ht, _⟩ | ⟨i, l, hf, ht⟩
    · rw [ht]
      exact .inl ⟨_, rfl⟩
    · rw [ht]
      simp only
      by_cases hm : pk.dtqcnt ≠ 0 ∧
          (if pk.dtqcnt ≠ 0 ∧ pk.pDtqmb = 0 then mem else pk.pDtqmb) = 0
      · rw [if_pos hm]
        exact .inl ⟨_, rfl⟩
      · rw [if_neg hm]
        exact .inr ⟨i, l, _, hf, rfl⟩

theorem dtq_on (cfg : Cfg) : dtqPort.On cfg Kernel.dtq DTQCB.Wf
    fun p => ((p.dtqcnt : ℕ∞), p.contents) where
  hold _ _ := rfl
  outside _ _ _ := rfl
  call _ _ _ h ho := dtqCall h ho
  acre k call h hc := by
    cases call with
    | acreDtq pk mem =>
      refine (acreDtq_dtq h pk mem).imp_right fun ⟨i, l, a, hf, he⟩ => ⟨i, l, _, hf, he, ?_⟩
      exact ⟨.clear ⟨pk.dtqcnt, a, (k.dtq i).mb, 0, 0, 0⟩, DTQCB.contents_nil rfl⟩
    | _ => cases hc
  other k call ho hc := by
    cases call <;> first
      | rfl
      | exact absurd rfl (ho _)
      | exact absurd rfl hc
  start i := ⟨.clear ⟨(cfg.dtqinib i).dtqcnt, (cfg.dtqinib i).pDtqmb, fun _ => 0, 0, 0, 0⟩,
    DTQCB.contents_nil rfl⟩

end

end AspKernel
