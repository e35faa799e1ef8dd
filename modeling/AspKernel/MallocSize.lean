import AspKernel.Lib.RoundUp
import AspKernel.MallocInv

namespace AspKernel
set_option autoImplicit true

/-- The bytes that the areas need that a call asks `kernel_malloc` for, as natural numbers. -/
def Call.need (cfg : Cfg) : Call → List Nat
  | .acreTsk pk _ => if pk.stk = 0 then [RoundUp.up (2 ^ cfg.target.stkLog) pk.stksz.toNat] else []
  | .acreDtq pk _ =>
    if pk.dtqcnt ≠ 0 ∧ pk.pDtqmb = 0 then [sizeofDTQMB.toNat * pk.dtqcnt] else []
  | .acrePdq pk _ =>
    if pk.pdqcnt ≠ 0 ∧ pk.pPdqmb = 0 then [sizeofPDQMB.toNat * pk.pdqcnt] else []
  | .acreMpf pk _ _ =>
    (if pk.pMpfmb = 0 then [sizeofMPFMB.toNat * pk.blkcnt] else []) ++
    if pk.mpf = 0 then [RoundUp.up (2 ^ cfg.target.mpfLog) pk.blksz * pk.blkcnt] else []
  | _ => []

/-- The areas that a call gets are as large as they must be. -/
def Call.Enough (cfg : Cfg) (call : Call) : Prop :=
  List.Forall₂ (fun n a => n ≤ a.size.toNat) (call.need cfg) (call.got cfg)

/-- No size of an area wraps. -/
def Call.Fits (cfg : Cfg) (call : Call) : Prop := ∀ n ∈ call.need cfg, n < 2 ^ 32

/-- The steps in which the sizes of the areas do not wrap. -/
def SizeStep (cfg : Cfg) (k : Kernel) (e : Event) (k' : Kernel) : Prop :=
  Step cfg k e k' ∧ ∀ call, e = .call call → (∀ p ∈ call.checks cfg k.core, p.1 = true) → call.Fits cfg

section
variable {cfg : Cfg} {k k' : Kernel} {x : ObjKind} {id : ID} {call : Call} {e : Event}

theorem Target.roundStk_eq (t : Target) {stksz : BitVec 32}
    (h : RoundUp.up (2 ^ t.stkLog) stksz.toNat < 2 ^ 32) :
    (t.roundStk stksz).toNat = RoundUp.up (2 ^ t.stkLog) stksz.toNat :=
  RoundUp.toNat_up stksz t.stkLog_lt h

theorem Target.roundMpf_eq (t : Target) {blksz : Nat} (h : RoundUp.up (2 ^ t.mpfLog) blksz < 2 ^ 32) :
    t.roundMpf blksz = RoundUp.up (2 ^ t.mpfLog) blksz := by
  have hb : blksz < 2 ^ 32 := Nat.lt_of_le_of_lt (RoundUp.le_up (Nat.two_pow_pos _)) h
  have hn : (BitVec.ofNat 32 blksz).toNat = blksz := by
    rw [BitVec.toNat_ofNat, Nat.mod_eq_of_lt hb]
  have hup := RoundUp.toNat_up (BitVec.ofNat 32 blksz) t.mpfLog_lt (hn.symm ▸ h)
  rw [hn] at hup
  exact hup

/-- The area of the blocks of a pool. -/
theorem Target.mpfSize_eq (t : Target) {blksz blkcnt : Nat} (hs : blksz ≠ 0) (hc : blkcnt ≠ 0)
    (h : RoundUp.up (2 ^ t.mpfLog) blksz * blkcnt < 2 ^ 32) :
    t.roundMpf blksz = RoundUp.up (2 ^ t.mpfLog) blksz ∧
    (BitVec.ofNat 32 (t.roundMpf blksz) * BitVec.ofNat 32 blkcnt).toNat =
      RoundUp.up (2 ^ t.mpfLog) blksz * blkcnt := by
  have hup : RoundUp.up (2 ^ t.mpfLog) blksz < 2 ^ 32 :=
    Nat.lt_of_le_of_lt (Nat.le_mul_of_pos_right _ (Nat.pos_of_ne_zero hc)) h
  have hpos : 0 < RoundUp.up (2 ^ t.mpfLog) blksz :=
    Nat.lt_of_lt_of_le (Nat.pos_of_ne_zero hs) (RoundUp.le_up (Nat.two_pow_pos _))
  have hr := t.roundMpf_eq hup
  refine ⟨hr, ?_⟩
  have hn : (BitVec.ofNat 32 (t.roundMpf blksz)).toNat = RoundUp.up (2 ^ t.mpfLog) blksz := by
    rw [hr, BitVec.toNat_ofNat, Nat.mod_eq_of_lt hup]
  rw [RoundUp.toNat_mul _ (hn.symm ▸ hpos) (hn.symm ▸ h), hn]

theorem forall₂_ite {b : Prop} [Decidable b] {n : Nat} {a : Area}
    (h : b → (n ≤ a.size.toNat ↔ n < 2 ^ 32)) :
    List.Forall₂ (fun n (a : Area) => n ≤ a.size.toNat) (if b then [n] else []) (if b then [a] else []) ↔
      ∀ m ∈ (if b then [n] else []), m < 2 ^ 32 := by
  by_cases hb : b
  · simp only [if_pos hb, List.forall₂_cons, List.Forall₂.nil, and_true, List.mem_singleton,
      forall_eq, h hb]
  · simp only [if_neg hb, List.Forall₂.nil, List.not_mem_nil, false_implies, implies_true]

/-- The areas of a call that passes its checks are large enough exactly if their sizes do not wrap. -/
theorem enough_iff {c : Core} (hl : ∀ p ∈ call.checks cfg c, p.1 = true) :
    call.Enough cfg ↔ call.Fits cfg := by
  unfold Call.Enough Call.Fits
  cases call with
  | acreTsk pk mem => exact forall₂_ite fun _ => RoundUp.le_toNat_iff _ cfg.target.roundStk_eq
  | acreDtq pk mem =>
    exact forall₂_ite fun _ => RoundUp.le_toNat_iff _ (RoundUp.toNat_mul sizeofDTQMB (by decide))
  | acrePdq pk mem =>
    exact forall₂_ite fun _ => RoundUp.le_toNat_iff _ (RoundUp.toNat_mul sizeofPDQMB (by decide))
  | acreMpf pk memMpf memMb =>
    have hcnt : pk.blkcnt ≠ 0 := bne_iff_ne.1 (hl _ (.tail _ (.tail _ (.head _))))
    have hsz : pk.blksz ≠ 0 := bne_iff_ne.1 (hl _ (.tail _ (.tail _ (.tail _ (.head _)))))
    have hmb := forall₂_ite (b := pk.pMpfmb = 0)
      (a := ⟨memMb, sizeofMPFMB * BitVec.ofNat 32 pk.blkcnt⟩) fun _ =>
      RoundUp.le_toNat_iff _ (RoundUp.toNat_mul sizeofMPFMB (by decide) (n := pk.blkcnt))
    have hmpf := forall₂_ite (b := pk.mpf = 0) (a := ⟨memMpf,
      BitVec.ofNat 32 (cfg.target.roundMpf pk.blksz) * BitVec.ofNat 32 pk.blkcnt⟩) fun _ =>
      RoundUp.le_toNat_iff _ fun h => (cfg.target.mpfSize_eq hsz hcnt h).2
    simp only [Call.need, Call.got, List.forall_mem_append]
    rw [← hmb, ← hmpf]
    refine ⟨fun h => ?_, fun h => List.rel_append h.1 h.2⟩
    by_cases hb : pk.pMpfmb = 0
    · simp only [if_pos hb, List.cons_append, List.nil_append, List.forall₂_cons] at h ⊢
      exact ⟨⟨h.1, .nil⟩, h.2⟩
    · simp only [if_neg hb, List.nil_append] at h ⊢
      exact ⟨.nil, h⟩
  | _ => simp [Call.need, Call.got]

/-- The sizes of the areas of an object, as natural numbers. -/
def Kernel.sizes (k : Kernel) (x : ObjKind) (i : Nat) : List Nat :=
  match x with
  | .wobj .SDTQ => (k.core.wobjatr (.SDTQ, i)).piece TA_MBALLOC (sizeofDTQMB.toNat * (k.dtq i).dtqcnt)
  | .wobj .SPDQ => (k.core.wobjatr (.SPDQ, i)).piece TA_MBALLOC (sizeofPDQMB.toNat * (k.pdq i).pdqcnt)
  | .wobj .MPF => (k.core.wobjatr (.MPF, i)).piece TA_MEMALLOC ((k.mpf i).blksz * (k.mpf i).blkcnt) ++
      (k.core.wobjatr (.MPF, i)).piece TA_MBALLOC (sizeofMPFMB.toNat * (k.mpf i).blkcnt)
  | _ => []

/-- No size of an area of an object that has been created by a call has wrapped. -/
def SizeInv (cfg : Cfg) (k : Kernel) : Prop :=
  ∀ x i, cfg.dyn x i → k.core.atr x i ≠ TA_NOEXS → ∀ n ∈ k.sizes x i, n < 2 ^ 32

theorem Reachable.sizes (h : Reachable cfg k) (hs : Step cfg k e k')
    (hi : k.core.atr x i ≠ TA_NOEXS) (ha : k'.core.atr x i = k.core.atr x i) :
    k'.sizes x i = k.sizes x i := by
  cases x with
  | wobj f =>
    cases f with
    | SDTQ =>
      have hsh := h.dtq_shape hs hi
      simp only [DTQCB.shape, Prod.mk.injEq] at hsh
      have hatr : k'.core.wobjatr (.SDTQ, i) = k.core.wobjatr (.SDTQ, i) := ha
      simp only [Kernel.sizes, hatr, hsh.1]
    | SPDQ =>
      have hsh := h.pdq_shape hs hi
      simp only [PDQCB.shape, Prod.mk.injEq] at hsh
      have hatr : k'.core.wobjatr (.SPDQ, i) = k.core.wobjatr (.SPDQ, i) := ha
      simp only [Kernel.sizes, hatr, hsh.1]
    | MPF =>
      have hsh := h.mpf_shape hs hi
      simp only [MPFCB.shape, Prod.mk.injEq] at hsh
      have hatr : k'.core.wobjatr (.MPF, i) = k.core.wobjatr (.MPF, i) := ha
      simp only [Kernel.sizes, hatr, hsh.1, hsh.2.1]
    | _ => rfl
  | _ => rfl

theorem mem_piece {atr bit : ATR} {a b : α} : b ∈ atr.piece bit a ↔ atr.has bit = true ∧ b = a := by
  unfold ATR.piece
  split
  · rename_i h
    rw [List.mem_singleton]
    exact ⟨fun hb => ⟨h, hb⟩, And.right⟩
  · rename_i h
    exact ⟨fun hb => absurd hb List.not_mem_nil, fun hb => absurd hb.1 h⟩

/-- What a call needs that has got an area under a condition. -/
theorem need_of_got {b : Prop} [Decidable b] {a a' : Area} {n : Nat} {atr bit : ATR} {l : List Area}
    (hl : l = if b then [a'] else []) (hb : atr.has bit = true) (h : atr.piece bit a = l.reverse) :
    n ∈ if b then [n] else [] := by
  have hb : b := by
    by_contra hn
    have ha : a ∈ atr.piece bit a := mem_piece.2 ⟨hb, rfl⟩
    rw [h, hl, if_neg hn] at ha
    cases ha
  rw [if_pos hb]
  exact List.mem_singleton_self n

/-- The sizes of the areas of a new object. -/
theorem exec_sizes (hr : ∀ x, ∀ i ∈ k.core.freeList x, i < (cfg.num x).tmax)
    (hc : call.acre = some x) (hl : ∀ p ∈ call.checks cfg k.core, p.1 = true)
    (he : ∀ e, exec cfg k call ≠ .err k e) (hf : k.core.freeList x = i :: l)
    (hal : (exec cfg k call).st.allocated x i = (call.got cfg).reverse) (hfit : call.Fits cfg) :
    ∀ n ∈ (exec cfg k call).st.sizes x i, n < 2 ^ 32 := by
  unfold Call.Fits at hfit
  cases call with
  | acreDtq pk mem =>
    cases hc
    rcases acreDtq_dtq (hr (.wobj .SDTQ)) pk mem with ⟨e, h⟩ | ⟨j, l', a, hf', ht⟩
    · exact absurd h (he e)
    · obtain rfl : j = i := (List.cons.inj (hf'.symm.trans hf)).1
      have htt := congrFun ht j
      rw [Function.update_self] at htt
      have hcnt : ((exec cfg k (.acreDtq pk mem)).st.dtq j).dtqcnt = pk.dtqcnt := congrArg DTQCB.dtqcnt htt
      intro n hn
      obtain ⟨hb, rfl⟩ := mem_piece.1 hn
      rw [hcnt]
      exact hfit _ (need_of_got rfl hb hal)
  | acrePdq pk mem =>
    cases hc
    rcases acrePdq_pdq (hr (.wobj .SPDQ)) pk mem with ⟨e, h⟩ | ⟨j, l', a, hf', ht⟩
    · exact absurd h (he e)
    · obtain rfl : j = i := (List.cons.inj (hf'.symm.trans hf)).1
      have htt := congrFun ht j
      rw [Function.update_self] at htt
      have hcnt : ((exec cfg k (.acrePdq pk mem)).st.pdq j).pdqcnt = pk.pdqcnt := congrArg PDQCB.pdqcnt htt
      intro n hn
      obtain ⟨hb, rfl⟩ := mem_piece.1 hn
      rw [hcnt]
      exact hfit _ (need_of_got rfl hb hal)
  | acreMpf pk memMpf memMb =>
    cases hc
    rcases acreMpf_mpf (hr (.wobj .MPF)) pk memMpf memMb with ⟨e, h⟩ | ⟨j, l', hf', ht, ha⟩
    · exact absurd h (he e)
    · obtain rfl : j = i := (List.cons.inj (hf'.symm.trans hf)).1
      have htt := congrFun ht j
      rw [Function.update_self] at htt
      have hatr : (!pk.mpfatr.has (~~~TA_TPRI)) = true := hl _ (.tail _ (.head _))
      have hcnt : pk.blkcnt ≠ 0 := bne_iff_ne.1 (hl _ (.tail _ (.tail _ (.head _))))
      have hsz : pk.blksz ≠ 0 := bne_iff_ne.1 (hl _ (.tail _ (.tail _ (.tail _ (.head _)))))
      obtain ⟨h1, h2⟩ := area_mpf hatr (pk.mpf = 0) (pk.pMpfmb = 0) 0 0
      rw [← ha] at h1 h2
      intro n hn
      rcases List.mem_append.1 hn with hn | hn
      · rw [piece_area h1, htt] at hn
        by_cases hb : pk.mpf = 0
        · rw [if_pos hb, List.mem_singleton] at hn
          have hn' := hfit (RoundUp.up (2 ^ cfg.target.mpfLog) pk.blksz * pk.blkcnt)
            (List.mem_append_right _ (by rw [if_pos hb]; exact List.mem_singleton_self _))
          rw [hn]
          exact (cfg.target.mpfSize_eq hsz hcnt hn').1 ▸ hn'
        · rw [if_neg hb] at hn
          cases hn
      · rw [piece_area h2, htt] at hn
        exact hfit n (List.mem_append_left _ hn)
  | acreTsk | acreSem | acreFlg | acreMbx | acreMtx | acreCyc | acreAlm =>
    cases hc
    exact fun n hn => absurd hn List.not_mem_nil
  | _ => cases hc

theorem settle_sizes (r : Res Kernel) (x : ObjKind) (i : Nat) : r.settle.sizes x i = r.st.sizes x i := by
  have ha := settle_alike r
  have hatr (f : WaitFactor) : r.settle.core.wobjatr (f, i) = r.st.core.wobjatr (f, i) :=
    congrFun (ha.exist (.wobj f)).2 i
  unfold Kernel.sizes
  rw [hatr, hatr, hatr, settle_eq]

theorem SizeInv.step (hv : SizeInv cfg k) (h : Reachable cfg k) (hs : SizeStep cfg k e k') :
    SizeInv cfg k' := by
  intro x i hd hi'
  by_cases hi : k.core.atr x i = TA_NOEXS
  · obtain ⟨call, rfl, hc, hl, -, hf⟩ := h.acre_of_new hs.1 hi hi'
    obtain ⟨_, hk⟩ := step_call hs.1
    rw [hk, settle_sizes]
    rcases h.acre hc with ⟨e, hx⟩ | ⟨j, l, a, -, hx, hfj, -, -, -, hal⟩
    · rw [hk, ((settle_alike (exec cfg k call)).exist x).2, hx] at hi'
      exact absurd hi hi'
    · obtain rfl : j = i := (List.cons.inj (hfj.symm.trans hf)).1
      refine exec_sizes (fun x i hi => (h.range x i hi).2) hc hl (fun e he => ?_) hf hal (hs.2 call rfl hl)
      rw [he] at hf
      exact List.cons_ne_self _ _ hf.symm
  · rw [h.sizes hs.1 hi (h.atr_same hs.1 hi hi')]
    exact hv x i hd hi

theorem SizeInv.boot (cfg : Cfg) : SizeInv cfg (boot cfg) :=
  fun x _ hd hi => absurd (boot_atr cfg x hd.1) hi

theorem areasOf_mem {a : Area} (ha : a ∈ k.areasOf cfg (x, i)) :
    cfg.dyn x i ∧ k.core.atr x i ≠ TA_NOEXS ∧ a ∈ k.allocated x i := by
  unfold Kernel.areasOf at ha
  split at ha
  · rename_i h
    exact ⟨h.1, h.2, ha⟩
  · cases ha

theorem PDQCB.Wf.used_lt {p : PDQCB} (h : p.Wf) (hj : j ∈ p.used) : j < p.pdqcnt :=
  Nat.lt_of_lt_of_le (List.mem_range.1 (h.blocks.mem_iff.1 (List.mem_append_left _ hj))) h.unused

theorem PDQCB.Wf.allocBlock_lt {p : PDQCB} (h : p.Wf) (hc : p.count < p.pdqcnt) :
    p.allocBlock.1 < p.pdqcnt := by
  obtain ⟨fs, n, he, -, -, hp, hu⟩ := PDQCB.Layout.allocBlock h hc
  rw [show p.allocBlock.1 = n from congrArg Prod.fst he]
  exact Nat.lt_of_lt_of_le (List.mem_range.1 (hp.mem_iff.1 (List.mem_cons_self ..))) hu

/-- The block that `get_mpf_block` takes. -/
theorem MPFCB.Wf.getMpfBlock {p : MPFCB} (h : p.Wf) (hb : p.blkcnt < INDEX_NULL) (hf : 0 < p.fblkcnt) :
    ∃ j < p.blkcnt, p.getMpfBlock.1 = p.blkAddr j ∧
      p.getMpfBlock.2.mb = Function.update p.mb j INDEX_ALLOC := by
  obtain ⟨fs, hl⟩ := h hb
  unfold MPFCB.getMpfBlock
  by_cases hn : p.freelist ≠ INDEX_NULL
  · obtain ⟨l, rfl⟩ := hl.first hn
    rw [if_pos hn]
    exact ⟨p.freelist, Nat.lt_of_lt_of_le ((hl.free _).1 List.mem_cons_self).1 hl.unused, rfl, rfl⟩
  · have hnil := hl.empty (not_not.1 hn)
    have hcnt := hl.fblkcnt
    rw [hnil, List.length_nil] at hcnt
    rw [if_neg hn]
    exact ⟨p.unused, by omega, rfl, rfl⟩

/-- Where the sizes of the areas do not wrap, the areas that the calls have got for their objects are as
large as all elements together, and the elements that are used next lie in them. A call gets areas that
are large enough exactly if their sizes do not wrap. -/
theorem reachable_size (h : Trans.Run (SizeStep cfg) (boot cfg) es k) :
    (∀ i, ∀ a ∈ k.areasOf cfg (.wobj .SDTQ, i), a.addr = (k.dtq i).pDtqmb ∧
      a.size.toNat = sizeofDTQMB.toNat * (k.dtq i).dtqcnt ∧
      (0 < (k.dtq i).dtqcnt → sizeofDTQMB.toNat * ((k.dtq i).tail + 1) ≤ a.size.toNat ∧
        sizeofDTQMB.toNat * ((k.dtq i).head + 1) ≤ a.size.toNat)) ∧
    (∀ i, ∀ a ∈ k.areasOf cfg (.wobj .SPDQ, i), a.addr = (k.pdq i).pPdqmb ∧
      a.size.toNat = sizeofPDQMB.toNat * (k.pdq i).pdqcnt ∧
      ((k.pdq i).count < (k.pdq i).pdqcnt →
        sizeofPDQMB.toNat * ((k.pdq i).allocBlock.1 + 1) ≤ a.size.toNat) ∧
      ∀ j ∈ (k.pdq i).used, sizeofPDQMB.toNat * (j + 1) ≤ a.size.toNat) ∧
    (∀ i, ∀ a ∈ k.areasOf cfg (.wobj .MPF, i), ∃ u,
      (a.addr = (k.mpf i).mpf ∧ u = (k.mpf i).blksz ∨ a.addr = (k.mpf i).pMpfmb ∧ u = sizeofMPFMB.toNat) ∧
      a.size.toNat = u * (k.mpf i).blkcnt ∧
      ((k.mpf i).blkcnt < INDEX_NULL → 0 < (k.mpf i).fblkcnt → ∃ j,
        (k.mpf i).getMpfBlock.1 = (k.mpf i).blkAddr j ∧
        (k.mpf i).getMpfBlock.2.mb = Function.update (k.mpf i).mb j INDEX_ALLOC ∧
        u * (j + 1) ≤ a.size.toNat)) ∧
    ∀ call x k', Step cfg k (.call call) k' → call.acre = some x → (∀ e, exec cfg k call ≠ .err k e) →
      ∃ l, k'.core.areas = l ++ k.core.areas ∧
        (List.Forall₂ (fun n a => n ≤ a.size.toNat) (call.need cfg) l ↔ call.Fits cfg) := by
  obtain ⟨hr, hv⟩ := h.along (I := Reachable cfg) (J := SizeInv cfg) (fun _ _ _ => And.left)
    (fun _ _ _ => Reachable.step) (fun _ _ _ hi hj hs => hj.step hi hs) (boot_reachable cfg) (.boot cfg)
  refine ⟨fun i a ha => ?_, fun i a ha => ?_, fun i a ha => ?_, fun call x k' hs hc he => ?_⟩
  · obtain ⟨hd, hi, ha⟩ := areasOf_mem ha
    obtain ⟨hb, rfl⟩ := mem_piece.1 ha
    have hsz : (k.dtq i).mbArea.size.toNat = _ :=
      RoundUp.toNat_mul sizeofDTQMB (by decide) (hv _ i hd hi _ (mem_piece.2 ⟨hb, rfl⟩))
    refine ⟨rfl, hsz, fun hpos => ?_⟩
    have hw : (k.dtq i).Wf := (dtq_on cfg).wf hr hi
    rw [hsz]
    refine ⟨Nat.mul_le_mul_left _ ?_, Nat.mul_le_mul_left _ (hw.head_lt hpos)⟩
    exact hw.tail ▸ Nat.mod_lt _ hpos
  · obtain ⟨hd, hi, ha⟩ := areasOf_mem ha
    obtain ⟨hb, rfl⟩ := mem_piece.1 ha
    have hsz : (k.pdq i).mbArea.size.toNat = _ :=
      RoundUp.toNat_mul sizeofPDQMB (by decide) (hv _ i hd hi _ (mem_piece.2 ⟨hb, rfl⟩))
    have hw : (k.pdq i).Wf := (pdq_on cfg).wf hr hi
    refine ⟨rfl, hsz, fun hc => ?_, fun j hj => ?_⟩
    · rw [hsz]
      exact Nat.mul_le_mul_left _ (hw.allocBlock_lt hc)
    · rw [hsz]
      exact Nat.mul_le_mul_left _ (hw.used_lt hj)
  · obtain ⟨hd, hi, ha⟩ := areasOf_mem ha
    have hw : (k.mpf i).Wf := (hr.mpfInv hi).wf
    have hsz := hv (.wobj .MPF) i hd hi
    have hget (u : Nat) (hu : a.size.toNat = u * (k.mpf i).blkcnt) (hb : (k.mpf i).blkcnt < INDEX_NULL)
        (hf : 0 < (k.mpf i).fblkcnt) : ∃ j, (k.mpf i).getMpfBlock.1 = (k.mpf i).blkAddr j ∧
        (k.mpf i).getMpfBlock.2.mb = Function.update (k.mpf i).mb j INDEX_ALLOC ∧
        u * (j + 1) ≤ a.size.toNat := by
      obtain ⟨j, hj, h1, h2⟩ := hw.getMpfBlock hb hf
      exact ⟨j, h1, h2, hu ▸ Nat.mul_le_mul_left _ hj⟩
    rcases List.mem_append.1 ha with ha | ha
    · obtain ⟨hb, rfl⟩ := mem_piece.1 ha
      have hlt := hsz _ (List.mem_append_left _ (mem_piece.2 ⟨hb, rfl⟩))
      have hs : (k.mpf i).mpfArea.size.toNat = (k.mpf i).blksz * (k.mpf i).blkcnt := by
        unfold MPFCB.mpfArea
        rw [BitVec.toNat_mul, BitVec.toNat_ofNat, BitVec.toNat_ofNat, ← Nat.mul_mod, Nat.mod_eq_of_lt hlt]
      exact ⟨_, .inl ⟨rfl, rfl⟩, hs, hget _ hs⟩
    · obtain ⟨hb, rfl⟩ := mem_piece.1 ha
      have hs : (k.mpf i).mbArea.size.toNat = _ :=
        RoundUp.toNat_mul sizeofMPFMB (by decide) (hsz _ (List.mem_append_right _ (mem_piece.2 ⟨hb, rfl⟩)))
      exact ⟨_, .inr ⟨rfl, rfl⟩, hs, hget _ hs⟩
  · rcases hr.acre hc with ⟨e, hx⟩ | ⟨i, l, a, hl, -, -, -, -, hm, -⟩
    · exact absurd hx (he e)
    · obtain ⟨_, hk⟩ := step_call hs
      have hka : (exec cfg k call).st.core.Alike k'.core := hk ▸ settle_alike _
      exact ⟨call.got cfg, congrArg Prod.fst (hka.memory.trans hm), enough_iff hl⟩

/-- A data queue of two values. -/
theorem reachable_size_queue : ∃ k,
    Step .free (boot .free) (.call (.acreDtq ⟨TA_NULL, 2, 0⟩ 0x5000)) k ∧
    k.areasOf .free (.wobj .SDTQ, 1) = [⟨0x5000, 8⟩] ∧ 4 * ((k.dtq 1).tail + 1) ≤ 8 := by
  have h : (((boot .free).step .free (.call (.acreDtq ⟨TA_NULL, 2, 0⟩ 0x5000))).any fun k =>
      decide (k.areasOf .free (.wobj .SDTQ, 1) = [⟨0x5000, 8⟩] ∧ (k.dtq 1).dtqcnt = 2)) = true := by
    decide +kernel
  obtain ⟨k, hk, h⟩ := (Option.any_eq_true _ _).1 h
  obtain ⟨hareas, hcnt⟩ := of_decide_eq_true h
  have hfirst : SizeStep .free (boot .free) (.call (.acreDtq ⟨TA_NULL, 2, 0⟩ 0x5000)) k := by
    refine ⟨hk, fun call hc _ n hn => ?_⟩
    cases hc
    obtain rfl : n = 8 := List.mem_singleton.1 hn
    decide
  obtain ⟨-, -, hpos⟩ := (reachable_size (Trans.Run.one hfirst)).1 1 ⟨0x5000, 8⟩
    (hareas ▸ List.mem_singleton_self _)
  exact ⟨k, hk, hareas, (hpos (hcnt ▸ by decide)).1⟩

/-- A size that wraps: one value has room in the area of a queue of 2^30 + 1 values. -/
example : ((Call.acreDtq ⟨TA_NULL, 0x40000001, 0⟩ 0x5000).got .free).map Area.size = [4] := by decide

end

end AspKernel
