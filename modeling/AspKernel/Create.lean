import AspKernel.Checks
import AspKernel.Exist

namespace AspKernel
set_option autoImplicit true

/-- The memory that `kernel_malloc` and `kernel_free` administer. -/
def Core.memory (c : Core) : List Area × Bool := (c.areas, c.freeOk)

/-- The areas that `kernel_malloc` returns in a call that creates an object. -/
def Call.got (cfg : Cfg) : Call → List Area
  | .acreTsk pk mem => if pk.stk = 0 then [⟨mem, cfg.target.roundStk pk.stksz⟩] else []
  | .acreDtq pk mem =>
    if pk.dtqcnt ≠ 0 ∧ pk.pDtqmb = 0 then [⟨mem, sizeofDTQMB * BitVec.ofNat 32 pk.dtqcnt⟩] else []
  | .acrePdq pk mem =>
    if pk.pdqcnt ≠ 0 ∧ pk.pPdqmb = 0 then [⟨mem, sizeofPDQMB * BitVec.ofNat 32 pk.pdqcnt⟩] else []
  | .acreMpf pk memMpf memMb =>
    (if pk.pMpfmb = 0 then [⟨memMb, sizeofMPFMB * BitVec.ofNat 32 pk.blkcnt⟩] else []) ++
    if pk.mpf = 0 then
      [⟨memMpf, BitVec.ofNat 32 (cfg.target.roundMpf pk.blksz) * BitVec.ofNat 32 pk.blkcnt⟩]
    else []
  | _ => []

/-- The areas that the deletion of an object gives back. -/
def Kernel.owned (k : Kernel) (x : ObjKind) (i : Nat) : List Addr :=
  match x with
  | .tsk => area (k.core.tcb i).tinib.tskatr TA_MEMALLOC (k.core.tcb i).tinib.stk
  | .wobj .SDTQ => area (k.core.wobjatr (.SDTQ, i)) TA_MBALLOC (k.dtq i).pDtqmb
  | .wobj .SPDQ => area (k.core.wobjatr (.SPDQ, i)) TA_MBALLOC (k.pdq i).pPdqmb
  | .wobj .MPF => area (k.core.wobjatr (.MPF, i)) TA_MEMALLOC (k.mpf i).mpf ++
      area (k.core.wobjatr (.MPF, i)) TA_MBALLOC (k.mpf i).pMpfmb
  | _ => []
where
  area (atr bit : ATR) (p : Addr) : List Addr := if atr.has bit then [p] else []

/-- What a call does that creates an object. -/
inductive Acre (cfg : Cfg) (k : Kernel) (call : Call) (x : ObjKind) : Res Kernel → Prop
  | check (hp : p ∈ call.checks cfg k.core) (hf : p.1 = false) : Acre cfg k call x (.err k p.2)
  | noid (hl : ∀ p ∈ call.checks cfg k.core, p.1 = true) (hf : k.core.freeList x = []) :
    Acre cfg k call x (.err k E_NOID)
  | nomem (hl : ∀ p ∈ call.checks cfg k.core, p.1 = true) (hf : k.core.freeList x ≠ []) :
    Acre cfg k call x (.err k E_NOMEM)
  | created (hl : ∀ p ∈ call.checks cfg k.core, p.1 = true)
    (hf : k.core.freeList x = i :: k'.core.freeList x)
    (ha : k'.core.atr x = Function.update (k.core.atr x) i a) (hA : call.attrOk → a ≠ TA_NOEXS)
    (hg : k'.core.memory = (call.got cfg ++ k.core.areas, k.core.freeOk))
    (hm : ∀ a ∈ call.got cfg, a.addr ≠ 0)
    (hw : k'.owned x i = ((call.got cfg).map Area.addr).reverse) :
    Acre cfg k call x ⟨k', some (toId i), disp, .none⟩

/-- What a call does that deletes an object. -/
inductive Del (cfg : Cfg) (k : Kernel) (call : Call) (x : ObjKind) (id : ID) : Res Kernel → Prop
  | check (hp : p ∈ call.checks cfg k.core) (hf : p.1 = false) : Del cfg k call x id (.err k p.2)
  | noexs (hn : k.core.atr x (index id) = TA_NOEXS) : Del cfg k call x id (.err k E_NOEXS)
  | obj : Del cfg k call x id (.err k E_OBJ)
  | deleted (hl : ∀ p ∈ call.checks cfg k.core, p.1 = true) (hd : cfg.dyn x (index id))
    (hn : k.core.atr x (index id) ≠ TA_NOEXS)
    (hf : k'.core.freeList x = k.core.freeList x ++ [index id])
    (ha : k'.core.atr x = Function.update (k.core.atr x) (index id) TA_NOEXS)
    (hg : k'.core.memory = ((k.owned x (index id)).foldl Core.kernelFree k.core).memory) :
    Del cfg k call x id ⟨k', some E_OK, disp, .none⟩

section
variable {cfg : Cfg} {k k' : Kernel} {x : ObjKind} {id : ID} {call : Call} {f : WaitFactor}

theorem ATR.has_or (atr : ATR) {bit : ATR} (h : bit ≠ 0) : (atr ||| bit).has bit = true := by
  have he : (atr ||| bit) &&& bit = bit := by
    ext i hi
    simp only [BitVec.getElem_and, BitVec.getElem_or]
    cases bit[i] <;> simp
  unfold ATR.has
  rw [he]
  exact bne_iff_ne.2 h

theorem ATR.has_other (atr : ATR) {a bit : ATR} (h : a &&& bit = 0) :
    (atr ||| a).has bit = atr.has bit := by
  have he : (atr ||| a) &&& bit = atr &&& bit := by
    rw [BitVec.and_comm, BitVec.and_or_distrib_left, BitVec.and_comm bit a, h, BitVec.and_comm]
    exact BitVec.or_zero
  unfold ATR.has
  rw [he]

/-- The bits that the check of an attribute excludes. -/
theorem ATR.not_has {atr mask : ATR} (bit : ATR) (h : (!atr.has (~~~mask)) = true)
    (hm : bit &&& ~~~mask = bit) : atr.has bit = false := by
  have h0 : atr &&& ~~~mask = 0 := by
    simpa only [ATR.has, Bool.not_eq_true', bne_eq_false_iff_eq] using h
  unfold ATR.has
  rw [bne_eq_false_iff_eq, ← hm, BitVec.and_comm bit, ← BitVec.and_assoc, h0]
  exact BitVec.zero_and

theorem area_ite {atr bit : ATR} {b : Prop} [Decidable b] (h : atr.has bit = false) (hb : bit ≠ 0)
    (p : Addr) : Kernel.owned.area (if b then atr ||| bit else atr) bit p = if b then [p] else [] := by
  unfold Kernel.owned.area
  split
  · rw [if_pos (ATR.has_or atr hb)]
  · rw [if_neg (by rw [h]; exact Bool.false_ne_true)]

/-- A call is either rejected by a check or gives the result of its body. -/
theorem check_map_ind {motive : Res Kernel → Prop} {l : List (Bool × ER)} {st : σ} {body : Res σ}
    {f : σ → Kernel} (hf : f st = k) (herr : ∀ p ∈ l, p.1 = false → motive (.err k p.2))
    (h : (∀ p ∈ l, p.1 = true) → motive (body.map f)) : motive ((check l st body).map f) := by
  rcases check_cases l st body with ⟨p, hp, hn, he⟩ | ⟨hl, he⟩
  · have hr : (Res.err st p.2).map f = .err k p.2 := congrArg (Res.err · p.2) hf
    rw [he, hr]
    exact herr p hp hn
  · rw [he]
    exact h hl

theorem Acre.of_check {l : List (Bool × ER)} {st : σ} {body : Res σ} {f : σ → Kernel}
    (hc : call.checks cfg k.core = l) (hf : f st = k)
    (h : (∀ p ∈ call.checks cfg k.core, p.1 = true) → Acre cfg k call x (body.map f)) :
    Acre cfg k call x ((AspKernel.check l st body).map f) :=
  check_map_ind hf (fun _ hp => .check (hc ▸ hp)) fun hl => h (hc ▸ hl)

theorem Del.of_check {l : List (Bool × ER)} {st : σ} {body : Res σ} {f : σ → Kernel}
    (hc : call.checks cfg k.core = l) (hf : f st = k)
    (h : (∀ p ∈ call.checks cfg k.core, p.1 = true) → Del cfg k call x id (body.map f)) :
    Del cfg k call x id ((AspKernel.check l st body).map f) :=
  check_map_ind hf (fun _ hp => .check (hc ▸ hp)) fun hl => h (hc ▸ hl)

theorem takeWobj_cases {c : Core} {n : ObjNum} (h : ∀ i ∈ c.freeWobj f, i < n.tmax) :
    c.takeWobj n f = none ∧ c.freeWobj f = [] ∨ ∃ i l, c.freeWobj f = i :: l ∧
      c.takeWobj n f = some (i, { c with freeWobj := Function.update c.freeWobj f l }) := by
  unfold Core.takeWobj
  split
  · rename_i hl
    exact .inl ⟨rfl, hl⟩
  · rename_i i l hl
    have hi := h i (hl ▸ List.mem_cons_self ..)
    rw [if_neg (by omega)]
    exact .inr ⟨i, l, hl, rfl⟩

/-- The creation of a wait object. -/
theorem Acre.wobj (hl : ∀ p ∈ call.checks cfg k.core, p.1 = true) (hf : k.core.freeWobj f = i :: l)
    (hl' : k'.core.freeWobj = Function.update k.core.freeWobj f l)
    (ha : k'.core.wobjatr = Function.update k.core.wobjatr (f, i) a) (hA : call.attrOk → a ≠ TA_NOEXS)
    (hg : k'.core.memory = (call.got cfg ++ k.core.areas, k.core.freeOk))
    (hm : ∀ a ∈ call.got cfg, a.addr ≠ 0)
    (hw : k'.owned (.wobj f) i = ((call.got cfg).map Area.addr).reverse) :
    Acre cfg k call (.wobj f) ⟨k', some (toId i), disp, .none⟩ := by
  refine .created hl ?_ (atr_wobj ha) hA hg hm hw
  change k.core.freeWobj f = i :: k'.core.freeWobj f
  rw [hl', Function.update_self, hf]

theorem ATR.ne_noexs_self {atr mask : ATR} (h : (!atr.has (~~~mask)) = true)
    (hm : mask ≠ TA_NOEXS) : atr ≠ TA_NOEXS := by
  have h0 := ne_noexs 0#32 h (by rwa [BitVec.or_zero])
  rwa [BitVec.or_zero] at h0

theorem acre_sem (h : ∀ i ∈ k.core.freeWobj .SEM, i < cfg.sem.tmax) (pk : SEMINIB) :
    Acre cfg k (.acreSem pk) (.wobj .SEM) (exec cfg k (.acreSem pk)) := by
  unfold exec
  refine .of_check rfl rfl fun hl => ?_
  simp only
  rcases takeWobj_cases h with ⟨ht, hf⟩ | ⟨i, l, hf, ht⟩
  · rw [ht]
    exact .noid hl hf
  · rw [ht]
    exact .wobj hl hf rfl rfl
      (fun _ => ATR.ne_noexs_self (hl _ (.tail _ (.head _))) (by decide)) rfl nofun rfl

theorem acre_flg (h : ∀ i ∈ k.core.freeWobj .FLG, i < cfg.flg.tmax) (pk : FLGINIB) :
    Acre cfg k (.acreFlg pk) (.wobj .FLG) (exec cfg k (.acreFlg pk)) := by
  unfold exec
  refine .of_check rfl rfl fun hl => ?_
  simp only
  rcases takeWobj_cases h with ⟨ht, hf⟩ | ⟨i, l, hf, ht⟩
  · rw [ht]
    exact .noid hl hf
  · rw [ht]
    exact .wobj hl hf rfl rfl
      (fun _ => ATR.ne_noexs_self (hl _ (.tail _ (.head _))) (by decide)) rfl nofun rfl

theorem acre_mbx (h : ∀ i ∈ k.core.freeWobj .MBX, i < cfg.mbx.tmax) (pk : MBXINIB) (mprihd : Addr) :
    Acre cfg k (.acreMbx pk mprihd) (.wobj .MBX) (exec cfg k (.acreMbx pk mprihd)) := by
  unfold exec
  refine .of_check rfl rfl fun hl => ?_
  simp only
  rcases takeWobj_cases h with ⟨ht, hf⟩ | ⟨i, l, hf, ht⟩
  · rw [ht]
    exact .noid hl hf
  · rw [ht]
    exact .wobj hl hf rfl rfl
      (fun _ => ATR.ne_noexs_self (hl _ (.tail _ (.head _))) (by decide)) rfl nofun rfl

theorem acre_mtx (h : ∀ i ∈ k.core.freeWobj .MTX, i < cfg.mtx.tmax) (mtxatr : ATR) (ceilpri : PRI) :
    Acre cfg k (.acreMtx mtxatr ceilpri) (.wobj .MTX) (exec cfg k (.acreMtx mtxatr ceilpri)) := by
  unfold exec
  refine .of_check rfl rfl fun hl => ?_
  simp only
  rcases takeWobj_cases h with ⟨ht, hf⟩ | ⟨i, l, hf, ht⟩
  · rw [ht]
    exact .noid hl hf
  · rw [ht]
    exact .wobj hl hf rfl rfl id rfl nofun rfl

/-- The memory after an allocation for a new object. -/
theorem malloc_memory (c : Core) (b : Prop) [Decidable b] (size : BitVec 32) (mem : Addr)
    (hm : b → mem ≠ 0) : (if b then c.kernelMalloc size mem else c).memory =
      ((if b then [⟨mem, size⟩] else []) ++ c.areas, c.freeOk) := by
  by_cases hb : b
  · rw [if_pos hb, if_pos hb]
    unfold Core.kernelMalloc
    rw [if_neg (hm hb)]
    rfl
  · rw [if_neg hb, if_neg hb]
    rfl

theorem got_ne_zero {b : Prop} [Decidable b] {mem : Addr} {size : BitVec 32} (hm : b → mem ≠ 0) :
    ∀ a ∈ (if b then [(⟨mem, size⟩ : Area)] else []), a.addr ≠ 0 := by
  split
  · rename_i hb
    exact fun a ha => List.mem_singleton.1 ha ▸ hm hb
  · exact nofun

/-- The creation of a wait object whose area is allocated where the call gives none. -/
theorem Acre.area {b : Prop} [Decidable b] {atr mask : ATR} {mem p : Addr} {size : BitVec 32}
    (hl : ∀ p ∈ call.checks cfg k.core, p.1 = true) (hf : k.core.freeWobj f = i :: l)
    (hatr : (!atr.has (~~~mask)) = true) (hmask : TA_MBALLOC &&& ~~~mask = TA_MBALLOC)
    (hne : mask ||| TA_MBALLOC ≠ TA_NOEXS ∧ mask ≠ TA_NOEXS)
    (hgot : call.got cfg = if b then [⟨mem, size⟩] else []) (hm : b → mem ≠ 0)
    (hc : X = if b then Core.kernelMalloc { k.core with freeWobj := Function.update k.core.freeWobj f l }
      size mem else { k.core with freeWobj := Function.update k.core.freeWobj f l })
    (hl' : k'.core.freeWobj = X.freeWobj) (ha : k'.core.wobjatr = Function.update X.wobjatr (f, i)
      (if b then atr ||| TA_MBALLOC else atr)) (hmem : k'.core.memory = X.memory)
    (hw : k'.owned (.wobj f) i = Kernel.owned.area (k'.core.wobjatr (f, i)) TA_MBALLOC q)
    (hq : q = if b then mem else p) :
    Acre cfg k call (.wobj f) ⟨k', some (toId i), disp, .none⟩ := by
  have hmal := malloc_memory { k.core with freeWobj := Function.update k.core.freeWobj f l } b size
    mem hm
  rw [← hc] at hmal
  obtain ⟨areas, he⟩ := malloc_eq { k.core with freeWobj := Function.update k.core.freeWobj f l } b
    size mem
  rw [← hc] at he
  refine .wobj hl hf (hl'.trans (by rw [he])) (ha.trans (by rw [he])) (fun _ => ?_) ?_ ?_ ?_
  · exact ATR.ne_noexs_ite _ hatr hne.1 hne.2
  · rw [hmem, hmal, hgot]
  · rw [hgot]
    exact got_ne_zero hm
  · rw [hw, hq, ha, Function.update_self, area_ite (ATR.not_has _ hatr hmask) (by decide), hgot]
    split <;> rfl

theorem freeList_ne {c : Core} (h : c.freeList x = i :: l) : c.freeList x ≠ [] := by
  rw [h]
  exact List.cons_ne_nil i l

theorem acre_dtq (h : ∀ i ∈ k.core.freeWobj .SDTQ, i < cfg.dtq.tmax) (pk : DTQINIB) (mem : Addr) :
    Acre cfg k (.acreDtq pk mem) (.wobj .SDTQ) (exec cfg k (.acreDtq pk mem)) := by
  unfold exec
  refine .of_check rfl rfl fun hl => ?_
  have hatr : (!pk.dtqatr.has (~~~TA_TPRI)) = true := hl _ (.tail _ (.head _))
  simp only
  rcases takeWobj_cases h with ⟨ht, hf⟩ | ⟨i, l, hf, ht⟩
  · rw [ht]
    exact .noid hl hf
  · rw [ht]
    simp only
    by_cases hn : pk.dtqcnt ≠ 0 ∧ (if pk.dtqcnt ≠ 0 ∧ pk.pDtqmb = 0 then mem else pk.pDtqmb) = 0
    · rw [if_pos hn]
      exact .nomem hl (freeList_ne (x := .wobj .SDTQ) hf)
    · rw [if_neg hn]
      refine .area hl hf hatr (by decide) (by decide) rfl (fun hb hz => ?_) rfl rfl rfl rfl
        rfl (congrArg DTQCB.pDtqmb (Function.update_self i _ k.dtq))
      rw [if_pos hb] at hn
      exact hn ⟨hb.1, hz⟩

theorem acre_pdq (h : ∀ i ∈ k.core.freeWobj .SPDQ, i < cfg.pdq.tmax) (pk : PDQINIB) (mem : Addr) :
    Acre cfg k (.acrePdq pk mem) (.wobj .SPDQ) (exec cfg k (.acrePdq pk mem)) := by
  unfold exec
  refine .of_check rfl rfl fun hl => ?_
  have hatr : (!pk.pdqatr.has (~~~TA_TPRI)) = true := hl _ (.tail _ (.head _))
  simp only
  rcases takeWobj_cases h with ⟨ht, hf⟩ | ⟨i, l, hf, ht⟩
  · rw [ht]
    exact .noid hl hf
  · rw [ht]
    simp only
    by_cases hn : pk.pdqcnt ≠ 0 ∧ (if pk.pdqcnt ≠ 0 ∧ pk.pPdqmb = 0 then mem else pk.pPdqmb) = 0
    · rw [if_pos hn]
      exact .nomem hl (freeList_ne (x := .wobj .SPDQ) hf)
    · rw [if_neg hn]
      refine .area hl hf hatr (by decide) (by decide) rfl (fun hb hz => ?_) rfl rfl rfl rfl
        rfl (congrArg PDQCB.pPdqmb (Function.update_self i _ k.pdq))
      rw [if_pos hb] at hn
      exact hn ⟨hb.1, hz⟩

theorem malloc_free (c : Core) (size : BitVec 32) {mem : Addr} (hm : mem ≠ 0) :
    (c.kernelMalloc size mem).kernelFree mem = c := by
  unfold Core.kernelMalloc Core.kernelFree
  rw [if_neg hm]
  simp only [List.eraseP_cons_of_pos, List.any_cons, beq_self_eq_true, Bool.true_or, Bool.and_true]

/-- The memory after the allocation of the two areas of a pool. -/
theorem malloc2_memory (c : Core) (b b' : Prop) [Decidable b] [Decidable b'] (size size' : BitVec 32)
    {mem mem' : Addr} (hm : b → mem ≠ 0) (hm' : b' → mem' ≠ 0) :
    ∃ l, (let c1 := if b then c.kernelMalloc size mem else c
      if b' then c1.kernelMalloc size' mem' else c1) = { c with areas := l } ∧
      l = (if b' then [⟨mem', size'⟩] else []) ++ (if b then [⟨mem, size⟩] else []) ++ c.areas := by
  have h1 := malloc_memory c b size mem hm
  obtain ⟨l, he⟩ := malloc_eq c b size mem
  have h2 := malloc_memory { c with areas := l } b' size' mem' hm'
  obtain ⟨l', he'⟩ := malloc_eq { c with areas := l } b' size' mem'
  rw [he] at h1 ⊢
  rw [he'] at h2
  refine ⟨l', he', ?_⟩
  rw [show l' = _ from congrArg Prod.fst h2, show l = _ from congrArg Prod.fst h1, List.append_assoc]

/-- The attribute of a new pool says which of its areas have been allocated. -/
theorem area_mpf {atr : ATR} (h : (!atr.has (~~~TA_TPRI)) = true) (b b' : Prop) [Decidable b]
    [Decidable b'] (p q : Addr) :
    Kernel.owned.area (if b' then (if b then atr ||| TA_MEMALLOC else atr) ||| TA_MBALLOC
      else if b then atr ||| TA_MEMALLOC else atr) TA_MEMALLOC p = (if b then [p] else []) ∧
    Kernel.owned.area (if b' then (if b then atr ||| TA_MEMALLOC else atr) ||| TA_MBALLOC
      else if b then atr ||| TA_MEMALLOC else atr) TA_MBALLOC q = if b' then [q] else [] := by
  have hmem : (if b then atr ||| TA_MEMALLOC else atr).has TA_MBALLOC = false := by
    have ha : atr.has TA_MBALLOC = false := ATR.not_has _ h (by decide)
    split
    · rw [ATR.has_other atr (by decide), ha]
    · exact ha
  refine ⟨?_, area_ite hmem (by decide) q⟩
  rw [← area_ite (ATR.not_has TA_MEMALLOC h (by decide)) (by decide) p]
  split
  · unfold Kernel.owned.area
    rw [ATR.has_other _ (by decide)]
  · rfl

theorem acre_mpf (h : ∀ i ∈ k.core.freeWobj .MPF, i < cfg.mpf.tmax) (pk : MPFINIB)
    (memMpf memMb : Addr) :
    Acre cfg k (.acreMpf pk memMpf memMb) (.wobj .MPF) (exec cfg k (.acreMpf pk memMpf memMb)) := by
  unfold exec
  refine .of_check rfl rfl fun hl => ?_
  have hatr : (!pk.mpfatr.has (~~~TA_TPRI)) = true := hl _ (.tail _ (.head _))
  simp only
  rcases takeWobj_cases h with ⟨ht, hf⟩ | ⟨i, l, hf, ht⟩
  · rw [ht]
    exact .noid hl hf
  · rw [ht]
    simp only
    by_cases hn : (if pk.mpf = 0 then memMpf else pk.mpf) = 0
    · rw [if_pos hn]
      exact .nomem hl (freeList_ne (x := .wobj .MPF) hf)
    · rw [if_neg hn]
      have hm1 : pk.mpf = 0 → memMpf ≠ 0 := fun hb hz => hn ((if_pos hb).trans hz)
      by_cases hn2 : (if pk.pMpfmb = 0 then memMb else pk.pMpfmb) = 0
      · rw [if_pos hn2]
        by_cases hb : pk.mpf = 0
        · rw [if_pos hb, if_pos hb, if_pos hb, malloc_free _ _ (hm1 hb)]
          exact .nomem hl (freeList_ne (x := .wobj .MPF) hf)
        · rw [if_neg hb, if_neg hb]
          exact .nomem hl (freeList_ne (x := .wobj .MPF) hf)
      · rw [if_neg hn2]
        have hm2 : pk.pMpfmb = 0 → memMb ≠ 0 := fun hb hz => hn2 ((if_pos hb).trans hz)
        have hown := area_mpf hatr (pk.mpf = 0) (pk.pMpfmb = 0)
          (if pk.mpf = 0 then memMpf else pk.mpf) (if pk.pMpfmb = 0 then memMb else pk.pMpfmb)
        have ha := mpfatr_ne hatr (pk.mpf = 0) (pk.pMpfmb = 0)
        obtain ⟨areas, hc, hareas⟩ := malloc2_memory
          { k.core with freeWobj := Function.update k.core.freeWobj .MPF l } (pk.mpf = 0)
          (pk.pMpfmb = 0) (BitVec.ofNat 32 (cfg.target.roundMpf pk.blksz) * BitVec.ofNat 32 pk.blkcnt)
          (sizeofMPFMB * BitVec.ofNat 32 pk.blkcnt) hm1 hm2
        simp only at hc
        rw [hc]
        refine .wobj hl hf rfl rfl (fun _ => ha) ?_ ?_ ?_
        · exact congrArg (·, k.core.freeOk) hareas
        · exact fun a ha => (List.mem_append.1 ha).elim (got_ne_zero hm2 a) (got_ne_zero hm1 a)
        · refine Eq.trans (b := Kernel.owned.area (Function.update k.core.wobjatr (.MPF, i) _ (.MPF, i))
            TA_MEMALLOC (Function.update k.mpf i _ i).mpf ++ Kernel.owned.area
            (Function.update k.core.wobjatr (.MPF, i) _ (.MPF, i)) TA_MBALLOC
            (Function.update k.mpf i _ i).pMpfmb) rfl ?_
          rw [Function.update_self, Function.update_self, hown.1, hown.2]
          simp only [Call.got]
          split <;> split <;> rfl

theorem takeTcb_cases (c : Core) : c.takeTcb = none ∧ c.freeTcb = [] ∨
    ∃ t l, c.freeTcb = t :: l ∧ c.takeTcb = some (t, { c with freeTcb := l }) := by
  unfold Core.takeTcb
  split
  · rename_i hl
    exact .inl ⟨rfl, hl⟩
  · rename_i t l hl
    exact .inr ⟨t, l, hl, rfl⟩

theorem initTcb_tinib (c : Core) (t : Nat) (tinib : TINIB) :
    (fun u => ((c.initTcb t tinib).tcb u).tinib) =
      Function.update (fun u => (c.tcb u).tinib) t tinib := by
  unfold Core.initTcb Core.makeDormant Core.setTcb
  simp only [Function.update_idem, Function.update_self]
  exact Function.comp_update TCB.tinib c.tcb t _

/-- What the activation of a new task leaves as it is. -/
theorem activate_new (c : Core) (b : Bool) (t : Nat) :
    let c' := (if b then c.makeActive t else (c, false)).1
    c'.freeTcb = c.freeTcb ∧ c'.memory = c.memory ∧
      (fun u => (c'.tcb u).tinib) = fun u => (c.tcb u).tinib := by
  cases b with
  | false => exact ⟨rfl, rfl, rfl⟩
  | true =>
    refine ⟨rfl, rfl, ?_⟩
    exact (Function.comp_update TCB.tinib c.tcb t _).trans (Function.update_eq_self t _)

theorem acre_tsk (pk : T_CTSK) (mem : Addr) :
    Acre cfg k (.acreTsk pk mem) .tsk (exec cfg k (.acreTsk pk mem)) := by
  unfold exec
  refine .of_check rfl rfl fun hl => ?_
  have hatr : (!pk.tskatr.has (~~~(TA_ACT ||| TARGET_TSKATR))) = true := hl _ (.tail _ (.head _))
  rcases takeTcb_cases k.core with ⟨ht, hf⟩ | ⟨t, l, hf, ht⟩
  · rw [ht]
    exact .noid hl hf
  · rw [ht]
    simp only
    by_cases hn : (if pk.stk = 0 then mem else pk.stk) = 0
    · rw [if_pos hn]
      exact .nomem hl (freeList_ne (x := .tsk) hf)
    · rw [if_neg hn]
      have hm : pk.stk = 0 → mem ≠ 0 := fun hb hz => hn ((if_pos hb).trans hz)
      have hne := ATR.ne_noexs_ite TA_MEMALLOC (b := pk.stk = 0) hatr (by decide)
        (by decide)
      have hown := area_ite (b := pk.stk = 0) (ATR.not_has TA_MEMALLOC hatr (by decide))
        (by decide) (if pk.stk = 0 then mem else pk.stk)
      have hmal := malloc_memory { k.core with freeTcb := l } (pk.stk = 0)
        (if pk.stk = 0 then cfg.target.roundStk pk.stksz else pk.stksz) mem hm
      obtain ⟨areas, hc⟩ := malloc_eq { k.core with freeTcb := l } (pk.stk = 0)
        (if pk.stk = 0 then cfg.target.roundStk pk.stksz else pk.stksz) mem
      rw [hc] at hmal ⊢
      generalize hat : (if pk.stk = 0 then pk.tskatr ||| TA_MEMALLOC else pk.tskatr) = atr at hne hown ⊢
      have hi := initTcb_tinib { k.core with freeTcb := l, areas := areas } t ⟨atr,
        intPriority pk.itskpri, false, if pk.stk = 0 then cfg.target.roundStk pk.stksz else pk.stksz,
        if pk.stk = 0 then mem else pk.stk⟩
      obtain ⟨h1, h2, h3⟩ := activate_new (Core.initTcb { k.core with freeTcb := l, areas := areas } t
        ⟨atr, intPriority pk.itskpri, false,
          if pk.stk = 0 then cfg.target.roundStk pk.stksz else pk.stksz,
          if pk.stk = 0 then mem else pk.stk⟩) (atr.has TA_ACT) t
      have hti := h3.trans hi
      refine .created hl (i := t) (a := atr) (hf.trans (congrArg (t :: ·) h1.symm)) ?_
        (fun _ => hne) ((h2.trans hmal).trans ?_) ?_ ?_
      · exact (congrArg (fun g u => TINIB.tskatr (g u)) hti).trans
          (Function.comp_update TINIB.tskatr _ t _)
      · refine congrArg (· ++ k.core.areas, k.core.freeOk) ?_
        simp only [Call.got]
        split <;> rfl
      · exact got_ne_zero hm
      · have ht := congrFun hti t
        rw [Function.update_self] at ht
        refine (congrArg (fun p : TINIB => Kernel.owned.area p.tskatr TA_MEMALLOC p.stk) ht).trans
          (hown.trans ?_)
        simp only [Call.got]
        split <;> rfl

theorem acre_cyc (h : ∀ i ∈ k.core.freeCyccb, i < cfg.cyc.tmax) (pk : CYCINIB) (cychdr : Addr) :
    Acre cfg k (.acreCyc pk cychdr) .cyc (exec cfg k (.acreCyc pk cychdr)) := by
  unfold exec
  refine .of_check rfl rfl fun hl => ?_
  have hatr : (!pk.cycatr.has (~~~TA_STA)) = true := hl _ (.tail _ (.head _))
  split
  · rename_i hf
    exact .noid hl hf
  · rename_i i l hf
    have hi := h i (hf ▸ List.mem_cons_self ..)
    rw [if_neg (by omega)]
    have hne : pk.cycatr ≠ TA_NOEXS := ATR.ne_noexs_self hatr (by decide)
    let p : CYCCB :=
      ⟨pk.cycatr, pk.cyctim, pk.cycphs, pk.cycatr.has TA_STA, (k.core.cyccb i).evttim⟩
    have ha : (Core.setCyc { k.core with freeCyccb := l } i p).atr .cyc = _ :=
      atr_cyc { k.core with freeCyccb := l } i p rfl
    simp only
    split
    · exact .created hl hf ((enqueueCyc_atr ..).trans ha) (fun _ => hne) rfl nofun rfl
    · exact .created hl hf ha (fun _ => hne) rfl nofun rfl

theorem acre_alm (h : ∀ i ∈ k.core.freeAlmcb, i < cfg.alm.tmax) (almatr : ATR) (almhdr : Addr) :
    Acre cfg k (.acreAlm almatr almhdr) .alm (exec cfg k (.acreAlm almatr almhdr)) := by
  unfold exec
  refine .of_check rfl rfl fun hl => ?_
  have hatr : (!almatr.has (~~~TA_NULL)) = true := hl _ (.tail _ (.head _))
  split
  · rename_i hf
    exact .noid hl hf
  · rename_i i l hf
    have hi := h i (hf ▸ List.mem_cons_self ..)
    rw [if_neg (by omega)]
    exact .created hl hf (atr_alm { k.core with freeAlmcb := l } i ⟨almatr, false⟩ rfl)
      (fun _ => ATR.ne_noexs_self hatr (by decide)) rfl nofun rfl

/-- What the calls that create an object do. -/
theorem exec_acre (k : Kernel) (hr : ∀ x, ∀ i ∈ k.core.freeList x, i < (cfg.num x).tmax)
    (h : call.acre = some x) : Acre cfg k call x (exec cfg k call) := by
  cases call with
  | acreTsk pk mem => cases h; exact acre_tsk pk mem
  | acreSem pk => cases h; exact acre_sem (hr (.wobj .SEM)) pk
  | acreFlg pk => cases h; exact acre_flg (hr (.wobj .FLG)) pk
  | acreDtq pk mem => cases h; exact acre_dtq (hr (.wobj .SDTQ)) pk mem
  | acrePdq pk mem => cases h; exact acre_pdq (hr (.wobj .SPDQ)) pk mem
  | acreMbx pk mprihd => cases h; exact acre_mbx (hr (.wobj .MBX)) pk mprihd
  | acreMpf pk memMpf memMb => cases h; exact acre_mpf (hr (.wobj .MPF)) pk memMpf memMb
  | acreMtx mtxatr ceilpri => cases h; exact acre_mtx (hr (.wobj .MTX)) mtxatr ceilpri
  | acreCyc pk cychdr => cases h; exact acre_cyc (hr .cyc) pk cychdr
  | acreAlm almatr almhdr => cases h; exact acre_alm (hr .alm) almatr almhdr
  | _ => cases h

theorem Core.Local.memory {c c' : Core} (h : c.Local c') : c'.memory = c.memory := by
  obtain ⟨_, _, _, _, rfl⟩ := h
  rfl

theorem kernelFree_memory {c c' : Core} (h : c'.memory = c.memory) (p : Addr) :
    (c'.kernelFree p).memory = (c.kernelFree p).memory := by
  have h1 : c'.areas = c.areas := congrArg Prod.fst h
  have h2 : c'.freeOk = c.freeOk := congrArg Prod.snd h
  unfold Core.memory Core.kernelFree
  rw [h1, h2]

/-- An area that has been allocated for an object is given back. -/
theorem free_memory {c c' : Core} (h : c'.memory = c.memory) (atr bit : ATR) (p : Addr) :
    (if atr.has bit then c'.kernelFree p else c').memory =
      ((Kernel.owned.area atr bit p).foldl Core.kernelFree c).memory := by
  unfold Kernel.owned.area
  split
  · exact kernelFree_memory h p
  · exact h

/-- The deletion of a wait object, after its wait queues have been emptied. -/
theorem Del.wobj {c1 : Core} (hl : ∀ p ∈ call.checks cfg k.core, p.1 = true)
    (hd : cfg.dyn (.wobj f) (index id)) (hn : ¬k.core.noWobj (f, index id) = true)
    (hi : c1.ids = k.core.ids) (hc : k'.core = c1.freeWobjcb (f, index id))
    (hg : c1.memory = ((k.owned (.wobj f) (index id)).foldl Core.kernelFree k.core).memory) :
    Del cfg k call (.wobj f) id ⟨k', some E_OK, disp, .none⟩ := by
  simp only [Core.ids, Prod.mk.injEq] at hi
  refine .deleted hl hd (fun he => hn (beq_iff_eq.2 he)) ?_ ?_ ?_
  · rw [hc]
    exact (Function.update_self ..).trans (congrArg (· f ++ [index id]) hi.2.2.1)
  · rw [hc]
    refine (atr_wobj (c := c1) rfl).trans ?_
    unfold Core.atr
    rw [hi.2.1]
  · rw [hc]
    exact hg

theorem free_ids (c : Core) (b : Prop) [Decidable b] (p : Addr) :
    Core.ids (if b then c.kernelFree p else c) = c.ids := by
  split <;> rfl

theorem del_sem : Del cfg k (.delSem id) (.wobj .SEM) id (exec cfg k (.delSem id)) := by
  unfold exec
  refine .of_check rfl rfl fun hl => ?_
  simp only
  split
  · rename_i hn
    exact .noexs (beq_iff_eq.1 hn)
  · rename_i hn
    split
    · rename_i hd
      have hq := local_initWaitQueue k.core (.SEM, index id)
      exact .wobj hl (dynamic_range (hl _ (.tail _ (.head _))) hd) hn hq.ids rfl hq.memory
    · exact .obj

theorem del_flg : Del cfg k (.delFlg id) (.wobj .FLG) id (exec cfg k (.delFlg id)) := by
  unfold exec
  refine .of_check rfl rfl fun hl => ?_
  simp only
  split
  · rename_i hn
    exact .noexs (beq_iff_eq.1 hn)
  · rename_i hn
    split
    · rename_i hd
      have hq := local_initWaitQueue k.core (.FLG, index id)
      exact .wobj hl (dynamic_range (hl _ (.tail _ (.head _))) hd) hn hq.ids rfl hq.memory
    · exact .obj

theorem del_mbx : Del cfg k (.delMbx id) (.wobj .MBX) id (exec cfg k (.delMbx id)) := by
  unfold exec
  refine .of_check rfl rfl fun hl => ?_
  simp only
  split
  · rename_i hn
    exact .noexs (beq_iff_eq.1 hn)
  · rename_i hn
    split
    · rename_i hd
      have hq := local_initWaitQueue k.core (.MBX, index id)
      exact .wobj hl (dynamic_range (hl _ (.tail _ (.head _))) hd) hn hq.ids rfl hq.memory
    · exact .obj

theorem del_mtx : Del cfg k (.delMtx id) (.wobj .MTX) id (exec cfg k (.delMtx id)) := by
  unfold exec
  refine .of_check rfl rfl fun hl => ?_
  simp only
  split
  · rename_i hn
    exact .noexs (beq_iff_eq.1 hn)
  · rename_i hn
    split
    · rename_i hd
      have hq := local_initWaitQueue k.core (.MTX, index id)
      exact .wobj hl (dynamic_range (hl _ (.tail _ (.head _))) hd) hn hq.ids rfl hq.memory
    · exact .obj

theorem del_dtq : Del cfg k (.delDtq id) (.wobj .SDTQ) id (exec cfg k (.delDtq id)) := by
  unfold exec
  refine .of_check rfl rfl fun hl => ?_
  simp only
  split
  · rename_i hn
    exact .noexs (beq_iff_eq.1 hn)
  · rename_i hn
    split
    · rename_i hd
      have hq := (local_initWaitQueue k.core (.SDTQ, index id)).trans
        (local_initWaitQueue _ (.RDTQ, index id))
      exact .wobj hl (dynamic_range (hl _ (.tail _ (.head _))) hd) hn ((free_ids ..).trans hq.ids) rfl
        (free_memory hq.memory ..)
    · exact .obj

theorem del_pdq : Del cfg k (.delPdq id) (.wobj .SPDQ) id (exec cfg k (.delPdq id)) := by
  unfold exec
  refine .of_check rfl rfl fun hl => ?_
  simp only
  split
  · rename_i hn
    exact .noexs (beq_iff_eq.1 hn)
  · rename_i hn
    split
    · rename_i hd
      have hq := (local_initWaitQueue k.core (.SPDQ, index id)).trans
        (local_initWaitQueue _ (.RPDQ, index id))
      exact .wobj hl (dynamic_range (hl _ (.tail _ (.head _))) hd) hn ((free_ids ..).trans hq.ids) rfl
        (free_memory hq.memory ..)
    · exact .obj

theorem del_mpf : Del cfg k (.delMpf id) (.wobj .MPF) id (exec cfg k (.delMpf id)) := by
  unfold exec
  refine .of_check rfl rfl fun hl => ?_
  simp only
  split
  · rename_i hn
    exact .noexs (beq_iff_eq.1 hn)
  · rename_i hn
    split
    · rename_i hd
      have hq := local_initWaitQueue k.core (.MPF, index id)
      refine .wobj hl (dynamic_range (hl _ (.tail _ (.head _))) hd) hn
        (((free_ids ..).trans (free_ids ..)).trans hq.ids) rfl ?_
      refine (free_memory (free_memory hq.memory ..) ..).trans ?_
      exact congrArg Core.memory (List.foldl_append ..).symm
    · exact .obj

theorem del_tsk : Del cfg k (.delTsk id) .tsk id (exec cfg k (.delTsk id)) := by
  unfold exec
  refine .of_check rfl rfl fun hl => ?_
  simp only
  split
  · rename_i hn
    exact .noexs (beq_iff_eq.1 hn)
  · rename_i hn
    split
    · rename_i hd
      have hmem := free_memory (c := k.core) rfl (k.core.tcb (index id)).tinib.tskatr TA_MEMALLOC
        (k.core.tcb (index id)).tinib.stk
      obtain ⟨l, ok, he⟩ := free_eq k.core
        ((k.core.tcb (index id)).tinib.tskatr.has TA_MEMALLOC = true) (k.core.tcb (index id)).tinib.stk
      rw [he] at hmem ⊢
      exact .deleted hl (dynamic_range (hl _ (.tail _ (.head _))) hd.1) (fun h => hn (beq_iff_eq.2 h))
        rfl (atr_tsk k.core (index id) { k.core.tcb (index id) with
          tinib := { (k.core.tcb (index id)).tinib with tskatr := TA_NOEXS } } rfl) hmem
    · exact .obj

theorem stopCyc_atr (c : Core) (i : Nat) : (c.stopCyc i).atr .cyc = c.atr .cyc := by
  unfold Core.stopCyc
  split
  · exact (atr_cyc c i { c.cyccb i with cycsta := false } rfl).trans
      (Function.update_eq_self i (c.atr .cyc))
  · rfl

theorem stopAlm_atr (c : Core) (i : Nat) : (c.stopAlm i).atr .alm = c.atr .alm := by
  unfold Core.stopAlm
  split
  · exact (atr_alm c i { c.almcb i with almsta := false } rfl).trans
      (Function.update_eq_self i (c.atr .alm))
  · rfl

theorem del_cyc : Del cfg k (.delCyc id) .cyc id (exec cfg k (.delCyc id)) := by
  unfold exec
  refine .of_check rfl rfl fun hl => ?_
  simp only
  split
  · rename_i hn
    exact .noexs (beq_iff_eq.1 hn)
  · rename_i hn
    split
    · rename_i hd
      have hf : (k.core.stopCyc (index id)).freeCyccb = k.core.freeCyccb ∧
          (k.core.stopCyc (index id)).memory = k.core.memory := by
        unfold Core.stopCyc
        split <;> exact ⟨rfl, rfl⟩
      refine .deleted hl (dynamic_range (hl _ (.tail _ (.head _))) hd) (fun h => hn (beq_iff_eq.2 h))
        (congrArg (· ++ [index id]) hf.1) ?_ hf.2
      rw [← stopCyc_atr k.core (index id)]
      exact atr_cyc (k.core.stopCyc (index id)) (index id)
        { (k.core.stopCyc (index id)).cyccb (index id) with cycatr := TA_NOEXS } rfl
    · exact .obj

theorem del_alm : Del cfg k (.delAlm id) .alm id (exec cfg k (.delAlm id)) := by
  unfold exec
  refine .of_check rfl rfl fun hl => ?_
  simp only
  split
  · rename_i hn
    exact .noexs (beq_iff_eq.1 hn)
  · rename_i hn
    split
    · rename_i hd
      have hf : (k.core.stopAlm (index id)).freeAlmcb = k.core.freeAlmcb ∧
          (k.core.stopAlm (index id)).memory = k.core.memory := by
        unfold Core.stopAlm
        split <;> exact ⟨rfl, rfl⟩
      refine .deleted hl (dynamic_range (hl _ (.tail _ (.head _))) hd) (fun h => hn (beq_iff_eq.2 h))
        (congrArg (· ++ [index id]) hf.1) ?_ hf.2
      rw [← stopAlm_atr k.core (index id)]
      exact atr_alm (k.core.stopAlm (index id)) (index id)
        { (k.core.stopAlm (index id)).almcb (index id) with almatr := TA_NOEXS } rfl
    · exact .obj

/-- What the calls that delete an object do. -/
theorem exec_del (cfg : Cfg) (k : Kernel) (h : call.del = some (x, id)) : Del cfg k call x id (exec cfg k call) := by
  cases call with
  | delTsk _ => cases h; exact del_tsk
  | delSem _ => cases h; exact del_sem
  | delFlg _ => cases h; exact del_flg
  | delDtq _ => cases h; exact del_dtq
  | delPdq _ => cases h; exact del_pdq
  | delMbx _ => cases h; exact del_mbx
  | delMpf _ => cases h; exact del_mpf
  | delMtx _ => cases h; exact del_mtx
  | delCyc _ => cases h; exact del_cyc
  | delAlm _ => cases h; exact del_alm
  | _ => cases h

end

end AspKernel
