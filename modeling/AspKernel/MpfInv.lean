import AspKernel.Serve
import AspKernel.Lib.Chain

/-! Fixed memory pools. -/

namespace AspKernel
set_option autoImplicit true

open Chain (Chained)
open scoped List

namespace MPFCB

/-- What an entry of the table says: the next free block, or the end of the list. -/
def link (j : Nat) : Option Nat := if j = INDEX_NULL then none else some j

def next (p : MPFCB) (j : Nat) : Option Nat := link (p.mb j)

/-- The area and its table lie in the address space, and the block numbers differ from the marks. -/
structure Area (p : MPFCB) : Prop where
  blksz_pos : 0 < p.blksz
  blkcnt_lt : p.blkcnt < INDEX_NULL
  fits : p.mpf.toNat + p.blksz * p.blkcnt ≤ 2 ^ 32
  table : p.pMpfmb.toNat + sizeofMPFMB.toNat * p.blkcnt ≤ 2 ^ 32

/-- What is given by the creation of a pool. -/
def shape (p : MPFCB) := (p.blkcnt, p.blksz, p.mpf, p.pMpfmb)

theorem Area.of_shape {p p' : MPFCB} (h : p.Area) (hs : p'.shape = p.shape) : p'.Area := by
  unfold shape at hs
  simp only [Prod.mk.injEq] at hs
  obtain ⟨h1, h2, h3, h4⟩ := hs
  exact ⟨h2 ▸ h.1, h1 ▸ h.2, by rw [h1, h2, h3]; exact h.3, by rw [h1, h4]; exact h.4⟩

/-- The blocks that are marked as allocated, and their addresses. -/
def alloc (p : MPFCB) : List Nat := (List.range p.unused).filter fun j => p.mb j == INDEX_ALLOC
def held (p : MPFCB) : List Addr := p.alloc.map p.blkAddr

/-- The free list holds the blocks that have been used and are not allocated. -/
structure Layout (p : MPFCB) (fs : List Nat) : Prop where
  list : Chained p.next (link p.freelist) fs
  free : ∀ j, j ∈ fs ↔ j < p.unused ∧ p.mb j ≠ INDEX_ALLOC
  unused : p.unused ≤ p.blkcnt
  fblkcnt : p.fblkcnt = fs.length + (p.blkcnt - p.unused)

def Wf (p : MPFCB) : Prop := p.blkcnt < INDEX_NULL → ∃ fs, p.Layout fs

section
variable {p : MPFCB} {fs : List Nat} {blk : Addr}

theorem mem_alloc : j ∈ p.alloc ↔ j < p.unused ∧ p.mb j = INDEX_ALLOC := by
  unfold alloc
  rw [List.mem_filter, List.mem_range, beq_iff_eq]

theorem alloc_nodup (p : MPFCB) : p.alloc.Nodup := List.nodup_range.filter _

theorem Layout.nil (hu : p.unused = 0) (hf : p.freelist = INDEX_NULL) (hn : p.fblkcnt = p.blkcnt) :
    p.Layout [] := by
  refine ⟨?_, fun j => ?_, hu ▸ Nat.zero_le _, ?_⟩
  · change link p.freelist = none
    rw [hf]
    exact if_pos rfl
  · rw [hu]
    refine ⟨fun h => ?_, fun h => absurd h.1 (Nat.not_lt_zero j)⟩
    cases h
  · rw [hu, hn]
    exact (Nat.zero_add _).symm

theorem alloc_nil (hu : p.unused = 0) : p.alloc = [] := by
  unfold alloc
  rw [hu]
  rfl

theorem next_update (p : MPFCB) (j x : Nat) :
    ({ p with mb := Function.update p.mb j x } : MPFCB).next = Function.update p.next j (link x) :=
  Function.comp_update link p.mb j x

/-- The first block of the free list. -/
theorem Layout.first (h : p.Layout fs) (hf : p.freelist ≠ INDEX_NULL) : ∃ l, fs = p.freelist :: l := by
  have hl := h.list
  unfold link at hl
  rw [if_neg hf] at hl
  cases fs with
  | nil => cases hl
  | cons a l =>
    cases hl.1
    exact ⟨l, rfl⟩

theorem Layout.empty (h : p.Layout fs) (hf : p.freelist = INDEX_NULL) : fs = [] := by
  have hl := h.list
  unfold link at hl
  rw [if_pos hf] at hl
  cases fs with
  | nil => rfl
  | cons a l => cases hl.1

/-- A number of a block is none of the marks. -/
theorem Layout.freelist_ne (h : p.Layout fs) (hb : p.blkcnt < INDEX_NULL) : p.freelist ≠ INDEX_ALLOC := by
  by_cases hf : p.freelist = INDEX_NULL
  · rw [hf]
    decide
  · obtain ⟨l, rfl⟩ := h.first hf
    have hlt := ((h.free _).1 List.mem_cons_self).1
    have hu := h.unused
    unfold INDEX_NULL at hb
    unfold INDEX_ALLOC
    omega

/-- A block that is taken from the free list, or the next one that has not been used yet. -/
theorem Layout.get (h : p.Layout fs) (hpos : 0 < p.fblkcnt) :
    ∃ j fs', p.getMpfBlock.1 = p.blkAddr j ∧ Layout p.getMpfBlock.2 fs' ∧
      p.getMpfBlock.2.alloc.Perm (j :: p.alloc) := by
  unfold getMpfBlock
  by_cases hf : p.freelist ≠ INDEX_NULL
  · rw [if_pos hf]
    obtain ⟨l, rfl⟩ := h.first hf
    have hnd := List.nodup_cons.1 h.list.nodup
    have hfree := (h.free p.freelist).1 List.mem_cons_self
    have hup {j : Nat} (hj : j ≠ p.freelist) : Function.update p.mb p.freelist INDEX_ALLOC j = p.mb j :=
      Function.update_of_ne hj ..
    refine ⟨p.freelist, l, rfl, ⟨?_, fun j => ?_, h.unused, ?_⟩, ?_⟩
    · have hl := h.list.2.update hnd.1 (link INDEX_ALLOC)
      rw [← next_update] at hl
      exact hl
    · change j ∈ l ↔ j < p.unused ∧ Function.update p.mb p.freelist INDEX_ALLOC j ≠ INDEX_ALLOC
      by_cases hj : j = p.freelist
      · rw [hj, Function.update_self]
        exact ⟨fun hm => absurd hm hnd.1, fun hn => absurd rfl hn.2⟩
      · rw [hup hj, ← h.free j, List.mem_cons]
        exact ⟨.inr, fun hm => hm.resolve_left hj⟩
    · have hn := h.fblkcnt
      rw [List.length_cons] at hn
      change p.fblkcnt - 1 = l.length + (p.blkcnt - p.unused)
      omega
    · refine (List.perm_ext_iff_of_nodup (alloc_nodup _) (List.nodup_cons.2 ⟨fun hm => ?_, alloc_nodup p⟩)).2
        fun j => ?_
      · exact hfree.2 (mem_alloc.1 hm).2
      · rw [mem_alloc, List.mem_cons, mem_alloc]
        change j < p.unused ∧ Function.update p.mb p.freelist INDEX_ALLOC j = INDEX_ALLOC ↔ _
        by_cases hj : j = p.freelist
        · rw [hj, Function.update_self]
          exact ⟨fun _ => .inl rfl, fun _ => ⟨hfree.1, rfl⟩⟩
        · rw [hup hj]
          exact ⟨.inr, fun hm => hm.resolve_left hj⟩
  · rw [if_neg hf]
    obtain rfl := h.empty (not_not.1 hf)
    have hn := h.fblkcnt
    have hu := h.unused
    rw [List.length_nil] at hn
    have hup {j : Nat} (hj : j ≠ p.unused) : Function.update p.mb p.unused INDEX_ALLOC j = p.mb j :=
      Function.update_of_ne hj ..
    refine ⟨p.unused, [], rfl, ⟨h.list, fun j => ?_, ?_, ?_⟩, ?_⟩
    · change j ∈ [] ↔ j < p.unused + 1 ∧ Function.update p.mb p.unused INDEX_ALLOC j ≠ INDEX_ALLOC
      by_cases hj : j = p.unused
      · rw [hj, Function.update_self]
        exact ⟨fun hm => absurd hm List.not_mem_nil, fun hn => absurd rfl hn.2⟩
      · rw [hup hj, h.free j]
        exact and_congr_left fun _ => by omega
    · change p.unused + 1 ≤ p.blkcnt
      omega
    · change p.fblkcnt - 1 = 0 + (p.blkcnt - (p.unused + 1))
      omega
    · unfold alloc
      change ((List.range (p.unused + 1)).filter fun j =>
        Function.update p.mb p.unused INDEX_ALLOC j == INDEX_ALLOC).Perm _
      rw [List.range_succ, List.filter_append, List.filter_cons_of_pos
        (by rw [Function.update_self, beq_self_eq_true]), List.filter_nil]
      rw [List.filter_congr (q := fun j => p.mb j == INDEX_ALLOC) fun j hj => by
        rw [hup (Nat.ne_of_lt (List.mem_range.1 hj))]]
      exact List.perm_append_singleton _ _

theorem getMpfBlock_shape (p : MPFCB) : p.getMpfBlock.2.shape = p.shape ∧
    p.getMpfBlock.2.blkAddr = p.blkAddr := by
  unfold getMpfBlock
  by_cases hf : p.freelist ≠ INDEX_NULL
  · rw [if_pos hf]
    exact ⟨rfl, rfl⟩
  · rw [if_neg hf]
    exact ⟨rfl, rfl⟩

theorem Layout.get_held (h : p.Layout fs) (hpos : 0 < p.fblkcnt) :
    p.getMpfBlock.2.held.Perm (p.getMpfBlock.1 :: p.held) := by
  obtain ⟨j, fs', he, -, hp⟩ := h.get hpos
  unfold held
  rw [(getMpfBlock_shape p).2, he]
  exact hp.map p.blkAddr

/-- The addresses that `rel_mpf` accepts. -/
theorem validBlk_iff : p.validBlk blk = true ↔ p.mpf ≤ blk ∧ p.blkoffset blk % p.blksz = 0 ∧
    p.blkoffset blk / p.blksz ∈ p.alloc := by
  unfold validBlk
  rw [Bool.and_eq_true, Bool.and_eq_true, Bool.and_eq_true, decide_eq_true_iff, decide_eq_true_iff,
    beq_iff_eq, beq_iff_eq, mem_alloc, and_assoc, and_assoc]

theorem blkAddr_blkoffset (h : p.blkoffset blk % p.blksz = 0) :
    p.blkAddr (p.blkoffset blk / p.blksz) = blk := by
  unfold blkAddr
  rw [Nat.mul_div_cancel' (Nat.dvd_of_mod_eq_zero h)]
  unfold blkoffset
  rw [BitVec.ofNat_toNat, BitVec.setWidth_eq]
  rw [BitVec.add_comm]
  exact BitVec.sub_add_cancel blk p.mpf

theorem Layout.rel (h : p.Layout fs) (hb : p.blkcnt < INDEX_NULL) (hv : p.validBlk blk = true) :
    (∃ fs', Layout (p.relBlock blk) fs') ∧ p.held.Perm (blk :: (p.relBlock blk).held) := by
  obtain ⟨-, hmod, hmem⟩ := validBlk_iff.1 hv
  have haddr := blkAddr_blkoffset hmod
  generalize hj : p.blkoffset blk / p.blksz = j at hmem haddr
  obtain ⟨hlt, hal⟩ := mem_alloc.1 hmem
  have hrel : p.relBlock blk = { p with
      fblkcnt := p.fblkcnt + 1
      mb := Function.update p.mb j p.freelist
      freelist := j } := by
    unfold relBlock
    rw [hj]
  have hn : j ∉ fs := fun hm => ((h.free j).1 hm).2 hal
  have hu := h.unused
  have hup {i : Nat} (hi : i ≠ j) : Function.update p.mb j p.freelist i = p.mb i :=
    Function.update_of_ne hi ..
  have hfl := h.freelist_ne hb
  rw [hrel]
  refine ⟨⟨j :: fs, ⟨⟨?_, ?_⟩, fun i => ?_, hu, ?_⟩⟩, ?_⟩
  · refine if_neg fun he => ?_
    change j = INDEX_NULL at he
    omega
  · have hl := h.list.update hn (link p.freelist)
    rw [← next_update] at hl
    refine (congrArg (Chained _ · fs) ?_).mpr hl
    exact congrArg link (Function.update_self ..)
  · change i ∈ j :: fs ↔ i < p.unused ∧ Function.update p.mb j p.freelist i ≠ INDEX_ALLOC
    rw [List.mem_cons, h.free i]
    by_cases hi : i = j
    · rw [hi, Function.update_self]
      exact ⟨fun _ => ⟨hlt, hfl⟩, fun _ => .inl rfl⟩
    · rw [hup hi]
      exact ⟨fun hm => hm.resolve_left hi, .inr⟩
  · change p.fblkcnt + 1 = fs.length + 1 + (p.blkcnt - p.unused)
    have hc := h.fblkcnt
    omega
  · have hperm : p.alloc.Perm (j :: alloc { p with
        fblkcnt := p.fblkcnt + 1
        mb := Function.update p.mb j p.freelist
        freelist := j }) := by
      refine (List.perm_ext_iff_of_nodup (alloc_nodup _)
        (List.nodup_cons.2 ⟨fun hm => ?_, alloc_nodup _⟩)).2 fun i => ?_
      · have he := (mem_alloc.1 hm).2
        change Function.update p.mb j p.freelist j = INDEX_ALLOC at he
        rw [Function.update_self] at he
        exact hfl he
      · rw [List.mem_cons, mem_alloc, mem_alloc]
        change _ ↔ i = j ∨ i < p.unused ∧ Function.update p.mb j p.freelist i = INDEX_ALLOC
        by_cases hi : i = j
        · rw [hi]
          exact ⟨fun _ => .inl rfl, fun _ => ⟨hlt, hal⟩⟩
        · rw [hup hi]
          exact ⟨.inr, fun hm => hm.resolve_left hi⟩
    have hm := hperm.map p.blkAddr
    rw [List.map_cons, haddr] at hm
    exact hm

/-- In an area that lies in the address space the blocks have their addresses. -/
theorem Area.blkAddr (h : p.Area) (hj : j < p.blkcnt) :
    (p.blkAddr j).toNat = p.mpf.toNat + p.blksz * j := by
  have hlt : p.blksz * j < p.blksz * p.blkcnt := Nat.mul_lt_mul_of_pos_left hj h.blksz_pos
  have hf := h.fits
  unfold MPFCB.blkAddr
  rw [BitVec.toNat_add, BitVec.toNat_ofNat, Nat.add_mod_mod, Nat.mod_eq_of_lt (by omega)]

theorem Area.blkAddr_inj (h : p.Area) (hi : i < p.blkcnt) (hj : j < p.blkcnt)
    (he : p.blkAddr i = p.blkAddr j) : i = j := by
  have ht := congrArg BitVec.toNat he
  rw [h.blkAddr hi, h.blkAddr hj] at ht
  exact Nat.eq_of_mul_eq_mul_left h.blksz_pos (Nat.add_left_cancel ht)

theorem Area.held_nodup (h : p.Area) (hu : p.unused ≤ p.blkcnt) : p.held.Nodup := by
  refine (alloc_nodup p).map_on fun i hi j hj he => ?_
  exact h.blkAddr_inj (Nat.lt_of_lt_of_le (mem_alloc.1 hi).1 hu) (Nat.lt_of_lt_of_le (mem_alloc.1 hj).1 hu) he

/-- `rel_mpf` accepts the addresses of the blocks that are held. -/
theorem Area.validBlk (h : p.Area) (hu : p.unused ≤ p.blkcnt) : p.validBlk blk = true ↔ blk ∈ p.held := by
  rw [validBlk_iff]
  constructor
  · rintro ⟨-, hmod, hm⟩
    exact List.mem_map.2 ⟨_, hm, blkAddr_blkoffset hmod⟩
  · intro hm
    obtain ⟨j, hj, rfl⟩ := List.mem_map.1 hm
    have ht := h.blkAddr (Nat.lt_of_lt_of_le (mem_alloc.1 hj).1 hu)
    have hle : p.mpf ≤ p.blkAddr j := by
      rw [BitVec.le_def]
      omega
    have hoff : p.blkoffset (p.blkAddr j) = p.blksz * j := by
      unfold blkoffset
      rw [BitVec.toNat_sub_of_le hle]
      omega
    rw [hoff]
    refine ⟨hle, Nat.mul_mod_right _ _, ?_⟩
    rwa [Nat.mul_div_cancel_left j h.blksz_pos]

end

end MPFCB

/-- The pool that a call gets a block from. -/
def Call.gets : Call → Option ID
  | .getMpf id | .pgetMpf id | .tgetMpf id _ => some id
  | _ => none

def Out.blk? : Out → Option Addr
  | .blk a => some a
  | _ => Option.none

/-- What a call does that names a pool: its code and its result, and the state after it. -/
inductive MpfCall (k : Kernel) (call : Call) (id : ID) : Option ER → Out → Kernel → Prop
  | err (he : e ≠ E_OK) (ha : k.core.Alike k'.core) (hs : k'.mpf = k.mpf) :
    MpfCall k call id (some e) out k'
  | ref (hc : call = .refMpf id) (ha : k.core.Alike k'.core) (hs : k'.mpf = k.mpf) :
    MpfCall k call id ercd out k'
  | get (hc : call.gets = some id) (hv : toId (index id) = id) (hpos : 0 < (k.mpf (index id)).fblkcnt)
    (ha : k.core.Alike k'.core)
    (hs : k'.mpf = Function.update k.mpf (index id) (k.mpf (index id)).getMpfBlock.2) :
    MpfCall k call id (some E_OK) (.blk (k.mpf (index id)).getMpfBlock.1) k'
  | wait (hc : call.gets = some id) (hz : (k.mpf (index id)).fblkcnt = 0)
    (hb : Blocks (.MPF, index id) t w k.core k'.core) (hs : k'.mpf = k.mpf) :
    MpfCall k call id none out k'
  | hand (hc : call = .relMpf id blk) (hv : toId (index id) = id)
    (hblk : (k.mpf (index id)).validBlk blk = true)
    (hh : Hands (.MPF, index id) t { (k.core.tcb t).winfo with blk := blk } k.core k'.core)
    (hs : k'.mpf = k.mpf) : MpfCall k call id (some E_OK) out k'
  | rel (hc : call = .relMpf id blk) (hv : toId (index id) = id)
    (hblk : (k.mpf (index id)).validBlk blk = true) (hq : k.core.headTsk (.MPF, index id) = none)
    (ha : k.core.Alike k'.core)
    (hs : k'.mpf = Function.update k.mpf (index id) ((k.mpf (index id)).relBlock blk)) :
    MpfCall k call id (some E_OK) out k'
  | ini (hc : call.ini = some (.wobj .MPF, id)) (hv : toId (index id) = id)
    (hq : k'.core.sched.queue (.wait (.MPF, index id)) = [])
    (hs : k'.mpf = Function.update k.mpf (index id) (k.mpf (index id)).clear) :
    MpfCall k call id (some E_OK) out k'
  | del (hc : call.del = some (.wobj .MPF, id)) (hv : toId (index id) = id)
    (hq : k'.core.sched.queue (.wait (.MPF, index id)) = []) (hs : k'.mpf = k.mpf) :
    MpfCall k call id (some E_OK) out k'

section
variable {cfg : Cfg} {k k' : Kernel} {call : Call} {id : ID}

/-- What a call does, from its result. -/
abbrev MpfSat (k : Kernel) (call : Call) (id : ID) (r : Res Kernel) : Prop :=
  MpfCall k call id r.ercd r.out r.st

theorem mpfCall_get {m : WaitMode} (h : CallPre cfg k.core) (hc : call.gets = some id)
    (hl : ∀ p ∈ [(k.core.ctxMode m, E_CTX), (cfg.mpf.valid id, E_ID), (m.valid, E_PAR)],
      p.1 = true) : MpfSat k call id (k.onMpf (getMpfWith cfg · id m)) := by
  have hv := (ObjNum.valid_index (hl _ (.tail _ (.head _)))).2
  rw [show k.onMpf (getMpfWith cfg · id m) = _ from check_map hl]
  simp only
  split
  · exact .err (by decide) (.refl _) rfl
  · rename_i hex
    split
    · rename_i hpos
      exact .get hc hv hpos (.refl _) rfl
    · rename_i hz
      split
      · exact .err (by decide) (.refl _) rfl
      · rename_i hp
        exact .wait hc (by omega) (blocks_waitWobj h (hl _ (.head _)) (hl _ (.tail _ (.tail _ (.head _))))
          (Bool.eq_false_iff.2 hp) (Bool.eq_false_iff.2 hex) (by decide) (by decide) _) rfl

theorem mpfCall_rel {blk : Addr} (hl : ∀ p ∈ (Call.relMpf id blk).checks cfg k.core, p.1 = true) :
    MpfSat k (.relMpf id blk) id (k.onMpf (relMpf cfg · id blk)) := by
  have hv := (ObjNum.valid_index (hl _ (.tail _ (.head _)))).2
  rw [show k.onMpf (relMpf cfg · id blk) = _ from check_map hl]
  simp only
  split
  · exact .err (by decide) (.refl _) rfl
  · split
    · exact .err (by decide) (.refl _) rfl
    · rename_i hblk
      have hblk : (k.mpf (index id)).validBlk blk = true := by simpa using hblk
      split
      · rename_i t ht
        exact .hand rfl hv hblk (hands_complete ht _) rfl
      · rename_i hq
        exact .rel rfl hv hblk hq (.refl _) rfl

theorem mpfCall_ini (hl : ∀ p ∈ (Call.iniMpf id).checks cfg k.core, p.1 = true) :
    MpfSat k (.iniMpf id) id (k.onMpf (iniMpf cfg · id)) := by
  have hv := (ObjNum.valid_index (hl _ (.tail _ (.head _)))).2
  rw [show k.onMpf (iniMpf cfg · id) = _ from check_map hl]
  simp only
  split
  · exact .err (by decide) (.refl _) rfl
  · exact .ini rfl hv (initWaitQueue_queue k.core _) rfl

theorem mpfCall_del (hl : ∀ p ∈ (Call.delMpf id).checks cfg k.core, p.1 = true) :
    MpfSat k (.delMpf id) id (k.onMpf (delMpf cfg · id)) := by
  have hv := (ObjNum.valid_index (hl _ (.tail _ (.head _)))).2
  rw [show k.onMpf (delMpf cfg · id) = _ from check_map hl]
  simp only
  split
  · exact .err (by decide) (.refl _) rfl
  · split
    · refine .del rfl hv ?_ rfl
      have hq := initWaitQueue_queue k.core (.MPF, index id)
      cases (k.core.wobjatr (.MPF, index id)).has TA_MEMALLOC <;>
        cases (k.core.wobjatr (.MPF, index id)).has TA_MBALLOC <;> exact hq
    · exact .err (by decide) (.refl _) rfl

theorem mpfCall_ref (hl : ∀ p ∈ (Call.refMpf id).checks cfg k.core, p.1 = true) :
    MpfSat k (.refMpf id) id (k.onMpf (refMpf cfg · id)) := by
  rw [show k.onMpf (refMpf cfg · id) = _ from check_map hl]
  simp only
  split
  · exact .err (by decide) (.refl _) rfl
  · exact .ref rfl (.refl _) rfl

theorem mpfCall (h : CallPre cfg k.core) (ho : call.object = some (.wobj .MPF, id)) :
    MpfSat k call id (exec cfg k call) := by
  rcases exec_rejected cfg k call with ⟨e, he, hr⟩ | hl
  · rw [hr]
    exact .err he (.refl _) rfl
  · cases call with
    | getMpf | pgetMpf | tgetMpf => cases ho; exact mpfCall_get h rfl hl
    | relMpf => cases ho; exact mpfCall_rel hl
    | iniMpf => cases ho; exact mpfCall_ini hl
    | delMpf => cases ho; exact mpfCall_del hl
    | refMpf => cases ho; exact mpfCall_ref hl
    | _ => cases ho

theorem MpfCall.alike (h : MpfCall k call id ercd out k') {c : Core} (ha : k'.core.Alike c) :
    MpfCall k call id ercd out { k' with core := c } := by
  cases h with
  | err he ha' hs => exact .err he (ha'.trans ha) hs
  | ref hc ha' hs => exact .ref hc (ha'.trans ha) hs
  | get hc hv hpos ha' hs => exact .get hc hv hpos (ha'.trans ha) hs
  | wait hc hz hb hs => exact .wait hc hz (hb.alike ha) hs
  | hand hc hv hblk hh hs => exact .hand hc hv hblk (hh.alike ha) hs
  | rel hc hv hblk hq ha' hs => exact .rel hc hv hblk hq (ha'.trans ha) hs
  | ini hc hv hq hs => exact .ini hc hv (ha.sched ▸ hq) hs
  | del hc hv hq hs => exact .del hc hv (ha.sched ▸ hq) hs

theorem mpfCall_step (h : RunInv cfg k.core) (hs : Step cfg k (.call call) k')
    (ho : call.object = some (.wobj .MPF, id)) :
    MpfCall k call id (exec cfg k call).ercd (exec cfg k call).out k' := by
  obtain ⟨hc, rfl⟩ := step_call hs
  rw [settle_eq]
  exact (mpfCall (h.callPre hc.1) ho).alike (settle_alike _)

theorem acreMpf_mpf (h : ∀ i ∈ k.core.freeWobj .MPF, i < cfg.mpf.tmax) (pk : MPFINIB)
    (memMpf memMb : Addr) :
    (∃ e, exec cfg k (.acreMpf pk memMpf memMb) = .err k e) ∨ ∃ i l, k.core.freeWobj .MPF = i :: l ∧
      (exec cfg k (.acreMpf pk memMpf memMb)).st.mpf =
        Function.update k.mpf i ⟨pk.blkcnt, cfg.target.roundMpf pk.blksz,
          if pk.mpf = 0 then memMpf else pk.mpf, if pk.pMpfmb = 0 then memMb else pk.pMpfmb,
          (k.mpf i).mb, pk.blkcnt, 0, INDEX_NULL⟩ ∧
      (exec cfg k (.acreMpf pk memMpf memMb)).st.core.wobjatr (.MPF, i) =
        if pk.pMpfmb = 0 then (if pk.mpf = 0 then pk.mpfatr ||| TA_MEMALLOC else pk.mpfatr) ||| TA_MBALLOC
        else if pk.mpf = 0 then pk.mpfatr ||| TA_MEMALLOC else pk.mpfatr := by
  rcases exec_rejected cfg k (.acreMpf pk memMpf memMb) with ⟨e, _, hr⟩ | hl
  · exact .inl ⟨e, hr⟩
  · rw [show exec cfg k (.acreMpf pk memMpf memMb) = _ from
      show k.onMpf (acreMpf cfg · pk memMpf memMb) = _ from check_map hl]
    simp only
    rcases takeWobj_cases h with ⟨ht, _⟩ | ⟨i, l, hf, ht⟩
    · rw [ht]
      exact .inl ⟨_, rfl⟩
    · rw [ht]
      simp only
      by_cases hm : (if pk.mpf = 0 then memMpf else pk.mpf) = 0
      · rw [if_pos hm]
        exact .inl ⟨_, rfl⟩
      · rw [if_neg hm]
        by_cases hm' : (if pk.pMpfmb = 0 then memMb else pk.pMpfmb) = 0
        · rw [if_pos hm']
          by_cases hb : pk.mpf = 0
          · rw [if_pos hb, if_pos hb, if_pos hb,
              malloc_free _ _ fun hz => hm ((if_pos hb).trans hz)]
            exact .inl ⟨_, rfl⟩
          · rw [if_neg hb, if_neg hb]
            exact .inl ⟨_, rfl⟩
        · rw [if_neg hm']
          exact .inr ⟨i, l, hf, rfl, Function.update_self ..⟩

theorem mpf_blocked (cfg : Cfg) : Blocked cfg .MPF Kernel.mpf where
  outside _ _ _ := rfl
  named k call id h ho j hj := by
    obtain ⟨ercd, out, k', hc, hk⟩ : ∃ ercd out k', MpfCall k call id ercd out k' ∧
        k' = (exec cfg k call).st := ⟨_, _, _, mpfCall h ho, rfl⟩
    rw [← hk]
    cases hc with
    | err _ _ hs | ref _ _ hs | hand _ _ _ _ hs | wait _ _ _ hs | del _ _ _ hs => rw [hs]
    | get _ _ _ _ hs | rel _ _ _ _ _ hs | ini _ _ _ hs => rw [hs, Function.update_of_ne hj]
  created k call h hc := by
    cases call with
    | acreMpf pk memMpf memMb =>
      refine (acreMpf_mpf h pk memMpf memMb).imp_right fun ⟨i, l, hf, he, _⟩ => ⟨i, l, hf, fun j hj => ?_⟩
      exact (congrFun he j).trans (Function.update_of_ne hj ..)
    | _ => cases hc
  other k call ho hc := by
    cases call <;> first
      | rfl
      | exact absurd rfl (ho _)
      | exact absurd rfl hc

/-- The control block of a pool in a step that does not name it. -/
theorem mpf_other (h : Reachable cfg k) (hs : Step cfg k e k')
    (hi : k.core.atr (.wobj .MPF) i ≠ TA_NOEXS)
    (hn : ∀ call id, e = .call call → call.object = some (.wobj .MPF, id) → index id ≠ i) :
    k'.mpf i = k.mpf i ∧ Rests (.MPF, i) k.core k'.core := by
  refine ⟨(mpf_blocked cfg).keep h hs hi hn, h.runInv.rests_other hs (q := (.MPF, i)) ?_ hn⟩
  intro hm
  cases hm

/-- What holds of a pool that exists. -/
structure MpfInv (k : Kernel) (i : Nat) : Prop where
  wf : (k.mpf i).Wf
  wait : k.core.sched.queue (.wait (.MPF, i)) ≠ [] → (k.mpf i).fblkcnt = 0

theorem MpfInv.rests (h : MpfInv k i) (hk : k'.mpf i = k.mpf i)
    (hr : Rests (.MPF, i) k.core k'.core) : MpfInv k' i := by
  refine ⟨hk ▸ h.wf, fun hq => ?_⟩
  rw [hk]
  exact h.wait fun hn => hq (hr.queue_nil hn)

/-- A new pool, and one that is initialised again. -/
theorem MpfInv.clear (hk : k.mpf i = p) (hu : p.unused = 0) (hf : p.freelist = INDEX_NULL)
    (hn : p.fblkcnt = p.blkcnt) (hq : k.core.sched.queue (.wait (.MPF, i)) = []) : MpfInv k i :=
  ⟨fun _ => ⟨[], hk ▸ .nil hu hf hn⟩, fun hn => absurd hq hn⟩

/-- A call that names a pool keeps the invariant. -/
theorem MpfCall.inv (hc : MpfCall k call id ercd out k') (hi : CoreInv cfg noD k.core)
    (h : MpfInv k (index id)) : MpfInv k' (index id) := by
  cases hc with
  | err he ha hs | ref hc ha hs => exact h.rests (by rw [hs]) ((Idles.of_alike ha).rests hi _)
  | get hc hv hpos ha hs =>
    have hp := congrFun hs (index id)
    rw [Function.update_self] at hp
    refine ⟨fun hb => ?_, fun hq => ?_⟩
    · rw [hp] at hb ⊢
      have hb : (k.mpf (index id)).blkcnt < INDEX_NULL :=
        Nat.lt_of_le_of_lt (Nat.le_of_eq (congrArg Prod.fst (MPFCB.getMpfBlock_shape _).1).symm) hb
      obtain ⟨fs, hfs⟩ := h.wf hb
      obtain ⟨j, fs', -, hl, -⟩ := hfs.get hpos
      exact ⟨fs', hl⟩
    · rw [(Idles.of_alike ha).queue] at hq
      exact absurd (h.wait hq) (Nat.ne_of_gt hpos)
  | wait hc hz hb hs => exact ⟨hs ▸ h.wf, fun _ => hs ▸ hz⟩
  | hand hc hv hblk hh hs =>
    refine ⟨hs ▸ h.wf, fun _ => hs ▸ h.wait ?_⟩
    rw [(hh.tail hi).1]
    exact List.cons_ne_nil _ _
  | rel hc hv hblk hq ha hs =>
    have hp := congrFun hs (index id)
    rw [Function.update_self] at hp
    refine ⟨fun hb => ?_, fun hn => absurd ?_ hn⟩
    · rw [hp] at hb ⊢
      obtain ⟨fs, hfs⟩ := h.wf hb
      exact (hfs.rel hb hblk).1
    · rw [(Idles.of_alike ha).queue]
      exact List.head?_eq_none_iff.1 hq
  | ini hc hv hq hs =>
    have hp := congrFun hs (index id)
    rw [Function.update_self] at hp
    exact .clear hp rfl rfl rfl hq
  | del hc hv hq hs => exact ⟨hs ▸ h.wf, fun hn => absurd hq hn⟩

/-- A new pool. -/
theorem mpf_new (h : Reachable cfg k) (hs : Step cfg k e k')
    (hi : k.core.atr (.wobj .MPF) i = TA_NOEXS) (hi' : k'.core.atr (.wobj .MPF) i ≠ TA_NOEXS) :
    MpfInv k' i ∧ (k'.mpf i).unused = 0 := by
  obtain ⟨call, rfl, hc, hl, hk, ⟨l, hf⟩, herr, hq⟩ := h.created hs hi hi' (by decide)
  cases call with
  | acreMpf pk memMpf memMb =>
    rcases acreMpf_mpf (fun i hi => (h.range (.wobj .MPF) i hi).2) pk memMpf memMb with
      ⟨e, he⟩ | ⟨j, l', hfj, he, -⟩
    · exact absurd he (herr e)
    · obtain rfl : j = i := (List.cons.inj (hfj.symm.trans hf)).1
      have hst : k'.mpf j = (exec cfg k (.acreMpf pk memMpf memMb)).st.mpf j := by rw [hk, settle_eq]
      have hmpf := hst.trans ((congrFun he j).trans (Function.update_self ..))
      exact ⟨.clear hmpf rfl rfl rfl (hq (.MPF, j) rfl), congrArg MPFCB.unused hmpf⟩
  | _ => cases hc

theorem Reachable.mpfInv (h : Reachable cfg k) (hi : k.core.atr (.wobj .MPF) i ≠ TA_NOEXS) :
    MpfInv k i := by
  refine h.objects (f := .MPF) (I := MpfInv) (by decide)
    (fun i _ => .clear rfl rfl rfl rfl (boot_queue cfg _))
    (fun k k' e i h hs hi ha hn hv => ?_) (fun k k' call id h hs ho hi ha hv => ?_)
    (fun k k' call i h hs hc hi hi' => (mpf_new h hs hi hi').1) hi
  · obtain ⟨hk, hr⟩ := mpf_other h hs hi hn
    exact hv.rests hk hr
  · exact (mpfCall_step h.runInv hs ho).inv h.runInv.inv hv

/-- What the callers of a pool see: the blocks that they get, by calls that return `E_OK` and by waits
that end with it, and those that they return. -/
inductive MpfObs
  | get (blk : Addr)
  | rel (blk : Addr)
  deriving DecidableEq

def MpfObs.got : MpfObs → Option Addr
  | .get blk => some blk
  | .rel _ => none

def MpfObs.returned : MpfObs → Option Addr
  | .get _ => none
  | .rel blk => some blk

/-- The block that a call returns. -/
def Call.returns (i : Nat) : Call → Option Addr
  | .relMpf id blk => if id = toId i then some blk else none
  | _ => none

def Call.mpfObs (i : Nat) (call : Call) (ercd : Option ER) (out : Out) : List MpfObs :=
  if ercd = some E_OK then
    (call.returns i).toList.map .rel ++
      if call.gets = some (toId i) then out.blk?.toList.map .get else []
  else []

def mpfObs (cfg : Cfg) (i : Nat) (k : Kernel) (e : Event) (k' : Kernel) : List MpfObs :=
  (match e with
    | .call call => call.mpfObs i (exec cfg k call).ercd (exec cfg k call).out
    | _ => []) ++
  (k.core.served k'.core (.MPF, i)).map fun t => .get (k'.core.tcb t).winfo.blk

/-- The blocks that are held before and after some observations. -/
def MpfObs.Balance (l : List MpfObs) (before after : List Addr) : Prop :=
  (before ++ l.filterMap got).Perm (l.filterMap returned ++ after)

theorem MpfObs.Balance.trans (h : Balance l a b) (h' : Balance l' b c) : Balance (l ++ l') a c := by
  unfold Balance at *
  rw [List.filterMap_append, List.filterMap_append]
  calc
    a ++ (l.filterMap got ++ l'.filterMap got) = (a ++ l.filterMap got) ++ l'.filterMap got :=
      (List.append_assoc ..).symm
    _ ~ (l.filterMap returned ++ b) ++ l'.filterMap got := h.append_right _
    _ = l.filterMap returned ++ (b ++ l'.filterMap got) := List.append_assoc ..
    _ ~ l.filterMap returned ++ (l'.filterMap returned ++ c) := h'.append_left _
    _ = (l.filterMap returned ++ l'.filterMap returned) ++ c := (List.append_assoc ..).symm

theorem MpfObs.Balance.nil (a : List Addr) : Balance [] a a := by
  unfold Balance
  rw [List.filterMap_nil, List.filterMap_nil, List.append_nil, List.nil_append]

theorem gets_object (hc : call.gets = some id) : call.object = some (.wobj .MPF, id) := by
  cases call <;> cases hc <;> rfl

theorem returns_of_gets (hc : call.gets = some id) (i : Nat) : call.returns i = none := by
  cases call <;> cases hc <;> rfl

theorem returns_object (hc : call.returns i = some blk) : call.object = some (.wobj .MPF, toId i) := by
  cases call with
  | relMpf id blk' =>
    change (if id = toId i then some blk' else none) = some blk at hc
    by_cases he : id = toId i
    · rw [he]
      rfl
    · rw [if_neg he] at hc
      cases hc
  | _ => cases hc

/-- What the return of a block shows. -/
theorem mpfObs_relMpf (hv : toId (index id) = id) (blk : Addr) (out : Out) :
    (Call.relMpf id blk).mpfObs (index id) (some E_OK) out = [.rel blk] := by
  have hr : (Call.relMpf id blk).returns (index id) = some blk := if_pos hv.symm
  unfold Call.mpfObs
  rw [if_pos rfl, hr]
  rfl

theorem MpfCall.shape (hc : MpfCall k call id ercd out k') :
    (k'.mpf (index id)).shape = (k.mpf (index id)).shape := by
  cases hc with
  | err _ _ hs | ref _ _ hs | hand _ _ _ _ hs | wait _ _ _ hs | del _ _ _ hs => rw [hs]
  | get _ _ _ _ hs =>
    rw [hs, Function.update_self]
    exact (MPFCB.getMpfBlock_shape _).1
  | rel _ _ _ _ _ hs | ini _ _ _ hs =>
    rw [hs, Function.update_self]
    rfl

/-- What a call shows that names the pool. -/
theorem MpfCall.balance (hc : MpfCall k call id ercd out k') (hi : CoreInv cfg noD k.core)
    (hb : (k.mpf (index id)).blkcnt < INDEX_NULL) (hw : MpfInv k (index id))
    (hl : call.del ≠ some (.wobj .MPF, toId (index id)) ∧
      call.ini ≠ some (.wobj .MPF, toId (index id))) :
    MpfObs.Balance (call.mpfObs (index id) ercd out ++
      (k.core.served k'.core (.MPF, index id)).map fun t => .get (k'.core.tcb t).winfo.blk)
      (k.mpf (index id)).held (k'.mpf (index id)).held := by
  obtain ⟨fs, hfs⟩ := hw.wf hb
  have hidle (ha : k.core.Alike k'.core) : k.core.served k'.core (.MPF, index id) = [] :=
    ((Idles.of_alike ha).rests hi _).served
  cases hc with
  | err he ha hs =>
    rw [show call.mpfObs (index id) (some _) out = [] from if_neg fun h => he (Option.some.inj h), hidle ha, hs]
    exact .nil _
  | ref hc ha hs =>
    subst hc
    have ho : Call.mpfObs (index id) (.refMpf id) ercd out = [] := by
      unfold Call.mpfObs
      split <;> rfl
    rw [ho, hidle ha, hs]
    exact .nil _
  | get hc hv hpos ha hs =>
    have ho : call.mpfObs (index id) (some E_OK) (.blk (k.mpf (index id)).getMpfBlock.1) =
        [.get (k.mpf (index id)).getMpfBlock.1] := by
      unfold Call.mpfObs
      rw [if_pos rfl, returns_of_gets hc, if_pos (hv.symm ▸ hc)]
      rfl
    rw [ho, hidle ha, hs, Function.update_self]
    exact (List.perm_append_singleton _ _).trans (hfs.get_held hpos).symm
  | wait hc hz hb hs =>
    rw [show call.mpfObs (index id) none out = [] from if_neg (by simp), hb.served hi, hs]
    exact .nil _
  | hand hc hv hblk hh hs =>
    rename_i blk t
    subst hc
    rw [mpfObs_relMpf hv, (hh.tail hi).2.1, List.map_singleton, hh.self, hs]
    exact List.perm_append_singleton _ _
  | rel hc hv hblk hq ha hs =>
    rename_i blk
    subst hc
    rw [mpfObs_relMpf hv, hidle ha, hs, Function.update_self]
    have hp := (hfs.rel hb hblk).2
    rw [← List.append_nil (k.mpf (index id)).held] at hp
    exact hp
  | ini hc hv hq hs => exact absurd (hv.symm ▸ hc) hl.2
  | del hc hv hq hs => exact absurd (hv.symm ▸ hc) hl.1

/-- An event that does not name a pool shows nothing of it. -/
theorem mpfObs_other (h : Reachable cfg k) (hs : Step cfg k e k')
    (hi : k.core.atr (.wobj .MPF) i ≠ TA_NOEXS)
    (hn : ∀ call id, e = .call call → call.object = some (.wobj .MPF, id) → index id ≠ i) :
    mpfObs cfg i k e k' = [] := by
  unfold mpfObs
  rw [(mpf_other h hs hi hn).2.served]
  cases e with
  | call call =>
    simp only [List.map_nil, List.append_nil]
    unfold Call.mpfObs
    split
    · have hret : call.returns i = none := by
        by_contra hret
        obtain ⟨blk, hret⟩ := Option.ne_none_iff_exists'.1 hret
        exact hn call _ rfl (returns_object hret) (index_toId i)
      rw [hret, if_neg fun hg => hn call _ rfl (gets_object hg) (index_toId i)]
      rfl
    · rfl
  | _ => rfl

/-- A step that leaves a pool in being keeps the balance of its blocks. -/
theorem mpf_balance (h : Reachable cfg k) (hs : Step cfg k e k')
    (hi : k.core.atr (.wobj .MPF) i ≠ TA_NOEXS) (hb : (k.mpf i).blkcnt < INDEX_NULL)
    (hl : e.leaves (.wobj .MPF) i) : (k'.mpf i).shape = (k.mpf i).shape ∧
      MpfObs.Balance (mpfObs cfg i k e k') (k.mpf i).held (k'.mpf i).held := by
  by_cases hn : ∀ call id, e = .call call → call.object = some (.wobj .MPF, id) → index id ≠ i
  · rw [mpfObs_other h hs hi hn, (mpf_other h hs hi hn).1]
    exact ⟨rfl, .nil _⟩
  · push Not at hn
    obtain ⟨call, id, rfl, ho, rfl⟩ := hn
    have hc := mpfCall_step h.runInv hs ho
    exact ⟨hc.shape, hc.balance h.runInv.inv hb (h.mpfInv hi) (hl call rfl)⟩

/-- `rel_mpf` looks at the address alone. -/
theorem relMpf_exec {blk : Addr} (hi : k.core.atr (.wobj .MPF) (index id) ≠ TA_NOEXS)
    (hl : ∀ p ∈ (Call.relMpf id blk).checks cfg k.core, p.1 = true) :
    ((k.mpf (index id)).validBlk blk = true → (exec cfg k (.relMpf id blk)).ercd = some E_OK) ∧
      ((k.mpf (index id)).validBlk blk = false → exec cfg k (.relMpf id blk) = .err k E_PAR) := by
  have hex : ¬k.core.noWobj (.MPF, index id) = true := fun he =>
    hi ((Core.noexs_iff k.core (.wobj .MPF) (index id)).1 he)
  rw [show exec cfg k (.relMpf id blk) = _ from
    show k.onMpf (relMpf cfg · id blk) = _ from check_map hl]
  simp only
  rw [if_neg hex]
  constructor
  · intro hv
    rw [if_neg (by rw [hv]; exact Bool.noConfusion)]
    split <;> rfl
  · intro hv
    rw [if_pos hv]
    rfl

/-- A memory pool that exists, in every state that the system can reach, where its area lies in the
address space: the blocks that its callers hold are different blocks of the area, and a run that does
not delete the pool and does not initialise it again gives and takes back these blocks alone. The free
list holds the blocks that have been used and are not held, each once. `rel_mpf` accepts the blocks
that are held and refuses all other addresses; where a task waits it gets the block, which does not
count as free before. A pool starts with no block held. -/
theorem reachable_mpf (h : Reachable cfg k) :
    (∀ i, k.core.atr (.wobj .MPF) i ≠ TA_NOEXS → (k.mpf i).Area →
      ((k.mpf i).held.Nodup ∧ ∀ blk ∈ (k.mpf i).held, ∃ j < (k.mpf i).blkcnt,
        (k.mpf i).mb j = INDEX_ALLOC ∧ blk.toNat = (k.mpf i).mpf.toNat + (k.mpf i).blksz * j) ∧
      (∃ fs, Chained (k.mpf i).next (MPFCB.link (k.mpf i).freelist) fs ∧ fs.Nodup ∧
        (∀ j, j ∈ fs ↔ j < (k.mpf i).unused ∧ (k.mpf i).mb j ≠ INDEX_ALLOC) ∧
        (k.mpf i).unused ≤ (k.mpf i).blkcnt ∧
        (k.mpf i).fblkcnt = fs.length + ((k.mpf i).blkcnt - (k.mpf i).unused)) ∧
      (k.core.sched.queue (.wait (.MPF, i)) ≠ [] → (k.mpf i).fblkcnt = 0) ∧
      (∀ id blk, index id = i → (∀ p ∈ (Call.relMpf id blk).checks cfg k.core, p.1 = true) →
        (blk ∈ (k.mpf i).held → (exec cfg k (.relMpf id blk)).ercd = some E_OK) ∧
        (blk ∉ (k.mpf i).held → exec cfg k (.relMpf id blk) = .err k E_PAR)) ∧
      (∀ id blk t k', Step cfg k (.call (.relMpf id blk)) k' → index id = i →
        (exec cfg k (.relMpf id blk)).ercd = some E_OK → k.core.headTsk (.MPF, i) = some t →
        k'.mpf i = k.mpf i ∧ k.core.served k'.core (.MPF, i) = [t] ∧
          (k'.core.tcb t).winfo.blk = blk) ∧
      (∀ es k', Run cfg k es k' → (∀ e ∈ es, e.leaves (.wobj .MPF) i) →
        MpfObs.Balance (Trans.observe (Kernel.step cfg) (mpfObs cfg i) k es) (k.mpf i).held
          (k'.mpf i).held) ∧
      ∀ e k', Step cfg k e k' → (∀ call id, e = .call call →
        call.object = some (.wobj .MPF, id) → index id ≠ i) →
        k'.mpf i = k.mpf i ∧ mpfObs cfg i k e k' = []) ∧
    (∀ i, ((boot cfg).mpf i).held = []) ∧
    ∀ i e k', Step cfg k e k' → k'.core.atr (.wobj .MPF) i ≠ TA_NOEXS →
      k.core.atr (.wobj .MPF) i = TA_NOEXS ∨ (∃ call, e = .call call ∧
        call.ini = some (.wobj .MPF, toId i) ∧ (exec cfg k call).ercd = some E_OK) →
      (k'.mpf i).held = [] := by
  have hnil {p : MPFCB} (hu : p.unused = 0) : p.held = [] := congrArg _ (MPFCB.alloc_nil hu)
  refine ⟨fun i hi ha => ?_, fun i => hnil rfl, fun i e k' hs hi' ho => ?_⟩
  · have hv := h.mpfInv hi
    obtain ⟨fs, hfs⟩ := hv.wf ha.blkcnt_lt
    refine ⟨⟨ha.held_nodup hfs.unused, fun blk hblk => ?_⟩, ⟨fs, hfs.list, hfs.list.nodup, hfs.free,
      hfs.unused, hfs.fblkcnt⟩, hv.wait, fun id blk hid hl => ?_, fun id blk t k' hs hid hok ht => ?_,
      fun es k' hrun hl => ?_, fun e k' hs hn => ⟨(mpf_other h hs hi hn).1, mpfObs_other h hs hi hn⟩⟩
    · obtain ⟨j, hj, rfl⟩ := List.mem_map.1 hblk
      obtain ⟨hlt, hal⟩ := MPFCB.mem_alloc.1 hj
      have hlt := Nat.lt_of_lt_of_le hlt hfs.unused
      exact ⟨j, hlt, hal, ha.blkAddr hlt⟩
    · subst hid
      obtain ⟨hyes, hno⟩ := relMpf_exec hi hl
      have hvalid : (k.mpf (index id)).validBlk blk = true ↔ blk ∈ (k.mpf (index id)).held :=
        ha.validBlk hfs.unused
      exact ⟨fun hm => hyes (hvalid.2 hm), fun hm => hno (Bool.eq_false_iff.2 fun ht => hm (hvalid.1 ht))⟩
    · subst hid
      have hcall := mpfCall_step h.runInv hs rfl
      rw [hok] at hcall
      generalize (exec cfg k _).out = out at hcall
      cases hcall with
      | err he => exact absurd rfl he
      | hand hc hv hblk hh hmpf =>
        cases hc
        obtain rfl : t = _ := Option.some.inj (ht.symm.trans hh.head)
        refine ⟨by rw [hmpf], (hh.tail h.runInv.inv).2.1, ?_⟩
        rw [hh.self]
      | rel hc hv hblk hq => exact absurd (ht.symm.trans hq) (by simp)
      | ref hc | get hc | ini hc | del hc => cases hc
    · have hobs := Trans.Run.observed (mpfObs cfg i) (I := Reachable cfg)
        (P := fun e => e.leaves (.wobj .MPF) i)
        (R := fun s l t => t.core.atr (.wobj .MPF) i ≠ TA_NOEXS ∧ (t.mpf i).Area ∧
          MpfObs.Balance l (s.mpf i).held (t.mpf i).held) hrun hl
        (fun t e u ht hs => ht.step hs) h ⟨hi, ha, .nil _⟩ fun t e u l ht he hR hs => ?_
      · exact hobs.2.2
      · obtain ⟨hs', hb⟩ := mpf_balance ht hs hR.1 hR.2.1.blkcnt_lt he
        refine ⟨?_, hR.2.1.of_shape hs', hR.2.2.trans hb⟩
        rw [ht.atr_keep hs hR.1 fun call hc => (he call hc).1]
        exact hR.1
  · rcases ho with hn | ⟨call, rfl, hc, hok⟩
    · exact hnil (mpf_new h hs hn hi').2
    · cases call <;> cases hc
      have hcall := mpfCall_step h.runInv hs rfl
      rw [hok] at hcall
      rw [← index_toId i]
      generalize (exec cfg k _).out = out at hcall
      cases hcall with
      | err he => exact absurd rfl he
      | ini _ _ _ hmpf =>
        rw [hmpf, Function.update_self]
        exact hnil rfl
      | ref hc | get hc | hand hc | rel hc | del hc => cases hc

/-- The first task holds the block and waits for another one. -/
theorem reachable_mpf_held : ∃ k, Kernel.steps .small [.call (.actTsk 2), .call (.getMpf 1),
      .call (.getMpf 1)] = some k ∧ (k.mpf 0).held = [0x1000] ∧ (k.mpf 0).fblkcnt = 0 ∧
    (exec .small k (.relMpf 1 0x1000)).ercd = some E_OK ∧
    exec .small k (.relMpf 1 0x1004) = .err k E_PAR ∧
    ∀ es k', Run .small k es k' → (∀ e ∈ es, e.leaves (.wobj .MPF) 0) →
      MpfObs.Balance (Trans.observe (Kernel.step .small) (mpfObs .small 0) k es) [0x1000]
        (k'.mpf 0).held := by
  have h : ((Kernel.steps .small [.call (.actTsk 2), .call (.getMpf 1), .call (.getMpf 1)]).any fun k =>
      decide ((k.mpf 0).held = [0x1000] ∧ (k.mpf 0).shape = (1, 16, 0x1000, 0x1800) ∧
        k.core.sched.queue (.wait (.MPF, 0)) ≠ [] ∧ k.core.atr (.wobj .MPF) 0 ≠ TA_NOEXS) &&
      ((Call.relMpf 1 0x1000).checks .small k.core).all (·.1) &&
      ((Call.relMpf 1 0x1004).checks .small k.core).all (·.1)) = true := by
    decide +kernel
  obtain ⟨k, hk, h⟩ := (Option.any_eq_true _ _).1 h
  rw [Bool.and_eq_true, Bool.and_eq_true] at h
  obtain ⟨⟨h, hl1⟩, hl2⟩ := h
  obtain ⟨hheld, hshape, hq, ha⟩ := of_decide_eq_true h
  have harea : (k.mpf 0).Area :=
    MPFCB.Area.of_shape (p := ⟨1, 16, 0x1000, 0x1800, fun _ => 0, 0, 0, 0⟩)
      ⟨by decide, by decide, by decide, by decide⟩ hshape
  obtain ⟨-, -, hwait, hrel, -, hrun, -⟩ := (reachable_mpf (reachable_of_steps hk)).1 0 ha harea
  rw [hheld] at hrel hrun
  refine ⟨k, hk, hheld, hwait hq, ?_, ?_, hrun⟩
  · exact (hrel 1 0x1000 rfl (List.all_eq_true.1 hl1)).1 (by decide)
  · exact (hrel 1 0x1004 rfl (List.all_eq_true.1 hl2)).2 (by decide)

/-- A pool of three blocks of 2 GiB: the third block has the address of the first one. -/
theorem not_mpf_distinct : ¬∀ (cfg : Cfg) (es : List Event) (k : Kernel) (i : Nat), Run cfg (boot cfg) es k →
    (∀ e ∈ es, e.leaves (.wobj .MPF) i) →
    (Trans.observe (Kernel.step cfg) (mpfObs cfg i) (boot cfg) es).filterMap MpfObs.returned = [] →
    ((Trans.observe (Kernel.step cfg) (mpfObs cfg i) (boot cfg) es).filterMap MpfObs.got).Nodup := by
  intro h
  obtain ⟨es, hes⟩ : ∃ es : List Event, es = [.call (.acreMpf ⟨TA_NULL, 3, 0x80000000, 0, 0⟩ 0x20000000 0x1000),
      .call (.getMpf 2), .call (.getMpf 2), .call (.getMpf 2)] := ⟨_, rfl⟩
  have hobs : Trans.observe (Kernel.step .dynMpf) (mpfObs .dynMpf 1) (boot .dynMpf) es =
      [.get 0x20000000, .get 0xa0000000, .get 0x20000000] := by
    subst hes
    decide +kernel
  have hrun : (Kernel.steps .dynMpf es).isSome = true := by
    subst hes
    decide +kernel
  obtain ⟨k, hk⟩ := Option.isSome_iff_exists.1 hrun
  have hl : ∀ e ∈ es, e.leaves (.wobj .MPF) 1 := by
    subst hes
    simp [Event.leaves, Call.del, Call.ini]
  have hn := h _ _ k 1 (Trans.Run.of_foldlM hk) hl
  rw [hobs] at hn
  exact absurd (hn rfl) (by decide)

end

end AspKernel
