import AspKernel.TlsfRealloc

/-! The pool after its initialisation, and the pool in which nothing is allocated. -/

namespace AspKernel.Tlsf
set_option autoImplicit true
open WordMem

/-- The block that holds the data of the area. -/
def areaBlk (P : Nat) : Blk := ⟨P + 3184, 8, false⟩

/-- The header that ends the area in a pool of `S` bytes. -/
def poolEnd (P S : Nat) : Nat := P + 3176 + (S - 3180) / 8 * 8

section
variable {m : Mem} {P e S x : Nat} {bs : List Blk} {ls : Lists} {b : Blk}

theorem mem_used : b ∈ used bs ↔ b ∈ bs ∧ b.free = false := by
  unfold used
  rw [List.mem_filter]
  simp

/-- Where only the data of the area is in use, all the rest is one free block. -/
theorem Heap.whole (h : Heap m P e bs ls) (harea : areaBlk P ∈ bs)
    (hu : ∀ b ∈ bs, b.free = false → b = areaBlk P) (he : P + 3200 < e) :
    bs = [areaBlk P, ⟨P + 3200, e - (P + 3208), true⟩] := by
  have hblocks := h.blocks
  cases bs with
  | nil => cases harea
  | cons b bs =>
    obtain ⟨hb, hrest⟩ := hblocks
    have haddr := hb.addr
    have hfirst : b = areaBlk P := by
      rcases List.mem_cons.1 harea with h1 | h1
      · exact h1.symm
      · have hge := (hrest.mem h1).1
        have hmin := hb.min
        change P + 3184 + 8 + b.size ≤ P + 3184 at hge
        omega
    subst hfirst
    have hfree (c : Blk) (hc : c ∈ bs) : c.free = true := by
      by_contra hf
      have hca := hu c (List.mem_cons_of_mem _ hc) (Bool.eq_false_iff.2 hf)
      have hge := (hrest.mem hc).1
      rw [hca] at hge
      change P + 3184 + 8 + 8 ≤ P + 3184 at hge
      omega
    change Suffix m none (P + 3200) bs e at hrest
    cases bs with
    | nil =>
      have hend := hrest.1
      omega
    | cons c bs =>
      obtain ⟨hc, hrest⟩ := hrest
      have hcf := hfree c (List.mem_cons_self ..)
      have hback : c.back = some c.addr := by
        unfold Blk.back
        rw [hcf]
        rfl
      rw [hback] at hrest
      cases bs with
      | nil =>
        have hend := hrest.1
        have hca := hc.addr
        obtain ⟨ca, cs, cf⟩ := c
        simp only at hca hcf hend
        simp only [hca, hcf, Blk.mk.injEq, List.cons.injEq, true_and, and_true]
        omega
      | cons d bs =>
        have hd := hfree d (List.mem_cons_of_mem c (List.mem_cons_self ..))
        have hnone := hrest.1.apart hd
        cases hnone

/-- The lists of a pool without free blocks. -/
theorem index_nil (h : ∀ x, P + 8 ≤ x → x + 4 ≤ P + 3180 → m x = 0) : Index m P fun _ _ => [] := by
  have hfl : m (flBitmap P) = 0 := h _ (by unfold flBitmap; omega) (by unfold flBitmap; omega)
  refine ⟨?_, ?_, ?_, ?_, ?_⟩
  · intro i j hne
    exact absurd rfl hne
  · intro i
    rw [hfl, Nat.zero_testBit]
    simp
  · intro i hi j
    have hsl : m (slBitmap P i) = 0 := h _ (by unfold slBitmap; omega) (by unfold slBitmap; omega)
    rw [hsl, Nat.zero_testBit]
    simp
  · intro i hi j hj
    exact h _ (by rw [matrix_eq]; omega) (by rw [matrix_eq]; omega)
  · intro i j
    trivial

/-- The writes of `process_area`. -/
theorem processArea_eq (h8 : 8 ∣ T) (h64 : 64 ≤ T) (hT : T ≤ 2 ^ 30) : processArea m (P + 3184) T =
    ((((((((m.set (P + 3188) 8).set (P + 3204) (T - 32)).set (P + 3212) NULL).set (P + 3208) NULL).set (P + 3176 + T)
      (P + 3200)).set (P + 3176 + T + 4) 2).set (P + 3196) NULL).set (P + 3192) (P + 3176 + T), P + 3184) := by
  have harea : (if sizeofAreaInfo < MIN_BLOCK_SIZE then MIN_BLOCK_SIZE
      else roundupSize sizeofAreaInfo ||| USED_BLOCK ||| PREV_USED) = 8 := by decide
  have hmask8 : 8 &&& BLOCK_SIZE = 8 := by decide
  have hlast : 0 ||| USED_BLOCK ||| PREV_FREE = 2 := by decide
  have hsub : sub32 (sub32 T (3 * BHDR_OVERHEAD)) 8 = T - 32 := by
    have h3 : 3 * BHDR_OVERHEAD = 24 := by decide
    have h24 : sub32 T 24 = T - 24 := sub32_eq (by omega) (by omega)
    rw [h3, h24, sub32_eq (by omega) (by omega)]
    omega
  have hsize : rounddownSize (sub32 (sub32 T (3 * BHDR_OVERHEAD)) 8) ||| USED_BLOCK ||| PREV_USED = T - 32 := by
    rw [hsub, rounddownSize_eq (by omega)]
    unfold USED_BLOCK PREV_USED
    rw [Nat.or_zero, Nat.or_zero]
    omega
  have h4 : 4 ∣ T - 32 := by omega
  have hlt : T - 32 < 2 ^ 30 := by omega
  have hmask : T - 32 &&& BLOCK_SIZE = T - 32 := tagWord_size h4 hlt false false
  have hend : P + 3208 + (T - 32) = P + 3176 + T := by omega
  unfold processArea
  simp only [harea, Bhdr.size, Bhdr.buffer, Bhdr.next, Bhdr.prev, Bhdr.prevHdr, AreaInfo.next, AreaInfo.endHdr,
    getNextBlock, Mem.set_self, hmask8, hsize]
  rw [Mem.set_ne (by omega), Mem.set_ne (by omega), Mem.set_self, hmask, hlast]
  simp only [show P + 3184 + 8 + 8 + 8 + (T - 32) = P + 3176 + T from hend]

/-- The area is a used block of its own data, a used block of the rest, and the end. -/
theorem processArea_spec (h : ∀ x, P + 8 ≤ x → x + 4 ≤ P + 3180 → m x = 0) (h8 : 8 ∣ T) (h64 : 64 ≤ T)
    (hT : T ≤ 2 ^ 30) : ∃ m', processArea m (P + 3184) T = (m', P + 3184) ∧
      Hole m' P (P + 3176 + T) [areaBlk P] [] (P + 3200) (T - 32) false (some (P + 3200)) (fun _ _ => []) ∧
      m' (P + 3196) = NULL ∧ ∀ x, (x < P + 3184 ∨ P + 3184 + T ≤ x) → m' x = m x := by
  have hlow (m' : Mem) (hm' : processArea m (P + 3184) T = (m', P + 3184)) :
      m' (P + 3188) = 8 ∧ m' (P + 3204) = T - 32 ∧ m' (P + 3176 + T) = P + 3200 ∧ m' (P + 3176 + T + 4) = 2 ∧
        m' (P + 3196) = NULL ∧ ∀ x, (x < P + 3184 ∨ P + 3184 + T ≤ x) → m' x = m x := by
    have heq := congrArg Prod.fst ((processArea_eq h8 h64 hT).symm.trans hm')
    subst heq
    refine ⟨?_, ?_, ?_, ?_, ?_, ?_⟩
    · rw [Mem.set_ne (by omega), Mem.set_ne (by omega), Mem.set_ne (by omega), Mem.set_ne (by omega),
        Mem.set_ne (by omega), Mem.set_ne (by omega), Mem.set_ne (by omega), Mem.set_self]
    · rw [Mem.set_ne (by omega), Mem.set_ne (by omega), Mem.set_ne (by omega), Mem.set_ne (by omega),
        Mem.set_ne (by omega), Mem.set_ne (by omega), Mem.set_self]
    · rw [Mem.set_ne (by omega), Mem.set_ne (by omega), Mem.set_ne (by omega), Mem.set_self]
    · rw [Mem.set_ne (by omega), Mem.set_ne (by omega), Mem.set_self]
    · rw [Mem.set_ne (by omega), Mem.set_self]
    · intro x hx
      rw [Mem.set_ne (by omega), Mem.set_ne (by omega), Mem.set_ne (by omega), Mem.set_ne (by omega),
        Mem.set_ne (by omega), Mem.set_ne (by omega), Mem.set_ne (by omega), Mem.set_ne (by omega)]
  obtain ⟨m', hm'⟩ : ∃ m', processArea m (P + 3184) T = (m', P + 3184) := ⟨_, processArea_eq h8 h64 hT⟩
  obtain ⟨harea, hblock, hback, hlast, hnext, hkeep⟩ := hlow m' hm'
  have hpost : P + 3200 + 8 + (T - 32) = P + 3176 + T := by omega
  refine ⟨m', hm', ⟨⟨?_, rfl⟩, ⟨hblock, by simp [areaBlk, lastBack, Blk.back]⟩, by omega, by omega,
    ⟨hpost, ?_⟩, ?_, ?_, by omega⟩, hnext, hkeep⟩
  · exact ⟨rfl, Nat.dvd_refl 8, Nat.le_refl 8, ⟨harea, by simp⟩, by simp⟩
  · rw [hpost]
    refine ⟨hlast, ?_⟩
    intro q hq
    exact hback.trans (Option.some.inj hq)
  · apply index_nil
    intro x h1 h2
    exact (hkeep x (.inl (by omega))).trans (h x h1 h2)
  · refine ⟨fun _ _ => List.nodup_nil, ?_⟩
    intro a i j
    constructor
    · intro ha
      cases ha
    · rintro ⟨b, hb, hf, -⟩
      rcases List.mem_cons.1 hb with rfl | hb
      · cases hf
      · cases hb

/-- The words in front of the bitmaps are no part of the blocks and of the lists. -/
theorem Heap.setLow (h : Heap m P e bs ls) (hx : x < P + 8) (v : Nat) : Heap (m.set x v) P e bs ls := by
  have hle := h.blocks.le
  refine ⟨?_, h.index.set ⟨.inl hx, ?_⟩ v, h.indexed, h.small⟩
  · apply h.blocks.congr
    · intro b hb
      have hm := (h.blocks.mem hb).1
      exact ⟨Mem.set_ne (by unfold Bhdr.size; omega), Mem.set_ne (by unfold Bhdr.prevHdr; omega)⟩
    · exact ⟨Mem.set_ne (by unfold Bhdr.size; omega), Mem.set_ne (by unfold Bhdr.prevHdr; omega)⟩
  · intro a ha
    have hab := h.nodes.above a ha
    unfold Bhdr.prev Bhdr.next
    omega

theorem Heap.size_eq (h : Heap m P e bs ls) (hb : b ∈ bs) : m (Bhdr.size b.addr) &&& BLOCK_SIZE = b.size := by
  obtain ⟨L, R, rfl⟩ := List.append_of_mem hb
  obtain ⟨a, hL, hba, hR⟩ := suffix_append.1 h.blocks
  have hle := hL.le
  have hend := hR.le
  have hsm := h.small
  have hdvd := hba.dvd
  rw [hba.addr, hba.ctl.word]
  exact tagWord_size (by omega) (by omega) _ _

/-- What `init_memory_pool` makes of a place that is not a pool yet. -/
theorem initMemoryPool_spec (hP : P ≠ NULL) (h4 : P &&& PTR_MASK = 0) (hS : 3244 ≤ S) (hS' : S ≤ 2 ^ 30)
    (hsig : m P ≠ TLSF_SIGNATURE) : ∃ ls,
      Heap (initMemoryPool m S P).1 P (poolEnd P S)
        [areaBlk P, ⟨P + 3200, poolEnd P S - (P + 3208), true⟩] ls ∧
      (initMemoryPool m S P).2 = poolEnd P S - (P + 3208) ∧
      (initMemoryPool m S P).1 (areaHead P) = P + 3192 ∧ (initMemoryPool m S P).1 (P + 3196) = NULL ∧
      ∀ x, (x < P ∨ poolEnd P S + 8 ≤ x) → (initMemoryPool m S P).1 x = m x := by
  let T := (S - 3180) / 8 * 8
  have hround : rounddownSize (sub32 S sizeofTlsf) = T := by
    rw [show sub32 S sizeofTlsf = S - 3180 from sub32_eq (show 3180 ≤ S by omega) (by omega)]
    exact rounddownSize_eq (by omega)
  have hup : roundupSize sizeofTlsf = 3184 := by decide
  have hzero (x : Nat) (h1 : P + 8 ≤ x) (h2 : x + 4 ≤ P + 3180) :
      ((m.zero P sizeofTlsf).set (tlsfSignature P) TLSF_SIGNATURE) x = 0 := by
    rw [Mem.set_ne (by unfold tlsfSignature; omega)]
    exact Mem.zero_of_lt (by omega) h2
  obtain ⟨m₁, hm₁, h1, hnext, hframe⟩ := processArea_spec (T := T) hzero (by omega) (by omega) (by omega)
  have hcond : ¬(P = NULL ∨ S = 0 ∨ S < sizeofTlsf + BHDR_OVERHEAD * 8) := by
    rintro (h0 | h0 | h0)
    · exact hP h0
    · omega
    · change S < 3244 at h0
      omega
  have hmask8 : m₁ (P + 3184 + 4) &&& BLOCK_SIZE = 8 := by
    rw [show m₁ (P + 3184 + 4) = tagWord 8 false false from h1.pre.1.ctl.word]
    decide
  obtain ⟨bs, ls, h2, hu, hk⟩ := h1.freeEx
  have hpool : P + 3176 + T = poolEnd P S := rfl
  have h3 : Heap ((freeEx m₁ (P + 3200 + 8) P).set (areaHead P) (P + 3192)) P (poolEnd P S) bs ls :=
    h2.setLow (by unfold areaHead; omega) _
  have hused (b : Blk) : b ∈ bs ∧ b.free = false ↔ b = areaBlk P := by
    rw [← mem_used, hu]
    exact List.mem_singleton
  have hwhole := h3.whole ((hused _).2 rfl).1 (fun b hb hf => (hused b).1 ⟨hb, hf⟩) (by unfold poolEnd; omega)
  subst hwhole
  have hinit : initMemoryPool m S P = ((freeEx m₁ (P + 3200 + 8) P).set (areaHead P) (P + 3192),
      ((freeEx m₁ (P + 3200 + 8) P).set (areaHead P) (P + 3192)) (P + 3204) &&& BLOCK_SIZE) := by
    unfold initMemoryPool
    rw [if_neg hcond, if_neg (by simp [h4]), if_neg (show ¬m (tlsfSignature P) = TLSF_SIGNATURE from hsig)]
    simp only [hup, hround, getNextBlock, hm₁, Bhdr.size, Bhdr.buffer, hmask8]
  rw [hinit]
  refine ⟨ls, h3, h3.size_eq (b := ⟨P + 3200, poolEnd P S - (P + 3208), true⟩) (by simp), Mem.set_self, ?_, ?_⟩
  · rw [Mem.set_ne (by unfold areaHead; omega), hk, hnext]
    · refine ⟨.inr (by omega), .inl (by omega), ?_⟩
      intro c hc
      obtain rfl : c = areaBlk P := by simpa using hc
      refine .inr ⟨?_, by simp [areaBlk]⟩
      change P + 3184 + 8 ≤ P + 3196
      omega
    · exact .inl (by omega)
  · intro x hx
    rw [Mem.set_ne (by unfold areaHead; omega), hk, hframe x (by omega), Mem.set_ne (by unfold tlsfSignature; omega),
      Mem.zero_of_ne (by unfold sizeofTlsf REAL_FLI MAX_FLI FLI_OFFSET MAX_SLI MAX_LOG2_SLI; omega)]
    · refine ⟨by omega, by omega, ?_⟩
      intro c hc
      obtain rfl : c = areaBlk P := by simpa using hc
      have hfree : (areaBlk P).free = true → (areaBlk P).addr + 8 + (areaBlk P).size ≤ x := by simp [areaBlk]
      change x < P + 3184 ∨ P + 3184 + 8 ≤ x ∧ _
      rcases hx with hx | hx
      · exact .inl (by omega)
      · exact .inr ⟨by omega, hfree⟩
    · omega

end

end AspKernel.Tlsf
