import AspKernel.Tlsf
import AspKernel.Lib.BitScan
import AspKernel.Lib.RoundUp
import AspKernel.Lib.SizeClass

/-! The bit functions of the allocator, and the mapping of sizes to the indices of the lists. -/

namespace AspKernel.Tlsf
set_option autoImplicit true
open WordMem

section
variable {m : Mem} {x i n r s : Nat}

theorem table_eq : ∀ y < 256, y ≠ 0 → table.getD y 0 = (y.log2 : Int) := by decide +kernel

theorem log2_shiftRight (h : 2 ^ n ≤ x) : (x >>> n).log2 + n = x.log2 := by
  have hx : x ≠ 0 := Nat.ne_of_gt ((Nat.two_pow_pos n).trans_le h)
  have hs : x >>> n ≠ 0 := by
    rw [Nat.shiftRight_eq_div_pow]
    exact Nat.ne_of_gt (Nat.div_pos h (Nat.two_pow_pos n))
  have hn : n ≤ x.log2 := (Nat.le_log2 hx).2 h
  have h1 : x.log2 - n = (x >>> n).log2 := by
    apply Nat.le_antisymm
    · apply (Nat.le_log2 hs).2
      rw [Nat.shiftRight_eq_div_pow]
      apply (Nat.le_div_iff_mul_le (Nat.two_pow_pos n)).2
      rw [← Nat.pow_add, Nat.sub_add_cancel hn]
      exact Nat.log2_self_le hx
    · apply Nat.le_sub_of_add_le
      apply (Nat.le_log2 hx).2
      rw [Nat.pow_add]
      apply (Nat.le_div_iff_mul_le (Nat.two_pow_pos n)).1
      rw [← Nat.shiftRight_eq_div_pow]
      exact Nat.log2_self_le hs
  omega

theorem bitOf_eq (hx : x ≠ 0) (h : x < 2 ^ 32) : bitOf x = x.log2 := by
  have hat (n : Nat) (h1 : 2 ^ n ≤ x) (h2 : x < 2 ^ n * 256) :
      table.getD (x >>> n) 0 + (n : Int) = x.log2 := by
    have hlt : x >>> n < 256 := by
      rw [Nat.shiftRight_eq_div_pow]
      exact Nat.div_lt_of_lt_mul h2
    have hne : x >>> n ≠ 0 := by
      rw [Nat.shiftRight_eq_div_pow]
      exact Nat.ne_of_gt (Nat.div_pos h1 (Nat.two_pow_pos n))
    rw [table_eq _ hlt hne, ← log2_shiftRight h1]
    rfl
  unfold bitOf
  by_cases h16 : x ≤ 0xffff
  · by_cases h8 : x ≤ 0xff
    · simp only [h16, h8, if_true]
      exact hat 0 (by omega) (by omega)
    · simp only [h16, h8, if_true, if_false]
      exact hat 8 (by omega) (by omega)
  · by_cases h24 : x ≤ 0xffffff
    · simp only [h16, h24, if_true, if_false]
      exact hat 16 (by omega) (by omega)
    · simp only [h16, h24, if_false]
      exact hat 24 (by omega) (by omega)

theorem msBit_eq (hx : x ≠ 0) (h : x < 2 ^ 32) : msBit x = x.log2 := bitOf_eq hx h

theorem lsBit_zero : lsBit 0 = -1 := by decide

theorem lsBit_eq (hi : BitScan.Lowest x i) (h : x < 2 ^ 32) : lsBit x = i := by
  have hx := hi.ne_zero
  have hneg : sub32 0 x = 2 ^ 32 - x := by
    unfold sub32
    omega
  unfold lsBit
  rw [hneg, hi.and_neg h, bitOf_eq (Nat.ne_of_gt (Nat.two_pow_pos i)), Nat.log2_two_pow]
  exact Nat.pow_lt_pow_right (by decide) (hi.lt h)

theorem setBit_eq (hn : n < 32) (a : Nat) : setBit m n a = m.set a (m a ||| 1 <<< n) := by
  have h1 : n >>> 5 = 0 := by
    rw [Nat.shiftRight_eq_div_pow]
    omega
  have h2 : n &&& 0x1f = n := by
    rw [show 0x1f = 2 ^ 5 - 1 from rfl, Nat.and_two_pow_sub_one_eq_mod]
    omega
  unfold setBit
  rw [h1, h2]
  rfl

theorem clearBit_eq (hn : n < 32) (a : Nat) :
    clearBit m n a = m.set a (m a &&& (2 ^ 32 - 1 - 1 <<< n)) := by
  have h1 : n >>> 5 = 0 := by
    rw [Nat.shiftRight_eq_div_pow]
    omega
  have h2 : n &&& 0x1f = n := by
    rw [show 0x1f = 2 ^ 5 - 1 from rfl, Nat.and_two_pow_sub_one_eq_mod]
    omega
  unfold clearBit
  rw [h1, h2]
  rfl

theorem add32_eq (h : a + b < 2 ^ 32) : add32 a b = a + b := Nat.mod_eq_of_lt h

theorem sub32_eq (h : b ≤ a) (ha : a < 2 ^ 32) : sub32 a b = a - b := by
  unfold sub32
  omega

/-- Low bits are cut off. -/
theorem and_not32 (h : x < 2 ^ 32) (hn : n ≤ 32) : x &&& not32 (2 ^ n - 1) = x / 2 ^ n * 2 ^ n := by
  have hp := Nat.two_pow_pos n
  have hmod := Nat.mod_lt x hp
  have hx : 2 ^ n * (x / 2 ^ n) + x % 2 ^ n = x := Nat.div_add_mod x (2 ^ n)
  have hand := BitScan.and_not_tag (w := 32) (q := x / 2 ^ n) (hx.symm ▸ h) hmod (Nat.sub_lt hp Nat.one_pos) hn
  rw [hx, Nat.sub_self, Nat.and_zero, Nat.add_zero] at hand
  exact hand.trans (Nat.mul_comm ..)

theorem roundupSize_eq (h : r + 7 < 2 ^ 32) : roundupSize r = RoundUp.up 8 r := by
  unfold roundupSize MEM_ALIGN
  rw [add32_eq h]
  exact and_not32 (n := 3) h (by decide)

theorem rounddownSize_eq (h : r < 2 ^ 32) : rounddownSize r = r / 8 * 8 := and_not32 (n := 3) h (by decide)

/-- What a block is asked for is the request rounded up, and room for the links of a free block. -/
theorem blockSize_eq (h : s + 7 < 2 ^ 32) : blockSize s = max 8 (RoundUp.up 8 s) := by
  unfold blockSize MIN_BLOCK_SIZE
  split
  · have hup : RoundUp.up 8 s ≤ 8 := by
      unfold RoundUp.up
      omega
    exact (Nat.max_eq_left hup).symm
  · have hle : s ≤ RoundUp.up 8 s := RoundUp.le_up (by decide)
    rw [roundupSize_eq h]
    omega

/-- The list of a free block. -/
abbrev clsOf (s : Nat) : Nat × Nat := SizeClass.cls 5 6 s

theorem mappingInsert_eq (h : r < 2 ^ 32) : mappingInsert r = clsOf r := by
  unfold mappingInsert SMALL_BLOCK
  by_cases hr : r < 128
  · rw [clsOf, SizeClass.cls_of_lt hr]
    exact if_pos hr
  · apply (if_neg hr).trans
    simp only [msBit_eq (by omega) h, Int.toNat_natCast, Nat.shiftRight_eq_div_pow]
    exact (SizeClass.cls_of_not_lt hr).symm

/-- The size that is searched for is the smallest one of the class in which the search begins. -/
theorem mappingSearch_eq (h : r ≤ 2 ^ 30 - 2 ^ 24) (h4 : 4 ∣ r) : ∃ c : Nat × Nat,
    mappingSearch r = (SizeClass.round 5 6 r, c) ∧ c.1 < 24 ∧ c.2 < 32 ∧
      SizeClass.lower 5 6 c = SizeClass.round 5 6 r := by
  unfold mappingSearch SMALL_BLOCK
  by_cases hr : r < 128
  · have hround := SizeClass.round_of_lt (L := 5) (o := 6) hr
    refine ⟨(0, r / 4), ?_, Nat.zero_lt_succ _, ?_, ?_⟩
    · rw [hround]
      exact if_pos hr
    · change r / 4 < 32
      omega
    · rw [hround]
      exact Nat.div_mul_cancel h4
  · have hne : r ≠ 0 := by omega
    have hlog : r.log2 < 30 := (Nat.log2_lt hne).2 (by omega)
    have ht : 1 <<< (r.log2 - MAX_LOG2_SLI) - 1 = SizeClass.width 5 r - 1 := by
      rw [Nat.one_shiftLeft]
      rfl
    have hwidth : SizeClass.width 5 r ≤ 2 ^ 24 := Nat.pow_le_pow_right (by decide) (by omega)
    have hpos := SizeClass.width_pos 5 r
    have hsum : r + (SizeClass.width 5 r - 1) < 2 ^ 30 := by omega
    have hs : ¬r + (SizeClass.width 5 r - 1) < 128 := by omega
    have hcut : (r + (SizeClass.width 5 r - 1)) &&& not32 (SizeClass.width 5 r - 1) = SizeClass.round 5 6 r := by
      rw [SizeClass.round_of_not_lt hr]
      exact and_not32 (by omega) (by omega)
    refine ⟨clsOf (r + (SizeClass.width 5 r - 1)), ?_, SizeClass.cls_fst_lt hsum (by decide),
      SizeClass.cls_snd_lt (by decide) _, SizeClass.lower_cls_round (by decide) hr⟩
    apply (if_neg hr).trans
    simp only [msBit_eq hne (by omega : r < 2 ^ 32), Int.toNat_natCast, ht]
    rw [add32_eq (by omega), msBit_eq (by omega) (by omega), Int.toNat_natCast, hcut,
      Nat.shiftRight_eq_div_pow]
    exact congrArg _ (SizeClass.cls_of_not_lt hs).symm

end

end AspKernel.Tlsf
