import Mathlib.Data.Nat.Bitwise

/-! Sizes that are rounded up to a multiple of a power of 2, in words of a fixed width. -/

namespace RoundUp
set_option autoImplicit true

/-- The least multiple of the unit that holds the size. -/
def up (unit n : Nat) : Nat := (n + unit - 1) / unit * unit

theorem le_up (hu : 0 < unit) : n ≤ up unit n := by
  have hlt := Nat.lt_div_mul_add hu (a := n + unit - 1)
  unfold up
  omega

/-- A size whose round-up has a width of `w` bits does not wrap while it is rounded up. -/
theorem up_fits (hk : k ≤ w) (h : up (2 ^ k) n < 2 ^ w) : n + 2 ^ k - 1 < 2 ^ w := by
  obtain ⟨d, rfl⟩ := Nat.exists_eq_add_of_le hk
  have hpos : 0 < 2 ^ k := Nat.two_pow_pos k
  unfold up at h
  rw [Nat.pow_add, Nat.mul_comm (2 ^ k)] at h ⊢
  have hq : (n + 2 ^ k - 1) / 2 ^ k < 2 ^ d := Nat.lt_of_mul_lt_mul_right h
  exact (Nat.div_lt_iff_lt_mul hpos).1 hq

section
variable {w k : Nat}

theorem and_not_low (x : BitVec w) (hk : k < w) :
    (x &&& ~~~(BitVec.ofNat w (2 ^ k - 1))).toNat = x.toNat / 2 ^ k * 2 ^ k := by
  refine Nat.eq_of_testBit_eq fun i => ?_
  rw [BitVec.testBit_toNat, BitVec.getLsbD_and, BitVec.getLsbD_not, Nat.testBit_mul_two_pow,
    BitVec.getLsbD_ofNat, Nat.testBit_two_pow_sub_one, Nat.testBit_div_two_pow]
  by_cases hi : i < w
  · by_cases hik : k ≤ i
    · simp [hi, hik, BitVec.testBit_toNat, Nat.not_lt.2 hik]
    · simp [hi, hik, Nat.lt_of_not_le hik]
  · have hki : k ≤ i := by omega
    have hx : x.toNat.testBit i = false := by
      rw [BitVec.testBit_toNat]
      exact BitVec.getLsbD_of_ge x i (Nat.not_lt.1 hi)
    rw [Nat.sub_add_cancel hki, hx]
    simp [hi]

theorem shift_sub_one (hk : k < w) : (1#w <<< k) - 1#w = BitVec.ofNat w (2 ^ k - 1) := by
  have hpos : 0 < 2 ^ k := Nat.two_pow_pos k
  have hlt : 2 ^ k < 2 ^ w := Nat.pow_lt_pow_right (by decide) hk
  have hsh : 1#w <<< k = BitVec.ofNat w (2 ^ k) := by
    refine BitVec.eq_of_toNat_eq ?_
    have h1 : 1 < 2 ^ w := Nat.lt_of_le_of_lt hpos hlt
    rw [BitVec.toNat_shiftLeft, BitVec.toNat_ofNat, BitVec.toNat_ofNat, Nat.mod_eq_of_lt h1,
      Nat.shiftLeft_eq, Nat.one_mul]
  rw [hsh]
  exact BitVec.ofNat_sub_ofNat_of_le _ _ (Nat.lt_of_le_of_lt hpos hlt) hpos

/-- The round-up of a word, where it does not wrap. -/
theorem toNat_up (x : BitVec w) (hk : k < w) (h : up (2 ^ k) x.toNat < 2 ^ w) :
    ((x + (1#w <<< k) - 1#w) &&& ~~~((1#w <<< k) - 1#w)).toNat = up (2 ^ k) x.toNat := by
  have hpos : 0 < 2 ^ k := Nat.two_pow_pos k
  have hlt : 2 ^ k < 2 ^ w := Nat.pow_lt_pow_right (by decide) hk
  have hx := up_fits (Nat.le_of_lt hk) h
  have hadd : x.toNat + (2 ^ k - 1) = x.toNat + 2 ^ k - 1 := (Nat.add_sub_assoc hpos _).symm
  rw [BitVec.sub_eq_add_neg, BitVec.add_assoc, ← BitVec.sub_eq_add_neg, shift_sub_one hk, and_not_low _ hk, BitVec.toNat_add, BitVec.toNat_ofNat,
    Nat.mod_eq_of_lt (Nat.lt_of_le_of_lt (Nat.sub_le _ _) hlt), hadd, Nat.mod_eq_of_lt hx]
  rfl

/-- The product of a word and a number, where it does not wrap. -/
theorem toNat_mul (a : BitVec w) (ha : 0 < a.toNat) (h : a.toNat * n < 2 ^ w) :
    (a * BitVec.ofNat w n).toNat = a.toNat * n := by
  have hn : n < 2 ^ w := Nat.lt_of_le_of_lt (Nat.le_mul_of_pos_left n ha) h
  rw [BitVec.toNat_mul, BitVec.toNat_ofNat, Nat.mod_eq_of_lt hn, Nat.mod_eq_of_lt h]

/-- A word is at least a number exactly if this is not too large, where it is the number then. -/
theorem le_toNat_iff (a : BitVec w) (h : n < 2 ^ w → a.toNat = n) : n ≤ a.toNat ↔ n < 2 ^ w :=
  ⟨fun hle => Nat.lt_of_le_of_lt hle a.isLt, fun hlt => Nat.le_of_eq (h hlt).symm⟩

end

end RoundUp
