import Mathlib.Data.Nat.Bitwise
import Mathlib.Data.Nat.Find

/-!
Words as sets of bits: the lowest bit of a word alone, the bits from a position on, one bit set
or cleared, and words with a tag in their low bits.
-/

namespace BitScan
set_option autoImplicit true

section
variable {w x n i j : Nat}

/-- `i` is the lowest bit of the word. -/
def Lowest (x i : Nat) : Prop := x.testBit i = true ∧ ∀ j < i, x.testBit j = false

theorem exists_lowest (hx : x ≠ 0) : ∃ i, Lowest x i := by
  have h : ∃ i, x.testBit i = true := Nat.exists_testBit_of_ne_zero hx
  refine ⟨Nat.find h, Nat.find_spec h, ?_⟩
  intro j hj
  exact Bool.eq_false_iff.2 (Nat.find_min h hj)

theorem Lowest.ne_zero (h : Lowest x i) : x ≠ 0 := by
  rintro rfl
  exact absurd h.1 (by simp)

theorem Lowest.lt (h : Lowest x i) (hx : x < 2 ^ w) : i < w := by
  by_contra hn
  have hlt : x < 2 ^ i := hx.trans_le (Nat.pow_le_pow_right (by decide) (Nat.not_lt.1 hn))
  rw [Lowest, Nat.testBit_lt_two_pow hlt] at h
  exact absurd h.1 (by simp)

/-- A word is an odd number above its lowest bit. -/
theorem Lowest.eq (h : Lowest x i) : ∃ q, x = 2 ^ i * (2 * q + 1) := by
  have hlow : x % 2 ^ i = 0 := by
    apply Nat.eq_of_testBit_eq
    intro j
    rw [Nat.testBit_mod_two_pow, Nat.zero_testBit]
    by_cases hj : j < i
    · rw [h.2 j hj, Bool.and_false]
    · rw [decide_eq_false hj, Bool.false_and]
  have hodd : x / 2 ^ i % 2 = 1 := by
    have hb := h.1
    rw [Nat.testBit_eq_decide_div_mod_eq] at hb
    exact of_decide_eq_true hb
  refine ⟨x / 2 ^ i / 2, ?_⟩
  have h1 := Nat.div_add_mod x (2 ^ i)
  have h2 := Nat.div_add_mod (x / 2 ^ i) 2
  rw [hodd] at h2
  rw [h2]
  omega

/-- A word and its negation have the lowest bit in common and no other one. -/
theorem Lowest.and_neg (h : Lowest x i) (hx : x < 2 ^ w) : x &&& (2 ^ w - x) = 2 ^ i := by
  obtain ⟨q, rfl⟩ := h.eq
  have hi : i < w := h.lt hx
  have hpos : 0 < 2 ^ i := Nat.two_pow_pos i
  have hpred : 2 ^ i * (2 * q + 1) = 2 ^ i * (2 * q) + (2 ^ i - 1) + 1 := by
    rw [Nat.mul_add, Nat.mul_one]
    omega
  have hlt : 2 ^ i * (2 * q) + (2 ^ i - 1) < 2 ^ w := by omega
  apply Nat.eq_of_testBit_eq
  intro j
  rw [Nat.testBit_and, Nat.testBit_two_pow]
  nth_rewrite 2 [hpred]
  rw [Nat.testBit_two_pow_sub_succ hlt, Nat.testBit_two_pow_mul_add _ (Nat.sub_lt hpos Nat.one_pos),
    Nat.testBit_two_pow_mul, Nat.testBit_two_pow_sub_one]
  rcases Nat.lt_trichotomy j i with hj | rfl | hj
  · rw [decide_eq_false (Nat.not_le.2 hj), Bool.false_and, Bool.false_and, decide_eq_false (Nat.ne_of_gt hj)]
  · rw [if_neg (Nat.lt_irrefl j), Nat.sub_self]
    simp [hi]
  · have hm : j - i = j - i - 1 + 1 := by omega
    rw [if_neg (Nat.not_lt.2 (Nat.le_of_lt hj)), hm, Nat.testBit_succ, Nat.testBit_succ,
      decide_eq_false (Nat.ne_of_lt hj)]
    have h1 : (2 * q + 1) / 2 = q := by omega
    have h2 : 2 * q / 2 = q := by omega
    rw [h1, h2]
    cases q.testBit (j - i - 1) <;> simp

/-- The bits from a position on. -/
theorem testBit_from (w x n j : Nat) : (x &&& ((2 ^ w - 1) <<< n) % 2 ^ w).testBit j =
    (x.testBit j && decide (n ≤ j ∧ j < w)) := by
  rw [Nat.testBit_and, Nat.testBit_mod_two_pow, Nat.testBit_shiftLeft, Nat.testBit_two_pow_sub_one]
  congr 1
  by_cases hn : n ≤ j
  · by_cases hw : j < w
    · have hs : j - n < w := by omega
      simp [hn, hw, hs]
    · simp [hw]
  · simp [hn]

theorem and_lt_two_pow_left (hx : x < 2 ^ w) (y : Nat) : x &&& y < 2 ^ w := Nat.lt_of_le_of_lt Nat.and_le_left hx

/-- One bit is set. -/
theorem testBit_set (x n j : Nat) : (x ||| 1 <<< n).testBit j = (x.testBit j || decide (j = n)) := by
  rw [Nat.testBit_or, Nat.one_shiftLeft, Nat.testBit_two_pow]
  simp [eq_comm]

/-- One bit is cleared. -/
theorem testBit_clear (hx : x < 2 ^ w) (hn : n < w) (j : Nat) :
    (x &&& (2 ^ w - 1 - 1 <<< n)).testBit j = (x.testBit j && !decide (j = n)) := by
  have hp : 2 ^ n < 2 ^ w := Nat.pow_lt_pow_right (by decide) hn
  have hm : 2 ^ w - 1 - 1 <<< n = 2 ^ w - (2 ^ n + 1) := by
    rw [Nat.one_shiftLeft]
    omega
  rw [Nat.testBit_and, hm, Nat.testBit_two_pow_sub_succ hp, Nat.testBit_two_pow]
  by_cases hj : j < w
  · simp [hj, eq_comm]
  · have hf : x.testBit j = false :=
      Nat.testBit_lt_two_pow (hx.trans_le (Nat.pow_le_pow_right (by decide) (Nat.not_lt.1 hj)))
    simp [hf]

theorem eq_zero_iff : x = 0 ↔ ∀ j, x.testBit j = false := by
  constructor
  · rintro rfl j
    exact Nat.zero_testBit j
  · intro h
    apply Nat.eq_of_testBit_eq
    intro j
    rw [h j, Nat.zero_testBit]

end

section
variable {w k q a b c : Nat}

/-- A tag in the low bits is read, set and cleared there. -/
theorem or_tag (ha : a < 2 ^ k) (hb : b < 2 ^ k) : (2 ^ k * q + a) ||| b = 2 ^ k * q + (a ||| b) := by
  rw [Nat.two_pow_add_eq_or_of_lt ha, Nat.two_pow_add_eq_or_of_lt (Nat.or_lt_two_pow ha hb), Nat.or_assoc]

theorem and_tag (ha : a < 2 ^ k) (hb : b < 2 ^ k) : (2 ^ k * q + a) &&& b = a &&& b := by
  apply Nat.eq_of_testBit_eq
  intro j
  rw [Nat.testBit_and, Nat.testBit_and, Nat.testBit_two_pow_mul_add _ ha]
  by_cases hj : j < k
  · rw [if_pos hj]
  · have hf : b.testBit j = false :=
      Nat.testBit_lt_two_pow (hb.trans_le (Nat.pow_le_pow_right (by decide) (Nat.not_lt.1 hj)))
    rw [hf, Bool.and_false, Bool.and_false]

theorem and_not_tag (hq : 2 ^ k * q + a < 2 ^ w) (ha : a < 2 ^ k) (hb : b < 2 ^ k) (hk : k ≤ w) :
    (2 ^ k * q + a) &&& (2 ^ w - 1 - b) = 2 ^ k * q + (a &&& (2 ^ k - 1 - b)) := by
  have hkw : 2 ^ k ≤ 2 ^ w := Nat.pow_le_pow_right (by decide) hk
  have hb' : b < 2 ^ w := hb.trans_le hkw
  have hm : 2 ^ w - 1 - b = 2 ^ w - (b + 1) := by omega
  have hm' : 2 ^ k - 1 - b = 2 ^ k - (b + 1) := by omega
  have hand : a &&& (2 ^ k - (b + 1)) < 2 ^ k := and_lt_two_pow_left ha _
  apply Nat.eq_of_testBit_eq
  intro j
  rw [hm, hm', Nat.testBit_and, Nat.testBit_two_pow_sub_succ hb', Nat.testBit_two_pow_mul_add _ ha,
    Nat.testBit_two_pow_mul_add _ hand]
  by_cases hj : j < k
  · rw [if_pos hj, if_pos hj, Nat.testBit_and, Nat.testBit_two_pow_sub_succ hb, decide_eq_true hj,
      decide_eq_true (hj.trans_le hk)]
  · rw [if_neg hj, if_neg hj]
    have hf : b.testBit j = false :=
      Nat.testBit_lt_two_pow (hb.trans_le (Nat.pow_le_pow_right (by decide) (Nat.not_lt.1 hj)))
    rw [hf, Bool.not_false, Bool.and_true]
    by_cases hjw : j < w
    · rw [decide_eq_true hjw, Bool.and_true]
    · rw [decide_eq_false hjw, Bool.and_false]
      have hbit : (2 ^ k * q + a).testBit j = false :=
        Nat.testBit_lt_two_pow (hq.trans_le (Nat.pow_le_pow_right (by decide) (Nat.not_lt.1 hjw)))
      rw [Nat.testBit_two_pow_mul_add _ ha, if_neg hj] at hbit
      exact hbit.symm

end

end BitScan
