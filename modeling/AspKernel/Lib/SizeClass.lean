import Mathlib.Data.Nat.Log
import Mathlib.Tactic.Ring

/-!
Size classes of two levels: sizes below `2 ^ (o + 1)` in parts of one width, every power of two
above it in `2 ^ L` parts. The classes are ordered by their rank, and a size lies in the last one
whose smallest size it reaches.
-/

namespace SizeClass
set_option autoImplicit true

/-- The class of a size. -/
def cls (L o s : Nat) : Nat × Nat :=
  if s < 2 ^ (o + 1) then (0, s / 2 ^ (o + 1 - L))
  else (s.log2 - o, s / 2 ^ (s.log2 - L) - 2 ^ L)

/-- The smallest size of a class. -/
def lower (L o : Nat) (c : Nat × Nat) : Nat :=
  if c.1 = 0 then c.2 * 2 ^ (o + 1 - L) else (2 ^ L + c.2) * 2 ^ (c.1 + o - L)

def rank (L : Nat) (c : Nat × Nat) : Nat := c.1 * 2 ^ L + c.2

/-- The width of the part of the power of two that a size lies in. -/
def width (L r : Nat) : Nat := 2 ^ (r.log2 - L)

/-- A size rounded up to the smallest size of a class. -/
def round (L o r : Nat) : Nat :=
  if r < 2 ^ (o + 1) then r else (r + (width L r - 1)) / width L r * width L r

section
variable {L o : Nat}

theorem cls_of_lt (h : s < 2 ^ (o + 1)) : cls L o s = (0, s / 2 ^ (o + 1 - L)) := if_pos h

theorem cls_of_not_lt (h : ¬s < 2 ^ (o + 1)) :
    cls L o s = (s.log2 - o, s / 2 ^ (s.log2 - L) - 2 ^ L) := if_neg h

theorem round_of_lt (h : r < 2 ^ (o + 1)) : round L o r = r := if_pos h

theorem round_of_not_lt (h : ¬r < 2 ^ (o + 1)) :
    round L o r = (r + (width L r - 1)) / width L r * width L r := if_neg h

theorem le_log2 (h : ¬s < 2 ^ (o + 1)) : o + 1 ≤ s.log2 := by
  have hs : s ≠ 0 := by
    rintro rfl
    exact h (Nat.two_pow_pos _)
  exact (Nat.le_log2 hs).2 (Nat.not_lt.1 h)

theorem two_pow_log2 (h : ¬s < 2 ^ (o + 1)) : 2 ^ s.log2 ≤ s := by
  apply Nat.log2_self_le
  rintro rfl
  exact h (Nat.two_pow_pos _)

theorem split_pow (h : L ≤ k) : 2 ^ k = 2 ^ L * 2 ^ (k - L) := by
  rw [← Nat.pow_add, Nat.add_sub_cancel' h]

/-- The part of its power of two that a size lies in, counted from zero. -/
theorem part_bounds (hL : L ≤ o + 1) (h : ¬s < 2 ^ (o + 1)) :
    2 ^ L ≤ s / 2 ^ (s.log2 - L) ∧ s / 2 ^ (s.log2 - L) < 2 ^ L + 2 ^ L := by
  have hle : L ≤ s.log2 := hL.trans (le_log2 h)
  constructor
  · apply (Nat.le_div_iff_mul_le (Nat.two_pow_pos _)).2
    rw [← split_pow hle]
    exact two_pow_log2 h
  · apply (Nat.div_lt_iff_lt_mul (Nat.two_pow_pos _)).2
    rw [Nat.add_mul, ← split_pow hle, ← Nat.two_mul, ← Nat.pow_succ']
    exact Nat.lt_log2_self

theorem cls_snd_lt (hL : L ≤ o + 1) (s : Nat) : (cls L o s).2 < 2 ^ L := by
  unfold cls
  split
  · rename_i h
    apply (Nat.div_lt_iff_lt_mul (Nat.two_pow_pos _)).2
    rwa [← split_pow hL]
  · rename_i h
    have hb := part_bounds hL h
    change s / 2 ^ (s.log2 - L) - 2 ^ L < 2 ^ L
    omega

/-- A size reaches the smallest size of the classes up to its own one. -/
theorem lower_le_iff (hL : L ≤ o + 1) (hc : c.2 < 2 ^ L) :
    lower L o c ≤ s ↔ rank L c ≤ rank L (cls L o s) := by
  obtain ⟨f, i⟩ := c
  change i < 2 ^ L at hc
  have hw : 0 < 2 ^ (o + 1 - L) := Nat.two_pow_pos _
  -- a class above the first power of two: its sizes lie between that power and the next one
  have hlow (hf : f ≠ 0) : 2 ^ (f + o) ≤ (2 ^ L + i) * 2 ^ (f + o - L) ∧
      (2 ^ L + i) * 2 ^ (f + o - L) < 2 ^ (f + o + 1) := by
    have hle : L ≤ f + o := by omega
    have hp : 0 < 2 ^ (f + o - L) := Nat.two_pow_pos _
    constructor
    · rw [split_pow hle]
      exact Nat.mul_le_mul_right _ (Nat.le_add_right ..)
    · rw [Nat.pow_succ, split_pow hle, Nat.mul_right_comm]
      exact Nat.mul_lt_mul_of_pos_right (by omega) hp
  unfold lower rank cls
  by_cases hs : s < 2 ^ (o + 1)
  · rw [if_pos hs, Nat.zero_mul, Nat.zero_add]
    have hdiv : s / 2 ^ (o + 1 - L) < 2 ^ L := by
      apply (Nat.div_lt_iff_lt_mul hw).2
      rwa [← split_pow hL]
    by_cases hf : f = 0
    · subst hf
      rw [if_pos rfl, Nat.zero_mul, Nat.zero_add]
      exact (Nat.le_div_iff_mul_le hw).symm
    · rw [if_neg hf]
      have hpow : 2 ^ (o + 1) ≤ 2 ^ (f + o) := Nat.pow_le_pow_right (by decide) (by omega)
      have hmul : 2 ^ L ≤ f * 2 ^ L := Nat.le_mul_of_pos_left _ (Nat.pos_of_ne_zero hf)
      have h1 := (hlow hf).1
      constructor
      · intro hle
        change (2 ^ L + i) * 2 ^ (f + o - L) ≤ s at hle
        omega
      · intro hle
        change f * 2 ^ L + i ≤ s / 2 ^ (o + 1 - L) at hle
        omega
  · rw [if_neg hs]
    have hg := le_log2 hs
    obtain ⟨hp1, hp2⟩ := part_bounds hL hs
    have hlog := two_pow_log2 hs
    have hlt : s < 2 ^ (s.log2 + 1) := Nat.lt_log2_self
    change _ ↔ f * 2 ^ L + i ≤ (s.log2 - o) * 2 ^ L + (s / 2 ^ (s.log2 - L) - 2 ^ L)
    by_cases hf : f = 0
    · subst hf
      rw [if_pos rfl, Nat.zero_mul, Nat.zero_add]
      have hmul : 2 ^ L ≤ (s.log2 - o) * 2 ^ L := Nat.le_mul_of_pos_left _ (by omega)
      have hi : i * 2 ^ (o + 1 - L) < 2 ^ (o + 1) := by
        rw [split_pow hL]
        exact Nat.mul_lt_mul_of_pos_right hc hw
      change i * 2 ^ (o + 1 - L) ≤ s ↔ _
      constructor
      · intro _
        omega
      · intro _
        omega
    · rw [if_neg hf]
      obtain ⟨h1, h2⟩ := hlow hf
      change (2 ^ L + i) * 2 ^ (f + o - L) ≤ s ↔ _
      rcases Nat.lt_trichotomy f (s.log2 - o) with h | h | h
      · have hpow : 2 ^ (f + o + 1) ≤ 2 ^ s.log2 := Nat.pow_le_pow_right (by decide) (by omega)
        have hmul : (f + 1) * 2 ^ L ≤ (s.log2 - o) * 2 ^ L := Nat.mul_le_mul_right _ h
        rw [Nat.add_mul, Nat.one_mul] at hmul
        constructor
        · intro _
          omega
        · intro _
          omega
      · have he : f + o = s.log2 := by omega
        rw [he, ← Nat.le_div_iff_mul_le (Nat.two_pow_pos _), ← h]
        omega
      · have hpow : 2 ^ (s.log2 + 1) ≤ 2 ^ (f + o) := Nat.pow_le_pow_right (by decide) (by omega)
        have hmul : (s.log2 - o + 1) * 2 ^ L ≤ f * 2 ^ L := Nat.mul_le_mul_right _ h
        rw [Nat.add_mul, Nat.one_mul] at hmul
        constructor
        · intro _
          omega
        · intro _
          omega

/-- The first index of a class is bounded by the powers of two below the size. -/
theorem cls_fst_lt (h : s < 2 ^ (n + o)) (hn : 0 < n) : (cls L o s).1 < n := by
  unfold cls
  split
  · exact hn
  · rename_i hs
    have hle := le_log2 hs
    have hlt : s.log2 < n + o := (Nat.log2_lt (by
      rintro rfl
      exact hs (Nat.two_pow_pos _))).2 h
    change s.log2 - o < n
    omega

theorem width_pos (L r : Nat) : 0 < width L r := Nat.two_pow_pos _

theorem le_round (L o r : Nat) : r ≤ round L o r := by
  unfold round
  split
  · exact Nat.le_refl r
  · have hdm := Nat.div_add_mod' (r + (width L r - 1)) (width L r)
    have hmod := Nat.mod_lt (r + (width L r - 1)) (width_pos L r)
    omega

/-- Rounding adds less than a part. -/
theorem round_lt (L o r : Nat) : round L o r < r + width L r := by
  have hw := width_pos L r
  unfold round
  split
  · omega
  · have hdm := Nat.div_mul_le_self (r + (width L r - 1)) (width L r)
    omega

/-- Rounding adds a part of `2 ^ L` at most. -/
theorem round_le (hL : L ≤ o + 1) (r : Nat) : 2 ^ L * round L o r ≤ (2 ^ L + 1) * r := by
  by_cases h : r < 2 ^ (o + 1)
  · rw [round_of_lt h]
    exact Nat.mul_le_mul_right r (Nat.le_succ _)
  · have hlt := round_lt L o r
    have hpow : 2 ^ L * width L r ≤ r := (split_pow (hL.trans (le_log2 h))) ▸ two_pow_log2 h
    have hle : 2 ^ L * round L o r ≤ 2 ^ L * (r + width L r) := Nat.mul_le_mul_left _ hlt.le
    rw [Nat.mul_add] at hle
    rw [Nat.add_mul, Nat.one_mul]
    omega

/-- A size is rounded up to the smallest size of the class in which the search begins. -/
theorem lower_cls_round (hL : L ≤ o + 1) (h : ¬r < 2 ^ (o + 1)) :
    lower L o (cls L o (r + (width L r - 1))) = round L o r := by
  have hk := le_log2 h
  have hLk : L ≤ r.log2 := hL.trans hk
  have hlog := two_pow_log2 h
  have hlt : r < 2 ^ (r.log2 + 1) := Nat.lt_log2_self
  have hw := width_pos L r
  have hpow : 2 ^ r.log2 = 2 ^ L * width L r := split_pow hLk
  have hL1 : 0 < 2 ^ L := Nat.two_pow_pos L
  have hwle : width L r ≤ 2 ^ r.log2 := hpow ▸ Nat.le_mul_of_pos_left _ hL1
  have hns : ¬r + (width L r - 1) < 2 ^ (o + 1) := by omega
  have hne : r + (width L r - 1) ≠ 0 := by
    have := Nat.two_pow_pos (o + 1)
    omega
  rw [Nat.pow_succ] at hlt
  unfold round lower cls
  rw [if_neg h, if_neg hns]
  by_cases hcross : r + (width L r - 1) < 2 ^ (r.log2 + 1)
  · have he : (r + (width L r - 1)).log2 = r.log2 := by
      apply Nat.le_antisymm
      · exact Nat.lt_succ_iff.1 ((Nat.log2_lt hne).2 hcross)
      · exact (Nat.le_log2 hne).2 (by omega)
    have hpart := (part_bounds hL hns).1
    rw [he] at hpart ⊢
    have hf : r.log2 - o ≠ 0 := by omega
    have hsum : r.log2 - o + o = r.log2 := by omega
    rw [if_neg hf, hsum, Nat.add_sub_cancel' hpart]
    rfl
  · rw [Nat.pow_succ] at hcross
    have he : (r + (width L r - 1)).log2 = r.log2 + 1 := by
      apply Nat.le_antisymm
      · apply Nat.lt_succ_iff.1
        apply (Nat.log2_lt hne).2
        rw [Nat.pow_succ, Nat.pow_succ]
        omega
      · apply (Nat.le_log2 hne).2
        rw [Nat.pow_succ]
        omega
    have hf : r.log2 + 1 - o ≠ 0 := by omega
    have hsum : r.log2 + 1 - o + o = r.log2 + 1 := by omega
    -- both sides are the power of two that the sum has passed
    have hw2 : 2 ^ (r.log2 + 1 - L) = width L r * 2 := by
      rw [Nat.succ_sub hLk, Nat.pow_succ]
      rfl
    have hq2 : (r + (width L r - 1)) / (width L r * 2) = 2 ^ L := by
      apply Nat.div_eq_of_lt_le
      · rw [← Nat.mul_assoc, ← hpow]
        omega
      · rw [Nat.add_mul, ← Nat.mul_assoc, ← hpow]
        omega
    have hq1 : (r + (width L r - 1)) / width L r = 2 ^ L * 2 := by
      apply Nat.div_eq_of_lt_le
      · rw [Nat.mul_right_comm, ← hpow]
        omega
      · rw [Nat.add_mul, Nat.mul_right_comm, ← hpow]
        omega
    rw [he, if_neg hf, hsum, hw2, hq2, hq1, Nat.sub_self, Nat.add_zero, Nat.mul_right_comm, Nat.mul_assoc]

end

end SizeClass
