import AspKernel.TlsfIndex

/-! The search for a free block in the bitmaps finds the first list that is long enough. -/

namespace AspKernel.Tlsf
set_option autoImplicit true
open WordMem

section
variable {m : Mem} {P : Nat} {ls : Lists} {i j : Nat}

/-- The first list that is not empty, of those from a class on. -/
structure First (ls : Lists) (i j i' j' : Nat) : Prop where
  nonempty : ls i' j' ≠ []
  le : SizeClass.rank 5 (i, j) ≤ SizeClass.rank 5 (i', j')
  least : ∀ i₁ j₁, ls i₁ j₁ ≠ [] → SizeClass.rank 5 (i, j) ≤ SizeClass.rank 5 (i₁, j₁) →
    SizeClass.rank 5 (i', j') ≤ SizeClass.rank 5 (i₁, j₁)

theorem testBit_mask (x n k : Nat) : (x &&& (0xFFFFFFFF <<< n) % 2 ^ 32).testBit k =
    (x.testBit k && decide (n ≤ k ∧ k < 32)) := BitScan.testBit_from 32 x n k

/-- The bits of the row of a class, from that class on. -/
theorem Index.row_mask (h : Index m P ls) (hi : i < 24) (k : Nat) :
    (m (slBitmap P i) &&& (0xFFFFFFFF <<< j) % 2 ^ 32).testBit k = true ↔ ls i k ≠ [] ∧ j ≤ k := by
  rw [testBit_mask, Bool.and_eq_true, h.sl i hi, decide_eq_true_eq]
  constructor
  · rintro ⟨h1, h2, -⟩
    exact ⟨h1, h2⟩
  · rintro ⟨h1, h2⟩
    exact ⟨h1, h2, (h.range i k h1).2⟩

/-- The rows behind the one of a class. -/
theorem Index.rows_mask (h : Index m P ls) (k : Nat) :
    (m (flBitmap P) &&& (0xFFFFFFFF <<< (i + 1)) % 2 ^ 32).testBit k = true ↔
      (∃ j', ls k j' ≠ []) ∧ i < k := by
  rw [testBit_mask, Bool.and_eq_true, h.fl, decide_eq_true_eq]
  constructor
  · rintro ⟨h1, h2, -⟩
    exact ⟨h1, h2⟩
  · rintro ⟨⟨j', h1⟩, h2⟩
    exact ⟨⟨j', h1⟩, h2, (h.range k j' h1).1.trans (by decide)⟩

/-- A later row. -/
theorem rank_lt_of_fst (h : i < i') (hj : j < 32) : SizeClass.rank 5 (i, j) < SizeClass.rank 5 (i', j') := by
  unfold SizeClass.rank
  change i * 32 + j < i' * 32 + j'
  omega

theorem fst_le_of_rank (h : SizeClass.rank 5 (i, j) ≤ SizeClass.rank 5 (i', j')) (hj' : j' < 32) : i ≤ i' := by
  by_contra hn
  have hlt : SizeClass.rank 5 (i', j') < SizeClass.rank 5 (i, j) := rank_lt_of_fst (Nat.not_le.1 hn) hj'
  exact absurd hlt (Nat.not_lt.2 h)

theorem rank_le_iff_snd : SizeClass.rank 5 (i, j) ≤ SizeClass.rank 5 (i, j') ↔ j ≤ j' := Nat.add_le_add_iff_left

/-- The search finds the first list of blocks that is not empty, or there is none. -/
theorem findSuitableBlock_eq (h : Index m P ls) (hi : i < 24) (hj : j < 32) :
    (∃ i' j', findSuitableBlock m P i j = (m (matrix P i' j'), i', j') ∧ First ls i j i' j') ∨
      (findSuitableBlock m P i j).1 = NULL ∧
        ∀ i' j', ls i' j' ≠ [] → SizeClass.rank 5 (i', j') < SizeClass.rank 5 (i, j) := by
  have hrow := h.row_mask (j := j) hi
  have hrows := h.rows_mask (i := i)
  have hlt (x n : Nat) : x &&& (0xFFFFFFFF <<< n) % 2 ^ 32 < 2 ^ 32 :=
    Nat.and_lt_two_pow x (Nat.mod_lt _ (by decide))
  unfold findSuitableBlock
  simp only []
  by_cases h0 : m (slBitmap P i) &&& (0xFFFFFFFF <<< j) % 2 ^ 32 = 0
  · have hnone (k : Nat) (hk : ls i k ≠ []) : k < j := by
      by_contra hn
      have hb := (hrow k).2 ⟨hk, Nat.not_lt.1 hn⟩
      rw [h0, Nat.zero_testBit] at hb
      cases hb
    rw [if_neg (not_not.2 h0)]
    by_cases h1 : m (flBitmap P) &&& (0xFFFFFFFF <<< (i + 1)) % 2 ^ 32 = 0
    · right
      rw [h1, lsBit_zero]
      refine ⟨rfl, ?_⟩
      intro i' j' hne
      have hle : i' ≤ i := by
        by_contra hn
        have hb := (hrows i').2 ⟨⟨j', hne⟩, Nat.not_le.1 hn⟩
        rw [h1, Nat.zero_testBit] at hb
        cases hb
      rcases Nat.lt_or_eq_of_le hle with hlt | rfl
      · exact rank_lt_of_fst hlt (h.range i' j' hne).2
      · exact Nat.add_lt_add_left (hnone j' hne) _
    · left
      obtain ⟨k, hk⟩ := BitScan.exists_lowest h1
      obtain ⟨⟨j₀, hj₀⟩, hik⟩ := (hrows k).1 hk.1
      have hk24 := (h.range k j₀ hj₀).1
      have hslne : m (slBitmap P k) ≠ 0 := by
        intro hz
        have hb := (h.sl k hk24 j₀).2 hj₀
        rw [hz, Nat.zero_testBit] at hb
        cases hb
      obtain ⟨j', hj'⟩ := BitScan.exists_lowest hslne
      have hne' := (h.sl k hk24 j').1 hj'.1
      have hpos : (0 : Int) < k := by omega
      rw [lsBit_eq hk (hlt _ _), if_pos hpos, Int.toNat_natCast, lsBit_eq hj' (h.sl_lt hk24), Int.toNat_natCast]
      refine ⟨k, j', rfl, hne', Nat.le_of_lt (rank_lt_of_fst hik hj), ?_⟩
      intro i₁ j₁ hne hle
      have hj₁ := (h.range i₁ j₁ hne).2
      have hi₁ : i < i₁ := by
        apply Nat.lt_of_le_of_ne (fst_le_of_rank hle hj₁)
        rintro rfl
        exact absurd (rank_le_iff_snd.1 hle) (Nat.not_le.2 (hnone j₁ hne))
      have hki : k ≤ i₁ := by
        by_contra hn
        have hb := hk.2 i₁ (Nat.not_le.1 hn)
        rw [(hrows i₁).2 ⟨⟨j₁, hne⟩, hi₁⟩] at hb
        cases hb
      rcases Nat.lt_or_eq_of_le hki with hki | rfl
      · exact Nat.le_of_lt (rank_lt_of_fst hki (h.range k j' hne').2)
      · apply rank_le_iff_snd.2
        by_contra hn
        have hb := hj'.2 j₁ (Nat.not_le.1 hn)
        rw [(h.sl k hk24 j₁).2 hne] at hb
        cases hb
  · left
    obtain ⟨j', hj'⟩ := BitScan.exists_lowest h0
    obtain ⟨hne', hjj⟩ := (hrow j').1 hj'.1
    rw [if_pos h0, lsBit_eq hj' (hlt _ _), Int.toNat_natCast]
    refine ⟨i, j', rfl, hne', rank_le_iff_snd.2 hjj, ?_⟩
    intro i₁ j₁ hne hle
    have hj₁ := (h.range i₁ j₁ hne).2
    rcases Nat.lt_or_eq_of_le (fst_le_of_rank hle hj₁) with hlt | rfl
    · exact Nat.le_of_lt (rank_lt_of_fst hlt (h.range i j' hne').2)
    · apply rank_le_iff_snd.2
      by_contra hn
      have hb := hj'.2 j₁ (Nat.not_le.1 hn)
      rw [(hrow j₁).2 ⟨hne, rank_le_iff_snd.1 hle⟩] at hb
      cases hb

end

end AspKernel.Tlsf
