import AspKernel.TlsfMerge

/-! What `malloc_ex`, `free_ex` and `realloc_ex` make of the pool. -/

namespace AspKernel.Tlsf
set_option autoImplicit true
open WordMem

/-- The used blocks. -/
def used (bs : List Blk) : List Blk := bs.filter fun b => !b.free

/-- The size that a block gets for a request. -/
def granted (size : Nat) : Nat := SizeClass.round 5 6 (blockSize size)

section
variable {m m' : Mem} {P e a s x size : Nat} {L R bs : List Blk} {f : Bool} {p₀ : Option Nat} {ls : Lists}
  {b c n : Blk}

theorem used_append : used (L ++ R) = used L ++ used R := List.filter_append ..

theorem used_cons_free (hb : b.free = true) : used (b :: R) = used R := by
  apply List.filter_cons_of_neg
  rw [hb]
  decide

theorem used_cons_used (hb : b.free = false) : used (b :: R) = b :: used R := by
  apply List.filter_cons_of_pos
  rw [hb]
  rfl

theorem blockSize_bounds (h : size ≤ 2 ^ 30 - 2 ^ 24) :
    8 ∣ blockSize size ∧ 8 ≤ blockSize size ∧ size ≤ blockSize size ∧ blockSize size ≤ 2 ^ 30 - 2 ^ 24 := by
  rw [blockSize_eq (by omega)]
  unfold RoundUp.up
  omega

theorem round_dvd (h : 8 ∣ r) : 8 ∣ SizeClass.round 5 6 r := by
  by_cases hr : r < 2 ^ (6 + 1)
  · rwa [SizeClass.round_of_lt hr]
  · have hlog := SizeClass.le_log2 hr
    rw [SizeClass.round_of_not_lt hr]
    rcases Nat.lt_or_eq_of_le hlog with hlt | heq
    · apply Dvd.dvd.mul_left
      exact Nat.pow_dvd_pow 2 (by omega : 3 ≤ r.log2 - 5)
    · have hw : SizeClass.width 5 r = 4 := by
        unfold SizeClass.width
        rw [← heq]
        rfl
      rw [hw]
      omega

theorem granted_bounds (h : size ≤ 2 ^ 30 - 2 ^ 24) : 8 ∣ granted size ∧ 8 ≤ granted size ∧ size ≤ granted size := by
  obtain ⟨h1, h2, h3, -⟩ := blockSize_bounds h
  have hle := SizeClass.le_round 5 6 (blockSize size)
  exact ⟨round_dvd h1, h2.trans hle, h3.trans hle⟩

theorem Hole.size_eq (h : Hole m P e L R a s f p₀ ls) : m (Bhdr.size a) &&& BLOCK_SIZE = s := by
  have hPa := h.pre.le
  have hRe := h.post.le
  have hsm := h.small
  have hdvd := h.dvd
  rw [h.ctl.word]
  exact tagWord_size (by omega) (by omega) _ _

/-- The header behind the block says whether a free block stands there. -/
theorem Hole.next_free (h : Hole m P e L R a s f p₀ ls) :
    m (Bhdr.size (a + 8 + s)) &&& FREE_BLOCK ≠ 0 ↔ ∃ n R', R = n :: R' ∧ n.free = true := by
  have hpost := h.post
  cases R with
  | nil =>
    rw [hpost.2.word, tagWord_free (by decide)]
    constructor
    · intro hf
      cases hf
    · rintro ⟨n, R', hR, -⟩
      cases hR
  | cons n R =>
    have hdvd := hpost.1.dvd
    rw [hpost.1.ctl.word, tagWord_free (by omega)]
    constructor
    · intro hf
      exact ⟨n, R, rfl, hf⟩
    · rintro ⟨n', R', hR, hf⟩
      cases hR
      exact hf

/-- The block in front, where it is free. -/
theorem lastBack_some (h : lastBack none L = some q) : ∃ L' c, L = L' ++ [c] ∧ c.free = true ∧ c.addr = q := by
  rcases List.eq_nil_or_concat L with rfl | ⟨L', c, rfl⟩
  · cases h
  · refine ⟨L', c, List.concat_eq_append .., ?_⟩
    rw [List.concat_eq_append, lastBack_append] at h
    change c.back = some q at h
    unfold Blk.back at h
    split at h
    · rename_i hf
      exact ⟨hf, Option.some.inj h⟩
    · cases h

theorem Hole.prev_free (h : Hole m P e L R a s f p₀ ls) :
    m (Bhdr.size a) &&& PREV_FREE ≠ 0 ↔ (lastBack none L).isSome = true := by
  have hdvd := h.dvd
  rw [h.ctl.word, tagWord_prev (by omega)]

/-- `free_ex` ends with a free block that has no free neighbours. -/
theorem linkFree_spec (h : Hole m P e L R a s true p₀ ls) (hL : lastBack none L = none)
    (hR : ∀ n R', R = n :: R' → n.free = false) :
    ∃ ls', Heap (linkFree m a P) P e (L ++ ⟨a, s, true⟩ :: R) ls' ∧
      ∀ x, Kept P e (L ++ R) x → (x < a ∨ a + 8 + s ≤ x) → linkFree m a P x = m x := by
  have hPa := h.pre.le
  have hRe := h.post.le
  have hsm := h.small
  have hmin := h.min
  obtain ⟨hi, hj⟩ := clsOf_lt (s := s) (by omega)
  have hfr : Fresh P ls a := h.fresh (Nat.le_refl a) (by omega)
  have hown : insertBlock m a P (clsOf s).1 (clsOf s).2 (Bhdr.size a) = m (Bhdr.size a) :=
    h.index.insert_apart h.nodes hfr hi hj (h.apart_own (by unfold Bhdr.size; omega) (by unfold Bhdr.size; omega))
      (by unfold Bhdr.size Bhdr.prev Bhdr.next; omega)
  have heq := h.closeFree hL hR
  unfold linkFree
  simp only [h.size_eq, mappingInsert_eq (show s < 2 ^ 32 by omega), hown, Bhdr.buffer, getNextBlock]
  exact heq

/-- The block is given back, and merged with the free blocks beside it. -/
theorem Hole.freeEx (h0 : Hole m P e L R a s false p₀ ls) :
    ∃ bs' ls', Heap (Tlsf.freeEx m (a + 8) P) P e bs' ls' ∧ used bs' = used L ++ used R ∧
      ∀ x, Kept P e (L ++ R) x → (x < a ∨ a + 8 + s ≤ x) → Tlsf.freeEx m (a + 8) P x = m x := by
  have hPa := h0.pre.le
  have hmin := h0.min
  have hdvd := h0.dvd
  -- the block is marked as free
  have hset : m (Bhdr.size a) ||| FREE_BLOCK = tagWord s true (lastBack none L).isSome := by
    rw [h0.ctl.word]
    exact tagWord_setFree (by omega) _ _
  have h1 := ((h0.setFree true).setBuffer (x := Bhdr.prev a) (by unfold Bhdr.prev; omega)
    (by unfold Bhdr.prev; omega) NULL).setBuffer (x := Bhdr.next a) (by unfold Bhdr.next; omega)
    (by unfold Bhdr.next; omega) NULL
  have hk1 (x : Nat) (hx : x < a ∨ a + 8 + s ≤ x) :
      (((m.set (Bhdr.size a) (tagWord s true (lastBack none L).isSome)).set (Bhdr.prev a) NULL).set
        (Bhdr.next a) NULL) x = m x := by
    rw [Mem.set_ne (by unfold Bhdr.next; omega), Mem.set_ne (by unfold Bhdr.prev; omega),
      Mem.set_ne (by unfold Bhdr.size; omega)]
  unfold Tlsf.freeEx
  rw [if_neg (by unfold NULL; omega)]
  simp only [show a + 8 - BHDR_OVERHEAD = a from Nat.add_sub_cancel .., hset]
  generalize (((m.set (Bhdr.size a) (tagWord s true (lastBack none L).isSome)).set (Bhdr.prev a)
    NULL).set (Bhdr.next a) NULL) = m₁ at h1 hk1 ⊢
  simp only [h1.size_eq, Bhdr.buffer, getNextBlock]
  -- the free block behind it
  have hnext : ∃ m₂ R₂ s₂ p₂ ls₂, (if m₁ (Bhdr.size (a + 8 + s)) &&& FREE_BLOCK ≠ 0 then
      grow (extractFree m₁ (a + 8 + s) P) a (a + 8 + s) else m₁) = m₂ ∧
      Hole m₂ P e L R₂ a s₂ true p₂ ls₂ ∧ (∀ n R', R₂ = n :: R' → n.free = false) ∧ used R₂ = used R ∧
      (∀ c ∈ R₂, c ∈ R) ∧
      (∀ x, Kept P e (L ++ R) x → (x < a ∨ a + 8 + s ≤ x) →
        (x < a ∨ a + 8 + s₂ ≤ x) ∧ m₂ x = m x) := by
    by_cases hf : m₁ (Bhdr.size (a + 8 + s)) &&& FREE_BLOCK ≠ 0
    · obtain ⟨n, R', rfl, hn⟩ := h1.next_free.1 hf
      obtain ⟨m₂, ls₂, hm₂, hna, h2, hk2⟩ := h1.mergeNext hn
      rw [hna] at hm₂
      refine ⟨m₂, R', _, _, ls₂, (if_pos hf).trans hm₂, h2, ?_, ?_, ?_, ?_⟩
      · intro c R'' hc
        have hpost := h1.post.2
        rw [hc] at hpost
        apply Bool.eq_false_iff.2
        intro hcf
        have hnone := hpost.1.apart hcf
        unfold Blk.back at hnone
        rw [hn] at hnone
        cases hnone
      · exact (used_cons_free hn).symm
      · intro c hc
        exact List.mem_cons_of_mem n hc
      · intro x hx hxb
        have hxn := hx.blocks n (List.mem_append_right _ (List.mem_cons_self ..))
        have hle : x < n.addr ∨ n.addr + 8 + n.size ≤ x := by
          rcases hxn with h3 | ⟨-, h3⟩
          · exact .inl h3
          · exact .inr (h3 hn)
        exact ⟨by omega, (hk2 x hx (by omega)).trans (hk1 x hxb)⟩
    · refine ⟨m₁, R, s, p₀, ls, if_neg hf, h1, ?_, rfl, fun c hc => hc, ?_⟩
      · intro n R' hR
        apply Bool.eq_false_iff.2
        intro hn
        exact hf (h1.next_free.2 ⟨n, R', hR, hn⟩)
      · intro x _ hxb
        exact ⟨hxb, hk1 x hxb⟩
  obtain ⟨m₂, R₂, s₂, p₂, ls₂, hm₂, h2, hR₂, hu₂, hsub, hk2⟩ := hnext
  rw [hm₂]
  have hmono (x : Nat) (hx : Kept P e (L ++ R) x) : Kept P e (L ++ R₂) x := by
    apply hx.mono
    intro c hc
    rcases List.mem_append.1 hc with hc | hc
    · exact List.mem_append_left _ hc
    · exact List.mem_append_right _ (hsub c hc)
  -- the free block in front of it
  by_cases hp : m₂ (Bhdr.size a) &&& PREV_FREE ≠ 0
  · rw [if_pos hp]
    obtain ⟨q, hq⟩ := Option.isSome_iff_exists.1 (h2.prev_free.1 hp)
    rw [h2.ctl.back q hq]
    obtain ⟨L', c, rfl, hc, rfl⟩ := lastBack_some hq
    obtain ⟨m₃, ls₃, hm₃, hL', h3, hk3⟩ := h2.mergePrev hc
    rw [hm₃]
    obtain ⟨ls₄, h4, hk4⟩ := linkFree_spec h3 hL' hR₂
    refine ⟨_, ls₄, h4, ?_, ?_⟩
    · rw [used_append, used_cons_free rfl, used_append, used_cons_free hc, hu₂]
      exact congrArg (· ++ used R) (List.append_nil _).symm
    · intro x hx hxb
      obtain ⟨hx2, hm2⟩ := hk2 x hx hxb
      have hx' := hmono x hx
      have hxc := hx.blocks c (by simp)
      have hle : x < c.addr ∨ c.addr + 8 + c.size ≤ x := by
        rcases hxc with h5 | ⟨-, h5⟩
        · exact .inl h5
        · exact .inr (h5 hc)
      have hca := (h2.left (c := c) (by simp)).2.1
      have hpre := h2.pre.le
      have heq : c.addr + 8 + c.size = a := by
        obtain ⟨_, -, hca', ha'⟩ := prefix_append.1 h2.pre
        obtain rfl := hca'.addr
        exact ha'
      have hx4 : Kept P e (L' ++ R₂) x := by
        apply hx'.mono
        intro d hd
        rcases List.mem_append.1 hd with hd | hd
        · exact List.mem_append_left _ (List.mem_append_left _ hd)
        · exact List.mem_append_right _ hd
      exact (hk4 x hx4 (by omega)).trans ((hk3 x hx').trans hm2)
  · rw [if_neg hp]
    have hL : lastBack none L = none := by
      cases hl : lastBack none L with
      | none => rfl
      | some q => exact absurd (h2.prev_free.2 (by rw [hl]; rfl)) hp
    obtain ⟨ls₄, h4, hk4⟩ := linkFree_spec h2 hL hR₂
    refine ⟨_, ls₄, h4, ?_, ?_⟩
    · rw [used_append, used_cons_free rfl, hu₂]
    · intro x hx hxb
      obtain ⟨hx2, hm2⟩ := hk2 x hx hxb
      exact (hk4 x (hmono x hx) hx2).trans hm2

theorem freeEx_spec (h : Heap m P e (L ++ b :: R) ls) (hb : b.free = false) :
    ∃ bs' ls', Heap (freeEx m (b.addr + 8) P) P e bs' ls' ∧ used bs' = used L ++ used R ∧
      ∀ x, Kept P e (L ++ R) x → (x < b.addr ∨ b.addr + 8 + b.size ≤ x) → freeEx m (b.addr + 8) P x = m x :=
  (h.openUsed hb).freeEx

theorem Hole.next_used (h : Hole m P e L R a s f p₀ ls) (hp : p₀.isSome = true) (n : Blk) (R' : List Blk)
    (hR : R = n :: R') : n.free = false := by
  apply Bool.eq_false_iff.2
  intro hn
  have hpost := h.post
  rw [hR] at hpost
  rw [hpost.1.apart hn] at hp
  cases hp

/-- The block in front of its list. -/
theorem Heap.first (h : Heap m P e bs ls) (hne : ls i j ≠ []) : ∃ L b R k, bs = L ++ b :: R ∧ b.free = true ∧
    clsOf b.size = (i, j) ∧ ls i j = b.addr :: k ∧ m (matrix P i j) = b.addr := by
  obtain ⟨a, k, hk⟩ := List.exists_cons_of_ne_nil hne
  obtain ⟨b, hb, hf, rfl, hc⟩ := (h.indexed.mem a i j).1 (hk ▸ List.mem_cons_self ..)
  obtain ⟨L, R, rfl⟩ := List.append_of_mem hb
  obtain ⟨hi, hj⟩ := h.index.range i j hne
  refine ⟨L, b, R, k, rfl, hf, hc, hk, ?_⟩
  rw [h.index.head i hi j hj, hk]
  rfl

/-- A block is found that is large enough, or there is no free block of the size. -/
theorem mallocEx_spec (h : Heap m P e bs ls) (hs : size ≤ 2 ^ 30 - 2 ^ 24) :
    (mallocEx m size P = (m, NULL) ∧ ∀ b ∈ bs, b.free = true → b.size < granted size) ∨
    ∃ L b R m' s' bs' ls', bs = L ++ b :: R ∧ b.free = true ∧ mallocEx m size P = (m', b.addr + 8) ∧
      granted size ≤ s' ∧ s' ≤ b.size ∧ Heap m' P e bs' ls' ∧ used bs' = used L ++ ⟨b.addr, s', false⟩ :: used R ∧
      ∀ x, Kept P e bs x → m' x = m x := by
  obtain ⟨hz8, hz, -, hzle⟩ := blockSize_bounds hs
  obtain ⟨hg8, hg, -⟩ := granted_bounds hs
  obtain ⟨c, hc, hc1, hc2, hlow⟩ := mappingSearch_eq hzle (by omega)
  change SizeClass.lower 5 6 c = granted size at hlow
  change mappingSearch (blockSize size) = (granted size, c) at hc
  have hreach (b : Blk) : granted size ≤ b.size ↔ SizeClass.rank 5 c ≤ SizeClass.rank 5 (clsOf b.size) := by
    rw [← hlow]
    exact SizeClass.lower_le_iff (by decide) hc2
  unfold mallocEx
  simp only [hc]
  rcases findSuitableBlock_eq h.index hc1 hc2 with ⟨i, j, hfind, hfirst⟩ | ⟨hnull, hnone⟩
  · right
    obtain ⟨L, b, R, k, rfl, hf, hcls, hl, hmat⟩ := h.first hfirst.nonempty
    have hle : granted size ≤ b.size := by
      rw [hreach, hcls]
      exact hfirst.le
    have hl' : ls (clsOf b.size).1 (clsOf b.size).2 = b.addr :: k := by
      rw [hcls]
      exact hl
    obtain ⟨m₁, ls₁, hm₁, h1, -, hk1⟩ := h.openFree hf hl'
    rw [hcls] at hm₁
    have hPa := h1.pre.le
    have hRe := h1.post.le
    have hsm := h1.small
    have hdvd := h1.dvd
    have hbn : b.addr ≠ NULL := by
      unfold NULL
      omega
    have hkR (x : Nat) (hx : Kept P e (L ++ b :: R) x) :
        Kept P e (L ++ R) x ∧ (x < b.addr ∨ b.addr + 8 + b.size ≤ x) := by
      constructor
      · apply hx.mono
        intro d hd
        rcases List.mem_append.1 hd with hd | hd
        · exact List.mem_append_left _ hd
        · exact List.mem_append_right _ (List.mem_cons_of_mem b hd)
      · rcases hx.blocks b (List.mem_append_right _ (List.mem_cons_self ..)) with hxb | ⟨-, hxb⟩
        · exact .inl hxb
        · exact .inr (hxb hf)
    have hsub : sub32 b.size (granted size) = b.size - granted size := sub32_eq hle (by omega)
    simp only [hfind, hmat, if_neg hbn, hm₁, h1.size_eq, Bhdr.buffer, getNextBlock, hsub]
    by_cases hsplit : sizeofBhdr ≤ b.size - granted size
    · obtain ⟨m₂, ls₂, hm₂, h2, hk2⟩ := h1.split false hg8 hg (by
        unfold sizeofBhdr at hsplit
        omega) (fun _ => rfl) (h1.next_used rfl)
      refine ⟨L, b, R, m₂, granted size, _, ls₂, rfl, hf, ?_, Nat.le_refl _, hle, h2, ?_, ?_⟩
      · rw [if_pos hsplit]
        rw [hm₂]
      · rw [used_append, used_cons_used rfl, used_cons_free rfl]
      · intro x hx
        obtain ⟨hx1, hx2⟩ := hkR x hx
        exact (hk2 x hx1 (by omega)).trans (hk1 x hx)
    · have h2 := h1.clearPrev
      have hword : (m₁.set (Bhdr.size (b.addr + 8 + b.size)) (m₁ (Bhdr.size (b.addr + 8 + b.size)) &&& not32 PREV_FREE))
          (Bhdr.size b.addr) &&& not32 FREE_BLOCK = tagWord b.size false (lastBack none L).isSome := by
        rw [h2.ctl.word]
        exact tagWord_clearFree (by omega) (by omega) _ _
      have h3 := (h2.setFree false).closeUsed
      refine ⟨L, b, R, _, b.size, _, ls₁, rfl, hf, (if_neg hsplit).trans ?_, hle, Nat.le_refl _, h3, ?_, ?_⟩
      · rw [hword]
      · rw [used_append, used_cons_used rfl]
      · intro x hx
        obtain ⟨hx1, hx2⟩ := hkR x hx
        have hoff := hx1.off_post h1.post
        rw [Mem.set_ne (by unfold Bhdr.size; omega), Mem.set_ne (by unfold Bhdr.size; omega)]
        exact hk1 x hx
  · left
    rw [if_pos hnull]
    refine ⟨rfl, ?_⟩
    intro b hb hf
    have hne : ls (clsOf b.size).1 (clsOf b.size).2 ≠ [] := by
      obtain ⟨k₁, k₂, hl⟩ := h.indexed.in_list hb hf
      rw [hl]
      exact List.append_ne_nil_of_right_ne_nil _ (List.cons_ne_nil _ _)
    apply Nat.not_le.1
    rw [hreach]
    exact Nat.not_le.2 (hnone _ _ hne)

end

end AspKernel.Tlsf
