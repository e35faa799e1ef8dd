import AspKernel.TlsfCalls

/-! A block is made smaller or larger, in its place where that is possible. -/

namespace AspKernel.Tlsf
set_option autoImplicit true
open WordMem

section
variable {m m' : Mem} {P e a s x z newSize : Nat} {L R bs : List Blk} {f : Bool} {p₀ : Option Nat} {ls : Lists}
  {b c n : Blk}

/-- A word that an insertion neither reads nor writes. -/
theorem insertBlock_set {y : Nat} (hy : P + 3184 ≤ y) (hi : i < 24) (hj : j < 32)
    (hh : m (matrix P i j) ≠ NULL → P + 3184 ≤ m (matrix P i j) ∧ x ≠ Bhdr.prev (m (matrix P i j)))
    (hx : P + 3180 ≤ x) (hxy : x ≠ Bhdr.prev y ∧ x ≠ Bhdr.next y) (v : Nat) :
    insertBlock (m.set x v) y P i j = (insertBlock m y P i j).set x v := by
  have h1 : m.set x v (matrix P i j) = m (matrix P i j) := Mem.set_ne (by rw [matrix_eq]; omega)
  have h2 : m.set x v (slBitmap P i) = m (slBitmap P i) := Mem.set_ne (by unfold slBitmap; omega)
  have h3 : m.set x v (flBitmap P) = m (flBitmap P) := Mem.set_ne (by unfold flBitmap; omega)
  apply Mem.ext
  intro w
  rw [insertBlock_apply hy hi hj (by rw [h1]; exact fun h0 => (hh h0).1), h1, h2, h3]
  by_cases hw : w = x
  · subst hw
    rw [Mem.set_self, Mem.set_self, if_neg (by unfold flBitmap; omega), if_neg (by unfold slBitmap; omega),
      if_neg (by rw [matrix_eq]; omega), if_neg (fun hc => (hh hc.1).2 hc.2), if_neg hxy.2, if_neg hxy.1]
  · rw [Mem.set_ne hw, Mem.set_ne hw, insertBlock_apply hy hi hj fun h0 => (hh h0).1]

/-- Where the rest of a block is split off, the size in its header does not matter. -/
theorem splitBlock_set (h : Hole m P e L R a s f p₀ ls) (hz : 8 ∣ z) (hz8 : 8 ≤ z) (hfit : z + 16 ≤ s)
    (mark : Bool) {w : Nat} (hw : w &&& PREV_STATE = m (Bhdr.size a) &&& PREV_STATE) :
    splitBlock mark (m.set (Bhdr.size a) w) a (a + 8 + s) z (s - z) P =
      splitBlock mark m a (a + 8 + s) z (s - z) P := by
  have hPa := h.pre.le
  have hRe := h.post.le
  have hsm := h.small
  have hdvd := h.dvd
  have hsub : sub32 (s - z) BHDR_OVERHEAD = s - z - 8 := sub32_eq (by
    unfold BHDR_OVERHEAD sizeofBhdr MIN_BLOCK_SIZE
    omega) (by omega)
  have hmap : mappingInsert (s - z - 8) = clsOf (s - z - 8) := mappingInsert_eq (by omega)
  obtain ⟨hi, hj⟩ := clsOf_lt (s := s - z - 8) (by omega)
  have e1 : Bhdr.size a ≠ Bhdr.size (a + 8 + z) := by
    unfold Bhdr.size
    omega
  have e2 : Bhdr.size a ≠ Bhdr.prevHdr (a + 8 + s) := by
    unfold Bhdr.size Bhdr.prevHdr
    omega
  have e3 : Bhdr.size a ≠ Bhdr.size (a + 8 + s) := by
    unfold Bhdr.size
    omega
  -- the insertion into a memory with the same lists
  have hins (k : Mem) (hk : k (matrix P (clsOf (s - z - 8)).1 (clsOf (s - z - 8)).2) =
      m (matrix P (clsOf (s - z - 8)).1 (clsOf (s - z - 8)).2)) (hka : k (Bhdr.size a) = m (Bhdr.size a)) :
      (insertBlock (k.set (Bhdr.size a) w) (a + 8 + z) P (clsOf (s - z - 8)).1 (clsOf (s - z - 8)).2).set (Bhdr.size a)
        (z ||| insertBlock (k.set (Bhdr.size a) w) (a + 8 + z) P (clsOf (s - z - 8)).1 (clsOf (s - z - 8)).2
          (Bhdr.size a) &&& PREV_STATE) =
      (insertBlock k (a + 8 + z) P (clsOf (s - z - 8)).1 (clsOf (s - z - 8)).2).set (Bhdr.size a)
        (z ||| insertBlock k (a + 8 + z) P (clsOf (s - z - 8)).1 (clsOf (s - z - 8)).2 (Bhdr.size a) &&& PREV_STATE) := by
    have hh (h0 : k (matrix P (clsOf (s - z - 8)).1 (clsOf (s - z - 8)).2) ≠ NULL) :
        P + 3184 ≤ k (matrix P (clsOf (s - z - 8)).1 (clsOf (s - z - 8)).2) ∧
          Bhdr.size a ≠ Bhdr.prev (k (matrix P (clsOf (s - z - 8)).1 (clsOf (s - z - 8)).2)) := by
      rw [hk] at h0 ⊢
      have hnode := h.index.head_node hi hj h0
      exact ⟨h.nodes.above _ hnode, ((h.apart_own (by unfold Bhdr.size; omega) (by unfold Bhdr.size; omega)).2 _ hnode).1⟩
    have hpos : P + 3180 ≤ Bhdr.size a := by
      unfold Bhdr.size
      omega
    have hoff : Bhdr.size a ≠ Bhdr.prev (a + 8 + z) ∧ Bhdr.size a ≠ Bhdr.next (a + 8 + z) := by
      unfold Bhdr.size Bhdr.prev Bhdr.next
      omega
    have hread : insertBlock k (a + 8 + z) P (clsOf (s - z - 8)).1 (clsOf (s - z - 8)).2 (Bhdr.size a) =
        k (Bhdr.size a) := by
      rw [insertBlock_apply (by omega) hi hj fun h0 => (hh h0).1, if_neg (by unfold flBitmap Bhdr.size; omega),
        if_neg (by unfold slBitmap Bhdr.size; omega), if_neg (by rw [matrix_eq]; omega),
        if_neg (fun hc => (hh hc.1).2 hc.2), if_neg hoff.2, if_neg hoff.1]
    simp only [insertBlock_set (by omega : P + 3184 ≤ a + 8 + z) hi hj hh hpos hoff, Mem.set_self, Mem.set_set, hread,
      hka, hw]
  unfold splitBlock
  simp only [hsub, hmap, Bhdr.buffer, getNextBlock]
  cases mark with
  | false =>
    simp only [Bool.false_eq_true, if_false, Mem.set_comm e1, Mem.set_comm e2]
    apply hins
    · rw [Mem.set_ne (by rw [matrix_eq]; unfold Bhdr.prevHdr; omega),
        Mem.set_ne (by rw [matrix_eq]; unfold Bhdr.size; omega)]
    · rw [Mem.set_ne e2, Mem.set_ne e1]
  | true =>
    simp only [if_true, Mem.set_comm e1, Mem.set_comm e2, Mem.set_comm e3, Mem.set_ne e3.symm]
    apply hins
    · rw [Mem.set_ne (by rw [matrix_eq]; unfold Bhdr.size; omega),
        Mem.set_ne (by rw [matrix_eq]; unfold Bhdr.prevHdr; omega),
        Mem.set_ne (by rw [matrix_eq]; unfold Bhdr.size; omega)]
    · rw [Mem.set_ne e3, Mem.set_ne e2, Mem.set_ne e1]

/-- What is left of a block is split off where a free block has room there. -/
theorem splitRest_spec (h : Hole m P e L R a s false none ls) (hz : 8 ∣ z) (hz8 : 8 ≤ z) (hle : z ≤ s)
    (hR : ∀ n R', R = n :: R' → n.free = false) :
    ∃ m' s' bs' ls', splitRest m a (a + 8 + s) z s P = m' ∧ z ≤ s' ∧ Heap m' P e bs' ls' ∧
      used bs' = used L ++ ⟨a, s', false⟩ :: used R ∧
      ∀ x, Kept P e (L ++ R) x → (x < a ∨ a + 8 ≤ x ∧ x + 4 ≤ a + 8 + z ∨ a + 8 + s ≤ x) → m' x = m x := by
  have hPa := h.pre.le
  have hRe := h.post.le
  have hsm := h.small
  have hsub : sub32 s z = s - z := sub32_eq hle (by omega)
  unfold splitRest
  simp only [hsub]
  by_cases hroom : sizeofBhdr ≤ s - z
  · obtain ⟨m', ls', hm', h', hk⟩ := h.split true hz hz8 (by
      unfold sizeofBhdr at hroom
      omega) Bool.noConfusion hR
    refine ⟨m', z, _, ls', (if_pos hroom).trans hm', Nat.le_refl z, h', ?_, hk⟩
    rw [used_append, used_cons_used rfl, used_cons_free rfl]
  · refine ⟨m, s, _, ls, if_neg hroom, hle, h.closeUsed, ?_, fun _ _ _ => rfl⟩
    rw [used_append, used_cons_used rfl]

/-- Behind a free block there is a used one. -/
theorem Hole.after_free (h : Hole m P e L (n :: R) a s f p₀ ls) (hf : n.free = true) (c : Blk) (R' : List Blk)
    (hR : R = c :: R') : c.free = false := by
  apply Bool.eq_false_iff.2
  intro hc
  have hpost := h.post.2
  rw [hR] at hpost
  have hnone := hpost.1.apart hc
  unfold Blk.back at hnone
  rw [hf] at hnone
  cases hnone

theorem Kept.off_free (hk : Kept P e bs x) (hn : n ∈ bs) (hf : n.free = true) :
    x < n.addr ∨ n.addr + 8 + n.size ≤ x := by
  rcases hk.blocks n hn with h | ⟨-, h⟩
  · exact .inl h
  · exact .inr (h hf)

theorem Kept.tail (hk : Kept P e (L ++ n :: R) x) : Kept P e (L ++ R) x := by
  apply hk.mono
  intro c hc
  rcases List.mem_append.1 hc with hc | hc
  · exact List.mem_append_left _ hc
  · exact List.mem_append_right _ (List.mem_cons_of_mem n hc)

/-- The words of a block that stay when it is resized in its place. -/
def Held (b : Blk) (z x : Nat) : Prop :=
  x < b.addr ∨ b.addr + 8 + b.size ≤ x ∨ b.addr + 8 ≤ x ∧ x + 4 ≤ b.addr + 8 + min b.size z

theorem reallocShrink_spec (h : Heap m P e (L ++ b :: R) ls) (hb : b.free = false) (hz : 8 ∣ z) (hz8 : 8 ≤ z)
    (hle : z ≤ b.size) :
    ∃ m' s' bs' ls', reallocShrink m b.addr (b.addr + 8 + b.size) z b.size P = m' ∧ z ≤ s' ∧ Heap m' P e bs' ls' ∧
      used bs' = used L ++ ⟨b.addr, s', false⟩ :: used R ∧
      ∀ x, Kept P e (L ++ R) x → Held b z x → m' x = m x := by
  have h0 := h.openUsed hb
  have hPa := h0.pre.le
  have hsm := h0.small
  have hmin := h0.min
  have hdvd := h0.dvd
  unfold reallocShrink Held
  by_cases hf : m (Bhdr.size (b.addr + 8 + b.size)) &&& FREE_BLOCK ≠ 0
  · obtain ⟨n, R', rfl, hn⟩ := h0.next_free.1 hf
    obtain ⟨m₂, ls₂, hm₂, hna, h2, hk2⟩ := h0.mergeNext hn
    have hnb := (h0.right (List.mem_cons_self ..)).2
    have hRe := h2.post.le
    rw [if_pos hf]
    -- the size in the header of the block is written at the end only
    obtain ⟨m₁, hm₁⟩ : ∃ m₁, extractFree m n.addr P = m₁ := ⟨_, rfl⟩
    have hmem : n ∈ L ++ n :: R' := List.mem_append_right _ (List.mem_cons_self ..)
    have hwords : m₁ (Bhdr.size n.addr) &&& BLOCK_SIZE = n.size ∧
        m₁ (Bhdr.size b.addr) = tagWord b.size false (lastBack none L).isSome := by
      obtain ⟨k₁, k₂, hl⟩ := h0.indexed.in_list hmem hn
      have hctl := h0.post.1.ctl
      have hdn := h0.post.1.dvd
      rw [← hna] at hctl
      have hex := extractFree_eq h0.index h0.nodes hctl.word (by omega) (by omega) hl
      rw [hm₁] at hex
      rw [hex, h0.index.unlink_apart h0.nodes hl (h0.apart_header hmem).1,
        h0.index.unlink_apart h0.nodes hl (h0.apart_own (by unfold Bhdr.size; omega) (by unfold Bhdr.size; omega))]
      exact ⟨by rw [hctl.word]; exact tagWord_size (by omega) (by omega) _ _, h0.ctl.word⟩
    have hgrow : m₂.set (Bhdr.size b.addr) (m₁ (Bhdr.size b.addr)) = m₁ := by
      rw [← hm₂, hm₁]
      unfold grow
      rw [Mem.set_set]
      exact Mem.set_word ..
    have hprev : m₁ (Bhdr.size b.addr) &&& PREV_STATE = m₂ (Bhdr.size b.addr) &&& PREV_STATE := by
      rw [hwords.2, h2.ctl.word]
      have hd2 := h2.dvd
      rw [show tagWord b.size false (lastBack none L).isSome &&& PREV_STATE = _ from tagWord_and (by omega) _ _ (by decide),
        show tagWord (b.size + (n.size + 8)) false (lastBack none L).isSome &&& PREV_STATE = _ from
          tagWord_and (by omega) _ _ (by decide)]
    have hsum : add32 b.size (add32 n.size BHDR_OVERHEAD) = b.size + (n.size + 8) := by
      rw [show add32 n.size BHDR_OVERHEAD = n.size + 8 from
        add32_eq (by unfold BHDR_OVERHEAD sizeofBhdr MIN_BLOCK_SIZE; omega)]
      exact add32_eq (by omega)
    have hsub : sub32 (b.size + (n.size + 8)) z = b.size + (n.size + 8) - z := sub32_eq (by omega) (by omega)
    have hnext : n.addr + 8 + n.size = b.addr + 8 + (b.size + (n.size + 8)) := by omega
    have heq := splitBlock_set h2 hz hz8 (by omega) true hprev
    rw [hgrow] at heq
    obtain ⟨m₃, ls₃, hm₃, h3, hk3⟩ := h2.split true hz hz8 (by omega) Bool.noConfusion (h0.after_free hn)
    refine ⟨m₃, z, _, ls₃, ?_, Nat.le_refl z, h3, ?_, ?_⟩
    · simp only [hm₁, ← hna, hwords.1, hsum, Bhdr.buffer, getNextBlock]
      unfold splitRest
      simp only [hsub, hnext]
      rw [if_pos (by unfold sizeofBhdr; omega), heq, hm₃]
    · rw [used_append, used_cons_used rfl, used_cons_free rfl, used_cons_free hn]
    · intro x hx hxb
      have hoff := hx.off_free hmem hn
      exact (hk3 x hx.tail (by omega)).trans (hk2 x hx (by omega))
  · rw [if_neg hf]
    obtain ⟨m', s', bs', ls', hm', hzs, h', hu, hk⟩ := splitRest_spec h0 hz hz8 hle (fun n R' hR => by
      apply Bool.eq_false_iff.2
      intro hn
      exact hf (h0.next_free.2 ⟨n, R', hR, hn⟩))
    refine ⟨m', s', bs', ls', hm', hzs, h', hu, ?_⟩
    intro x hx hxb
    exact hk x hx (by omega)

theorem reallocGrow_spec (h : Heap m P e (L ++ b :: n :: R) ls) (hb : b.free = false) (hn : n.free = true)
    (hz : 8 ∣ z) (hz8 : 8 ≤ z) (hlt : b.size < z) (hle : z ≤ b.size + n.size) :
    ∃ m' s' bs' ls', reallocGrow m b.addr (b.addr + 8 + b.size) z P = m' ∧ z ≤ s' ∧ Heap m' P e bs' ls' ∧
      used bs' = used L ++ ⟨b.addr, s', false⟩ :: used R ∧
      ∀ x, Kept P e (L ++ n :: R) x → Held b z x → m' x = m x := by
  have h0 := h.openUsed hb
  obtain ⟨m₂, ls₂, hm₂, hna, h2, hk2⟩ := h0.mergeNext hn
  have hmem : n ∈ L ++ n :: R := List.mem_append_right _ (List.mem_cons_self ..)
  have h3 := (h2.setBack rfl b.addr).clearPrev
  have hsize := h2.size_eq
  have hsize3 := h3.size_eq
  obtain ⟨m', s', bs', ls', hm', hzs, h', hu, hk⟩ := splitRest_spec h3 hz hz8 (by omega) (h0.after_free hn)
  refine ⟨m', s', bs', ls', ?_, hzs, h', hu, ?_⟩
  · unfold reallocGrow
    rw [← hna, hm₂]
    simp only [hsize, hsize3, Bhdr.buffer, getNextBlock]
    exact hm'
  · intro x hx hxb
    unfold Held at hxb
    have hoff := hx.off_free hmem hn
    have hoff2 := hx.tail.off_post h2.post
    apply (hk x hx.tail (by omega)).trans
    rw [Mem.set_ne (by unfold Bhdr.size; omega), Mem.set_ne (by unfold Bhdr.prevHdr; omega)]
    exact hk2 x hx (by omega)

/-- A block is resized in its place where it is large enough, or becomes so together with a free block
behind it; else its data moves. -/
theorem reallocEx_spec (h : Heap m P e (L ++ b :: R) ls) (hb : b.free = false) (hn : newSize ≠ 0)
    (hs : newSize ≤ 2 ^ 30 - 2 ^ 24) :
    (∃ m' s' bs' ls', reallocEx m (b.addr + 8) newSize P = (m', b.addr + 8) ∧ blockSize newSize ≤ s' ∧
      Heap m' P e bs' ls' ∧ used bs' = used L ++ ⟨b.addr, s', false⟩ :: used R ∧
      ∀ x, Kept P e (L ++ R) x → Held b (blockSize newSize) x → m' x = m x) ∨
    b.size < blockSize newSize ∧
      reallocEx m (b.addr + 8) newSize P = reallocMove m (b.addr + 8) b.addr (blockSize newSize) P := by
  obtain ⟨hz, hz8, -, -⟩ := blockSize_bounds hs
  have h0 := h.openUsed hb
  have hsm := h0.small
  have hPa := h0.pre.le
  unfold reallocEx
  rw [if_neg (by unfold NULL; omega), if_neg hn]
  simp only [show b.addr + 8 - BHDR_OVERHEAD = b.addr from Nat.add_sub_cancel .., h0.size_eq, Bhdr.buffer, getNextBlock]
  by_cases hle : blockSize newSize ≤ b.size
  · left
    obtain ⟨m', s', bs', ls', hm', hzs, h', hu, hk⟩ := reallocShrink_spec h hb hz hz8 hle
    exact ⟨m', s', bs', ls', (if_pos hle).trans (by rw [hm']), hzs, h', hu, hk⟩
  · rw [if_neg hle]
    by_cases hgrow : m (Bhdr.size (b.addr + 8 + b.size)) &&& FREE_BLOCK ≠ 0 ∧
        blockSize newSize ≤ add32 b.size (m (Bhdr.size (b.addr + 8 + b.size)) &&& BLOCK_SIZE)
    · left
      obtain ⟨n, R', rfl, hnf⟩ := h0.next_free.1 hgrow.1
      have hnb := h0.right (List.mem_cons_self (a := n) (l := R'))
      have hna := h0.post.1.addr
      have hdn := h0.post.1.dvd
      have hword := h0.post.1.ctl.word
      have hfit := hgrow.2
      rw [hword, tagWord_size (by omega) (by omega), add32_eq (by omega)] at hfit
      obtain ⟨m', s', bs', ls', hm', hzs, h', hu, hk⟩ := reallocGrow_spec h hb hnf hz hz8 (Nat.not_le.1 hle) hfit
      refine ⟨m', s', bs', ls', (if_pos hgrow).trans (by rw [hm']), hzs, h', ?_, hk⟩
      rw [hu, used_cons_free hnf]
    · right
      rw [if_neg hgrow]
      exact ⟨Nat.not_le.1 hle, rfl⟩

end

end AspKernel.Tlsf
