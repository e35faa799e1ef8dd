import AspKernel.TlsfHole

/-! Blocks are taken out of the pool, merged with their neighbours, split, and put back. -/

namespace AspKernel.Tlsf
set_option autoImplicit true
open WordMem

section
variable {m m' : Mem} {P e a s x : Nat} {L R bs : List Blk} {f : Bool} {p₀ : Option Nat} {ls : Lists}
  {b c n : Blk}

theorem Apart.rest (h : Apart P ls x) (hl : ls i j = k₁ ++ y :: k₂) : Apart P (ls.set i j (k₁ ++ k₂)) x := by
  refine ⟨h.1, ?_⟩
  rintro z ⟨i', j', hz⟩
  apply h.2
  by_cases he : i' = i ∧ j' = j
  · obtain ⟨rfl, rfl⟩ := he
    rw [Lists.set_self] at hz
    exact ⟨i', j', mem_rest hl hz⟩
  · rw [Lists.set_ne _ _ he] at hz
    exact ⟨i', j', hz⟩

/-- A free block is in the list of its size. -/
theorem Indexed.in_list (h : Indexed bs ls) (hc : c ∈ bs) (hf : c.free = true) :
    ∃ k₁ k₂, ls (clsOf c.size).1 (clsOf c.size).2 = k₁ ++ c.addr :: k₂ :=
  List.append_of_mem ((h.mem c.addr _ _).2 ⟨c, hc, hf, rfl, rfl⟩)

/-- The size in the header of a free block leads to its list. -/
theorem extractFree_eq (h : Index m P ls) (hn : Nodes P ls) (hw : m (Bhdr.size a) = tagWord s f p) (h4 : 4 ∣ s)
    (hs : s < 2 ^ 30) (hl : ls (clsOf s).1 (clsOf s).2 = k₁ ++ a :: k₂) : extractFree m a P =
      unlink m a (k₁.getLastD NULL) (k₂.headD NULL) P (clsOf s).1 (clsOf s).2 := by
  unfold extractFree
  rw [hw, tagWord_size h4 hs, mappingInsert_eq (by omega)]
  exact extractBlock_eq (h.around hn hl)

theorem Heap.nodes (h : Heap m P e bs ls) : Nodes P ls := by
  apply h.indexed.nodes
  · intro c hc
    have hm := h.blocks.mem hc
    exact ⟨hm.1, hm.2.2.1⟩
  · intro b hb c hc
    exact h.blocks.toPrefix.spaced hb hc

theorem Heap.apart_header (h : Heap m P e bs ls) (hc : c ∈ bs) :
    Apart P ls (Bhdr.size c.addr) ∧ Apart P ls (Bhdr.prevHdr c.addr) := by
  apply h.indexed.apart_header (h.blocks.mem hc).1
  intro d hd _
  have hd8 := (h.blocks.mem hd).2.2.1
  rcases h.blocks.toPrefix.spaced hc hd with rfl | hcd
  · omega
  · omega

theorem Heap.apart_end (h : Heap m P e bs ls) : Apart P ls (Bhdr.size e) ∧ Apart P ls (Bhdr.prevHdr e) := by
  apply h.indexed.apart_header h.blocks.le
  intro d hd _
  have hm := h.blocks.mem hd
  omega

/-- A used block is taken out. -/
theorem Heap.openUsed (h : Heap m P e (L ++ b :: R) ls) (hb : b.free = false) :
    Hole m P e L R b.addr b.size false none ls := by
  obtain ⟨a, hL, hba, hR⟩ := suffix_append.1 h.blocks
  obtain rfl := hba.addr
  have hctl := hba.ctl
  rw [hb] at hctl
  have hback : b.back = none := by
    unfold Blk.back
    rw [hb]
    rfl
  rw [hback] at hR
  exact ⟨hL, hctl, hba.dvd, hba.min, hR, h.index, (Indexed.used hb).1 h.indexed, h.small⟩

/-- A used block is put back. -/
theorem Hole.closeUsed (h : Hole m P e L R a s false none ls) : Heap m P e (L ++ ⟨a, s, false⟩ :: R) ls := by
  refine ⟨?_, h.index, (Indexed.used rfl).2 h.indexed, h.small⟩
  apply suffix_append.2
  refine ⟨a, h.pre, ⟨rfl, h.dvd, h.min, h.ctl, ?_⟩, h.post⟩
  intro hf
  cases hf

/-- The first block of its list is taken out. -/
theorem Heap.openFree (h : Heap m P e (L ++ b :: R) ls) (hb : b.free = true)
    (hl : ls (clsOf b.size).1 (clsOf b.size).2 = b.addr :: k) :
    ∃ m' ls', extractBlockHdr m b.addr P (clsOf b.size).1 (clsOf b.size).2 = m' ∧
      Hole m' P e L R b.addr b.size true (some b.addr) ls' ∧ lastBack none L = none ∧
      ∀ x, Kept P e (L ++ b :: R) x → m' x = m x := by
  have hl' : ls (clsOf b.size).1 (clsOf b.size).2 = [] ++ b.addr :: k := hl
  have hn := h.nodes
  obtain ⟨a, hL, hba, hR⟩ := suffix_append.1 h.blocks
  obtain rfl := hba.addr
  have hback : b.back = some b.addr := by
    unfold Blk.back
    rw [hb]
    rfl
  rw [hback] at hR
  have hctl := hba.ctl
  rw [hb] at hctl
  have hkeep (x : Nat) (hx : Apart P ls x) := h.index.unlink_apart hn hl' hx
  have hhdr (c : Blk) (hc : c ∈ L ++ b :: R) :=
    And.intro (hkeep _ (h.apart_header hc).1) (hkeep _ (h.apart_header hc).2)
  refine ⟨_, _, extractBlockHdr_eq (h.index.around hn hl'), ⟨?_, ?_, hba.dvd, hba.min, ?_, h.index.unlink hn hl', ?_,
    h.small⟩, hba.apart hb, ?_⟩
  · apply hL.congr
    intro c hc
    exact hhdr c (List.mem_append_left _ hc)
  · obtain ⟨h1, h2⟩ := hhdr b (List.mem_append_right _ (List.mem_cons_self ..))
    exact hctl.congr h1 h2
  · apply hR.congr
    · intro c hc
      exact hhdr c (List.mem_append_right _ (List.mem_cons_of_mem b hc))
    · exact ⟨hkeep _ h.apart_end.1, hkeep _ h.apart_end.2⟩
  · apply h.indexed.remove hl'
    intro c hc
    have hmin := hba.min
    rcases List.mem_append.1 hc with hc | hc
    · have hm := hL.mem hc
      omega
    · have hm := hR.mem hc
      omega
  · intro x hx
    exact hkeep x (hx.apart h.indexed fun c hc => (h.blocks.mem hc).2.2.1)

/-- A free block behind the block is added to it. -/
theorem Hole.mergeNext (h : Hole m P e L (n :: R) a s f p₀ ls) (hf : n.free = true) :
    ∃ m' ls', grow (extractFree m n.addr P) a n.addr = m' ∧ n.addr = a + 8 + s ∧
      Hole m' P e L R a (s + (n.size + 8)) f (some n.addr) ls' ∧
      ∀ x, Kept P e (L ++ n :: R) x → (x < a ∨ a + 8 ≤ x) → m' x = m x := by
  have hn := h.nodes
  obtain ⟨hna, hR⟩ := h.post
  have hmem : n ∈ L ++ n :: R := List.mem_append_right _ (List.mem_cons_self ..)
  obtain ⟨k₁, k₂, hl⟩ := h.indexed.in_list hmem hf
  have haddr := hna.addr
  have hctl := hna.ctl
  have hback : n.back = some n.addr := by
    unfold Blk.back
    rw [hf]
    rfl
  rw [hf, ← haddr] at hctl
  rw [hback, ← haddr] at hR
  have hPa := h.pre.le
  have hRe := hR.le
  have hsm := h.small
  have hmin := hna.min
  have hdvd := hna.dvd
  have hdvds := h.dvd
  have hnlt : n.size < 2 ^ 30 := by omega
  have hex := extractFree_eq h.index hn hctl.word (by omega) hnlt hl
  have hkeep (x : Nat) (hx : Apart P ls x) := h.index.unlink_apart hn hl hx
  have hown : Apart P ls (Bhdr.size a) := h.apart_own (by unfold Bhdr.size; omega) (by unfold Bhdr.size; omega)
  have hbk : Apart P ls (Bhdr.prevHdr a) :=
    h.apart_own (by unfold Bhdr.prevHdr; omega) (by unfold Bhdr.prevHdr; omega)
  have hword : grow (extractFree m n.addr P) a n.addr =
      (unlink m n.addr (k₁.getLastD NULL) (k₂.headD NULL) P (clsOf n.size).1 (clsOf n.size).2).set (Bhdr.size a)
        (tagWord (s + (n.size + 8)) f (lastBack none L).isSome) := by
    unfold grow
    rw [hex, hkeep _ hown, hkeep _ (h.apart_header hmem).1, h.ctl.word, hctl.word, tagWord_size (by omega) hnlt,
      show add32 n.size BHDR_OVERHEAD = n.size + 8 from add32_eq (by unfold BHDR_OVERHEAD sizeofBhdr MIN_BLOCK_SIZE; omega),
      tagWord_add _ _ (by omega)]
  refine ⟨_, _, hword, haddr, ⟨?_, ⟨Mem.set_self, ?_⟩, by omega, by omega, ?_,
    (h.index.unlink hn hl).set (hown.rest hl) _, ?_, h.small⟩, ?_⟩
  · apply h.keep_pre
    intro x hx hxa
    rw [Mem.set_ne (by unfold Bhdr.size; omega)]
    exact hkeep x hx
  · intro q hq
    rw [Mem.set_ne (by unfold Bhdr.size Bhdr.prevHdr; omega), hkeep _ hbk]
    exact h.ctl.back q hq
  · have hend : a + 8 + (s + (n.size + 8)) = n.addr + 8 + n.size := by omega
    rw [hend]
    apply hR.congr
    · intro c hc
      have hcm := (hR.mem hc).1
      obtain ⟨h1, h2⟩ := h.apart_header (List.mem_append_right L (List.mem_cons_of_mem n hc))
      rw [Mem.set_ne (by unfold Bhdr.size; omega), Mem.set_ne (by unfold Bhdr.size Bhdr.prevHdr; omega)]
      exact ⟨hkeep _ h1, hkeep _ h2⟩
    · rw [Mem.set_ne (by unfold Bhdr.size; omega), Mem.set_ne (by unfold Bhdr.size Bhdr.prevHdr; omega)]
      exact ⟨hkeep _ h.apart_end.1, hkeep _ h.apart_end.2⟩
  · apply h.indexed.remove hl
    intro c hc
    rcases List.mem_append.1 hc with hc | hc
    · have hm := h.left hc
      omega
    · have hm := hR.mem hc
      omega
  · intro x hx hxa
    rw [Mem.set_ne (by unfold Bhdr.size; omega)]
    exact hkeep x (h.apart_kept hx)

/-- The block is added to a free block in front of it. -/
theorem Hole.mergePrev (h : Hole m P e (L ++ [c]) R a s f p₀ ls) (hf : c.free = true) :
    ∃ m' ls', grow (extractFree m c.addr P) c.addr a = m' ∧ lastBack none L = none ∧
      Hole m' P e L R c.addr (c.size + (s + 8)) true p₀ ls' ∧
      ∀ x, Kept P e (L ++ [c] ++ R) x → m' x = m x := by
  have hn := h.nodes
  obtain ⟨a', hL, hca, ha⟩ := prefix_append.1 h.pre
  obtain rfl := hca.addr
  change c.addr + 8 + c.size = a at ha
  have hmem : c ∈ L ++ [c] ++ R := by simp
  obtain ⟨k₁, k₂, hl⟩ := h.indexed.in_list hmem hf
  have hctl := hca.ctl
  rw [hf] at hctl
  have hPa := hL.le
  have hRe := h.post.le
  have hsm := h.small
  have hmin := hca.min
  have hdvd := hca.dvd
  have hdvds := h.dvd
  have hclt : c.size < 2 ^ 30 := by omega
  have hex := extractFree_eq h.index hn hctl.word (by omega) hclt hl
  have hkeep (x : Nat) (hx : Apart P ls x) := h.index.unlink_apart hn hl hx
  obtain ⟨hc1, hc2⟩ := h.apart_header hmem
  have hown : Apart P ls (Bhdr.size a) := h.apart_own (by unfold Bhdr.size; omega) (by unfold Bhdr.size; omega)
  have hword : grow (extractFree m c.addr P) c.addr a =
      (unlink m c.addr (k₁.getLastD NULL) (k₂.headD NULL) P (clsOf c.size).1 (clsOf c.size).2).set (Bhdr.size c.addr)
        (tagWord (c.size + (s + 8)) true (lastBack none L).isSome) := by
    unfold grow
    rw [hex, hkeep _ hown, hkeep _ hc1, h.ctl.word, hctl.word, tagWord_size (by omega) (by omega),
      show add32 s BHDR_OVERHEAD = s + 8 from add32_eq (by unfold BHDR_OVERHEAD sizeofBhdr MIN_BLOCK_SIZE; omega),
      tagWord_add _ _ (by omega)]
  have hmono (d : Blk) (hd : d ∈ L ++ R) : d ∈ L ++ [c] ++ R := by
    rcases List.mem_append.1 hd with hd | hd
    · exact List.mem_append_left _ (List.mem_append_left _ hd)
    · exact List.mem_append_right _ hd
  refine ⟨_, _, hword, hca.apart hf, ⟨?_, ⟨Mem.set_self, ?_⟩, by omega, by omega, ?_,
    (h.index.unlink hn hl).set (hc1.rest hl) _, ?_, h.small⟩, ?_⟩
  · apply hL.congr
    intro d hd
    have hdm := hL.mem hd
    obtain ⟨h1, h2⟩ := h.apart_header (List.mem_append_left R (List.mem_append_left [c] hd))
    rw [Mem.set_ne (by unfold Bhdr.size; omega), Mem.set_ne (by unfold Bhdr.size Bhdr.prevHdr; omega)]
    exact ⟨hkeep _ h1, hkeep _ h2⟩
  · intro q hq
    rw [Mem.set_ne (by unfold Bhdr.size Bhdr.prevHdr; omega), hkeep _ hc2]
    exact hctl.back q hq
  · have hend : c.addr + 8 + (c.size + (s + 8)) = a + 8 + s := by omega
    rw [hend]
    apply h.post.congr
    · intro d hd
      have hdm := (h.post.mem hd).1
      obtain ⟨h1, h2⟩ := h.apart_header (List.mem_append_right (L ++ [c]) hd)
      rw [Mem.set_ne (by unfold Bhdr.size; omega), Mem.set_ne (by unfold Bhdr.size Bhdr.prevHdr; omega)]
      exact ⟨hkeep _ h1, hkeep _ h2⟩
    · rw [Mem.set_ne (by unfold Bhdr.size; omega), Mem.set_ne (by unfold Bhdr.size Bhdr.prevHdr; omega)]
      exact ⟨hkeep _ h.apart_end.1, hkeep _ h.apart_end.2⟩
  · have hidx := h.indexed
    rw [List.append_assoc] at hidx
    apply hidx.remove hl
    intro d hd
    rcases List.mem_append.1 hd with hd | hd
    · have hm := hL.mem hd
      omega
    · have hm := h.right hd
      omega
  · intro x hx
    have hxc := hx.blocks c hmem
    rw [Mem.set_ne (by unfold Bhdr.size; omega)]
    exact hkeep x (h.apart_kept hx)

theorem Apart.push (h : Apart P ls x) (hb : x ≠ Bhdr.prev y ∧ x ≠ Bhdr.next y) (i j : Nat) :
    Apart P (ls.set i j (y :: ls i j)) x := by
  refine ⟨h.1, ?_⟩
  rintro z ⟨i', j', hz⟩
  rcases (Lists.mem_push ls i j y i' j').1 hz with hz | ⟨rfl, -⟩
  · exact h.2 z ⟨i', j', hz⟩
  · exact hb

theorem clsOf_lt (h : s < 2 ^ 30) : (clsOf s).1 < 24 ∧ (clsOf s).2 < 32 :=
  ⟨SizeClass.cls_fst_lt h (by decide), SizeClass.cls_snd_lt (by decide) s⟩

/-- A place in the block for a free block. -/
theorem Hole.fresh (h : Hole m P e L R a s f p₀ ls) (h1 : a ≤ y) (h2 : y + 16 ≤ a + 8 + s) : Fresh P ls y := by
  have hle := h.pre.le
  refine ⟨by omega, ?_⟩
  intro z hz
  obtain ⟨c, hc, -, rfl⟩ := h.indexed.node hz
  have hs := h.sides hc
  omega

/-- The header behind the block, where that is not free, is not a word of another block. -/
theorem Kept.off_post (hk : Kept P e (L ++ R) x) (h : Suffix m p₀ y R e) : x < y ∨ y + 8 ≤ x := by
  cases R with
  | nil =>
    have he := h.1
    have hb := hk.below
    omega
  | cons n R =>
    have ha := h.1.addr
    have hb := hk.blocks n (List.mem_append_right _ (List.mem_cons_self ..))
    omega

/-- The block is put back as a free block. -/
theorem Hole.closeFree (h : Hole m P e L R a s true p₀ ls) (hL : lastBack none L = none)
    (hR : ∀ n R', R = n :: R' → n.free = false) :
    let m₁ := insertBlock m a P (clsOf s).1 (clsOf s).2
    let m₂ := m₁.set (Bhdr.size (a + 8 + s)) (m₁ (Bhdr.size (a + 8 + s)) ||| PREV_FREE)
    ∃ ls', Heap (m₂.set (Bhdr.prevHdr (a + 8 + s)) a) P e (L ++ ⟨a, s, true⟩ :: R) ls' ∧
      ∀ x, Kept P e (L ++ R) x → (x < a ∨ a + 8 + s ≤ x) → m₂.set (Bhdr.prevHdr (a + 8 + s)) a x = m x := by
  intro m₁ m₂
  have hPa := h.pre.le
  have hRe := h.post.le
  have hsm := h.small
  have hmin := h.min
  have hn := h.nodes
  obtain ⟨hi, hj⟩ := clsOf_lt (s := s) (by omega)
  have hfr : Fresh P ls a := h.fresh (Nat.le_refl a) (by omega)
  have hkeep (x : Nat) (hx : Apart P ls x) (hxa : x < a + 8 ∨ a + 16 ≤ x) : m₁ x = m x :=
    h.index.insert_apart hn hfr hi hj hx (by unfold Bhdr.prev Bhdr.next; omega)
  have hkeep₂ (x : Nat) (hx : Apart P ls x) (hxa : x < a + 8 ∨ a + 16 ≤ x) (hx1 : x ≠ Bhdr.size (a + 8 + s))
      (hx2 : x ≠ Bhdr.prevHdr (a + 8 + s)) : m₂.set (Bhdr.prevHdr (a + 8 + s)) a x = m x := by
    rw [Mem.set_ne hx2, Mem.set_ne hx1]
    exact hkeep x hx hxa
  have hpost1 : Apart P ls (Bhdr.size (a + 8 + s)) :=
    h.apart_own (by unfold Bhdr.size; omega) (by unfold Bhdr.size; omega)
  have hpost2 : Apart P ls (Bhdr.prevHdr (a + 8 + s)) :=
    h.apart_own (by unfold Bhdr.prevHdr; omega) (by unfold Bhdr.prevHdr; omega)
  have hoff (x : Nat) (hx : x < a ∨ a + 8 + s ≤ x) : x < a + 8 ∨ a + 16 ≤ x := by omega
  refine ⟨ls.set (clsOf s).1 (clsOf s).2 (a :: ls (clsOf s).1 (clsOf s).2), ⟨?_, ?_, ?_, h.small⟩, ?_⟩
  · apply suffix_append.2
    refine ⟨a, ?_, ⟨rfl, h.dvd, hmin, ?_, fun _ => hL⟩, ?_⟩
    · apply h.keep_pre
      intro x hx hxa
      exact hkeep₂ x hx (by omega) (by unfold Bhdr.size; omega) (by unfold Bhdr.prevHdr; omega)
    · apply h.ctl.congr
      · exact hkeep₂ _ (h.apart_own (by unfold Bhdr.size; omega) (by unfold Bhdr.size; omega))
          (by unfold Bhdr.size; omega) (by unfold Bhdr.size; omega) (by unfold Bhdr.size Bhdr.prevHdr; omega)
      · exact hkeep₂ _ (h.apart_own (by unfold Bhdr.prevHdr; omega) (by unfold Bhdr.prevHdr; omega))
          (by unfold Bhdr.prevHdr; omega) (by unfold Bhdr.size Bhdr.prevHdr; omega)
          (by unfold Bhdr.prevHdr; omega)
    · apply h.relink
      · intro n R' hR' hnf
        rw [hR n R' hR'] at hnf
        cases hnf
      · intro s' f' h4 _ hw
        rw [Mem.set_ne (by unfold Bhdr.size Bhdr.prevHdr; omega), Mem.set_self,
          hkeep _ hpost1 (by unfold Bhdr.size; omega), hw]
        exact tagWord_setPrev h4 f' _
      · intro q hq
        rw [Mem.set_self]
        exact Option.some.inj hq
      · intro x hx hx1 hx2 hxa
        exact hkeep₂ x hx (hoff x hxa) hx1 hx2
  · have hoff1 : Bhdr.size (a + 8 + s) ≠ Bhdr.prev a ∧ Bhdr.size (a + 8 + s) ≠ Bhdr.next a := by
      unfold Bhdr.size Bhdr.prev Bhdr.next
      omega
    have hoff2 : Bhdr.prevHdr (a + 8 + s) ≠ Bhdr.prev a ∧ Bhdr.prevHdr (a + 8 + s) ≠ Bhdr.next a := by
      unfold Bhdr.prevHdr Bhdr.prev Bhdr.next
      omega
    exact ((h.index.insert hn hfr hi hj).set (hpost1.push hoff1 _ _) _).set (hpost2.push hoff2 _ _) _
  · apply h.indexed.insert rfl rfl
    intro c hc
    have hs := h.sides hc
    change c.addr ≠ a
    omega
  · intro x hx hxa
    have hoff' := hx.off_post h.post
    exact hkeep₂ x (h.apart_kept hx) (hoff x hxa) (by unfold Bhdr.size; omega) (by unfold Bhdr.prevHdr; omega)

/-- The header behind the block is told that it is free, and gets an address. -/
theorem Hole.markPrev (h : Hole m P e L R a s f p₀ ls) (hR : ∀ n R', R = n :: R' → n.free = false) (q : Nat) :
    let m₁ := m.set (Bhdr.prevHdr (a + 8 + s)) q
    Hole (m₁.set (Bhdr.size (a + 8 + s)) (m₁ (Bhdr.size (a + 8 + s)) ||| PREV_FREE)) P e L R a s f (some q) ls := by
  intro m₁
  have hne : Bhdr.prevHdr (a + 8 + s) ≠ Bhdr.size (a + 8 + s) := by
    unfold Bhdr.size Bhdr.prevHdr
    omega
  have hw : m₁ (Bhdr.size (a + 8 + s)) = m (Bhdr.size (a + 8 + s)) := Mem.set_ne hne.symm
  have h1 : Hole (m.set (Bhdr.size (a + 8 + s)) (m (Bhdr.size (a + 8 + s)) ||| PREV_FREE)) P e L R a s f
      (some (m (Bhdr.prevHdr (a + 8 + s)))) ls := by
    apply h.setPost (.inl rfl)
    apply h.relink
    · intro n R' hR' hnf
      rw [hR n R' hR'] at hnf
      cases hnf
    · intro s' f' h4 _ hw
      rw [Mem.set_self, hw]
      exact tagWord_setPrev h4 f' _
    · intro q' hq
      rw [Mem.set_ne hne]
      exact Option.some.inj hq
    · intro y _ hy _ _
      exact Mem.set_ne hy
  have h2 := h1.setBack rfl q
  rw [hw]
  rwa [Mem.set_comm hne.symm] at h2

/-- The block is used up to `z` bytes, and the rest of it is put back as a free block. -/
theorem Hole.fill (h : Hole m P e L R a s f (some (a + 8 + z)) ls) (hz : 8 ∣ z) (hz8 : 8 ≤ z) (hfit : z + 16 ≤ s)
    (hw : m (Bhdr.size (a + 8 + z)) = tagWord (s - z - 8) true false) :
    let m₁ := insertBlock m (a + 8 + z) P (clsOf (s - z - 8)).1 (clsOf (s - z - 8)).2
    let m₂ := m₁.set (Bhdr.size a) (z ||| m₁ (Bhdr.size a) &&& PREV_STATE)
    ∃ ls', Heap m₂ P e (L ++ ⟨a, z, false⟩ :: ⟨a + 8 + z, s - z - 8, true⟩ :: R) ls' ∧
      ∀ x, Kept P e (L ++ R) x → (x < a ∨ a + 8 ≤ x ∧ x + 4 ≤ a + 8 + z ∨ a + 8 + s ≤ x) → m₂ x = m x := by
  intro m₁ m₂
  have hPa := h.pre.le
  have hRe := h.post.le
  have hsm := h.small
  have hdvd := h.dvd
  have hn := h.nodes
  obtain ⟨hi, hj⟩ := clsOf_lt (s := s - z - 8) (by omega)
  have hfr : Fresh P ls (a + 8 + z) := h.fresh (by omega) (by omega)
  have hkeep (x : Nat) (hx : Apart P ls x) (hxa : x < a + 8 + z + 8 ∨ a + 8 + z + 16 ≤ x) : m₁ x = m x :=
    h.index.insert_apart hn hfr hi hj hx (by unfold Bhdr.prev Bhdr.next; omega)
  have hkeep₂ (x : Nat) (hx : Apart P ls x) (hxa : x < a + 8 + z + 8 ∨ a + 8 + z + 16 ≤ x) (hx1 : x ≠ Bhdr.size a) :
      m₂ x = m x := by
    rw [Mem.set_ne hx1]
    exact hkeep x hx hxa
  let c := clsOf (s - z - 8)
  have hown : Apart P ls (Bhdr.size a) := h.apart_own (by unfold Bhdr.size; omega) (by unfold Bhdr.size; omega)
  refine ⟨ls.set c.1 c.2 ((a + 8 + z) :: ls c.1 c.2), ⟨?_, ?_, ?_, h.small⟩, ?_⟩
  · have hused : BlockAt m₂ (lastBack none L) a ⟨a, z, false⟩ := by
      refine ⟨rfl, hz, hz8, ⟨?_, ?_⟩, Bool.noConfusion⟩
      · rw [Mem.set_self, hkeep _ hown (by unfold Bhdr.size; omega), h.ctl.word]
        exact tagWord_prevState (by omega) (by omega) _ _
      · intro q hq
        rw [hkeep₂ _ (h.apart_own (by unfold Bhdr.prevHdr; omega) (by unfold Bhdr.prevHdr; omega))
          (by unfold Bhdr.prevHdr; omega) (by unfold Bhdr.size Bhdr.prevHdr; omega)]
        exact h.ctl.back q hq
    have hfree : BlockAt m₂ none (a + 8 + z) ⟨a + 8 + z, s - z - 8, true⟩ := by
      refine ⟨rfl, ?_, ?_, ⟨?_, ?_⟩, fun _ => rfl⟩
      · change 8 ∣ s - z - 8
        omega
      · change 8 ≤ s - z - 8
        omega
      · rw [hkeep₂ _ (h.apart_own (by unfold Bhdr.size; omega) (by unfold Bhdr.size; omega))
          (by unfold Bhdr.size; omega) (by unfold Bhdr.size; omega)]
        exact hw
      · intro q hq
        cases hq
    apply suffix_append.2
    refine ⟨a, ?_, hused, hfree, ?_⟩
    · apply h.keep_pre
      intro x hx hxa
      exact hkeep₂ x hx (by omega) (by unfold Bhdr.size; omega)
    · have hend : a + 8 + z + 8 + (s - z - 8) = a + 8 + s := by omega
      change Suffix m₂ (some (a + 8 + z)) (a + 8 + z + 8 + (s - z - 8)) R e
      rw [hend]
      apply h.post.congr
      · intro c hc
        have hr := h.right hc
        obtain ⟨h1, h2⟩ := h.apart_header (List.mem_append_right L hc)
        exact ⟨hkeep₂ _ h1 (by unfold Bhdr.size; omega) (by unfold Bhdr.size; omega),
          hkeep₂ _ h2 (by unfold Bhdr.prevHdr; omega) (by unfold Bhdr.size Bhdr.prevHdr; omega)⟩
      · obtain ⟨h1, h2⟩ := h.apart_end
        exact ⟨hkeep₂ _ h1 (by unfold Bhdr.size; omega) (by unfold Bhdr.size; omega),
          hkeep₂ _ h2 (by unfold Bhdr.prevHdr; omega) (by unfold Bhdr.size Bhdr.prevHdr; omega)⟩
  · have hoff : Bhdr.size a ≠ Bhdr.prev (a + 8 + z) ∧ Bhdr.size a ≠ Bhdr.next (a + 8 + z) := by
      unfold Bhdr.size Bhdr.prev Bhdr.next
      omega
    exact (h.index.insert hn hfr hi hj).set (hown.push hoff _ _) _
  · apply (Indexed.used rfl).2
    apply h.indexed.insert rfl rfl
    intro c hc
    have hs := h.sides hc
    change c.addr ≠ a + 8 + z
    omega
  · intro x hx hxa
    exact hkeep₂ x (h.apart_kept hx) (by omega) (by unfold Bhdr.size; omega)

/-- A used block keeps `z` bytes, and the rest becomes a free block. -/
theorem Hole.split (h : Hole m P e L R a s f p₀ ls) (mark : Bool) (hz : 8 ∣ z) (hz8 : 8 ≤ z) (hfit : z + 16 ≤ s)
    (hp : mark = false → p₀.isSome = true) (hR : ∀ n R', R = n :: R' → n.free = false) :
    ∃ m' ls', splitBlock mark m a (a + 8 + s) z (s - z) P = m' ∧
      Heap m' P e (L ++ ⟨a, z, false⟩ :: ⟨a + 8 + z, s - z - 8, true⟩ :: R) ls' ∧
      ∀ x, Kept P e (L ++ R) x → (x < a ∨ a + 8 ≤ x ∧ x + 4 ≤ a + 8 + z ∨ a + 8 + s ≤ x) → m' x = m x := by
  have hPa := h.pre.le
  have hRe := h.post.le
  have hsm := h.small
  have hdvd := h.dvd
  have hsub : sub32 (s - z) BHDR_OVERHEAD = s - z - 8 := sub32_eq (by
    unfold BHDR_OVERHEAD sizeofBhdr MIN_BLOCK_SIZE
    omega) (by omega)
  have hmap : mappingInsert (s - z - 8) = clsOf (s - z - 8) := mappingInsert_eq (by omega)
  have h1 := h.setBuffer (x := Bhdr.size (a + 8 + z)) (by unfold Bhdr.size; omega) (by unfold Bhdr.size; omega)
    (tagWord (s - z - 8) true false)
  have hframe (x : Nat) (hx : Kept P e (L ++ R) x)
      (hxa : x < a ∨ a + 8 ≤ x ∧ x + 4 ≤ a + 8 + z ∨ a + 8 + s ≤ x) : x ≠ Bhdr.size (a + 8 + z) ∧
        x ≠ Bhdr.prevHdr (a + 8 + s) ∧ x ≠ Bhdr.size (a + 8 + s) := by
    have hoff := hx.off_post h.post
    unfold Bhdr.size Bhdr.prevHdr
    omega
  unfold splitBlock
  simp only [hsub, hmap, tagWord_new (show 4 ∣ s - z - 8 by omega), Bhdr.buffer, getNextBlock]
  cases mark with
  | false =>
    have h2 := h1.setBack (hp rfl) (a + 8 + z)
    obtain ⟨ls', hh, hk⟩ := h2.fill hz hz8 hfit (by
      rw [Mem.set_ne (by unfold Bhdr.size Bhdr.prevHdr; omega), Mem.set_self])
    refine ⟨_, ls', rfl, hh, ?_⟩
    intro x hx hxa
    obtain ⟨e1, e2, -⟩ := hframe x hx hxa
    apply (hk x hx hxa).trans
    rw [Mem.set_ne e2, Mem.set_ne e1]
  | true =>
    have h2 := h1.markPrev hR (a + 8 + z)
    obtain ⟨ls', hh, hk⟩ := h2.fill hz hz8 hfit (by
      rw [Mem.set_ne (by unfold Bhdr.size; omega), Mem.set_ne (by unfold Bhdr.size Bhdr.prevHdr; omega), Mem.set_self])
    refine ⟨_, ls', rfl, hh, ?_⟩
    intro x hx hxa
    obtain ⟨e1, e2, e3⟩ := hframe x hx hxa
    apply (hk x hx hxa).trans
    rw [Mem.set_ne e3, Mem.set_ne e2, Mem.set_ne e1]

end

end AspKernel.Tlsf
