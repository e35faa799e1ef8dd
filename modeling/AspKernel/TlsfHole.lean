import AspKernel.TlsfBlocks

/-!
The pool while a call works on one block of it: the blocks in front of it and behind it are as
they should be, and the block itself is in no list.
-/

namespace AspKernel.Tlsf
set_option autoImplicit true
open WordMem

/-- The lists hold the free blocks, each in the list of its size. -/
structure Indexed (bs : List Blk) (ls : Lists) : Prop where
  nodup : ∀ i j, (ls i j).Nodup
  mem : ∀ a i j, a ∈ ls i j ↔ ∃ b ∈ bs, b.free = true ∧ b.addr = a ∧ clsOf b.size = (i, j)

/-- The pool between two calls. -/
structure Heap (m : Mem) (P e : Nat) (bs : List Blk) (ls : Lists) : Prop where
  blocks : Suffix m none (P + 3184) bs e
  index : Index m P ls
  indexed : Indexed bs ls
  small : e < P + 3184 + 2 ^ 30

/-- The pool without the block of `s` bytes at `a`. `p₀` is what the header behind it says of it. -/
structure Hole (m : Mem) (P e : Nat) (L R : List Blk) (a s : Nat) (f : Bool) (p₀ : Option Nat) (ls : Lists) :
    Prop where
  pre : Prefix m none (P + 3184) L a
  ctl : Ctl m (lastBack none L) a s f
  dvd : 8 ∣ s
  min : 8 ≤ s
  post : Suffix m p₀ (a + 8 + s) R e
  index : Index m P ls
  indexed : Indexed (L ++ R) ls
  small : e < P + 3184 + 2 ^ 30

/-- Words that are neither in the data of the pool nor in a header nor in a free block. -/
structure Kept (P e : Nat) (bs : List Blk) (x : Nat) : Prop where
  above : x < P + 8 ∨ P + 3184 ≤ x
  below : x < e ∨ e + 8 ≤ x
  blocks : ∀ c ∈ bs, x < c.addr ∨ c.addr + 8 ≤ x ∧ (c.free = true → c.addr + 8 + c.size ≤ x)

section
variable {m m' : Mem} {P e a s x : Nat} {L R bs : List Blk} {f : Bool} {p₀ : Option Nat} {ls : Lists}
  {b c n : Blk}

theorem Kept.mono (h : Kept P e bs x) (hs : ∀ c ∈ bs', c ∈ bs) : Kept P e bs' x :=
  ⟨h.above, h.below, fun c hc => h.blocks c (hs c hc)⟩

theorem Indexed.used (hb : b.free = false) : Indexed (L ++ b :: R) ls ↔ Indexed (L ++ R) ls := by
  have hmem (a i j : Nat) : (∃ c ∈ L ++ b :: R, c.free = true ∧ c.addr = a ∧ clsOf c.size = (i, j)) ↔
      ∃ c ∈ L ++ R, c.free = true ∧ c.addr = a ∧ clsOf c.size = (i, j) := by
    constructor
    · rintro ⟨c, hc, h1, h2⟩
      refine ⟨c, ?_, h1, h2⟩
      rcases List.mem_append.1 hc with hc | hc
      · exact List.mem_append_left _ hc
      · rcases List.mem_cons.1 hc with rfl | hc
        · rw [hb] at h1
          cases h1
        · exact List.mem_append_right _ hc
    · rintro ⟨c, hc, h1, h2⟩
      refine ⟨c, ?_, h1, h2⟩
      rcases List.mem_append.1 hc with hc | hc
      · exact List.mem_append_left _ hc
      · exact List.mem_append_right _ (List.mem_cons_of_mem b hc)
  constructor
  · intro h
    exact ⟨h.nodup, fun a i j => (h.mem a i j).trans (hmem a i j)⟩
  · intro h
    exact ⟨h.nodup, fun a i j => (h.mem a i j).trans (hmem a i j).symm⟩

/-- A free block leaves its list and the blocks. -/
theorem Indexed.remove (h : Indexed (L ++ b :: R) ls) (hls : ls i j = k₁ ++ b.addr :: k₂)
    (hne : ∀ c ∈ L ++ R, c.addr ≠ b.addr) : Indexed (L ++ R) (ls.set i j (k₁ ++ k₂)) := by
  have hnd := h.nodup i j
  rw [hls] at hnd
  obtain ⟨hbk, hnk⟩ := List.nodup_cons.1 (List.nodup_middle.1 hnd)
  have hbm : b.addr ∈ ls i j := hls ▸ List.mem_append_right _ (List.mem_cons_self ..)
  refine ⟨?_, ?_⟩
  · intro i' j'
    by_cases he : i' = i ∧ j' = j
    · obtain ⟨rfl, rfl⟩ := he
      rw [Lists.set_self]
      exact hnk
    · rw [Lists.set_ne _ _ he]
      exact h.nodup i' j'
  · intro a i' j'
    have hmem : a ∈ ls.set i j (k₁ ++ k₂) i' j' ↔ a ∈ ls i' j' ∧ ¬(a = b.addr ∧ i' = i ∧ j' = j) := by
      by_cases he : i' = i ∧ j' = j
      · obtain ⟨rfl, rfl⟩ := he
        rw [Lists.set_self]
        constructor
        · intro ha
          refine ⟨mem_rest hls ha, ?_⟩
          rintro ⟨rfl, -⟩
          exact hbk ha
        · rintro ⟨ha, hne⟩
          rw [hls] at ha
          rcases List.mem_append.1 ha with ha | ha
          · exact List.mem_append_left _ ha
          · rcases List.mem_cons.1 ha with rfl | ha
            · exact absurd ⟨rfl, rfl, rfl⟩ hne
            · exact List.mem_append_right _ ha
      · rw [Lists.set_ne _ _ he]
        exact ⟨fun ha => ⟨ha, fun hc => he hc.2⟩, And.left⟩
    rw [hmem, h.mem]
    constructor
    · rintro ⟨⟨c, hc, h1, h2, h3⟩, hn⟩
      rcases List.mem_append.1 hc with hc | hc
      · exact ⟨c, List.mem_append_left _ hc, h1, h2, h3⟩
      · rcases List.mem_cons.1 hc with rfl | hc
        · -- the block itself is in the list that it has left only
          exfalso
          obtain ⟨d, hd, h4, h5, h6⟩ := (h.mem c.addr i j).1 hbm
          rcases List.mem_append.1 hd with hd | hd
          · exact hne d (List.mem_append_left _ hd) h5
          · rcases List.mem_cons.1 hd with rfl | hd
            · rw [h6] at h3
              cases h3
              exact hn ⟨h2.symm, rfl, rfl⟩
            · exact hne d (List.mem_append_right _ hd) h5
        · exact ⟨c, List.mem_append_right _ hc, h1, h2, h3⟩
    · rintro ⟨c, hc, h1, rfl, h3⟩
      refine ⟨⟨c, ?_, h1, rfl, h3⟩, ?_⟩
      · rcases List.mem_append.1 hc with hc | hc
        · exact List.mem_append_left _ hc
        · exact List.mem_append_right _ (List.mem_cons_of_mem b hc)
      · rintro ⟨he, -⟩
        exact hne c hc he

/-- A free block joins the list of its size. -/
theorem Indexed.insert (h : Indexed (L ++ R) ls) (hb : b.free = true) (hc : clsOf b.size = (i, j))
    (hne : ∀ c ∈ L ++ R, c.addr ≠ b.addr) : Indexed (L ++ b :: R) (ls.set i j (b.addr :: ls i j)) := by
  refine ⟨?_, ?_⟩
  · intro i' j'
    by_cases he : i' = i ∧ j' = j
    · obtain ⟨rfl, rfl⟩ := he
      rw [Lists.set_self]
      refine List.nodup_cons.2 ⟨?_, h.nodup i' j'⟩
      intro hm
      obtain ⟨d, hd, -, h5, -⟩ := (h.mem b.addr i' j').1 hm
      exact hne d hd h5
    · rw [Lists.set_ne _ _ he]
      exact h.nodup i' j'
  · intro a i' j'
    rw [Lists.mem_push, h.mem]
    constructor
    · rintro (⟨c, hc, h1⟩ | ⟨rfl, rfl, rfl⟩)
      · refine ⟨c, ?_, h1⟩
        rcases List.mem_append.1 hc with hc | hc
        · exact List.mem_append_left _ hc
        · exact List.mem_append_right _ (List.mem_cons_of_mem b hc)
      · exact ⟨b, List.mem_append_right _ (List.mem_cons_self ..), hb, rfl, hc⟩
    · rintro ⟨c, hm, h1, h2, h3⟩
      rcases List.mem_append.1 hm with hm | hm
      · exact .inl ⟨c, List.mem_append_left _ hm, h1, h2, h3⟩
      · rcases List.mem_cons.1 hm with rfl | hm
        · rw [hc] at h3
          cases h3
          exact .inr ⟨h2.symm, rfl, rfl⟩
        · exact .inl ⟨c, List.mem_append_right _ hm, h1, h2, h3⟩

theorem Index.set (h : Index m P ls) (hx : Apart P ls x) (v : Nat) : Index (m.set x v) P ls := by
  apply h.congr
  · intro y h1 h2
    have hx1 := hx.1
    exact Mem.set_ne (by omega)
  · intro n hn
    obtain ⟨h1, h2⟩ := hx.2 n hn
    exact ⟨Mem.set_ne h1.symm, Mem.set_ne h2.symm⟩

/-- Blocks that do not overlap are the nodes of their lists. -/
theorem Indexed.nodes (h : Indexed bs ls) (ha : ∀ c ∈ bs, P + 3184 ≤ c.addr ∧ 8 ≤ c.size)
    (hs : ∀ b ∈ bs, ∀ c ∈ bs, b = c ∨ b.addr + 8 + b.size ≤ c.addr ∨ c.addr + 8 + c.size ≤ b.addr) :
    Nodes P ls := by
  refine ⟨?_, h.nodup, ?_, ?_⟩
  · rintro a ⟨i, j, hm⟩
    obtain ⟨c, hc, -, rfl, -⟩ := (h.mem a i j).1 hm
    exact (ha c hc).1
  · intro a i j i' j' h1 h2
    obtain ⟨c, hc, -, hca, hcc⟩ := (h.mem a i j).1 h1
    obtain ⟨d, hd, -, hda, hdc⟩ := (h.mem a i' j').1 h2
    rcases hs c hc d hd with rfl | hne
    · rw [hcc] at hdc
      cases hdc
      exact ⟨rfl, rfl⟩
    · have h3 := (ha c hc).2
      have h4 := (ha d hd).2
      omega
  · rintro a b ⟨i, j, h1⟩ ⟨i', j', h2⟩
    obtain ⟨c, hc, -, hca, -⟩ := (h.mem a i j).1 h1
    obtain ⟨d, hd, -, hda, -⟩ := (h.mem b i' j').1 h2
    have h3 := (ha c hc).2
    have h4 := (ha d hd).2
    rcases hs c hc d hd with rfl | hne
    · exact .inl (hca.symm.trans hda)
    · omega

theorem Indexed.node (h : Indexed bs ls) (hn : ls.node y) : ∃ c ∈ bs, c.free = true ∧ c.addr = y := by
  obtain ⟨i, j, hm⟩ := hn
  obtain ⟨c, hc, h1, h2, -⟩ := (h.mem y i j).1 hm
  exact ⟨c, hc, h1, h2⟩

theorem Hole.left (h : Hole m P e L R a s f p₀ ls) (hc : c ∈ L) :
    P + 3184 ≤ c.addr ∧ c.addr + 8 + c.size ≤ a ∧ 8 ≤ c.size := by
  obtain ⟨h1, h2, h3, -⟩ := h.pre.mem hc
  exact ⟨h1, h2, h3⟩

theorem Hole.right (h : Hole m P e L R a s f p₀ ls) (hc : c ∈ R) :
    a + 8 + s ≤ c.addr ∧ c.addr + 8 + c.size ≤ e ∧ 8 ≤ c.size := by
  obtain ⟨h1, h2, h3, -⟩ := h.post.mem hc
  exact ⟨h1, h2, h3⟩

/-- The other blocks lie in front of the block or behind it. -/
theorem Hole.sides (h : Hole m P e L R a s f p₀ ls) (hc : c ∈ L ++ R) :
    P + 3184 ≤ c.addr ∧ c.addr + 8 + c.size ≤ e ∧ 8 ≤ c.size ∧
      (c.addr + 8 + c.size ≤ a ∨ a + 8 + s ≤ c.addr) := by
  have hp := h.pre.le
  have hs := h.post.le
  rcases List.mem_append.1 hc with hc | hc
  · have hl := h.left hc
    omega
  · have hr := h.right hc
    omega

theorem Hole.spaced (h : Hole m P e L R a s f p₀ ls) (hb : b ∈ L ++ R) (hc : c ∈ L ++ R) :
    b = c ∨ b.addr + 8 + b.size ≤ c.addr ∨ c.addr + 8 + c.size ≤ b.addr := by
  rcases List.mem_append.1 hb with hb | hb
  · rcases List.mem_append.1 hc with hc | hc
    · exact h.pre.spaced hb hc
    · have hl := h.left hb
      have hr := h.right hc
      omega
  · rcases List.mem_append.1 hc with hc | hc
    · have hl := h.left hc
      have hr := h.right hb
      omega
    · exact h.post.toPrefix.spaced hb hc

theorem Hole.nodes (h : Hole m P e L R a s f p₀ ls) : Nodes P ls := by
  apply h.indexed.nodes
  · intro c hc
    have hs := h.sides hc
    exact ⟨hs.1, hs.2.2.1⟩
  · intro b hb c hc
    exact h.spaced hb hc

/-- Where a word is neither in the data of the pool nor in the links of a free block. -/
theorem Indexed.apart (h : Indexed bs ls) (hx : x < P + 8 ∨ P + 3180 ≤ x)
    (hn : ∀ c ∈ bs, c.free = true → x < c.addr + 8 ∨ c.addr + 16 ≤ x) : Apart P ls x := by
  refine ⟨hx, ?_⟩
  intro y hy
  obtain ⟨c, hc, hf, rfl⟩ := h.node hy
  have hxc := hn c hc hf
  unfold Bhdr.prev Bhdr.next
  omega

/-- The header of a block is apart from the links of the free blocks. -/
theorem Indexed.apart_header (h : Indexed bs ls) (hy : P + 3184 ≤ y)
    (hs : ∀ c ∈ bs, c.free = true → y ≤ c.addr ∨ c.addr + 16 ≤ y) :
    Apart P ls (Bhdr.size y) ∧ Apart P ls (Bhdr.prevHdr y) := by
  unfold Bhdr.size Bhdr.prevHdr
  constructor
  · apply h.apart (by omega)
    intro c hc hf
    have hcy := hs c hc hf
    omega
  · apply h.apart (by omega)
    intro c hc hf
    have hcy := hs c hc hf
    omega

theorem Kept.apart (hk : Kept P e bs x) (h : Indexed bs ls) (h8 : ∀ c ∈ bs, 8 ≤ c.size) : Apart P ls x := by
  have ha := hk.above
  apply h.apart (by omega)
  intro c hc hf
  have hc8 := h8 c hc
  rcases hk.blocks c hc with hb | ⟨-, hb⟩
  · exact .inl (by omega)
  · have hle := hb hf
    exact .inr (by omega)

theorem Hole.apart_kept (h : Hole m P e L R a s f p₀ ls) (hk : Kept P e (L ++ R) x) : Apart P ls x :=
  hk.apart h.indexed fun _ hc => (h.sides hc).2.2.1

/-- The words of the block itself and of the header behind it. -/
theorem Hole.apart_own (h : Hole m P e L R a s f p₀ ls) (h1 : a ≤ x) (h2 : x < a + 8 + s + 8) :
    Apart P ls x := by
  have hle := h.pre.le
  apply h.indexed.apart
  · omega
  · intro c hc _
    have hs := h.sides hc
    omega

theorem Hole.apart_header (h : Hole m P e L R a s f p₀ ls) (hc : c ∈ L ++ R) :
    Apart P ls (Bhdr.size c.addr) ∧ Apart P ls (Bhdr.prevHdr c.addr) := by
  have hs := h.sides hc
  apply h.indexed.apart_header hs.1
  intro d hd _
  have hsd := h.sides hd
  rcases h.spaced hc hd with rfl | hcd
  · omega
  · omega

theorem Hole.apart_end (h : Hole m P e L R a s f p₀ ls) :
    Apart P ls (Bhdr.size e) ∧ Apart P ls (Bhdr.prevHdr e) := by
  have hp := h.pre.le
  have hq := h.post.le
  apply h.indexed.apart_header (by omega)
  intro d hd _
  have hsd := h.sides hd
  omega

/-- The header behind the block says something else of it. -/
theorem Hole.relink (h : Hole m P e L R a s f p₀ ls) {p : Option Nat}
    (hp : ∀ n R', R = n :: R' → n.free = true → p = none)
    (hw : ∀ s' f', 4 ∣ s' → s' < 2 ^ 30 → m (Bhdr.size (a + 8 + s)) = tagWord s' f' p₀.isSome →
      m' (Bhdr.size (a + 8 + s)) = tagWord s' f' p.isSome)
    (hq : ∀ q, p = some q → m' (Bhdr.prevHdr (a + 8 + s)) = q)
    (hm : ∀ x, Apart P ls x → x ≠ Bhdr.size (a + 8 + s) → x ≠ Bhdr.prevHdr (a + 8 + s) →
      (x < a ∨ a + 8 + s ≤ x) → m' x = m x) : Suffix m' p (a + 8 + s) R e := by
  have hle := h.pre.le
  have hsm := h.small
  apply h.post.relink hp hw hq (by omega)
  · intro c hc hac
    have hr := h.right hc
    obtain ⟨h1, h2⟩ := h.apart_header (List.mem_append_right L hc)
    simp only [Bhdr.size, Bhdr.prevHdr] at h1 h2 hm ⊢
    exact ⟨hm _ h1 (by omega) (by omega) (.inr (by omega)), hm _ h2 (by omega) (by omega) (.inr (by omega))⟩
  · intro hac
    obtain ⟨h1, h2⟩ := h.apart_end
    simp only [Bhdr.size, Bhdr.prevHdr] at h1 h2 hm ⊢
    exact ⟨hm _ h1 (by omega) (by omega) (.inr (by omega)), hm _ h2 (by omega) (by omega) (.inr (by omega))⟩

/-- The blocks in front of the block. -/
theorem Hole.keep_pre (h : Hole m P e L R a s f p₀ ls)
    (hm : ∀ x, Apart P ls x → x < a → m' x = m x) : Prefix m' none (P + 3184) L a := by
  apply h.pre.congr
  intro c hc
  have hl := h.left hc
  obtain ⟨h1, h2⟩ := h.apart_header (List.mem_append_left R hc)
  simp only [Bhdr.size, Bhdr.prevHdr] at h1 h2 ⊢
  exact ⟨hm _ h1 (by omega), hm _ h2 (by omega)⟩

/-- The words of the block behind its header are no part of the pool. -/
theorem Hole.buffer (h : Hole m P e L R a s f p₀ ls) (hm : ∀ x, (x < a + 8 ∨ a + 8 + s ≤ x) → m' x = m x) :
    Hole m' P e L R a s f p₀ ls := by
  have hle := h.post.le
  refine ⟨?_, ?_, h.dvd, h.min, ?_, ?_, h.indexed, h.small⟩
  · apply h.keep_pre
    intro y _ hy
    exact hm y (by omega)
  · exact h.ctl.congr (hm _ (by unfold Bhdr.size; omega)) (hm _ (by unfold Bhdr.prevHdr; omega))
  · apply h.post.congr
    · intro c hc
      have hr := h.right hc
      exact ⟨hm _ (by unfold Bhdr.size; omega), hm _ (by unfold Bhdr.prevHdr; omega)⟩
    · exact ⟨hm _ (by unfold Bhdr.size; omega), hm _ (by unfold Bhdr.prevHdr; omega)⟩
  · have hpre := h.pre.le
    apply h.index.congr
    · intro x _ hx
      exact hm x (by omega)
    · intro y hy
      obtain ⟨c, hc, -, rfl⟩ := h.indexed.node hy
      have hs := h.sides hc
      exact ⟨hm _ (by unfold Bhdr.prev; omega), hm _ (by unfold Bhdr.next; omega)⟩

theorem Hole.setBuffer (h : Hole m P e L R a s f p₀ ls) (h1 : a + 8 ≤ x) (h2 : x < a + 8 + s) (v : Nat) :
    Hole (m.set x v) P e L R a s f p₀ ls := by
  apply h.buffer
  intro y hy
  exact Mem.set_ne (by omega)

/-- The header of the block says that it is free, or that it is not. -/
theorem Hole.setFree (h : Hole m P e L R a s f p₀ ls) (g : Bool) :
    Hole (m.set (Bhdr.size a) (tagWord s g (lastBack none L).isSome)) P e L R a s g p₀ ls := by
  refine ⟨?_, ⟨Mem.set_self, ?_⟩, h.dvd, h.min, ?_, h.index.set (h.apart_own ?_ ?_) _, h.indexed, h.small⟩
  · apply h.keep_pre
    intro y _ hy
    exact Mem.set_ne (by unfold Bhdr.size; omega)
  · intro q hq
    rw [Mem.set_ne (by unfold Bhdr.size Bhdr.prevHdr; omega)]
    exact h.ctl.back q hq
  · have hsz : ∀ c ∈ R, a + 8 + s ≤ c.addr := fun c hc => (h.right hc).1
    have hle := h.post.le
    apply h.post.congr
    · intro c hc
      have := hsz c hc
      exact ⟨Mem.set_ne (by unfold Bhdr.size; omega), Mem.set_ne (by unfold Bhdr.size Bhdr.prevHdr; omega)⟩
    · exact ⟨Mem.set_ne (by unfold Bhdr.size; omega), Mem.set_ne (by unfold Bhdr.size Bhdr.prevHdr; omega)⟩
  · unfold Bhdr.size
    omega
  · unfold Bhdr.size
    omega

/-- The header behind the block is written. -/
theorem Hole.setPost (h : Hole m P e L R a s f p₀ ls) {p : Option Nat} (hx : x = Bhdr.size (a + 8 + s) ∨
    x = Bhdr.prevHdr (a + 8 + s)) (v : Nat) (hp : Suffix (m.set x v) p (a + 8 + s) R e) :
    Hole (m.set x v) P e L R a s f p ls := by
  have hge : a + 8 + s ≤ x ∧ x < a + 8 + s + 8 := by
    unfold Bhdr.size Bhdr.prevHdr at hx
    omega
  refine ⟨?_, ?_, h.dvd, h.min, hp, h.index.set (h.apart_own (by omega) hge.2) v, h.indexed, h.small⟩
  · apply h.keep_pre
    intro y _ hy
    exact Mem.set_ne (by omega)
  · have hmin := h.min
    apply h.ctl.congr
    · exact Mem.set_ne (by unfold Bhdr.size; omega)
    · exact Mem.set_ne (by unfold Bhdr.prevHdr; omega)

/-- The header behind the block is told that it is not free. -/
theorem Hole.clearPrev (h : Hole m P e L R a s f p₀ ls) :
    Hole (m.set (Bhdr.size (a + 8 + s)) (m (Bhdr.size (a + 8 + s)) &&& not32 PREV_FREE)) P e L R a s f none ls := by
  apply h.setPost (.inl rfl)
  apply h.relink
  · intro _ _ _ _
    rfl
  · intro s' f' h4 hs' hw
    rw [Mem.set_self, hw]
    exact tagWord_clearPrev h4 hs' f' _
  · intro q hq
    cases hq
  · intro y _ hy _ _
    exact Mem.set_ne hy

/-- The header behind the block gets its address. -/
theorem Hole.setBack (h : Hole m P e L R a s f p₀ ls) (hp : p₀.isSome = true) (q : Nat) :
    Hole (m.set (Bhdr.prevHdr (a + 8 + s)) q) P e L R a s f (some q) ls := by
  apply h.setPost (.inr rfl)
  apply h.relink
  · intro n R' hR hn
    have hpost := h.post
    rw [hR] at hpost
    rw [hpost.1.apart hn] at hp
    cases hp
  · intro s' f' _ _ hw
    rw [Mem.set_ne (by unfold Bhdr.size Bhdr.prevHdr; omega), hw, hp]
    rfl
  · intro q' hq
    rw [Mem.set_self]
    exact Option.some.inj hq
  · intro y _ _ hy _
    exact Mem.set_ne hy

end

end AspKernel.Tlsf
