import AspKernel.TlsfMap
import AspKernel.Lib.Dlist

/-! The lists of the free blocks: the links in the blocks, their heads, and the bitmaps. -/

namespace AspKernel.Tlsf
set_option autoImplicit true
open WordMem

/-- The free blocks of each list, by its indices. -/
abbrev Lists := Nat → Nat → List Nat

def Lists.set (ls : Lists) (i j : Nat) (l : List Nat) : Lists :=
  fun i' j' => if i' = i ∧ j' = j then l else ls i' j'

def Lists.node (ls : Lists) (a : Nat) : Prop := ∃ i j, a ∈ ls i j

/-- A block is in one list only, behind the data of the pool, and apart from the others. -/
structure Nodes (P : Nat) (ls : Lists) : Prop where
  above : ∀ a, ls.node a → P + 3184 ≤ a
  nodup : ∀ i j, (ls i j).Nodup
  unique : ∀ a i j i' j', a ∈ ls i j → a ∈ ls i' j' → i' = i ∧ j' = j
  spaced : Spaced 16 ls.node

/-- The memory holds the lists. -/
structure Index (m : Mem) (P : Nat) (ls : Lists) : Prop where
  range : ∀ i j, ls i j ≠ [] → i < 24 ∧ j < 32
  fl : ∀ i, (m (flBitmap P)).testBit i = true ↔ ∃ j, ls i j ≠ []
  sl : ∀ i < 24, ∀ j, (m (slBitmap P i)).testBit j = true ↔ ls i j ≠ []
  head : ∀ i < 24, ∀ j < 32, m (matrix P i j) = (ls i j).headD NULL
  links : ∀ i j, Dlist.Seg (fun a => m (Bhdr.next a)) (fun a => m (Bhdr.prev a)) NULL (ls i j) NULL

/-- Addresses that no operation on the lists writes to. -/
def Apart (P : Nat) (ls : Lists) (x : Nat) : Prop :=
  (x < P + 8 ∨ P + 3180 ≤ x) ∧ ∀ a, ls.node a → x ≠ Bhdr.prev a ∧ x ≠ Bhdr.next a

section
variable {m m' : Mem} {P : Nat} {ls : Lists} {a b i j : Nat}

theorem matrix_eq (P i j : Nat) : matrix P i j = P + 108 + 4 * (32 * i + j) := rfl

theorem Lists.set_self (ls : Lists) (i j : Nat) (l : List Nat) : ls.set i j l i j = l := if_pos ⟨rfl, rfl⟩

theorem Lists.set_ne (ls : Lists) {i j i' j' : Nat} (l : List Nat) (h : ¬(i' = i ∧ j' = j)) :
    ls.set i j l i' j' = ls i' j' := if_neg h

theorem Index.congr (h : Index m P ls) (ht : ∀ x, P + 8 ≤ x → x < P + 3180 → m' x = m x)
    (hl : ∀ a, ls.node a → m' (Bhdr.prev a) = m (Bhdr.prev a) ∧ m' (Bhdr.next a) = m (Bhdr.next a)) :
    Index m' P ls := by
  refine ⟨h.range, ?_, ?_, ?_, ?_⟩
  · rw [ht _ (by simp only [flBitmap]; omega) (by simp only [flBitmap]; omega)]
    exact h.fl
  · intro i hi
    rw [ht _ (by simp only [slBitmap]; omega) (by simp only [slBitmap]; omega)]
    exact h.sl i hi
  · intro i hi j hj
    rw [ht _ (by rw [matrix_eq]; omega) (by rw [matrix_eq]; omega)]
    exact h.head i hi j hj
  · intro i j
    apply (h.links i j).congr
    · intro a ha
      exact (hl a ⟨i, j, ha⟩).2
    · intro a ha
      exact (hl a ⟨i, j, ha⟩).1

theorem Index.fl_lt (h : Index m P ls) : m (flBitmap P) < 2 ^ 24 := by
  apply Nat.lt_pow_two_of_testBit
  intro i hi
  apply Bool.eq_false_iff.2
  intro hb
  obtain ⟨j, hj⟩ := (h.fl i).1 hb
  exact absurd (h.range i j hj).1 (Nat.not_lt.2 hi)

theorem Index.sl_lt (h : Index m P ls) (hi : i < 24) : m (slBitmap P i) < 2 ^ 32 := by
  apply Nat.lt_pow_two_of_testBit
  intro j hj
  apply Bool.eq_false_iff.2
  intro hb
  exact absurd (h.range i j ((h.sl i hi j).1 hb)).2 (Nat.not_lt.2 hj)

theorem Nodes.ne_null (hn : Nodes P ls) (ha : ls.node a) : a ≠ NULL := by
  have h := hn.above a ha
  unfold NULL
  omega

/-- What surrounds a block in its list. -/
structure Around (m : Mem) (P a pv nx i j : Nat) : Prop where
  prev : m (Bhdr.prev a) = pv
  next : m (Bhdr.next a) = nx
  head : m (matrix P i j) = a ↔ pv = NULL
  fst : i < 24
  snd : j < 32
  above : P + 3184 ≤ a
  prevApart : pv ≠ NULL → P + 3184 ≤ pv ∧ (pv + 16 ≤ a ∨ a + 16 ≤ pv)
  nextApart : nx ≠ NULL → P + 3184 ≤ nx ∧ (nx + 16 ≤ a ∨ a + 16 ≤ nx)
  bothApart : pv ≠ NULL → nx ≠ NULL → pv + 16 ≤ nx ∨ nx + 16 ≤ pv

theorem Nodes.apart (hn : Nodes P ls) (ha : ls.node a) (hb : ls.node b) (h : a ≠ b) :
    a + 16 ≤ b ∨ b + 16 ≤ a := (hn.spaced a b ha hb).resolve_left h

theorem Index.around (h : Index m P ls) (hn : Nodes P ls) (hl : ls i j = l₁ ++ a :: l₂) :
    Around m P a (l₁.getLastD NULL) (l₂.headD NULL) i j := by
  obtain ⟨hi, hj⟩ := h.range i j (by simp [hl])
  have hseg := h.links i j
  have hnd := hn.nodup i j
  have hnode (b : Nat) (hb : b ∈ l₁ ++ a :: l₂) : ls.node b := ⟨i, j, hl ▸ hb⟩
  rw [hl] at hseg hnd
  obtain ⟨hp, hnx⟩ := hseg.neighbours
  obtain ⟨-, h2, hdis⟩ := List.nodup_append.1 hnd
  obtain ⟨ha2, -⟩ := List.nodup_cons.1 h2
  have hmem1 (h0 : l₁.getLastD NULL ≠ NULL) : l₁.getLastD NULL ∈ l₁ := Dlist.getLastD_mem h0
  have hmem2 (h0 : l₂.headD NULL ≠ NULL) : l₂.headD NULL ∈ l₂ := Dlist.headD_mem h0
  have ha := hnode a (List.mem_append_right _ (List.mem_cons_self ..))
  refine ⟨hp, hnx, ?_, hi, hj, hn.above a ha, ?_, ?_, ?_⟩
  · rw [h.head i hi j hj, hl]
    cases l₁ with
    | nil => exact ⟨fun _ => rfl, fun _ => rfl⟩
    | cons c l =>
      have hc : c ≠ a := hdis c (List.mem_cons_self ..) a (List.mem_cons_self ..)
      have hlast : (c :: l).getLastD NULL ∈ c :: l := by
        rw [List.getLastD_cons]
        exact List.getLastD_mem_cons ..
      have hne : (c :: l).getLastD NULL ≠ NULL := hn.ne_null (hnode _ (List.mem_append_left _ hlast))
      exact ⟨fun he => absurd he hc, fun he => absurd he hne⟩
  · intro h0
    have hb := hnode _ (List.mem_append_left _ (hmem1 h0))
    exact ⟨hn.above _ hb, hn.apart hb ha (hdis _ (hmem1 h0) a (List.mem_cons_self ..))⟩
  · intro h0
    have hb := hnode _ (List.mem_append_right _ (List.mem_cons_of_mem a (hmem2 h0)))
    refine ⟨hn.above _ hb, hn.apart hb ha ?_⟩
    intro he
    exact ha2 (he ▸ hmem2 h0)
  · intro h1 h2
    have hb := hnode _ (List.mem_append_left _ (hmem1 h1))
    have hc := hnode _ (List.mem_append_right _ (List.mem_cons_of_mem a (hmem2 h2)))
    exact hn.apart hb hc (hdis _ (hmem1 h1) _ (List.mem_cons_of_mem a (hmem2 h2)))

/-- The neighbours of a block are linked to each other. -/
def bypass (m : Mem) (pv nx P i j : Nat) : Mem :=
  let m := if nx ≠ NULL then m.set (Bhdr.prev nx) pv else m
  if pv ≠ NULL then m.set (Bhdr.next pv) nx else m.set (matrix P i j) nx

/-- The memory without a block that stands between two others in its list. -/
def unlink (m : Mem) (a pv nx P i j : Nat) : Mem :=
  let m := bypass m pv nx P i j
  let m := if pv = NULL ∧ nx = NULL then clearBits m P i j else m
  (m.set (Bhdr.prev a) NULL).set (Bhdr.next a) NULL

theorem extractBlock_eq (h : Around m P a pv nx i j) :
    extractBlock m a P i j = unlink m a pv nx P i j := by
  obtain ⟨hp, hnx, hh, hi, hj, ha, hpa, hna, hpn⟩ := h
  have hmat : matrix P i j < P + 3184 := by
    rw [matrix_eq]
    omega
  unfold extractBlock unlink bypass
  by_cases h1 : nx = NULL
  · by_cases h2 : pv = NULL
    · simp [hp, hnx, h1, h2, hh.2 h2]
    · obtain ⟨h2a, h2b⟩ := hpa h2
      have e1 : matrix P i j ≠ Bhdr.next pv := by
        unfold Bhdr.next
        omega
      have e2 : ¬m (matrix P i j) = a := fun he => h2 (hh.1 he)
      simp [hp, hnx, h1, h2, Mem.set_ne e1, e2]
  · obtain ⟨h1a, h1b⟩ := hna h1
    have e1 : Bhdr.prev a ≠ Bhdr.prev nx := by
      unfold Bhdr.prev
      omega
    have e2 : Bhdr.next a ≠ Bhdr.prev nx := by
      unfold Bhdr.next Bhdr.prev
      omega
    have e3 : matrix P i j ≠ Bhdr.prev nx := by
      unfold Bhdr.prev
      omega
    by_cases h2 : pv = NULL
    · simp [hp, hnx, h1, h2, hh.2 h2, Mem.set_ne e1, Mem.set_ne e2, Mem.set_ne e3]
    · obtain ⟨h2a, h2b⟩ := hpa h2
      have e4 : matrix P i j ≠ Bhdr.next pv := by
        unfold Bhdr.next
        omega
      have e5 : ¬m (matrix P i j) = a := fun he => h2 (hh.1 he)
      simp [hp, hnx, h1, h2, Mem.set_ne e1, Mem.set_ne e2, Mem.set_ne e3, Mem.set_ne e4, e5]

/-- The first block of a list is taken from it in a shorter way. -/
theorem extractBlockHdr_eq (h : Around m P a NULL nx i j) :
    extractBlockHdr m a P i j = unlink m a NULL nx P i j := by
  obtain ⟨-, hnx, -, hi, hj, -, -, hna, -⟩ := h
  have hmat : matrix P i j < P + 3184 := by
    rw [matrix_eq]
    omega
  unfold extractBlockHdr unlink bypass
  by_cases h1 : nx = NULL
  · simp [hnx, h1]
  · obtain ⟨h1a, -⟩ := hna h1
    have e1 : matrix P i j ≠ Bhdr.prev nx := by
      unfold Bhdr.prev
      omega
    simp [hnx, h1, Mem.set_comm e1]

theorem bypass_apply (x : Nat) : bypass m pv nx P i j x =
    if pv ≠ NULL ∧ x = Bhdr.next pv ∨ pv = NULL ∧ x = matrix P i j then nx
    else if nx ≠ NULL ∧ x = Bhdr.prev nx then pv else m x := by
  unfold bypass
  by_cases hp : pv = NULL
  · by_cases hn : nx = NULL
    · simp [hp, hn, Mem.set_apply]
    · simp [hp, hn, Mem.set_apply]
  · by_cases hn : nx = NULL
    · simp [hp, hn, Mem.set_apply]
    · simp [hp, hn, Mem.set_apply]

theorem clearBits_of_ne (hi : i < 24) (hj : j < 32) (hs : x ≠ slBitmap P i) (hf : x ≠ flBitmap P) :
    clearBits m P i j x = m x := by
  unfold clearBits
  rw [clearBit_eq hj]
  simp only []
  split
  · rw [clearBit_eq (by omega), Mem.set_ne hf, Mem.set_ne hs]
  · rw [Mem.set_ne hs]

/-- Away from the bitmaps and the block only the neighbours and the head of the list change. -/
theorem unlink_apply (h : Around m P a pv nx i j) (hx : x ≠ slBitmap P i) (hf : x ≠ flBitmap P) :
    unlink m a pv nx P i j x = if x = Bhdr.next a ∨ x = Bhdr.prev a then NULL
      else bypass m pv nx P i j x := by
  unfold unlink
  simp only [Mem.set_apply]
  by_cases h1 : x = Bhdr.next a
  · rw [if_pos h1, if_pos (.inl h1)]
  · by_cases h2 : x = Bhdr.prev a
    · rw [if_neg h1, if_pos h2, if_pos (.inr h2)]
    · rw [if_neg h1, if_neg h2, if_neg (not_or.2 ⟨h1, h2⟩)]
      split
      · exact clearBits_of_ne h.fst h.snd hx hf
      · rfl

theorem Around.bypass_bitmap (h : Around m P a pv nx i j) (hx : x < P + 108) :
    bypass m pv nx P i j x = m x := by
  have hpa := h.prevApart
  have hna := h.nextApart
  rw [bypass_apply, if_neg, if_neg]
  · rintro ⟨h0, rfl⟩
    have hab := hna h0
    unfold Bhdr.prev at hx
    omega
  · rintro (⟨h0, rfl⟩ | ⟨-, rfl⟩)
    · have hab := hpa h0
      unfold Bhdr.next at hx
      omega
    · rw [matrix_eq] at hx
      omega

theorem unlink_sl (h : Around m P a pv nx i j) (hi' : i' < 24) : unlink m a pv nx P i j (slBitmap P i') =
    if (pv = NULL ∧ nx = NULL) ∧ i' = i then m (slBitmap P i) &&& (2 ^ 32 - 1 - 1 <<< j)
    else m (slBitmap P i') := by
  have ha := h.above
  have hi := h.fst
  have hby (i' : Nat) (hi' : i' < 24) : bypass m pv nx P i j (slBitmap P i') = m (slBitmap P i') :=
    h.bypass_bitmap (by unfold slBitmap; omega)
  have hne : slBitmap P i ≠ flBitmap P := by
    unfold slBitmap flBitmap
    omega
  unfold unlink
  rw [Mem.set_ne (by unfold slBitmap Bhdr.next; omega), Mem.set_ne (by unfold slBitmap Bhdr.prev; omega)]
  by_cases h0 : pv = NULL ∧ nx = NULL
  · rw [if_pos h0]
    by_cases he : i' = i
    · rw [if_pos ⟨h0, he⟩, he]
      unfold clearBits
      rw [clearBit_eq h.snd]
      simp only [Mem.set_self, hby i hi]
      split
      · rw [clearBit_eq (by omega), Mem.set_ne hne, Mem.set_self]
      · rw [Mem.set_self]
    · rw [if_neg (fun hc => he hc.2), clearBits_of_ne hi h.snd _ (by unfold slBitmap flBitmap; omega)]
      · exact hby i' hi'
      · unfold slBitmap
        omega
  · rw [if_neg h0, if_neg (fun hc => h0 hc.1)]
    exact hby i' hi'

theorem unlink_fl (h : Around m P a pv nx i j) : unlink m a pv nx P i j (flBitmap P) =
    if (pv = NULL ∧ nx = NULL) ∧ m (slBitmap P i) &&& (2 ^ 32 - 1 - 1 <<< j) = 0 then
      m (flBitmap P) &&& (2 ^ 32 - 1 - 1 <<< i)
    else m (flBitmap P) := by
  have ha := h.above
  have hi := h.fst
  have hfl : bypass m pv nx P i j (flBitmap P) = m (flBitmap P) := h.bypass_bitmap (by unfold flBitmap; omega)
  have hsl : bypass m pv nx P i j (slBitmap P i) = m (slBitmap P i) := h.bypass_bitmap (by unfold slBitmap; omega)
  have hne : flBitmap P ≠ slBitmap P i := by
    unfold slBitmap flBitmap
    omega
  unfold unlink
  rw [Mem.set_ne (by unfold flBitmap Bhdr.next; omega), Mem.set_ne (by unfold flBitmap Bhdr.prev; omega)]
  by_cases h0 : pv = NULL ∧ nx = NULL
  · rw [if_pos h0]
    unfold clearBits
    rw [clearBit_eq h.snd]
    simp only [Mem.set_self, hsl]
    split
    · rename_i hz
      rw [if_pos ⟨h0, hz⟩, clearBit_eq (by omega), Mem.set_self, Mem.set_ne hne, hfl]
    · rename_i hz
      rw [if_neg (fun hc => hz hc.2), Mem.set_ne hne, hfl]
  · rw [if_neg h0, if_neg (fun hc => h0 hc.1), hfl]

theorem unlink_matrix (h : Around m P a pv nx i j) (hi' : i' < 24) (hj' : j' < 32) :
    unlink m a pv nx P i j (matrix P i' j') =
      if pv = NULL ∧ i' = i ∧ j' = j then nx else m (matrix P i' j') := by
  have ha := h.above
  have hi := h.fst
  have hj := h.snd
  have hpa := h.prevApart
  have hna := h.nextApart
  rw [unlink_apply h (by rw [matrix_eq]; unfold slBitmap; omega) (by rw [matrix_eq]; unfold flBitmap; omega),
    if_neg (by rw [matrix_eq]; unfold Bhdr.next Bhdr.prev; omega), bypass_apply]
  by_cases hc : pv = NULL ∧ i' = i ∧ j' = j
  · obtain ⟨hp, rfl, rfl⟩ := hc
    rw [if_pos (.inr ⟨hp, rfl⟩), if_pos ⟨hp, rfl, rfl⟩]
  · rw [if_neg hc, if_neg, if_neg]
    · rintro ⟨h0, he⟩
      have hab := hna h0
      rw [matrix_eq] at he
      unfold Bhdr.prev at he
      omega
    · rintro (⟨h0, he⟩ | ⟨h0, he⟩)
      · have hab := hpa h0
        rw [matrix_eq] at he
        unfold Bhdr.next at he
        omega
      · apply hc
        rw [matrix_eq, matrix_eq] at he
        refine ⟨h0, ?_, ?_⟩
        · omega
        · omega

/-- The links of another block after `unlink`. -/
theorem unlink_links (h : Around m P a pv nx i j) (hb : P + 3184 ≤ b) (hab : b + 16 ≤ a ∨ a + 16 ≤ b)
    (hpb : pv = NULL ∨ pv = b ∨ pv + 16 ≤ b ∨ b + 16 ≤ pv)
    (hnb : nx = NULL ∨ nx = b ∨ nx + 16 ≤ b ∨ b + 16 ≤ nx) :
    unlink m a pv nx P i j (Bhdr.next b) = (if b = pv then nx else m (Bhdr.next b)) ∧
      unlink m a pv nx P i j (Bhdr.prev b) = if b = nx then pv else m (Bhdr.prev b) := by
  have hi := h.fst
  have hj := h.snd
  unfold NULL at hpb hnb
  constructor
  · rw [unlink_apply h (by unfold slBitmap Bhdr.next; omega) (by unfold flBitmap Bhdr.next; omega),
      if_neg (by unfold Bhdr.next Bhdr.prev; omega), bypass_apply, matrix_eq]
    unfold Bhdr.next Bhdr.prev NULL
    split_ifs <;> first | rfl | omega
  · rw [unlink_apply h (by unfold slBitmap Bhdr.prev; omega) (by unfold flBitmap Bhdr.prev; omega),
      if_neg (by unfold Bhdr.next Bhdr.prev; omega), bypass_apply, matrix_eq]
    unfold Bhdr.next Bhdr.prev NULL
    split_ifs <;> first | rfl | omega

theorem unlink_apart (h : Around m P a pv nx i j) (hx : x < P + 8 ∨ P + 3180 ≤ x)
    (hxa : x ≠ Bhdr.prev a ∧ x ≠ Bhdr.next a) (hxp : pv ≠ NULL → x ≠ Bhdr.next pv)
    (hxn : nx ≠ NULL → x ≠ Bhdr.prev nx) : unlink m a pv nx P i j x = m x := by
  have hi := h.fst
  have hj := h.snd
  rw [unlink_apply h (by unfold slBitmap; omega) (by unfold flBitmap; omega), if_neg (by tauto), bypass_apply,
    if_neg, if_neg]
  · rintro ⟨h0, he⟩
    exact hxn h0 he
  · rintro (⟨h0, he⟩ | ⟨-, he⟩)
    · exact hxp h0 he
    · rw [matrix_eq] at he
      omega

theorem Lists.set_ne_nil (hl : ls i j = l₁ ++ a :: l₂) (i' j' : Nat) : ls.set i j (l₁ ++ l₂) i' j' ≠ [] ↔
    ls i' j' ≠ [] ∧ ¬((i' = i ∧ j' = j) ∧ l₁ ++ l₂ = []) := by
  by_cases he : i' = i ∧ j' = j
  · obtain ⟨rfl, rfl⟩ := he
    rw [Lists.set_self, hl]
    simp
  · rw [Lists.set_ne _ _ he]
    simp [he]

/-- The bits of a row, with the one of a list cleared. -/
theorem Index.testBit_row (h : Index m P ls) (hi : i < 24) (hj : j < 32) (j' : Nat) :
    (m (slBitmap P i) &&& (2 ^ 32 - 1 - 1 <<< j)).testBit j' = true ↔ ls i j' ≠ [] ∧ j' ≠ j := by
  rw [BitScan.testBit_clear (h.sl_lt hi) hj, Bool.and_eq_true, h.sl i hi]
  simp

/-- The rest of the list is in the lists. -/
theorem mem_rest (hl : ls i j = l₁ ++ a :: l₂) (hb : b ∈ l₁ ++ l₂) : b ∈ ls i j := by
  rw [hl]
  rcases List.mem_append.1 hb with hb | hb
  · exact List.mem_append_left _ hb
  · exact List.mem_append_right _ (List.mem_cons_of_mem a hb)

theorem Nodes.ends_null (hn : Nodes P ls) (hl : ls i j = l₁ ++ a :: l₂) :
    l₁.getLastD NULL = NULL ∧ l₂.headD NULL = NULL ↔ l₁ ++ l₂ = [] := by
  have hne (b : Nat) (hb : b ∈ l₁ ++ l₂) : b ≠ NULL := hn.ne_null ⟨i, j, mem_rest hl hb⟩
  constructor
  · rintro ⟨h1, h2⟩
    have e1 : l₁ = [] := by
      cases l₁ with
      | nil => rfl
      | cons c l =>
        rw [List.getLastD_cons] at h1
        exact absurd h1 (hne _ (List.mem_append_left _ List.getLastD_mem_cons))
    have e2 : l₂ = [] := by
      cases l₂ with
      | nil => rfl
      | cons c l => exact absurd h2 (hne _ (List.mem_append_right _ (List.mem_cons_self ..)))
    rw [e1, e2]
    rfl
  · intro h
    obtain ⟨rfl, rfl⟩ := List.append_eq_nil_iff.1 h
    exact ⟨rfl, rfl⟩

theorem Index.unlink_fl (h : Index m P ls) (hn : Nodes P ls) (hl : ls i j = l₁ ++ a :: l₂) (i' : Nat) :
    (unlink m a (l₁.getLastD NULL) (l₂.headD NULL) P i j (flBitmap P)).testBit i' = true ↔
      ∃ j', ls.set i j (l₁ ++ l₂) i' j' ≠ [] := by
  have har := h.around hn hl
  have hi := har.fst
  have hrow := h.testBit_row hi har.snd
  have hempty := Lists.set_ne_nil hl
  have hfl := h.fl i'
  simp only [Tlsf.unlink_fl har, hn.ends_null hl]
  by_cases hc : l₁ ++ l₂ = [] ∧ m (slBitmap P i) &&& (2 ^ 32 - 1 - 1 <<< j) = 0
  · -- the row has become empty
    obtain ⟨hc, hz⟩ := hc
    rw [if_pos ⟨hc, hz⟩, BitScan.testBit_clear (h.fl_lt.trans (by decide)) (by omega), Bool.and_eq_true, hfl]
    have hz' := BitScan.eq_zero_iff.1 hz
    constructor
    · rintro ⟨⟨j', hj'⟩, hne⟩
      refine ⟨j', (hempty i' j').2 ⟨hj', ?_⟩⟩
      rintro ⟨⟨rfl, -⟩, -⟩
      simp at hne
    · rintro ⟨j', hj'⟩
      obtain ⟨h1, h2⟩ := (hempty i' j').1 hj'
      refine ⟨⟨j', h1⟩, ?_⟩
      by_cases he : i' = i
      · exfalso
        subst he
        by_cases hjj : j' = j
        · exact h2 ⟨⟨rfl, hjj⟩, hc⟩
        · have hb := (hrow j').2 ⟨h1, hjj⟩
          rw [hz' j'] at hb
          cases hb
      · simp [he]
  · rw [if_neg hc, hfl]
    constructor
    · rintro ⟨j', hj'⟩
      by_cases hcl : i' = i ∧ j' = j ∧ l₁ ++ l₂ = []
      · -- another list of the row holds a block
        obtain ⟨rfl, rfl, hnil⟩ := hcl
        have hz : m (slBitmap P i') &&& (2 ^ 32 - 1 - 1 <<< j') ≠ 0 := fun hz => hc ⟨hnil, hz⟩
        obtain ⟨k, hk⟩ := Nat.exists_testBit_of_ne_zero hz
        obtain ⟨h1, h2⟩ := (hrow k).1 hk
        exact ⟨k, (hempty i' k).2 ⟨h1, fun hf => h2 hf.1.2⟩⟩
      · exact ⟨j', (hempty i' j').2 ⟨hj', fun hf => hcl ⟨hf.1.1, hf.1.2, hf.2⟩⟩⟩
    · rintro ⟨j', hj'⟩
      exact ⟨j', ((hempty i' j').1 hj').1⟩

theorem Index.unlink_sl (h : Index m P ls) (hn : Nodes P ls) (hl : ls i j = l₁ ++ a :: l₂) (hi' : i' < 24)
    (j' : Nat) : (unlink m a (l₁.getLastD NULL) (l₂.headD NULL) P i j (slBitmap P i')).testBit j' = true ↔
      ls.set i j (l₁ ++ l₂) i' j' ≠ [] := by
  have har := h.around hn hl
  simp only [Tlsf.unlink_sl har hi', hn.ends_null hl]
  rw [Lists.set_ne_nil hl]
  by_cases hc : l₁ ++ l₂ = [] ∧ i' = i
  · obtain ⟨hc, rfl⟩ := hc
    rw [if_pos ⟨hc, rfl⟩, h.testBit_row har.fst har.snd]
    simp [hc]
  · rw [if_neg hc, h.sl i' hi']
    constructor
    · intro h1
      exact ⟨h1, fun hf => hc ⟨hf.2, hf.1.1⟩⟩
    · exact And.left

theorem Index.unlink_head (h : Index m P ls) (hn : Nodes P ls) (hl : ls i j = l₁ ++ a :: l₂) (hi' : i' < 24)
    (hj' : j' < 32) : unlink m a (l₁.getLastD NULL) (l₂.headD NULL) P i j (matrix P i' j') =
      (ls.set i j (l₁ ++ l₂) i' j').headD NULL := by
  rw [unlink_matrix (h.around hn hl) hi' hj', h.head i' hi' j' hj']
  by_cases he : i' = i ∧ j' = j
  · obtain ⟨rfl, rfl⟩ := he
    rw [Lists.set_self, hl]
    cases l₁ with
    | nil => exact if_pos ⟨rfl, rfl, rfl⟩
    | cons c l =>
      apply if_neg
      rintro ⟨h0, -⟩
      have hlast : (c :: l).getLastD NULL ∈ c :: l := by
        rw [List.getLastD_cons]
        exact List.getLastD_mem_cons ..
      exact hn.ne_null ⟨i', j', mem_rest hl (List.mem_append_left _ hlast)⟩ h0
  · rw [Lists.set_ne _ _ he, if_neg (fun hc => he hc.2)]

theorem Index.unlink_links (h : Index m P ls) (hn : Nodes P ls) (hl : ls i j = l₁ ++ a :: l₂) (i' j' : Nat) :
    let m' := unlink m a (l₁.getLastD NULL) (l₂.headD NULL) P i j
    Dlist.Seg (fun a => m' (Bhdr.next a)) (fun a => m' (Bhdr.prev a)) NULL (ls.set i j (l₁ ++ l₂) i' j') NULL := by
  have har := h.around hn hl
  have hnd := hn.nodup i j
  have hain : a ∈ ls i j := hl ▸ List.mem_append_right _ (List.mem_cons_self ..)
  have hp (hp : l₁.getLastD NULL ≠ NULL) : l₁.getLastD NULL ∈ ls i j :=
    mem_rest hl (List.mem_append_left _ (Dlist.getLastD_mem hp))
  have hx (hp : l₂.headD NULL ≠ NULL) : l₂.headD NULL ∈ ls i j :=
    mem_rest hl (List.mem_append_right _ (Dlist.headD_mem hp))
  have hlinks (b : Nat) (hb : ls.node b) (hne : b ≠ a) := by
    apply Tlsf.unlink_links har (hn.above b hb) (hn.apart hb ⟨i, j, hain⟩ hne)
    · by_cases h0 : l₁.getLastD NULL = NULL
      · exact .inl h0
      · exact .inr (hn.spaced _ _ ⟨i, j, hp h0⟩ hb)
    · by_cases h0 : l₂.headD NULL = NULL
      · exact .inl h0
      · exact .inr (hn.spaced _ _ ⟨i, j, hx h0⟩ hb)
  by_cases he : i' = i ∧ j' = j
  · obtain ⟨rfl, rfl⟩ := he
    have hseg := h.links i' j'
    rw [hl] at hseg hnd
    rw [Lists.set_self]
    have hnea (b : Nat) (hb : b ∈ l₁ ++ l₂) : b ≠ a := by
      rintro rfl
      exact (List.nodup_middle.1 hnd).notMem hb
    apply hseg.unlink hnd
    · intro h0
      exact hn.ne_null ⟨i', j', hl ▸ h0⟩ rfl
    · intro b hb
      rw [har.prev, har.next]
      exact (hlinks b ⟨i', j', mem_rest hl hb⟩ (hnea b hb)).1
    · intro b hb
      rw [har.prev, har.next]
      exact (hlinks b ⟨i', j', mem_rest hl hb⟩ (hnea b hb)).2
  · rw [Lists.set_ne _ _ he]
    have hother (b c : Nat) (hb : b ∈ ls i' j') (hc : c ∈ ls i j) : b ≠ c := by
      rintro rfl
      exact he (hn.unique b i j i' j' hc hb)
    apply (h.links i' j').congr
    · intro b hb
      apply (hlinks b ⟨i', j', hb⟩ (hother b a hb hain)).1.trans
      apply if_neg
      intro hbp
      exact hother b _ hb (hp fun h0 => hn.ne_null ⟨i', j', hb⟩ (hbp.trans h0)) hbp
    · intro b hb
      apply (hlinks b ⟨i', j', hb⟩ (hother b a hb hain)).2.trans
      apply if_neg
      intro hbp
      exact hother b _ hb (hx fun h0 => hn.ne_null ⟨i', j', hb⟩ (hbp.trans h0)) hbp

/-- Taking a block from its list keeps the lists. -/
theorem Index.unlink (h : Index m P ls) (hn : Nodes P ls) (hl : ls i j = l₁ ++ a :: l₂) :
    Index (unlink m a (l₁.getLastD NULL) (l₂.headD NULL) P i j) P (ls.set i j (l₁ ++ l₂)) := by
  refine ⟨?_, h.unlink_fl hn hl, ?_, ?_, h.unlink_links hn hl⟩
  · intro i' j' hne
    exact h.range i' j' ((Lists.set_ne_nil hl i' j').1 hne).1
  · intro i' hi' j'
    exact h.unlink_sl hn hl hi' j'
  · intro i' hi' j' hj'
    exact h.unlink_head hn hl hi' hj'

/-- A block that has been taken from its list. -/
theorem Nodes.unlink (hn : Nodes P ls) (hl : ls i j = l₁ ++ a :: l₂) : Nodes P (ls.set i j (l₁ ++ l₂)) := by
  have hmem (b i' j' : Nat) (hb : b ∈ ls.set i j (l₁ ++ l₂) i' j') : b ∈ ls i' j' := by
    by_cases he : i' = i ∧ j' = j
    · obtain ⟨rfl, rfl⟩ := he
      rw [Lists.set_self] at hb
      exact mem_rest hl hb
    · rwa [Lists.set_ne _ _ he] at hb
  have hnode (b : Nat) (hb : (ls.set i j (l₁ ++ l₂)).node b) : ls.node b := by
    obtain ⟨i', j', hb⟩ := hb
    exact ⟨i', j', hmem b i' j' hb⟩
  refine ⟨?_, ?_, ?_, hn.spaced.mono hnode⟩
  · intro b hb
    exact hn.above b (hnode b hb)
  · intro i' j'
    by_cases he : i' = i ∧ j' = j
    · obtain ⟨rfl, rfl⟩ := he
      have hnd := hn.nodup i' j'
      rw [hl] at hnd
      rw [Lists.set_self]
      exact (List.nodup_middle.1 hnd).of_cons
    · rw [Lists.set_ne _ _ he]
      exact hn.nodup i' j'
  · intro b i₁ j₁ i₂ j₂ h1 h2
    exact hn.unique b i₁ j₁ i₂ j₂ (hmem b i₁ j₁ h1) (hmem b i₂ j₂ h2)

/-- Taking a block from its list writes to the links of the blocks in the lists and to nothing else. -/
theorem Index.unlink_apart (h : Index m P ls) (hn : Nodes P ls) (hl : ls i j = l₁ ++ a :: l₂)
    (hx : Apart P ls x) : Tlsf.unlink m a (l₁.getLastD NULL) (l₂.headD NULL) P i j x = m x := by
  have ha : ls.node a := ⟨i, j, hl ▸ List.mem_append_right _ (List.mem_cons_self ..)⟩
  apply Tlsf.unlink_apart (h.around hn hl) hx.1 (hx.2 a ha)
  · intro h0
    exact (hx.2 _ ⟨i, j, mem_rest hl (List.mem_append_left _ (Dlist.getLastD_mem h0))⟩).2
  · intro h0
    exact (hx.2 _ ⟨i, j, mem_rest hl (List.mem_append_right _ (Dlist.headD_mem h0))⟩).1

/-- What a block in front of a list writes. -/
theorem insertBlock_apply (hb : P + 3184 ≤ b) (hi : i < 24) (hj : j < 32)
    (hh : m (matrix P i j) ≠ NULL → P + 3184 ≤ m (matrix P i j)) (x : Nat) : insertBlock m b P i j x =
      if x = flBitmap P then m (flBitmap P) ||| 1 <<< i
      else if x = slBitmap P i then m (slBitmap P i) ||| 1 <<< j
      else if x = matrix P i j then b
      else if m (matrix P i j) ≠ NULL ∧ x = Bhdr.prev (m (matrix P i j)) then b
      else if x = Bhdr.next b then m (matrix P i j)
      else if x = Bhdr.prev b then NULL else m x := by
  have e1 : matrix P i j ≠ Bhdr.prev b := by
    rw [matrix_eq]
    unfold Bhdr.prev
    omega
  have e2 : matrix P i j ≠ Bhdr.next b := by
    rw [matrix_eq]
    unfold Bhdr.next
    omega
  have e3 : slBitmap P i ≠ matrix P i j := by
    rw [matrix_eq]
    unfold slBitmap
    omega
  have e4 : slBitmap P i ≠ Bhdr.prev b := by
    unfold slBitmap Bhdr.prev
    omega
  have e5 : slBitmap P i ≠ Bhdr.next b := by
    unfold slBitmap Bhdr.next
    omega
  have e6 : flBitmap P ≠ slBitmap P i := by
    unfold flBitmap slBitmap
    omega
  have e7 : flBitmap P ≠ matrix P i j := by
    rw [matrix_eq]
    unfold flBitmap
    omega
  have e8 : flBitmap P ≠ Bhdr.prev b := by
    unfold flBitmap Bhdr.prev
    omega
  have e9 : flBitmap P ≠ Bhdr.next b := by
    unfold flBitmap Bhdr.next
    omega
  unfold insertBlock
  simp only [setBit_eq hj, setBit_eq (by omega : i < 32), Mem.set_ne e1, Mem.set_ne e2]
  by_cases h0 : m (matrix P i j) = NULL
  · simp only [h0, ne_eq, not_true_eq_false, if_false, false_and, Mem.set_ne e3, Mem.set_ne e4, Mem.set_ne e5,
      Mem.set_ne e6, Mem.set_ne e7, Mem.set_ne e8, Mem.set_ne e9]
    rfl
  · have hab := hh h0
    have e10 : slBitmap P i ≠ Bhdr.prev (m (matrix P i j)) := by
      unfold slBitmap Bhdr.prev
      omega
    have e11 : flBitmap P ≠ Bhdr.prev (m (matrix P i j)) := by
      unfold flBitmap Bhdr.prev
      omega
    simp only [h0, ne_eq, not_false_eq_true, if_true, true_and, Mem.set_ne e3, Mem.set_ne e4, Mem.set_ne e5,
      Mem.set_ne e6, Mem.set_ne e7, Mem.set_ne e8, Mem.set_ne e9, Mem.set_ne e10, Mem.set_ne e11]
    rfl

/-- A block that can be put into a list. -/
structure Fresh (P : Nat) (ls : Lists) (b : Nat) : Prop where
  above : P + 3184 ≤ b
  apart : ∀ a, ls.node a → a + 16 ≤ b ∨ b + 16 ≤ a

theorem Lists.push_ne_nil (ls : Lists) (i j b i' j' : Nat) :
    ls.set i j (b :: ls i j) i' j' ≠ [] ↔ ls i' j' ≠ [] ∨ i' = i ∧ j' = j := by
  by_cases he : i' = i ∧ j' = j
  · obtain ⟨rfl, rfl⟩ := he
    rw [Lists.set_self]
    simp
  · rw [Lists.set_ne _ _ he]
    simp [he]

theorem Lists.mem_push (ls : Lists) (i j b i' j' : Nat) :
    a ∈ ls.set i j (b :: ls i j) i' j' ↔ a ∈ ls i' j' ∨ a = b ∧ i' = i ∧ j' = j := by
  by_cases he : i' = i ∧ j' = j
  · obtain ⟨rfl, rfl⟩ := he
    rw [Lists.set_self, List.mem_cons]
    tauto
  · rw [Lists.set_ne _ _ he]
    tauto

theorem Fresh.not_node (hf : Fresh P ls b) : ¬ls.node b := by
  intro h
  have hab := hf.apart b h
  omega

theorem Nodes.insert (hn : Nodes P ls) (hf : Fresh P ls b) (i j : Nat) :
    Nodes P (ls.set i j (b :: ls i j)) := by
  have hnode (a : Nat) (ha : (ls.set i j (b :: ls i j)).node a) : ls.node a ∨ a = b := by
    obtain ⟨i', j', ha⟩ := ha
    rcases (Lists.mem_push ls i j b i' j').1 ha with ha | ⟨he, -⟩
    · exact .inl ⟨i', j', ha⟩
    · exact .inr he
  refine ⟨?_, ?_, ?_, ?_⟩
  · intro a ha
    rcases hnode a ha with ha | rfl
    · exact hn.above a ha
    · exact hf.above
  · intro i' j'
    by_cases he : i' = i ∧ j' = j
    · obtain ⟨rfl, rfl⟩ := he
      rw [Lists.set_self]
      exact List.nodup_cons.2 ⟨fun hb => hf.not_node ⟨i', j', hb⟩, hn.nodup i' j'⟩
    · rw [Lists.set_ne _ _ he]
      exact hn.nodup i' j'
  · intro a i₁ j₁ i₂ j₂ h1 h2
    rcases (Lists.mem_push ls i j b i₁ j₁).1 h1 with h1 | ⟨rfl, h1⟩
    · rcases (Lists.mem_push ls i j b i₂ j₂).1 h2 with h2 | ⟨he, -⟩
      · exact hn.unique a i₁ j₁ i₂ j₂ h1 h2
      · exact absurd ⟨i₁, j₁, he ▸ h1⟩ hf.not_node
    · rcases (Lists.mem_push ls i j a i₂ j₂).1 h2 with h2 | ⟨-, h2⟩
      · exact absurd ⟨i₂, j₂, h2⟩ hf.not_node
      · omega
  · intro a c ha hc
    rcases hnode a ha with ha | rfl
    · rcases hnode c hc with hc | he
      · exact hn.spaced a c ha hc
      · exact .inr (he ▸ hf.apart a ha)
    · rcases hnode c hc with hc | rfl
      · exact .inr (hf.apart c hc).symm
      · exact .inl rfl

theorem Index.head_node (h : Index m P ls) (hi : i < 24) (hj : j < 32)
    (h0 : m (matrix P i j) ≠ NULL) : ls.node (m (matrix P i j)) := by
  rw [h.head i hi j hj] at h0 ⊢
  exact ⟨i, j, Dlist.headD_mem h0⟩

/-- Putting a block in front of a list keeps the lists. -/
theorem Index.insert (h : Index m P ls) (hn : Nodes P ls) (hf : Fresh P ls b) (hi : i < 24) (hj : j < 32) :
    Index (insertBlock m b P i j) P (ls.set i j (b :: ls i j)) := by
  have hb := hf.above
  have hh (h0 : m (matrix P i j) ≠ NULL) := hn.above _ (h.head_node hi hj h0)
  have happly := insertBlock_apply (m := m) hb hi hj hh
  have hnil := Lists.push_ne_nil ls i j b
  refine ⟨?_, ?_, ?_, ?_, ?_⟩
  · intro i' j' hne
    rcases (hnil i' j').1 hne with h1 | ⟨rfl, rfl⟩
    · exact h.range i' j' h1
    · exact ⟨hi, hj⟩
  · intro i'
    rw [happly, if_pos rfl, BitScan.testBit_set, Bool.or_eq_true, h.fl, decide_eq_true_eq]
    simp only [hnil]
    constructor
    · rintro (⟨j', hj'⟩ | rfl)
      · exact ⟨j', .inl hj'⟩
      · exact ⟨j, .inr ⟨rfl, rfl⟩⟩
    · rintro ⟨j', hj' | ⟨rfl, -⟩⟩
      · exact .inl ⟨j', hj'⟩
      · exact .inr rfl
  · intro i' hi' j'
    rw [happly, if_neg (by unfold slBitmap flBitmap; omega), hnil]
    by_cases he : i' = i
    · subst he
      rw [if_pos rfl, BitScan.testBit_set, Bool.or_eq_true, h.sl i' hi', decide_eq_true_eq]
      simp
    · rw [if_neg (by unfold slBitmap; omega), if_neg (by rw [matrix_eq]; unfold slBitmap; omega), if_neg,
        if_neg (by unfold slBitmap Bhdr.next; omega), if_neg (by unfold slBitmap Bhdr.prev; omega), h.sl i' hi']
      · simp [he]
      · rintro ⟨h0, heq⟩
        have hab := hh h0
        unfold slBitmap Bhdr.prev at heq
        omega
  · intro i' hi' j' hj'
    rw [happly, if_neg (by rw [matrix_eq]; unfold flBitmap; omega),
      if_neg (by rw [matrix_eq]; unfold slBitmap; omega)]
    by_cases he : i' = i ∧ j' = j
    · obtain ⟨rfl, rfl⟩ := he
      rw [if_pos rfl, Lists.set_self]
      rfl
    · rw [if_neg, if_neg, if_neg (by rw [matrix_eq]; unfold Bhdr.next; omega),
        if_neg (by rw [matrix_eq]; unfold Bhdr.prev; omega), Lists.set_ne _ _ he]
      · exact h.head i' hi' j' hj'
      · rintro ⟨h0, heq⟩
        have hab := hh h0
        rw [matrix_eq] at heq
        unfold Bhdr.prev at heq
        omega
      · rw [matrix_eq, matrix_eq]
        omega
  · intro i' j'
    -- the links of the blocks that are in the lists already
    have hold (a : Nat) (ha : ls.node a) :
        insertBlock m b P i j (Bhdr.next a) = m (Bhdr.next a) ∧ insertBlock m b P i j (Bhdr.prev a) =
          if a = m (matrix P i j) then b else m (Bhdr.prev a) := by
      have haa := hn.above a ha
      have hab := hf.apart a ha
      have hsp (h0 : m (matrix P i j) ≠ NULL) := hn.spaced _ _ (h.head_node hi hj h0) ha
      constructor
      · rw [happly, if_neg (by unfold flBitmap Bhdr.next; omega), if_neg (by unfold slBitmap Bhdr.next; omega),
          if_neg (by rw [matrix_eq]; unfold Bhdr.next; omega), if_neg, if_neg (by unfold Bhdr.next; omega),
          if_neg (by unfold Bhdr.next Bhdr.prev; omega)]
        rintro ⟨h0, heq⟩
        have := hsp h0
        unfold Bhdr.next Bhdr.prev at heq
        omega
      · rw [happly, if_neg (by unfold flBitmap Bhdr.prev; omega), if_neg (by unfold slBitmap Bhdr.prev; omega),
          if_neg (by rw [matrix_eq]; unfold Bhdr.prev; omega)]
        by_cases he : a = m (matrix P i j)
        · rw [if_pos ⟨he ▸ hn.ne_null ha, congrArg Bhdr.prev he⟩, if_pos he]
        · rw [if_neg, if_neg (by unfold Bhdr.next Bhdr.prev; omega), if_neg (by unfold Bhdr.prev; omega), if_neg he]
          rintro ⟨h0, heq⟩
          unfold Bhdr.prev at heq
          omega
    by_cases he : i' = i ∧ j' = j
    · obtain ⟨rfl, rfl⟩ := he
      have hhd := h.head i' hi j' hj
      rw [Lists.set_self]
      apply (h.links i' j').push (hn.nodup i' j')
      · rw [happly, if_neg (by unfold flBitmap Bhdr.prev; omega), if_neg (by unfold slBitmap Bhdr.prev; omega),
          if_neg (by rw [matrix_eq]; unfold Bhdr.prev; omega), if_neg, if_neg (by unfold Bhdr.next Bhdr.prev; omega),
          if_pos rfl]
        rintro ⟨h0, heq⟩
        have := hf.apart _ (h.head_node hi hj h0)
        unfold Bhdr.prev at heq
        omega
      · rw [happly, if_neg (by unfold flBitmap Bhdr.next; omega), if_neg (by unfold slBitmap Bhdr.next; omega),
          if_neg (by rw [matrix_eq]; unfold Bhdr.next; omega), if_neg, if_pos rfl, hhd]
        rintro ⟨h0, heq⟩
        have := hf.apart _ (h.head_node hi hj h0)
        unfold Bhdr.next Bhdr.prev at heq
        omega
      · intro a ha
        exact (hold a ⟨i', j', ha⟩).1
      · intro a ha
        rw [← hhd]
        exact (hold a ⟨i', j', ha⟩).2
    · rw [Lists.set_ne _ _ he]
      apply (h.links i' j').congr
      · intro a ha
        exact (hold a ⟨i', j', ha⟩).1
      · intro a ha
        apply (hold a ⟨i', j', ha⟩).2.trans
        apply if_neg
        intro hah
        have h0 : m (matrix P i j) ≠ NULL := hah ▸ hn.ne_null ⟨i', j', ha⟩
        rw [h.head i hi j hj] at hah h0
        exact he (hn.unique a i j i' j' (hah ▸ Dlist.headD_mem h0) ha)

/-- Putting a block in front of a list writes to links and to nothing else. -/
theorem Index.insert_apart (h : Index m P ls) (hn : Nodes P ls) (hf : Fresh P ls b) (hi : i < 24) (hj : j < 32)
    (hx : Apart P ls x) (hxb : x ≠ Bhdr.prev b ∧ x ≠ Bhdr.next b) : insertBlock m b P i j x = m x := by
  have hb := hf.above
  have hh (h0 : m (matrix P i j) ≠ NULL) := hn.above _ (h.head_node hi hj h0)
  have hx1 := hx.1
  rw [insertBlock_apply hb hi hj hh, if_neg (by unfold flBitmap; omega), if_neg (by unfold slBitmap; omega),
    if_neg (by rw [matrix_eq]; omega), if_neg, if_neg hxb.2, if_neg hxb.1]
  rintro ⟨h0, he⟩
  exact (hx.2 _ (h.head_node hi hj h0)).1 he

end

end AspKernel.Tlsf
