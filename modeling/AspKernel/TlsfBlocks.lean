import AspKernel.TlsfFind

/-! The blocks of the pool, one behind the other, and what their headers say of them. -/

namespace AspKernel.Tlsf
set_option autoImplicit true
open WordMem

/-- The size of a block, and whether it and the block in front of it are free. -/
def tagWord (s : Nat) (f p : Bool) : Nat := s + (f.toNat + 2 * p.toNat)

section
variable {s n : Nat}

theorem tagWord_eq (h : 4 ∣ s) (f p : Bool) : tagWord s f p = 2 ^ 2 * (s / 4) + (f.toNat + 2 * p.toNat) := by
  unfold tagWord
  rw [show 2 ^ 2 * (s / 4) = s from Nat.mul_div_cancel' h]

theorem tag_lt (f p : Bool) : f.toNat + 2 * p.toNat < 2 ^ 2 := by
  cases f <;> cases p <;> decide

theorem tagWord_or (h : 4 ∣ s) (f p : Bool) (ht : t < 2 ^ 2) :
    tagWord s f p ||| t = s + (f.toNat + 2 * p.toNat ||| t) := by
  rw [tagWord_eq h, BitScan.or_tag (tag_lt f p) ht, show 2 ^ 2 * (s / 4) = s from Nat.mul_div_cancel' h]

theorem tagWord_and (h : 4 ∣ s) (f p : Bool) (ht : t < 2 ^ 2) :
    tagWord s f p &&& t = f.toNat + 2 * p.toNat &&& t := by
  rw [tagWord_eq h, BitScan.and_tag (tag_lt f p) ht]

theorem tagWord_and_not (h : 4 ∣ s) (hs : s < 2 ^ 30) (f p : Bool) (ht : t < 2 ^ 2) :
    tagWord s f p &&& not32 t = s + (f.toNat + 2 * p.toNat &&& 2 ^ 2 - 1 - t) := by
  have hlt := tag_lt f p
  rw [tagWord_eq h]
  unfold not32
  rw [BitScan.and_not_tag (by omega) hlt ht (by decide), show 2 ^ 2 * (s / 4) = s from Nat.mul_div_cancel' h]

theorem tagWord_size (h : 4 ∣ s) (hs : s < 2 ^ 30) (f p : Bool) : tagWord s f p &&& BLOCK_SIZE = s := by
  apply (tagWord_and_not (t := 3) h hs f p (by decide)).trans
  cases f <;> cases p <;> rfl

theorem tagWord_setFree (h : 4 ∣ s) (f p : Bool) : tagWord s f p ||| FREE_BLOCK = tagWord s true p := by
  apply (tagWord_or h f p (by decide)).trans
  cases f <;> cases p <;> rfl

theorem tagWord_setPrev (h : 4 ∣ s) (f p : Bool) : tagWord s f p ||| PREV_FREE = tagWord s f true := by
  apply (tagWord_or h f p (by decide)).trans
  cases f <;> cases p <;> rfl

theorem tagWord_clearFree (h : 4 ∣ s) (hs : s < 2 ^ 30) (f p : Bool) :
    tagWord s f p &&& not32 FREE_BLOCK = tagWord s false p := by
  apply (tagWord_and_not h hs f p (by decide)).trans
  cases f <;> cases p <;> rfl

theorem tagWord_clearPrev (h : 4 ∣ s) (hs : s < 2 ^ 30) (f p : Bool) :
    tagWord s f p &&& not32 PREV_FREE = tagWord s f false := by
  apply (tagWord_and_not h hs f p (by decide)).trans
  cases f <;> cases p <;> rfl

theorem tagWord_free (h : 4 ∣ s) (f p : Bool) : tagWord s f p &&& FREE_BLOCK ≠ 0 ↔ f = true := by
  rw [show tagWord s f p &&& FREE_BLOCK = _ from tagWord_and h f p (by decide)]
  cases f <;> cases p <;> decide

theorem tagWord_prev (h : 4 ∣ s) (f p : Bool) : tagWord s f p &&& PREV_FREE ≠ 0 ↔ p = true := by
  rw [show tagWord s f p &&& PREV_FREE = _ from tagWord_and h f p (by decide)]
  cases f <;> cases p <;> decide

theorem tagWord_prevState (h : 4 ∣ s) (hn : 4 ∣ n) (f p : Bool) :
    n ||| tagWord s f p &&& PREV_STATE = tagWord n false p := by
  have h0 : n = tagWord n false false := rfl
  rw [show tagWord s f p &&& PREV_STATE = _ from tagWord_and h f p (by decide)]
  nth_rewrite 1 [h0]
  rw [tagWord_or hn]
  · cases f <;> cases p <;> rfl
  · cases f <;> cases p <;> decide

theorem tagWord_new (h : 4 ∣ s) : s ||| FREE_BLOCK ||| PREV_USED = tagWord s true false := by
  have h0 : s = tagWord s false false := rfl
  nth_rewrite 1 [h0]
  rw [tagWord_setFree h, show PREV_USED = 0 from rfl, Nat.or_zero]

theorem tagWord_add (f p : Bool) (h : s + n < 2 ^ 30) : add32 (tagWord s f p) n = tagWord (s + n) f p := by
  have hlt := tag_lt f p
  unfold tagWord
  rw [add32_eq (by omega)]
  omega

end

/-- What the block behind it stores as `prev_hdr`. -/
def Blk.back (b : Blk) : Option Nat := if b.free then some b.addr else none

/-- The header at an address, for the free block in front of it. -/
structure Ctl (m : Mem) (p : Option Nat) (a s : Nat) (f : Bool) : Prop where
  word : m (Bhdr.size a) = tagWord s f p.isSome
  back : ∀ q, p = some q → m (Bhdr.prevHdr a) = q

/-- A block at an address; two free blocks do not stand side by side. -/
structure BlockAt (m : Mem) (p : Option Nat) (a : Nat) (b : Blk) : Prop where
  addr : b.addr = a
  dvd : 8 ∣ b.size
  min : 8 ≤ b.size
  ctl : Ctl m p a b.size b.free
  apart : b.free = true → p = none

/-- Blocks from an address up to another one. -/
def Prefix (m : Mem) : Option Nat → Nat → List Blk → Nat → Prop
  | _, a, [], e => a = e
  | p, a, b :: l, e => BlockAt m p a b ∧ Prefix m b.back (a + 8 + b.size) l e

/-- Blocks from an address up to the end of the pool, where there is a used block of no size. -/
def Suffix (m : Mem) : Option Nat → Nat → List Blk → Nat → Prop
  | p, a, [], e => a = e ∧ Ctl m p a 0 false
  | p, a, b :: l, e => BlockAt m p a b ∧ Suffix m b.back (a + 8 + b.size) l e

/-- The last of the blocks where it is free. -/
def lastBack (p : Option Nat) : List Blk → Option Nat
  | [] => p
  | b :: l => lastBack b.back l

section
variable {m m' : Mem} {p p' : Option Nat} {a a' e s x : Nat} {b c : Blk} {l l₁ l₂ : List Blk}

theorem Ctl.congr (h : Ctl m p a s f) (h1 : m' (Bhdr.size a) = m (Bhdr.size a))
    (h2 : m' (Bhdr.prevHdr a) = m (Bhdr.prevHdr a)) : Ctl m' p a s f :=
  ⟨h1.trans h.word, fun q hq => h2.trans (h.back q hq)⟩

theorem suffix_append : Suffix m p a (l₁ ++ l₂) e ↔
    ∃ a', Prefix m p a l₁ a' ∧ Suffix m (lastBack p l₁) a' l₂ e := by
  induction l₁ generalizing p a with
  | nil =>
    constructor
    · intro h
      exact ⟨a, rfl, h⟩
    · rintro ⟨a', rfl, h⟩
      exact h
  | cons b l ih =>
    rw [List.cons_append, Suffix, ih]
    constructor
    · rintro ⟨hb, a', h1, h2⟩
      exact ⟨a', ⟨hb, h1⟩, h2⟩
    · rintro ⟨a', ⟨hb, h1⟩, h2⟩
      exact ⟨hb, a', h1, h2⟩

theorem prefix_append : Prefix m p a (l₁ ++ l₂) e ↔
    ∃ a', Prefix m p a l₁ a' ∧ Prefix m (lastBack p l₁) a' l₂ e := by
  induction l₁ generalizing p a with
  | nil =>
    constructor
    · intro h
      exact ⟨a, rfl, h⟩
    · rintro ⟨a', rfl, h⟩
      exact h
  | cons b l ih =>
    rw [List.cons_append, Prefix, ih]
    constructor
    · rintro ⟨hb, a', h1, h2⟩
      exact ⟨a', ⟨hb, h1⟩, h2⟩
    · rintro ⟨a', ⟨hb, h1⟩, h2⟩
      exact ⟨hb, a', h1, h2⟩

theorem lastBack_append : lastBack p (l₁ ++ l₂) = lastBack (lastBack p l₁) l₂ := by
  induction l₁ generalizing p with
  | nil => rfl
  | cons b l ih => exact ih

theorem Prefix.le (h : Prefix m p a l e) : a ≤ e := by
  induction l generalizing p a with
  | nil => exact Nat.le_of_eq h
  | cons b l ih =>
    have hle := ih h.2
    omega

theorem Suffix.toPrefix (h : Suffix m p a l e) : Prefix m p a l e := by
  induction l generalizing p a with
  | nil => exact h.1
  | cons b l ih => exact ⟨h.1, ih h.2⟩

theorem Suffix.le (h : Suffix m p a l e) : a ≤ e := h.toPrefix.le

/-- Every block lies between the two ends. -/
theorem Prefix.mem (h : Prefix m p a l e) (hb : b ∈ l) :
    a ≤ b.addr ∧ b.addr + 8 + b.size ≤ e ∧ 8 ≤ b.size ∧ 8 ∣ b.size := by
  induction l generalizing p a with
  | nil => cases hb
  | cons c l ih =>
    obtain ⟨hc, hl⟩ := h
    have hle := hl.le
    have ha := hc.addr
    rcases List.mem_cons.1 hb with rfl | hb
    · have hm := hc.min
      exact ⟨by omega, by omega, hm, hc.dvd⟩
    · obtain ⟨h1, h2⟩ := ih hl hb
      exact ⟨by omega, h2⟩

theorem Suffix.mem (h : Suffix m p a l e) (hb : b ∈ l) :
    a ≤ b.addr ∧ b.addr + 8 + b.size ≤ e ∧ 8 ≤ b.size ∧ 8 ∣ b.size := h.toPrefix.mem hb

/-- Two blocks do not overlap. -/
theorem Prefix.spaced (h : Prefix m p a l e) (hb : b ∈ l) (hc : c ∈ l) :
    b = c ∨ b.addr + 8 + b.size ≤ c.addr ∨ c.addr + 8 + c.size ≤ b.addr := by
  induction l generalizing p a with
  | nil => cases hb
  | cons d l ih =>
    obtain ⟨hd, hl⟩ := h
    have ha := hd.addr
    rcases List.mem_cons.1 hb with rfl | hbl
    · rcases List.mem_cons.1 hc with rfl | hcl
      · exact .inl rfl
      · have hm := (hl.mem hcl).1
        exact .inr (.inl (by omega))
    · rcases List.mem_cons.1 hc with rfl | hcl
      · have hm := (hl.mem hbl).1
        exact .inr (.inr (by omega))
      · exact ih hl hbl hcl

/-- Blocks read their headers alone. -/
theorem Prefix.congr (h : Prefix m p a l e)
    (hm : ∀ b ∈ l, m' (Bhdr.size b.addr) = m (Bhdr.size b.addr) ∧ m' (Bhdr.prevHdr b.addr) = m (Bhdr.prevHdr b.addr)) :
    Prefix m' p a l e := by
  induction l generalizing p a with
  | nil => exact h
  | cons b l ih =>
    obtain ⟨hb, hl⟩ := h
    obtain ⟨h1, h2⟩ := hm b (List.mem_cons_self ..)
    rw [hb.addr] at h1 h2
    refine ⟨⟨hb.addr, hb.dvd, hb.min, hb.ctl.congr h1 h2, hb.apart⟩, ih hl ?_⟩
    intro c hc
    exact hm c (List.mem_cons_of_mem b hc)

theorem Suffix.congr (h : Suffix m p a l e)
    (hm : ∀ b ∈ l, m' (Bhdr.size b.addr) = m (Bhdr.size b.addr) ∧ m' (Bhdr.prevHdr b.addr) = m (Bhdr.prevHdr b.addr))
    (he : m' (Bhdr.size e) = m (Bhdr.size e) ∧ m' (Bhdr.prevHdr e) = m (Bhdr.prevHdr e)) : Suffix m' p a l e := by
  induction l generalizing p a with
  | nil =>
    obtain ⟨rfl, h⟩ := h
    exact ⟨rfl, h.congr he.1 he.2⟩
  | cons b l ih =>
    obtain ⟨hb, hl⟩ := h
    obtain ⟨h1, h2⟩ := hm b (List.mem_cons_self ..)
    rw [hb.addr] at h1 h2
    refine ⟨⟨hb.addr, hb.dvd, hb.min, hb.ctl.congr h1 h2, hb.apart⟩, ih hl ?_⟩
    intro c hc
    exact hm c (List.mem_cons_of_mem b hc)

/-- The block in front of the blocks becomes free or used. -/
theorem Suffix.relink (h : Suffix m p a l e) (hp : ∀ c l', l = c :: l' → c.free = true → p' = none)
    (hw : ∀ s f, 4 ∣ s → s < 2 ^ 30 → m (Bhdr.size a) = tagWord s f p.isSome → m' (Bhdr.size a) = tagWord s f p'.isSome)
    (hq : ∀ q, p' = some q → m' (Bhdr.prevHdr a) = q) (hle : e < a + 2 ^ 30)
    (hm : ∀ b ∈ l, a + 16 ≤ b.addr →
      m' (Bhdr.size b.addr) = m (Bhdr.size b.addr) ∧ m' (Bhdr.prevHdr b.addr) = m (Bhdr.prevHdr b.addr))
    (he : a + 16 ≤ e → m' (Bhdr.size e) = m (Bhdr.size e) ∧ m' (Bhdr.prevHdr e) = m (Bhdr.prevHdr e)) :
    Suffix m' p' a l e := by
  cases l with
  | nil =>
    obtain ⟨rfl, h⟩ := h
    exact ⟨rfl, hw 0 false (by decide) (by decide) h.word, hq⟩
  | cons b l =>
    obtain ⟨hb, hl⟩ := h
    have hmin := hb.min
    have hdvd := hb.dvd
    have hend := hl.le
    refine ⟨⟨hb.addr, hdvd, hmin, ⟨hw _ _ (by omega) (by omega) hb.ctl.word, hq⟩, hp b l rfl⟩, ?_⟩
    apply hl.congr
    · intro c hc
      have hac := (hl.mem hc).1
      exact hm c (List.mem_cons_of_mem b hc) (by omega)
    · exact he (by omega)

end

end AspKernel.Tlsf
