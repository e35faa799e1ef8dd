import Mathlib.Data.List.Nodup
import Mathlib.Data.List.Basic

/-!
Doubly linked lists whose nodes carry the links: what linking in front of the first node and
unlinking any node make of the list, from what they write into the neighbours alone.
-/

namespace Dlist
set_option autoImplicit true

section
variable {ι : Type} {next prev next' prev' : ι → ι} {p e a : ι} {l l₁ l₂ : List ι}

/-- A piece of a list between the node `p` in front of it and the node `e` behind it. -/
def Seg (next prev : ι → ι) (p : ι) : List ι → ι → Prop
  | [], _ => True
  | a :: l, e => prev a = p ∧ next a = l.headD e ∧ Seg next prev a l e

theorem seg_append : Seg next prev p (l₁ ++ l₂) e ↔
    Seg next prev p l₁ (l₂.headD e) ∧ Seg next prev (l₁.getLastD p) l₂ e := by
  induction l₁ generalizing p with
  | nil => exact (true_and _ ▸ Iff.rfl)
  | cons a l ih =>
    have hhead : (l ++ l₂).headD e = l.headD (l₂.headD e) := by cases l <;> rfl
    simp only [List.cons_append, Seg, ih, hhead, List.getLastD_cons, and_assoc]

/-- A piece of a list reads the links of its nodes alone. -/
theorem Seg.congr (h : Seg next prev p l e) (hn : ∀ a ∈ l, next' a = next a)
    (hp : ∀ a ∈ l, prev' a = prev a) : Seg next' prev' p l e := by
  induction l generalizing p with
  | nil => trivial
  | cons a l ih =>
    obtain ⟨h1, h2, h3⟩ := h
    refine ⟨(hp a (List.mem_cons_self ..)).trans h1, (hn a (List.mem_cons_self ..)).trans h2, ?_⟩
    apply ih h3
    · intro b hb
      exact hn b (List.mem_cons_of_mem a hb)
    · intro b hb
      exact hp b (List.mem_cons_of_mem a hb)

/-- The neighbours of a node. -/
theorem Seg.neighbours (h : Seg next prev p (l₁ ++ a :: l₂) e) :
    prev a = l₁.getLastD p ∧ next a = l₂.headD e := by
  obtain ⟨-, hp, hn, -⟩ := seg_append.1 h
  exact ⟨hp, hn⟩

theorem getLastD_mem (h : l.getLastD p ≠ p) : l.getLastD p ∈ l := by
  cases l with
  | nil => exact absurd rfl h
  | cons b l =>
    rw [List.getLastD_cons]
    exact List.getLastD_mem_cons ..

theorem headD_mem (h : l.headD p ≠ p) : l.headD p ∈ l := by
  cases l with
  | nil => exact absurd rfl h
  | cons b l => exact List.mem_cons_self ..

variable [DecidableEq ι]

/-- The node behind the piece is another one. -/
theorem Seg.relink_end (h : Seg next prev p l e) (hl : l.Nodup)
    (hn : ∀ a ∈ l, next' a = if a = l.getLastD p then e' else next a)
    (hp : ∀ a ∈ l, prev' a = prev a) : Seg next' prev' p l e' := by
  induction l generalizing p with
  | nil => trivial
  | cons a l ih =>
    obtain ⟨h1, h2, h3⟩ := h
    obtain ⟨ha, hl⟩ := List.nodup_cons.1 hl
    rw [List.getLastD_cons] at hn
    refine ⟨(hp a (List.mem_cons_self ..)).trans h1, ?_, ?_⟩
    · rw [hn a (List.mem_cons_self ..)]
      cases l with
      | nil => exact if_pos rfl
      | cons b l =>
        have hne : a ≠ (b :: l).getLastD a := by
          intro he
          apply ha
          rw [he, List.getLastD_cons]
          exact List.getLastD_mem_cons ..
        rw [if_neg hne]
        exact h2
    · apply ih h3 hl
      · intro b hb
        exact hn b (List.mem_cons_of_mem a hb)
      · intro b hb
        exact hp b (List.mem_cons_of_mem a hb)

/-- The node in front of the piece is another one. -/
theorem Seg.relink_start (h : Seg next prev p l e) (hl : l.Nodup) (hn : ∀ a ∈ l, next' a = next a)
    (hp : ∀ a ∈ l, prev' a = if a = l.headD e then p' else prev a) : Seg next' prev' p' l e := by
  cases l with
  | nil => trivial
  | cons a l =>
    obtain ⟨h1, h2, h3⟩ := h
    obtain ⟨ha, hl⟩ := List.nodup_cons.1 hl
    refine ⟨(hp a (List.mem_cons_self ..)).trans (if_pos rfl), (hn a (List.mem_cons_self ..)).trans h2, ?_⟩
    apply h3.congr
    · intro b hb
      exact hn b (List.mem_cons_of_mem a hb)
    · intro b hb
      rw [hp b (List.mem_cons_of_mem a hb), if_neg]
      rintro rfl
      exact ha hb

/-- A node is unlinked: the node in front of it gets its `next`, the one behind it its `prev`. -/
theorem Seg.unlink (h : Seg next prev e (l₁ ++ a :: l₂) e) (hl : (l₁ ++ a :: l₂).Nodup)
    (he : e ∉ l₁ ++ a :: l₂)
    (hn : ∀ b ∈ l₁ ++ l₂, next' b = if b = prev a then next a else next b)
    (hp : ∀ b ∈ l₁ ++ l₂, prev' b = if b = next a then prev a else prev b) :
    Seg next' prev' e (l₁ ++ l₂) e := by
  obtain ⟨hpa, hna⟩ := h.neighbours
  obtain ⟨h1, -, -, h2⟩ := seg_append.1 h
  obtain ⟨hl1, hl2, hdis⟩ := List.nodup_append.1 hl
  obtain ⟨-, hl2⟩ := List.nodup_cons.1 hl2
  apply seg_append.2
  constructor
  · apply h1.relink_end hl1
    · intro b hb
      rw [hn b (List.mem_append_left _ hb), hpa, hna]
    · intro b hb
      rw [hp b (List.mem_append_left _ hb), if_neg]
      rintro rfl
      rw [hna] at hb
      by_cases hd : l₂.headD e = e
      · rw [hd] at hb
        exact he (List.mem_append_left _ hb)
      · exact hdis _ hb _ (List.mem_cons_of_mem a (headD_mem hd)) rfl
  · rw [← hpa]
    apply h2.relink_start hl2
    · intro b hb
      rw [hn b (List.mem_append_right _ hb), if_neg]
      rintro rfl
      rw [hpa] at hb
      by_cases hd : l₁.getLastD e = e
      · rw [hd] at hb
        exact he (List.mem_append_right _ (List.mem_cons_of_mem a hb))
      · exact hdis _ (getLastD_mem hd) _ (List.mem_cons_of_mem a hb) rfl
    · intro b hb
      rw [hp b (List.mem_append_right _ hb), hna]

/-- A node is linked in front of the first one. -/
theorem Seg.push (h : Seg next prev e l e) (hl : l.Nodup) (ha : prev' a = e) (hna : next' a = l.headD e)
    (hn : ∀ b ∈ l, next' b = next b) (hp : ∀ b ∈ l, prev' b = if b = l.headD e then a else prev b) :
    Seg next' prev' e (a :: l) e :=
  ⟨ha, hna, h.relink_start hl hn hp⟩

end

end Dlist
