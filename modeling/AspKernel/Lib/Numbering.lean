import Mathlib.Data.List.GetD
import Mathlib.Data.List.Nodup
import Mathlib.Data.List.Perm.Basic
import Mathlib.Order.Bounds.Basic

/-! Numbers from one on, given to names: some are reserved, and the others get the least free ones. -/

namespace Numbering
set_option autoImplicit true

/-- Numbers given in order to what asks for one: a reserved number is kept, and who has none gets
the least that nobody before has and that nobody behind has reserved. -/
inductive Numbered : List Nat → List (Option Nat) → List Nat → Prop
  | nil : Numbered used [] []
  | kept : Numbered (i :: used) rs is → Numbered used (some i :: rs) (i :: is)
  | fresh : IsLeast {i | 0 < i ∧ i ∉ used ∧ some i ∉ rs} i → Numbered (i :: used) rs is →
      Numbered used (none :: rs) (i :: is)

theorem Numbered.length_eq (h : Numbered used rs is) : is.length = rs.length := by
  induction h with
  | nil => rfl
  | kept _ ih => rw [List.length_cons, List.length_cons, ih]
  | fresh _ _ ih => rw [List.length_cons, List.length_cons, ih]

/-- No number is given twice where none is reserved twice. -/
theorem Numbered.nodup (h : Numbered used rs is)
    (hrs : rs.Pairwise fun a b => ∀ i, a = some i → b ≠ some i) (hu : ∀ i ∈ used, some i ∉ rs) :
    is.Nodup ∧ ∀ i ∈ is, i ∉ used := by
  induction h with
  | nil => exact ⟨List.nodup_nil, fun i hi => absurd hi List.not_mem_nil⟩
  | @kept i used rs is _ ih =>
    obtain ⟨hhead, htail⟩ := List.pairwise_cons.1 hrs
    have hi : i ∉ used := fun hm => hu i hm List.mem_cons_self
    obtain ⟨hnd, hno⟩ := ih htail fun j hj hm => by
      rcases List.mem_cons.1 hj with rfl | hj
      · exact hhead _ hm j rfl rfl
      · exact hu j hj (List.mem_cons_of_mem _ hm)
    refine ⟨List.nodup_cons.2 ⟨fun hm => hno i hm List.mem_cons_self, hnd⟩, ?_⟩
    intro j hj hm
    rcases List.mem_cons.1 hj with rfl | hj
    · exact hi hm
    · exact hno j hj (List.mem_cons_of_mem _ hm)
  | @fresh used rs i is hleast _ ih =>
    obtain ⟨-, hi, hr⟩ := hleast.1
    obtain ⟨hnd, hno⟩ := ih (List.pairwise_cons.1 hrs).2 fun j hj hm => by
      rcases List.mem_cons.1 hj with rfl | hj
      · exact hr hm
      · exact hu j hj (List.mem_cons_of_mem _ hm)
    refine ⟨List.nodup_cons.2 ⟨fun hm => hno i hm List.mem_cons_self, hnd⟩, ?_⟩
    intro j hj hm
    rcases List.mem_cons.1 hj with rfl | hj
    · exact hi hm
    · exact hno j hj (List.mem_cons_of_mem _ hm)

/-- The name in a slot; the blank stands where nothing is. -/
def slot [Inhabited N] (t : List N) (i : Nat) : N := t.getD i default

/-- The table is made long enough, and the slot gets the name. -/
def put [Inhabited N] (t : List N) (i : Nat) (x : N) : List N :=
  (t ++ List.replicate (i + 1 - t.length) default).set i x

section Table
variable {N : Type} [Inhabited N] {t : List N} {i j : Nat} {x y : N}

theorem length_put (t : List N) (i : Nat) (x : N) : (put t i x).length = max t.length (i + 1) := by
  unfold put
  rw [List.length_set, List.length_append, List.length_replicate]
  omega

@[simp] theorem slot_nil (i : Nat) : slot ([] : List N) i = default := rfl

theorem slot_of_length_le (h : t.length ≤ i) : slot t i = default :=
  List.getD_eq_default t default h

theorem slot_append_blanks (t : List N) (k i : Nat) :
    slot (t ++ List.replicate k default) i = slot t i := by
  rcases Nat.lt_or_ge i t.length with hi | hi
  · exact List.getD_append t _ default i hi
  · rw [slot_of_length_le hi]
    unfold slot
    rw [List.getD_append_right t _ default i hi, List.getD_eq_getElem?_getD]
    exact List.getElem?_getD_replicate_default_eq _ _ _

theorem slot_put_self (t : List N) (i : Nat) (x : N) : slot (put t i x) i = x := by
  have hi : i < (put t i x).length := by
    rw [length_put]
    omega
  unfold slot
  rw [List.getD_eq_getElem _ default hi]
  exact List.getElem_set_self hi

theorem slot_put_ne (t : List N) (x : N) (h : j ≠ i) : slot (put t i x) j = slot t j := by
  rw [← slot_append_blanks t (i + 1 - t.length) j]
  unfold slot put
  rw [List.getD_eq_getElem?_getD, List.getD_eq_getElem?_getD, List.getElem?_set_ne h.symm]

theorem blank_mem_tail {t : List N} :
    default ∈ t.tail ↔ ∃ i, 0 < i ∧ i < t.length ∧ slot t i = default := by
  cases t with
  | nil =>
    constructor
    · intro h
      cases h
    · rintro ⟨i, -, hi, -⟩
      cases hi
  | cons x t =>
    rw [List.tail_cons, List.mem_iff_getElem]
    constructor
    · rintro ⟨i, hi, he⟩
      refine ⟨i + 1, Nat.succ_pos i, Nat.succ_lt_succ hi, ?_⟩
      unfold slot
      rw [List.getD_cons_succ, List.getD_eq_getElem t default hi]
      exact he
    · rintro ⟨i, hpos, hi, he⟩
      obtain ⟨j, rfl⟩ := Nat.exists_eq_succ_of_ne_zero (Nat.ne_of_gt hpos)
      have hj := Nat.lt_of_succ_lt_succ hi
      unfold slot at he
      rw [List.getD_cons_succ, List.getD_eq_getElem t default hj] at he
      exact ⟨j, hj, he⟩

variable [DecidableEq N]

/-- The first slot with a name. -/
def find (t : List N) (x : N) : Option Nat := t.findIdx? (· = x)

theorem slot_find (h : find t x = some i) : slot t i = x := by
  obtain ⟨hi, hx, -⟩ := List.findIdx?_eq_some_iff_getElem.1 h
  unfold slot
  rw [List.getD_eq_getElem t default hi]
  exact of_decide_eq_true hx

theorem find_none (h : find t x = none) (hx : x ≠ default) (i : Nat) : slot t i ≠ x := by
  intro hs
  rcases Nat.lt_or_ge i t.length with hi | hi
  · have hall := List.findIdx?_eq_none_iff.1 h _ (List.getElem_mem hi)
    unfold slot at hs
    rw [List.getD_eq_getElem t default hi] at hs
    exact of_decide_eq_false hall hs
  · exact hx (hs.symm.trans (slot_of_length_le hi))

/-- The cursor passes the slots that are taken, as far as the table goes. -/
def skip (t : List N) : Nat → Nat → Nat
  | 0, i => i
  | n + 1, i => if slot t i ≠ default then skip t n (i + 1) else i

/-- The first free slot from the cursor on. -/
def next (t : List N) (i : Nat) : Nat := skip t (t.length - i) i

theorem le_skip (t : List N) (n i : Nat) : i ≤ skip t n i := by
  induction n generalizing i with
  | zero => exact Nat.le_refl i
  | succ n ih =>
    unfold skip
    split
    · exact Nat.le_of_succ_le (ih (i + 1))
    · exact Nat.le_refl i

theorem slot_of_lt_skip (hi : i ≤ j) (hj : j < skip t n i) : slot t j ≠ default := by
  induction n generalizing i with
  | zero => exact absurd (Nat.lt_of_le_of_lt hi hj) (Nat.lt_irrefl i)
  | succ n ih =>
    unfold skip at hj
    split at hj
    · rename_i hne
      rcases Nat.eq_or_lt_of_le hi with rfl | hlt
      · exact hne
      · exact ih hlt hj
    · exact absurd (Nat.lt_of_le_of_lt hi hj) (Nat.lt_irrefl i)

theorem slot_skip (h : t.length ≤ i + n) : slot t (skip t n i) = default := by
  induction n generalizing i with
  | zero => exact slot_of_length_le h
  | succ n ih =>
    unfold skip
    split
    · exact ih (by omega)
    · rename_i hne
      exact not_not.1 hne

theorem slot_next (t : List N) (i : Nat) : slot t (next t i) = default :=
  slot_skip (by omega)

end Table

/-- The table of the names that have a number, and the cursor behind which free slots are sought. -/
structure Cursor (N : Type) where
  id : Nat
  table : List N

section Held
variable {N : Type} [Inhabited N] {s : Cursor N} {t : List N} {rs : List (N × Option Nat)}
  {has : List (N × Nat)}

/-- The table holds the names that have a number, and those that have reserved one. -/
def Holds (has : List (N × Nat)) (rs : List (N × Option Nat)) (t : List N) : Prop :=
  ∀ i x, x ≠ default → (slot t i = x ↔ (x, i) ∈ has ∨ (x, some i) ∈ rs)

theorem Holds.nil : Holds [] [] ([] : List N) := by
  intro i x hx
  rw [slot_nil]
  constructor
  · intro h
    exact absurd h.symm hx
  · rintro (h | h)
    · cases h
    · cases h

/-- What stands in a slot has the number of it. -/
theorem Holds.exists (h : Holds has rs t) (hi : slot t i ≠ default) :
    (slot t i, i) ∈ has ∨ (slot t i, some i) ∈ rs :=
  (h i (slot t i) hi).1 rfl

/-- Every slot below the cursor is taken, and slot zero never is. -/
structure Ready (has : List (N × Nat)) (rs : List (N × Option Nat)) (s : Cursor N) : Prop where
  holds : Holds has rs s.table
  zero : slot s.table 0 = default
  pos : 0 < s.id
  taken : ∀ i, 0 < i → i < s.id → slot s.table i ≠ default

/-- A name that has reserved a number keeps it. -/
theorem Ready.kept (h : Ready has ((x, some i) :: rs) s) :
    Ready ((x, i) :: has) rs s := by
  refine ⟨?_, h.zero, h.pos, h.taken⟩
  intro j y hy
  rw [h.holds j y hy, List.mem_cons, List.mem_cons, Prod.mk.injEq, Prod.mk.injEq,
    Option.some.injEq]
  constructor
  · rintro (hm | hm | hm)
    · exact .inl (.inr hm)
    · exact .inl (.inl hm)
    · exact .inr hm
  · rintro ((hm | hm) | hm)
    · exact .inr (.inl hm)
    · exact .inl hm
    · exact .inr (.inr hm)

/-- Numbers in the first slot do not count, so that the cursor starts behind it. -/
theorem Holds.ready (h : Holds [] rs t) (hpos : ∀ r ∈ rs, r.2 ≠ some 0) : Ready [] rs ⟨1, t⟩ := by
  refine ⟨h, ?_, Nat.one_pos, ?_⟩
  · by_contra hne
    rcases h.exists hne with hm | hm
    · cases hm
    · exact hpos _ hm rfl
  · intro i hi hlt
    exact absurd hlt (Nat.not_lt.2 hi)

/-- Where no free slot is left behind the first one, the numbers are those from one on. -/
theorem Ready.perm (h : Ready has [] s) (hb : ∀ x ∈ has.map (·.1), x ≠ default)
    (hnd : (has.map (·.2)).Nodup) (hfull : default ∉ s.table.tail) :
    (has.map (·.2)).Perm (List.range' 1 has.length) := by
  have hmem (i : Nat) : i ∈ has.map (·.2) ↔ i ∈ List.range' 1 (s.table.length - 1) := by
    rw [List.mem_range'_1]
    constructor
    · intro hm
      obtain ⟨⟨x, j⟩, hp, rfl⟩ := List.mem_map.1 hm
      have hx := hb x (List.mem_map_of_mem hp)
      have hs := (h.holds j x hx).2 (.inl hp)
      have hlt : j < s.table.length := by
        by_contra hge
        exact hx (hs.symm.trans (slot_of_length_le (Nat.not_lt.1 hge)))
      have hpos : j ≠ 0 := by
        rintro rfl
        exact hx (hs.symm.trans h.zero)
      change 1 ≤ j ∧ j < _
      omega
    · rintro ⟨hi, hlt⟩
      have hne : slot s.table i ≠ default := fun he =>
        hfull (blank_mem_tail.2 ⟨i, hi, by omega, he⟩)
      rcases h.holds.exists hne with hm | hm
      · exact List.mem_map_of_mem hm
      · cases hm
  have hperm := (List.perm_ext_iff_of_nodup hnd List.nodup_range').2 hmem
  have hlen := hperm.length_eq
  rw [List.length_map, List.length_range'] at hlen
  rw [hlen]
  exact hperm

/-- A table is full that is no longer than the numbers which are reserved. -/
theorem Holds.full (h : Holds [] rs t) (hlen : t.length ≤ n + 1) (hb : ∀ r ∈ rs, r.1 ≠ default)
    (hall : ∀ i, 0 < i → i ≤ n → some i ∈ rs.map (·.2)) : default ∉ t.tail := by
  intro hm
  obtain ⟨i, hi, hlt, hs⟩ := blank_mem_tail.1 hm
  obtain ⟨⟨x, o⟩, hp, ho⟩ := List.mem_map.1 (hall i hi (by omega))
  cases ho
  have hx := (h i x (hb _ hp)).2 (.inr hp)
  exact hb _ hp (hx.symm.trans hs)

end Held

section Run
variable {N : Type} [Inhabited N] [DecidableEq N] {s : Cursor N} {t : List N}
  {rs : List (N × Option Nat)} {has : List (N × Nat)}

/-- A name that stands in the table has its number; another one is put into the first free slot. -/
def give (s : Cursor N) (r : N × Option Nat) : Cursor N × Option Nat :=
  match find s.table r.1 with
  | some _ => (s, r.2)
  | none =>
    let i := next s.table s.id
    (⟨i, put s.table i r.1⟩, some i)

def giveAll (s : Cursor N) : List (N × Option Nat) → Cursor N × List (Option Nat)
  | [] => (s, [])
  | r :: rs =>
    let g := give s r
    let gs := giveAll g.1 rs
    (gs.1, g.2 :: gs.2)

/-- Reserved numbers are put into the table before; none may be reserved twice. -/
def reserve (t : List N) (r : N × Option Nat) : Option (List N) :=
  match r.2 with
  | none => some t
  | some i => if slot t i ≠ default then none else some (put t i r.1)

theorem Holds.reserve (h : Holds [] rs t) (hr : reserve t r = some t') (hx : r.1 ≠ default) :
    Holds [] (rs ++ [r]) t' ∧ ∀ i, r.2 = some i → slot t i = default := by
  obtain ⟨x, o⟩ := r
  unfold Numbering.reserve at hr
  cases o with
  | none =>
    cases hr
    refine ⟨?_, ?_⟩
    · intro i y hy
      rw [h i y hy, List.mem_append, List.mem_singleton, Prod.mk.injEq]
      constructor
      · rintro (hm | hm)
        · exact .inl hm
        · exact .inr (.inl hm)
      · rintro (hm | hm | hm)
        · exact .inl hm
        · exact .inr hm
        · cases hm.2
    · intro i hi
      cases hi
  | some i =>
    obtain ⟨hfree, ht⟩ := Option.ite_none_left_eq_some.1 hr
    cases ht
    have hfree := not_not.1 hfree
    refine ⟨?_, ?_⟩
    · intro j y hy
      rw [List.mem_append, List.mem_singleton, Prod.mk.injEq, Option.some.injEq]
      by_cases hj : j = i
      · subst hj
        rw [slot_put_self]
        constructor
        · rintro rfl
          exact .inr (.inr ⟨rfl, rfl⟩)
        · rintro (hm | hm | hm)
          · cases hm
          · exact absurd ((h j y hy).2 (.inr hm)) (hfree ▸ hy.symm)
          · exact hm.1.symm
      · rw [slot_put_ne _ _ hj, h j y hy]
        constructor
        · rintro (hm | hm)
          · exact .inl hm
          · exact .inr (.inl hm)
        · rintro (hm | hm | hm)
          · exact .inl hm
          · exact .inr hm
          · exact absurd hm.2 hj
    · intro j hj
      cases hj
      exact hfree

/-- A number that no name has reserved is free. -/
theorem Holds.reserve_isSome (h : Holds [] rs t) (hr : ∀ i, r.2 = some i → some i ∉ rs.map (·.2)) :
    ∃ t', Numbering.reserve t r = some t' := by
  obtain ⟨x, o⟩ := r
  unfold Numbering.reserve
  cases o with
  | none => exact ⟨t, rfl⟩
  | some i =>
    refine ⟨put t i x, if_neg (not_not.2 ?_)⟩
    by_contra hne
    rcases h.exists hne with hm | hm
    · cases hm
    · exact hr i rfl (List.mem_map_of_mem hm)

theorem Ready.next_pos (h : Ready has rs s) : 0 < next s.table s.id :=
  Nat.lt_of_lt_of_le h.pos (le_skip _ _ _)

/-- The free slot that the cursor finds is the least number that nobody has or has reserved. -/
theorem Ready.isLeast (h : Ready has rs s) (hhas : ∀ p ∈ has, p.1 ≠ default)
    (hrs : ∀ r ∈ rs, r.1 ≠ default) :
    IsLeast {i | 0 < i ∧ i ∉ has.map (·.2) ∧ some i ∉ rs.map (·.2)} (next s.table s.id) := by
  have hfree := slot_next s.table s.id
  refine ⟨⟨h.next_pos, ?_, ?_⟩, ?_⟩
  · intro hm
    obtain ⟨p, hp, he⟩ := List.mem_map.1 hm
    have hs := (h.holds _ _ (hhas p hp)).2 (.inl hp)
    rw [he, hfree] at hs
    exact hhas p hp hs.symm
  · intro hm
    obtain ⟨⟨x, o⟩, hp, he⟩ := List.mem_map.1 hm
    cases he
    have hs := (h.holds _ x (hrs _ hp)).2 (.inr hp)
    rw [hfree] at hs
    exact hrs _ hp hs.symm
  · rintro i ⟨hi, hno, hnr⟩
    by_contra hlt
    have hne : slot s.table i ≠ default := by
      rcases Nat.lt_or_ge i s.id with hc | hc
      · exact h.taken i hi hc
      · exact slot_of_lt_skip hc (Nat.not_le.1 hlt)
    rcases h.holds.exists hne with hm | hm
    · exact hno (List.mem_map_of_mem hm)
    · exact hnr (List.mem_map_of_mem hm)

/-- Another one is put into the free slot that the cursor finds. -/
theorem Ready.fresh (h : Ready has ((x, none) :: rs) s) :
    Ready ((x, next s.table s.id) :: has) rs
      ⟨next s.table s.id, put s.table (next s.table s.id) x⟩ := by
  have hfree := slot_next s.table s.id
  refine ⟨?_, ?_, h.next_pos, ?_⟩
  · intro j y hy
    have hold := h.holds j y hy
    rw [List.mem_cons (a := (y, some j)), Prod.mk.injEq] at hold
    rw [List.mem_cons, Prod.mk.injEq]
    by_cases hj : j = next s.table s.id
    · subst hj
      rw [slot_put_self]
      rw [hfree] at hold
      constructor
      · rintro rfl
        exact .inl (.inl ⟨rfl, rfl⟩)
      · rintro ((hm | hm) | hm)
        · exact hm.1.symm
        · exact absurd (hold.2 (.inl hm)).symm hy
        · exact absurd (hold.2 (.inr (.inr hm))).symm hy
    · rw [slot_put_ne _ _ hj, hold]
      constructor
      · rintro (hm | hm | hm)
        · exact .inl (.inr hm)
        · cases hm.2
        · exact .inr hm
      · rintro ((hm | hm) | hm)
        · exact absurd hm.2 hj
        · exact .inl hm
        · exact .inr (.inr hm)
  · rw [slot_put_ne _ _ (Nat.ne_of_lt h.next_pos)]
    exact h.zero
  · intro i hi hlt
    rw [slot_put_ne _ _ (Nat.ne_of_lt hlt)]
    rcases Nat.lt_or_ge i s.id with hc | hc
    · exact h.taken i hi hc
    · exact slot_of_lt_skip hc hlt

/-- A name stands in the table before its turn exactly where it has reserved its number. -/
theorem Ready.find (h : Ready has ((x, o) :: rs) s) (hx : x ≠ default)
    (hhas : x ∉ has.map (·.1)) (hrs : x ∉ rs.map (·.1)) : Numbering.find s.table x = o := by
  cases hf : Numbering.find s.table x with
  | none =>
    cases o with
    | none => rfl
    | some i =>
      have hs := (h.holds i x hx).2 (.inr List.mem_cons_self)
      exact absurd hs (find_none hf hx i)
  | some i =>
    rcases (h.holds i x hx).1 (slot_find hf) with hm | hm
    · exact absurd (List.mem_map_of_mem hm) hhas
    · rcases List.mem_cons.1 hm with hm | hm
      · exact (Prod.mk.inj hm).2
      · exact absurd (List.mem_map_of_mem hm) hrs

/-- The table with the cursor gives the numbers that are asked for. -/
theorem Ready.giveAll (h : Ready has rs s) (hb : ∀ x ∈ has.map (·.1) ++ rs.map (·.1), x ≠ default)
    (hnd : (has.map (·.1) ++ rs.map (·.1)).Nodup) :
    ∃ is, (giveAll s rs).2 = is.map some ∧ Numbered (has.map (·.2)) (rs.map (·.2)) is ∧
      Ready (((rs.map (·.1)).zip is).reverse ++ has) [] (Numbering.giveAll s rs).1 := by
  induction rs generalizing has s with
  | nil => exact ⟨[], rfl, .nil, h⟩
  | cons r rs ih =>
    obtain ⟨x, o⟩ := r
    have hx : x ≠ default := hb x (List.mem_append_right _ List.mem_cons_self)
    rw [List.map_cons, List.nodup_middle, List.nodup_cons] at hnd
    have hperm (i : Nat) : (((x, i) :: has).map (·.1) ++ rs.map (·.1)).Nodup :=
      List.nodup_cons.2 hnd
    have hb' (i : Nat) : ∀ y ∈ ((x, i) :: has).map (·.1) ++ rs.map (·.1), y ≠ default := by
      intro y hy
      rcases List.mem_cons.1 hy with rfl | hy
      · exact hx
      · rcases List.mem_append.1 hy with hy | hy
        · exact hb y (List.mem_append_left _ hy)
        · exact hb y (List.mem_append_right _ (List.mem_cons_of_mem _ hy))
    have hfind := h.find hx (fun hm => hnd.1 (List.mem_append_left _ hm))
      (fun hm => hnd.1 (List.mem_append_right _ hm))
    have hzip (i : Nat) (is : List Nat) :
        ((((x, o) :: rs).map (·.1)).zip (i :: is)).reverse ++ has =
          ((rs.map (·.1)).zip is).reverse ++ (x, i) :: has := by
      rw [List.map_cons, List.zip_cons_cons, List.reverse_cons, List.append_assoc]
      rfl
    cases o with
    | some i =>
      obtain ⟨is, he, hn, hready⟩ := ih (h.kept) (hb' i) (hperm i)
      have hg : give s (x, some i) = (s, some i) := by
        unfold give
        rw [hfind]
      refine ⟨i :: is, ?_, .kept hn, ?_⟩
      · rw [Numbering.giveAll, hg, he]
        rfl
      · rw [hzip, Numbering.giveAll, hg]
        exact hready
    | none =>
      have hleast := h.isLeast
        (fun p hp => hb p.1 (List.mem_append_left _ (List.mem_map_of_mem hp)))
        (fun p hp => hb p.1 (List.mem_append_right _ (List.mem_map_of_mem hp)))
      obtain ⟨is, he, hn, hready⟩ := ih (h.fresh) (hb' _) (hperm _)
      have hg : give s (x, none) = (⟨next s.table s.id, put s.table (next s.table s.id) x⟩,
          some (next s.table s.id)) := by
        unfold give
        rw [hfind]
      have hset : IsLeast {i | 0 < i ∧ i ∉ has.map (·.2) ∧ some i ∉ rs.map (·.2)}
          (next s.table s.id) := by
        refine ⟨⟨hleast.1.1, hleast.1.2.1, ?_⟩, ?_⟩
        · exact fun hm => hleast.1.2.2 (List.mem_cons_of_mem _ hm)
        · rintro j ⟨hj, hno, hnr⟩
          refine hleast.2 ⟨hj, hno, ?_⟩
          intro hm
          rcases List.mem_cons.1 hm with hm | hm
          · cases hm
          · exact hnr hm
      refine ⟨next s.table s.id :: is, ?_, .fresh hset hn, ?_⟩
      · rw [Numbering.giveAll, hg, he]
        rfl
      · rw [hzip, Numbering.giveAll, hg]
        exact hready

/-- Distinct names get their numbers, and where no free slot is left, these are the ones from one on. -/
theorem Ready.number (h : Ready [] rs s) (hb : ∀ r ∈ rs, r.1 ≠ default)
    (hnames : (rs.map (·.1)).Nodup)
    (hres : (rs.map (·.2)).Pairwise fun a b => ∀ i, a = some i → b ≠ some i) :
    ∃ is, (Numbering.giveAll s rs).2 = is.map some ∧ Numbered [] (rs.map (·.2)) is ∧
      (default ∉ (Numbering.giveAll s rs).1.table.tail → is.Perm (List.range' 1 rs.length)) := by
  have hb' : ∀ x ∈ rs.map (·.1), x ≠ default := by
    intro x hx
    obtain ⟨r, hr, rfl⟩ := List.mem_map.1 hx
    exact hb r hr
  obtain ⟨is, hids, hnum, hready⟩ := h.giveAll hb' hnames
  refine ⟨is, hids, hnum, ?_⟩
  intro hfull
  have hlen : is.length = rs.length := hnum.length_eq.trans (List.length_map _)
  have hzip : ((rs.map (·.1)).zip is).map (·.2) = is :=
    List.map_snd_zip (by rw [List.length_map, hlen])
  have hnodup := (hnum.nodup hres fun i hi => absurd hi List.not_mem_nil).1
  rw [List.append_nil] at hready
  have hperm := hready.perm
    (by
      intro x hx
      obtain ⟨p, hp, rfl⟩ := List.mem_map.1 hx
      exact hb' _ (List.of_mem_zip (List.mem_reverse.1 hp)).1)
    (by
      rw [List.map_reverse, hzip, List.nodup_reverse]
      exact hnodup)
    hfull
  rw [List.map_reverse, hzip, List.length_reverse, List.length_zip, List.length_map, hlen,
    Nat.min_self] at hperm
  exact (List.reverse_perm is).symm.trans hperm

theorem Holds.find_ne_none (h : Holds has rs t) (hm : (x, some i) ∈ rs) (hx : x ≠ default) :
    Numbering.find t x ≠ none := by
  intro hf
  exact find_none hf hx i ((h i x hx).2 (.inr hm))

/-- Names that stand in the table already change nothing. -/
theorem giveAll_found (h : ∀ r ∈ rs, find s.table r.1 ≠ none) :
    giveAll s rs = (s, rs.map (·.2)) := by
  induction rs with
  | nil => rfl
  | cons r rs ih =>
    obtain ⟨i, hi⟩ := Option.ne_none_iff_exists'.1 (h r List.mem_cons_self)
    have hg : give s r = (s, r.2) := by
      unfold give
      rw [hi]
    rw [giveAll, hg, ih fun r hr => h r (List.mem_cons_of_mem _ hr)]
    rfl

/-- Distinct numbers can all be reserved. -/
theorem reserveAll_isSome (h : Holds [] rs t)
    (hnd : ((rs ++ rs').map (·.2)).Pairwise fun a b => ∀ i, a = some i → b ≠ some i)
    (hb : ∀ r ∈ rs', r.1 ≠ default) : ∃ t', rs'.foldlM reserve t = some t' := by
  induction rs' generalizing rs t with
  | nil => exact ⟨t, rfl⟩
  | cons r rs' ih =>
    have hr : ∀ i, r.2 = some i → some i ∉ rs.map (·.2) := by
      intro i hi hm
      rw [List.map_append, List.pairwise_append] at hnd
      exact hnd.2.2 _ hm r.2 List.mem_cons_self i rfl hi
    obtain ⟨t₁, ht₁⟩ := h.reserve_isSome hr
    have h₁ := (h.reserve ht₁ (hb r List.mem_cons_self)).1
    rw [List.append_cons] at hnd
    obtain ⟨t', ht'⟩ := ih h₁ hnd fun x hx => hb x (List.mem_cons_of_mem _ hx)
    refine ⟨t', ?_⟩
    rw [List.foldlM_cons, ht₁]
    exact ht'

/-- Where all are reserved, the table holds them, and they are distinct. -/
theorem Holds.reserveAll (h : Holds [] rs t) (ht : rs'.foldlM Numbering.reserve t = some t')
    (hnd : (rs.map (·.2)).Pairwise fun a b => ∀ i, a = some i → b ≠ some i)
    (hb : ∀ r ∈ rs ++ rs', r.1 ≠ default) :
    Holds [] (rs ++ rs') t' ∧
      ((rs ++ rs').map (·.2)).Pairwise fun a b => ∀ i, a = some i → b ≠ some i := by
  induction rs' generalizing rs t with
  | nil =>
    cases ht
    rw [List.append_nil]
    exact ⟨h, hnd⟩
  | cons r rs' ih =>
    rw [List.foldlM_cons] at ht
    obtain ⟨t₁, ht₁, ht⟩ := Option.bind_eq_some_iff.1 ht
    obtain ⟨h₁, hfree⟩ := h.reserve ht₁ (hb r (List.mem_append_right _ List.mem_cons_self))
    rw [List.append_cons] at hb ⊢
    refine ih h₁ ht ?_ hb
    rw [List.map_append, List.pairwise_append]
    refine ⟨hnd, List.pairwise_singleton _ _, ?_⟩
    intro a ha b hbm i hi he
    cases List.mem_singleton.1 hbm
    subst hi
    obtain ⟨⟨y, o⟩, hp, ho⟩ := List.mem_map.1 ha
    cases ho
    have hy := hb _ (List.mem_append_left _ (List.mem_append_left _ hp))
    have hs := (h i y hy).2 (.inr hp)
    exact hy (hs.symm.trans (hfree i he))

theorem length_reserveAll (ht : rs.foldlM reserve t = some t') (hlen : t.length ≤ n + 1)
    (hle : ∀ i, some i ∈ rs.map (·.2) → i ≤ n) : t'.length ≤ n + 1 := by
  induction rs generalizing t with
  | nil =>
    cases ht
    exact hlen
  | cons r rs ih =>
    rw [List.foldlM_cons] at ht
    obtain ⟨t₁, ht₁, ht⟩ := Option.bind_eq_some_iff.1 ht
    refine ih ht ?_ fun i hi => hle i (List.mem_cons_of_mem _ hi)
    obtain ⟨x, o⟩ := r
    unfold reserve at ht₁
    cases o with
    | none =>
      cases ht₁
      exact hlen
    | some i =>
      obtain ⟨-, ht₁⟩ := Option.ite_none_left_eq_some.1 ht₁
      cases ht₁
      have hi := hle i List.mem_cons_self
      rw [length_put]
      omega

end Run

end Numbering
