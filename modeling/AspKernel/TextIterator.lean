import AspKernel.Text
import Mathlib.Data.List.TakeDrop
import Mathlib.Algebra.BigOperators.Group.List.Basic

/-! The iterator over the characters of a text. -/

namespace AspKernel.Toppers
set_option autoImplicit true

/-- A row of the container, by its number, and a column of it. -/
structure ConstIterator where
  row : Nat
  col : Nat
  deriving DecidableEq, Repr

namespace Text

/-- `row->buf.size()`; the row behind the last has none. -/
def rowSize (t : Text) (row : Nat) : Option Nat := t.rows[row]?.map (·.buf.length)

def increment (t : Text) (p : ConstIterator) : Option ConstIterator := do
  let size ← t.rowSize p.row
  let col := p.col + 1
  if col = size then return ⟨p.row + 1, 0⟩ else return ⟨p.row, col⟩

/-- There is no row before the first. -/
def decrement (t : Text) (p : ConstIterator) : Option ConstIterator :=
  if p.col = 0 then
    match p.row with
    | 0 => none
    | row + 1 => do
      let size ← t.rowSize row
      return ⟨row, size - 1⟩
  else some ⟨p.row, p.col - 1⟩

/-- `advance` where `n` is not negative, with the rows from `row` on. -/
def forward : List Row → Nat → Int → Int → Option ConstIterator
  | [], _, _, _ => none
  | r :: rest, row, col, n =>
    if col + n > r.buf.length then forward rest (row + 1) 0 (n - (r.buf.length - col))
    else
      let col := col + n
      if col = r.buf.length then some ⟨row + 1, 0⟩ else some ⟨row, col.toNat⟩

/-- `advance` where `n` is negative, with the rows before `row` from the last on. -/
def backward : List Row → Nat → Int → Int → Option ConstIterator
  | [], row, col, n =>
    if col + n < -1 then none
    else
      let col := col + n
      if col = -1 then none else some ⟨row, col.toNat⟩
  | r :: rest, row, col, n =>
    if col + n < -1 then backward rest (row - 1) (r.buf.length - 1) (n + col)
    else
      let col := col + n
      if col = -1 then some ⟨row - 1, r.buf.length - 1⟩ else some ⟨row, col.toNat⟩

def advance (t : Text) (p : ConstIterator) (n : Int) : Option ConstIterator :=
  if 0 ≤ n then forward (t.rows.drop p.row) p.row p.col n
  else backward (t.rows.take p.row).reverse p.row p.col n

/-- The loop of `distance_to` down to the row `target`. -/
def distanceDown (t : Text) (target : Nat) : Nat → Int → Option Int
  | 0, _ => none
  | row + 1, n =>
    if row = target then some n
    else do
      let size ← t.rowSize row
      distanceDown t target row (n - size)

/-- The loop of `distance_to` up to the row `target`, with the rows behind `row`. -/
def distanceUp (target : Nat) : List Row → Nat → Int → Option Int
  | [], row, n => if row + 1 = target then some n else none
  | r :: rest, row, n => if row + 1 = target then some n else distanceUp target rest (row + 1) (n + r.buf.length)

/-- `p.distance_to( rhs )` -/
def distanceTo (t : Text) (p rhs : ConstIterator) : Option Int :=
  if rhs.row < p.row then do
    let size ← t.rowSize rhs.row
    distanceDown t rhs.row p.row (-(p.col + (size - rhs.col)))
  else if p.row < rhs.row then distanceUp rhs.row (t.rows.drop (p.row + 1)) p.row (p.col + rhs.col)
  else some (rhs.col - p.col)

/-- A place of a character, or the end. -/
def Place (t : Text) (p : ConstIterator) : Prop :=
  (∃ r, t.rows[p.row]? = some r ∧ p.col < r.buf.length) ∨ p = ⟨t.rows.length, 0⟩

/-- Increments or decrements one by one. -/
def steps (step : ConstIterator → Option ConstIterator) : Nat → ConstIterator → Option ConstIterator
  | 0, p => some p
  | k + 1, p => do
    let p ← step p
    steps step k p

/-- What `n` increments or decrements give. -/
def moved (t : Text) (p : ConstIterator) (n : Int) : Option ConstIterator :=
  if 0 ≤ n then steps t.increment n.toNat p else steps t.decrement (-n).toNat p

/-- The number of increments from `p` to `q`, negative where `q` is before `p`. -/
def Increments (t : Text) (p q : ConstIterator) (d : Int) : Prop :=
  0 ≤ d ∧ steps t.increment d.toNat p = some q ∨ d ≤ 0 ∧ steps t.increment (-d).toNat q = some p

/-- The characters before a row. -/
def start (t : Text) (row : Nat) : Nat := ((t.rows.take row).map (·.buf.length)).sum

/-- The characters before a place. -/
def offset (t : Text) (p : ConstIterator) : Nat := t.start p.row + p.col

section
variable {t : Text} {p q : ConstIterator} {r : Row}

theorem start_succ (h : t.rows[row]? = some r) : t.start (row + 1) = t.start row + r.buf.length := by
  unfold start
  rw [List.take_add_one, h, List.map_append, List.sum_append]
  simp

theorem rowSize_eq (h : t.rows[row]? = some r) : t.rowSize row = some r.buf.length := by
  unfold rowSize
  rw [h]
  rfl

theorem start_mono (h : i ≤ j) : t.start i ≤ t.start j := by
  induction h with
  | refl => exact le_rfl
  | @step j hle ih =>
    apply ih.trans
    cases hj : t.rows[j]? with
    | none =>
      have hlen := List.getElem?_eq_none_iff.1 hj
      unfold start
      rw [List.take_of_length_le hlen, List.take_of_length_le (Nat.le_succ_of_le hlen)]
    | some r =>
      rw [start_succ hj]
      exact Nat.le_add_right _ _

theorem Place.row_le (h : t.Place p) : p.row ≤ t.rows.length := by
  rcases h with ⟨r, hr, -⟩ | rfl
  · exact (List.getElem?_eq_some_iff.1 hr).1.le
  · exact le_rfl

theorem Place.eq_end (h : t.Place p) (hrow : p.row = t.rows.length) : p = ⟨t.rows.length, 0⟩ := by
  rcases h with ⟨r, hr, -⟩ | h
  · rw [hrow, List.getElem?_eq_none le_rfl] at hr
    cases hr
  · exact h

theorem Place.offset_le (h : t.Place p) : t.offset p ≤ t.start t.rows.length := by
  rcases h with ⟨r, hr, hlt⟩ | rfl
  · have hle : t.start (p.row + 1) ≤ _ := start_mono (List.getElem?_eq_some_iff.1 hr).1
    rw [start_succ hr] at hle
    unfold offset
    omega
  · exact le_rfl

/-- A place that is in a row before another one has fewer characters before it. -/
theorem Place.offset_lt (h : t.Place p) (hlt : p.row < j) (hj : j ≤ t.rows.length) : t.offset p < t.start j := by
  rcases h with ⟨r, hr, hcol⟩ | rfl
  · have hle : t.start (p.row + 1) ≤ t.start j := start_mono hlt
    rw [start_succ hr] at hle
    unfold offset
    omega
  · exact absurd (lt_of_lt_of_le hlt hj) (lt_irrefl _)

/-- A place is known by the number of characters before it. -/
theorem Place.eq_of_offset (hp : t.Place p) (hq : t.Place q) (h : t.offset p = t.offset q) : p = q := by
  have hrow : p.row = q.row := by
    rcases lt_trichotomy p.row q.row with hlt | heq | hlt
    · have := hp.offset_lt hlt hq.row_le
      unfold offset at h this
      omega
    · exact heq
    · have := hq.offset_lt hlt hp.row_le
      unfold offset at h this
      omega
  cases p with
  | mk row col =>
    cases q with
    | mk row' col' =>
      cases hrow
      have hcol : col = col' := Nat.add_left_cancel h
      rw [hcol]

theorem Place.some_eq_some (hp : t.Place p) (hq : t.Place q) : some p = some q ↔ t.offset p = t.offset q := by
  constructor
  · intro h
    rw [Option.some.inj h]
  · intro h
    rw [hp.eq_of_offset hq h]

theorem take_reverse {row : Nat} (hr : t.rows[row]? = some r) :
    (t.rows.take (row + 1)).reverse = r :: (t.rows.take row).reverse := by
  rw [List.take_add_one, hr, List.reverse_append]
  rfl

theorem drop_cons {row : Nat} (hr : t.rows[row]? = some r) : t.rows.drop row = r :: t.rows.drop (row + 1) := by
  obtain ⟨hlt, rfl⟩ := List.getElem?_eq_some_iff.1 hr
  exact List.drop_eq_getElem_cons hlt

section
variable (ht : ∀ r ∈ t.rows, r.buf ≠ [])
include ht

theorem length_pos {row : Nat} (h : t.rows[row]? = some r) : 0 < r.buf.length :=
  List.length_pos_iff.2 (ht r (List.mem_of_getElem? h))

/-- The first place of a row, or the end. -/
theorem place_row (h : row ≤ t.rows.length) : t.Place ⟨row, 0⟩ := by
  rcases Nat.lt_or_eq_of_le h with hlt | rfl
  · have hr := List.getElem?_eq_getElem hlt
    exact .inl ⟨_, hr, length_pos ht hr⟩
  · exact .inr rfl

theorem increment_eq (h : t.rows[p.row]? = some r) (hlt : p.col < r.buf.length) :
    ∃ p', t.increment p = some p' ∧ t.Place p' ∧ t.offset p' = t.offset p + 1 := by
  unfold increment
  rw [rowSize_eq h, Option.bind_eq_bind, Option.bind_some]
  dsimp only
  split
  · rename_i hcol
    refine ⟨_, rfl, place_row ht (List.getElem?_eq_some_iff.1 h).1, ?_⟩
    unfold offset
    rw [start_succ h, ← hcol]
    rfl
  · rename_i hcol
    exact ⟨_, rfl, .inl ⟨r, h, by dsimp only; omega⟩, rfl⟩

theorem decrement_eq (h : t.Place p) (hpos : 0 < t.offset p) :
    ∃ p', t.decrement p = some p' ∧ t.Place p' ∧ t.offset p = t.offset p' + 1 := by
  unfold decrement
  cases p with
  | mk row col =>
    by_cases hcol : col = 0
    · subst hcol
      rw [if_pos rfl]
      cases row with
      | zero => exact absurd hpos (lt_irrefl 0)
      | succ row =>
        have hr := List.getElem?_eq_getElem (Nat.lt_of_succ_le h.row_le)
        have hlen := length_pos ht hr
        dsimp only
        rw [rowSize_eq hr, Option.bind_eq_bind, Option.bind_some]
        refine ⟨_, rfl, .inl ⟨_, hr, by dsimp only; omega⟩, ?_⟩
        unfold offset
        rw [start_succ hr]
        dsimp only
        omega
    · rw [if_neg hcol]
      rcases h with ⟨r, hr, hlt⟩ | hend
      · refine ⟨_, rfl, .inl ⟨r, hr, ?_⟩, ?_⟩
        · dsimp only at hlt ⊢
          omega
        · unfold offset
          dsimp only
          omega
      · cases hend
        exact absurd rfl hcol

theorem decrement_none (h : t.Place p) (hzero : t.offset p = 0) : t.decrement p = none := by
  have hfirst : p = ⟨0, 0⟩ := h.eq_of_offset (place_row ht (Nat.zero_le _)) hzero
  rw [hfirst]
  rfl

theorem steps_increment (hp : t.Place p) (hq : t.Place q) (k : Nat) :
    steps t.increment k p = some q ↔ t.offset q = t.offset p + k := by
  induction k generalizing p with
  | zero => exact (hp.some_eq_some hq).trans eq_comm
  | succ k ih =>
    unfold steps
    rcases hp with ⟨r, hr, hlt⟩ | rfl
    · obtain ⟨p', hinc, hp', hoff⟩ := increment_eq ht hr hlt
      rw [hinc, Option.bind_eq_bind, Option.bind_some, ih hp', hoff]
      omega
    · have hnone : t.increment ⟨t.rows.length, 0⟩ = none := by
        unfold increment rowSize
        rw [List.getElem?_eq_none le_rfl]
        rfl
      rw [hnone]
      apply iff_of_false
      · intro h
        cases h
      · have hle := hq.offset_le
        change t.offset q ≤ t.offset ⟨t.rows.length, 0⟩ at hle
        omega

theorem steps_decrement (hp : t.Place p) (hq : t.Place q) (k : Nat) :
    steps t.decrement k p = some q ↔ t.offset p = t.offset q + k := by
  induction k generalizing p with
  | zero => exact hp.some_eq_some hq
  | succ k ih =>
    unfold steps
    rcases Nat.eq_zero_or_pos (t.offset p) with hzero | hpos
    · rw [decrement_none ht hp hzero]
      apply iff_of_false
      · intro h
        cases h
      · omega
    · obtain ⟨p', hdec, hp', hoff⟩ := decrement_eq ht hp hpos
      rw [hdec, Option.bind_eq_bind, Option.bind_some, ih hp', hoff]
      omega

/-- What `n` increments or decrements give is `n` characters further. -/
theorem moved_eq (hp : t.Place p) (hq : t.Place q) (n : Int) :
    t.moved p n = some q ↔ (t.offset q : Int) = t.offset p + n := by
  unfold moved
  split
  · rw [steps_increment ht hp hq]
    omega
  · rw [steps_decrement ht hp hq]
    omega

theorem increments_iff (hp : t.Place p) (hq : t.Place q) (d : Int) :
    t.Increments p q d ↔ (t.offset q : Int) = t.offset p + d := by
  unfold Increments
  rw [steps_increment ht hp hq, steps_increment ht hq hp]
  omega

/-- Forward, `advance` is right from a character on. -/
theorem forward_eq {r : Row} {col : Nat} (hq : t.Place q) (hr : t.rows[row]? = some r) (hcol : col < r.buf.length)
    (n : Int) (hn : 0 ≤ n) :
    forward (t.rows.drop row) row col n = some q ↔ (t.offset q : Int) = t.start row + col + n := by
  induction hl : t.rows.drop row generalizing row col n r with
  | nil =>
    have hlen := List.drop_eq_nil_iff.1 hl
    rw [List.getElem?_eq_none hlen] at hr
    cases hr
  | cons r' rest ih =>
    have hdrop : t.rows.drop (row + 1) = rest := by
      rw [← List.drop_drop, hl]
      rfl
    have hhead : r' = r := by
      rw [← List.head?_drop, hl] at hr
      exact Option.some.inj hr
    subst hhead
    have hstart := start_succ hr
    unfold forward
    by_cases hmore : (col : Int) + n > r'.buf.length
    · rw [if_pos hmore]
      cases hnext : t.rows[row + 1]? with
      | none =>
        have hlen := List.getElem?_eq_none_iff.1 hnext
        have hnil : rest = [] := hdrop.symm.trans (List.drop_eq_nil_of_le hlen)
        have hend : t.start t.rows.length ≤ t.start (row + 1) := start_mono hlen
        have hle := hq.offset_le
        rw [hnil]
        apply iff_of_false
        · intro h
          cases h
        · omega
      | some r'' =>
        have hrec := ih hnext (length_pos ht hnext) (n - (r'.buf.length - col)) (by omega) hdrop
        rw [Nat.cast_zero] at hrec
        rw [hrec, hstart]
        push_cast
        omega
    · rw [if_neg hmore]
      dsimp only
      split
      · rename_i heq
        have hplace : t.Place ⟨row + 1, 0⟩ := place_row ht (List.getElem?_eq_some_iff.1 hr).1
        have hoff : t.offset ⟨row + 1, 0⟩ = t.start row + r'.buf.length := hstart
        rw [hplace.some_eq_some hq, hoff]
        omega
      · rename_i hne
        have hplace : t.Place ⟨row, ((col : Int) + n).toNat⟩ := .inl ⟨r', hr, by dsimp only; omega⟩
        have hoff : t.offset ⟨row, ((col : Int) + n).toNat⟩ = t.start row + ((col : Int) + n).toNat := rfl
        rw [hplace.some_eq_some hq, hoff]
        omega

/-- Backward, `advance` does not come to a place behind the one it should. -/
theorem backward_le {row : Nat} (hrow : row ≤ t.rows.length) (col n : Int)
    (h : backward (t.rows.take row).reverse row col n = some q) : (t.offset q : Int) ≤ t.start row + col + n := by
  induction row generalizing col n with
  | zero =>
    rw [List.take_zero, List.reverse_nil] at h
    unfold backward at h
    obtain ⟨hmore, h⟩ := Option.ite_none_left_eq_some.1 h
    obtain ⟨hne, h⟩ := Option.ite_none_left_eq_some.1 h
    rw [← Option.some.inj h]
    unfold offset
    dsimp only
    omega
  | succ row ih =>
    have hr := List.getElem?_eq_getElem (Nat.lt_of_succ_le hrow)
    have hstart := start_succ hr
    have hlen := length_pos ht hr
    rw [take_reverse hr] at h
    unfold backward at h
    split at h
    · have hle := ih (Nat.le_of_succ_le hrow) _ _ h
      rw [hstart]
      push_cast
      omega
    · dsimp only at h
      split at h
      · rw [← Option.some.inj h]
        unfold offset
        dsimp only
        rw [hstart]
        push_cast
        omega
      · rw [← Option.some.inj h]
        unfold offset
        dsimp only
        omega

/-- Backward, `advance` is right where its loop has no turn: every turn costs a character. -/
theorem backward_iff (hp : t.Place p) (hq : t.Place q) (hn : n < 0) (hoff : (t.offset q : Int) = t.offset p + n) :
    backward (t.rows.take p.row).reverse p.row p.col n = some q ↔ -1 ≤ p.col + n := by
  cases p with
  | mk row col =>
    have hplace : 0 ≤ (col : Int) + n → t.Place ⟨row, ((col : Int) + n).toNat⟩ := fun hge => by
      rcases hp with ⟨r, hr, hlt⟩ | hend
      · exact .inl ⟨r, hr, by dsimp only at hlt ⊢; omega⟩
      · cases hend
        omega
    have hin (hge : 0 ≤ (col : Int) + n) : some (ConstIterator.mk row ((col : Int) + n).toNat) = some q := by
      rw [(hplace hge).some_eq_some hq]
      unfold offset at hoff ⊢
      dsimp only at hoff ⊢
      omega
    cases row with
    | zero =>
      have hge : 0 ≤ (col : Int) + n := by
        have hzero : t.offset ⟨0, col⟩ = col := Nat.zero_add col
        omega
      rw [List.take_zero, List.reverse_nil]
      unfold backward
      dsimp only
      rw [if_neg (by omega), if_neg (by omega), hin hge]
      exact iff_of_true rfl (by omega)
    | succ row =>
      obtain ⟨r, hr⟩ : ∃ r, t.rows[row]? = some r :=
        ⟨_, List.getElem?_eq_getElem (Nat.lt_of_succ_le hp.row_le)⟩
      have hstart := start_succ hr
      have hlen := length_pos ht hr
      have hofs : t.offset ⟨row + 1, col⟩ = t.start (row + 1) + col := rfl
      rw [take_reverse hr]
      unfold backward
      dsimp only
      by_cases hmore : (col : Int) + n < -1
      · rw [if_pos hmore]
        apply iff_of_false
        · intro h
          have hle := backward_le ht (Nat.le_of_succ_le hp.row_le) _ _ h
          omega
        · omega
      · rw [if_neg hmore]
        apply iff_of_true _ (by omega)
        split
        · have hlast : t.Place ⟨row, r.buf.length - 1⟩ := .inl ⟨_, hr, by dsimp only; omega⟩
          apply (hlast.some_eq_some hq).2
          have hofq : t.offset ⟨row, r.buf.length - 1⟩ = t.start row + (r.buf.length - 1) := rfl
          omega
        · exact hin (by omega)

/-- `advance` is right forward, and backward where it stays in the row or comes to the one before. -/
theorem advance_iff (hp : t.Place p) (hq : t.Place q) (hn : n ≠ 0) (hm : t.moved p n = some q) :
    t.advance p n = some q ↔ 0 < n ∨ -1 ≤ p.col + n := by
  have hoff := (moved_eq ht hp hq n).1 hm
  unfold advance
  by_cases hpos : 0 ≤ n
  · rw [if_pos hpos]
    apply iff_of_true _ (.inl (by omega))
    rcases hp with ⟨r, hr, hlt⟩ | rfl
    · exact (forward_eq ht hq hr hlt n hpos).2 hoff
    · have hle := hq.offset_le
      change t.offset q ≤ t.offset ⟨t.rows.length, 0⟩ at hle
      omega
  · rw [if_neg hpos, backward_iff ht hp hq (by omega) hoff]
    omega

end

/-- What the loop down adds up. -/
theorem distanceDown_eq (hlt : target < row) (hrow : row ≤ t.rows.length) (n : Int) :
    distanceDown t target row n = some (n - (t.start row - t.start (target + 1))) := by
  induction row generalizing n with
  | zero => exact absurd hlt (Nat.not_lt_zero target)
  | succ row ih =>
    unfold distanceDown
    by_cases heq : row = target
    · rw [if_pos heq, heq, Int.sub_self, Int.sub_zero]
    · have hr := List.getElem?_eq_getElem (Nat.lt_of_succ_le hrow)
      rw [if_neg heq, rowSize_eq hr, Option.bind_eq_bind, Option.bind_some,
        ih (by omega) (Nat.le_of_succ_le hrow), start_succ hr]
      push_cast
      congr 1
      omega

/-- What the loop up adds up. -/
theorem distanceUp_eq (hlt : row < target) (htarget : target ≤ t.rows.length) (n : Int) :
    distanceUp target (t.rows.drop (row + 1)) row n = some (n + (t.start target - t.start (row + 1))) := by
  induction hl : t.rows.drop (row + 1) generalizing row n with
  | nil =>
    have hlen := List.drop_eq_nil_iff.1 hl
    have heq : row + 1 = target := by omega
    unfold distanceUp
    rw [if_pos heq, heq, Int.sub_self, Int.add_zero]
  | cons r rest ih =>
    unfold distanceUp
    by_cases heq : row + 1 = target
    · rw [if_pos heq, heq, Int.sub_self, Int.add_zero]
    · have hr : t.rows[row + 1]? = some r := by
        rw [← List.head?_drop, hl]
        rfl
      have hdrop : t.rows.drop (row + 1 + 1) = rest := by
        rw [drop_cons hr] at hl
        exact (List.cons.inj hl).2
      rw [if_neg heq, ih (by omega) _ hdrop, start_succ hr]
      push_cast
      congr 1
      omega

theorem distanceTo_row (h : p.row = q.row) : t.distanceTo p q = some ((t.offset q : Int) - t.offset p) := by
  unfold distanceTo offset
  rw [if_neg (by omega), if_neg (by omega), h]
  push_cast
  congr 1
  omega

section
variable (hp : t.Place p) (hq : t.Place q)
include hp hq

/-- Backward, `distance_to` is right. -/
theorem distanceTo_back (h : q.row < p.row) : t.distanceTo p q = some ((t.offset q : Int) - t.offset p) := by
  rcases hq with ⟨r, hr, hlt⟩ | rfl
  · unfold distanceTo
    rw [if_pos h, rowSize_eq hr, Option.bind_eq_bind, Option.bind_some, distanceDown_eq h hp.row_le, start_succ hr]
    unfold offset
    push_cast
    congr 1
    omega
  · exact absurd (lt_of_lt_of_le h hp.row_le) (lt_irrefl _)

/-- Forward, `distance_to` takes the characters before `p` in its row for those from it on. -/
theorem distanceTo_forth (h : p.row < q.row) : ∃ r, t.rows[p.row]? = some r ∧ p.col < r.buf.length ∧
    t.distanceTo p q = some ((t.offset q : Int) - t.offset p + (2 * p.col - r.buf.length)) := by
  rcases hp with ⟨r, hr, hlt⟩ | rfl
  · refine ⟨r, hr, hlt, ?_⟩
    unfold distanceTo
    rw [if_neg (by omega), if_pos h, distanceUp_eq h hq.row_le, start_succ hr]
    unfold offset
    push_cast
    congr 1
    omega
  · exact absurd (lt_of_lt_of_le h hq.row_le) (lt_irrefl _)

end

end

/-- As many characters of the row are before a place as from it on. -/
def Halfway (t : Text) (p : ConstIterator) : Prop := ∃ r, t.rows[p.row]? = some r ∧ 2 * p.col = r.buf.length

section
variable {t : Text} {p q : ConstIterator} (ht : ∀ r ∈ t.rows, r.buf ≠ []) (hp : t.Place p) (hq : t.Place q)
include ht hp hq

theorem distanceTo_iff :
    (∃ d, t.distanceTo p q = some d ∧ t.Increments p q d) ↔ q.row ≤ p.row ∨ t.Halfway p := by
  have hright (h : t.distanceTo p q = some ((t.offset q : Int) - t.offset p)) :
      ∃ d, t.distanceTo p q = some d ∧ t.Increments p q d :=
    ⟨_, h, (increments_iff ht hp hq _).2 (by omega)⟩
  rcases lt_trichotomy p.row q.row with hlt | heq | hlt
  · obtain ⟨r, hr, hcol, hd⟩ := distanceTo_forth hp hq hlt
    constructor
    · rintro ⟨d, hd', hinc⟩
      cases hd.symm.trans hd'
      have hoff := (increments_iff ht hp hq _).1 hinc
      exact .inr ⟨r, hr, by omega⟩
    · rintro (hle | ⟨r', hr', hhalf⟩)
      · exact absurd hle (Nat.not_le.2 hlt)
      · cases hr.symm.trans hr'
        apply hright
        rw [hd]
        congr 1
        omega
  · exact iff_of_true (hright (distanceTo_row heq)) (.inl heq.ge)
  · exact iff_of_true (hright (distanceTo_back hp hq hlt)) (.inl hlt.le)

theorem advance_distanceTo_iff :
    (∃ d, t.distanceTo p q = some d ∧ t.advance p d = some q) ↔
      p.row < q.row ∧ t.Halfway p ∨ p.row = q.row ∧ p.row < t.rows.length ∨
        q.row < p.row ∧ t.start p.row = t.offset q + 1 := by
  have hofp : t.offset p = t.start p.row + p.col := rfl
  have hofq : t.offset q = t.start q.row + q.col := rfl
  rcases lt_trichotomy p.row q.row with hlt | heq | hlt
  · obtain ⟨r, hr, hcol, hd⟩ := distanceTo_forth hp hq hlt
    have hstart := start_succ hr
    have hmono : t.start (p.row + 1) ≤ t.start q.row := start_mono hlt
    have hadv : t.advance p ((t.offset q : Int) - t.offset p + (2 * p.col - r.buf.length)) = some q ↔
        2 * p.col = r.buf.length := by
      unfold advance
      rw [if_pos (by omega), forward_eq ht hq hr hcol _ (by omega)]
      omega
    rw [hd]
    constructor
    · rintro ⟨d, hd', h⟩
      cases hd'
      exact .inl ⟨hlt, r, hr, hadv.1 h⟩
    · rintro (⟨-, r', hr', hhalf⟩ | ⟨heq, -⟩ | ⟨hgt, -⟩)
      · cases hr.symm.trans hr'
        exact ⟨_, rfl, hadv.2 hhalf⟩
      · omega
      · omega
  · rw [distanceTo_row heq]
    have hrow : p.row < t.rows.length →
        t.advance p ((t.offset q : Int) - t.offset p) = some q := fun hin => by
      rcases hp with ⟨r, hr, hlt⟩ | rfl
      · unfold advance
        by_cases hpos : 0 ≤ (t.offset q : Int) - t.offset p
        · rw [if_pos hpos]
          exact (forward_eq ht hq hr hlt _ hpos).2 (by omega)
        · rw [if_neg hpos]
          refine (backward_iff ht (.inl ⟨r, hr, hlt⟩) hq (by omega) (by omega)).2 ?_
          rw [hofp, hofq, heq]
          push_cast
          omega
      · exact absurd hin (lt_irrefl _)
    constructor
    · rintro ⟨d, hd, h⟩
      cases hd
      refine .inr (.inl ⟨heq, lt_of_le_of_ne hp.row_le fun hend => ?_⟩)
      -- at the end there is no row to look at
      rw [hp.eq_end hend, hq.eq_end (heq.symm.trans hend), Int.sub_self] at h
      unfold advance at h
      rw [if_pos le_rfl, List.drop_length] at h
      cases h
    · rintro (⟨hlt, -⟩ | ⟨-, hin⟩ | ⟨hgt, -⟩)
      · omega
      · exact ⟨_, rfl, hrow hin⟩
      · omega
  · have hbelow := hq.offset_lt hlt hp.row_le
    have hadv : t.advance p ((t.offset q : Int) - t.offset p) = some q ↔ t.start p.row = t.offset q + 1 := by
      unfold advance
      rw [if_neg (by omega), backward_iff ht hp hq (by omega) (by omega)]
      omega
    rw [distanceTo_back hp hq hlt]
    constructor
    · rintro ⟨d, hd, h⟩
      cases hd
      exact .inr (.inr ⟨hlt, hadv.1 h⟩)
    · rintro (⟨hgt, -⟩ | ⟨heq, -⟩ | ⟨-, hnext⟩)
      · omega
      · omega
      · exact ⟨_, rfl, hadv.2 hnext⟩

omit ht in
theorem distanceTo_antisymm_iff :
    (∃ d e, t.distanceTo p q = some d ∧ t.distanceTo q p = some e ∧ d = -e) ↔
      p.row = q.row ∨ p.row < q.row ∧ t.Halfway p ∨ q.row < p.row ∧ t.Halfway q := by
  rcases lt_trichotomy p.row q.row with hlt | heq | hlt
  · obtain ⟨r, hr, hcol, hd⟩ := distanceTo_forth hp hq hlt
    rw [hd, distanceTo_back hq hp hlt]
    constructor
    · rintro ⟨d, e, hd', he', h⟩
      cases hd'
      cases he'
      exact .inr (.inl ⟨hlt, r, hr, by omega⟩)
    · rintro (heq | ⟨-, r', hr', hhalf⟩ | ⟨hgt, -⟩)
      · omega
      · cases hr.symm.trans hr'
        exact ⟨_, _, rfl, rfl, by omega⟩
      · omega
  · rw [distanceTo_row heq, distanceTo_row heq.symm]
    exact iff_of_true ⟨_, _, rfl, rfl, by omega⟩ (.inl heq)
  · obtain ⟨r, hr, hcol, hd⟩ := distanceTo_forth hq hp hlt
    rw [hd, distanceTo_back hp hq hlt]
    constructor
    · rintro ⟨d, e, hd', he', h⟩
      cases hd'
      cases he'
      exact .inr (.inr ⟨hlt, r, hr, by omega⟩)
    · rintro (heq | ⟨hgt, -⟩ | ⟨-, r', hr', hhalf⟩)
      · omega
      · omega
      · cases hr.symm.trans hr'
        exact ⟨_, _, rfl, rfl, by omega⟩

end

/-- Where the iterator does what it should. -/
theorem iterator_exact (t : Text) (ht : ∀ r ∈ t.rows, r.buf ≠ []) (p q : ConstIterator) (hp : t.Place p)
    (hq : t.Place q) :
    ((∃ d, t.distanceTo p q = some d ∧ t.Increments p q d) ↔ q.row ≤ p.row ∨ t.Halfway p) ∧
    (∀ n r, t.Place r → n ≠ 0 → t.moved p n = some r → (t.advance p n = some r ↔ 0 < n ∨ -1 ≤ p.col + n)) ∧
    ((∃ d, t.distanceTo p q = some d ∧ t.advance p d = some q) ↔
      p.row < q.row ∧ t.Halfway p ∨ p.row = q.row ∧ p.row < t.rows.length ∨
        q.row < p.row ∧ t.start p.row = t.offset q + 1) ∧
    ((∃ d e, t.distanceTo p q = some d ∧ t.distanceTo q p = some e ∧ d = -e) ↔
      p.row = q.row ∨ p.row < q.row ∧ t.Halfway p ∨ q.row < p.row ∧ t.Halfway q) :=
  ⟨distanceTo_iff ht hp hq, fun _ _ hr hn hm => advance_iff ht hp hr hn hm, advance_distanceTo_iff ht hp hq,
    distanceTo_antisymm_iff hp hq⟩

/-- Two lines, from the last character to the second. -/
theorem iterator_exact_lines :
    let t : Text := ⟨[⟨⟨[], 1⟩, "abc\n".toList⟩, ⟨⟨[], 2⟩, "d\n".toList⟩], ⟨[], 2⟩⟩
    (∃ d, t.distanceTo ⟨1, 1⟩ ⟨0, 1⟩ = some d ∧ t.Increments ⟨1, 1⟩ ⟨0, 1⟩ d) ∧
      ¬∃ d, t.distanceTo ⟨1, 1⟩ ⟨0, 1⟩ = some d ∧ t.advance ⟨1, 1⟩ d = some ⟨0, 1⟩ := by
  intro t
  obtain ⟨hdist, -, hadv, -⟩ := iterator_exact t (by decide) ⟨1, 1⟩ ⟨0, 1⟩ (.inl ⟨_, rfl, by decide⟩)
    (.inl ⟨_, rfl, by decide⟩)
  refine ⟨hdist.2 (.inl (by decide)), fun h => ?_⟩
  rcases hadv.1 h with ⟨hlt, -⟩ | ⟨heq, -⟩ | ⟨-, hnext⟩
  · exact absurd hlt (by decide)
  · exact absurd heq (by decide)
  · exact absurd hnext (by decide)

/-- From the first line to the second it is four characters, and three back from the last one is the third. -/
theorem not_iterator_exact :
    let t : Text := ⟨[⟨⟨[], 1⟩, "abc\n".toList⟩, ⟨⟨[], 2⟩, "d\n".toList⟩], ⟨[], 2⟩⟩
    t.Increments ⟨0, 0⟩ ⟨1, 0⟩ 4 ∧ t.distanceTo ⟨0, 0⟩ ⟨1, 0⟩ = some 0 ∧
      t.moved ⟨1, 1⟩ (-3) = some ⟨0, 2⟩ ∧ t.advance ⟨1, 1⟩ (-3) = some ⟨0, 1⟩ ∧
      t.distanceTo ⟨1, 0⟩ ⟨0, 0⟩ = some (-4) ∧ t.advance ⟨2, 0⟩ 0 = none := by
  exact ⟨.inl ⟨by decide, by decide⟩, by decide, by decide, by decide, by decide, by decide⟩

end Text
end AspKernel.Toppers
