import Mathlib.Logic.Function.Basic
import Mathlib.Data.List.Range
import Mathlib.Data.Nat.ModEq

/-! Ring buffers: a part of an array, which starts over at its end. -/

namespace Ring
set_option autoImplicit true

/-- The values from a position on. -/
def slots (mb : Nat → α) (cap head count : Nat) : List α :=
  (List.range count).map fun j => mb ((head + j) % cap)

theorem slots_length (mb : Nat → α) (cap head count : Nat) :
    (slots mb cap head count).length = count := by
  rw [slots, List.length_map, List.length_range]

theorem slots_succ (mb : Nat → α) (cap head count : Nat) :
    slots mb cap head (count + 1) = slots mb cap head count ++ [mb ((head + count) % cap)] := by
  rw [slots, List.range_succ, List.map_append]
  rfl

theorem slots_cons (mb : Nat → α) (cap head count : Nat) :
    slots mb cap head (count + 1) = mb (head % cap) :: slots mb cap ((head + 1) % cap) count := by
  rw [slots, List.range_succ_eq_map, List.map_cons, List.map_map]
  refine congrArg _ (List.map_congr_left fun j _ => ?_)
  simp only [Function.comp_apply, Nat.mod_add_mod, Nat.add_assoc, Nat.succ_eq_one_add]

/-- A position that is not in use can be written. -/
theorem slots_update (mb : Nat → α) (h : count < cap) (a : α) :
    slots (Function.update mb ((head + count) % cap) a) cap head count =
      slots mb cap head count := by
  refine List.map_congr_left fun j hj => Function.update_of_ne (fun he => ?_) ..
  have hlt := List.mem_range.1 hj
  have hm : head + j ≡ head + count [MOD cap] := he
  have hjc := Nat.ModEq.add_left_cancel' head hm
  rw [Nat.ModEq, Nat.mod_eq_of_lt (by omega), Nat.mod_eq_of_lt h] at hjc
  omega

/-- A value goes in behind the last one. -/
theorem slots_put (mb : Nat → α) (h : count < cap) (a : α) :
    slots (Function.update mb ((head + count) % cap) a) cap head (count + 1) =
      slots mb cap head count ++ [a] := by
  rw [slots_succ, slots_update mb h, Function.update_self]

/-- The position after the last one of the array is the first one. -/
theorem wrap_eq (h : i < cap) : (if cap ≤ i + 1 then 0 else i + 1) = (i + 1) % cap := by
  split
  · rw [show i + 1 = cap by omega, Nat.mod_self]
  · rw [Nat.mod_eq_of_lt (by omega)]

theorem slots_add (mb : Nat → α) (cap head a b : Nat) : slots mb cap head (a + b) =
    slots mb cap head a ++ slots mb cap ((head + a) % cap) b := by
  rw [slots, List.range_add, List.map_append, List.map_map]
  refine congrArg _ (List.map_congr_left fun j _ => ?_)
  simp only [Function.comp_apply, Nat.mod_add_mod, Nat.add_assoc]

theorem slots_split {a b : List α} (h : slots mb cap head n = a ++ b) :
    slots mb cap head a.length = a ∧ slots mb cap ((head + a.length) % cap) b.length = b := by
  have hn : n = a.length + b.length := by
    rw [← slots_length mb cap head n, h, List.length_append]
  rw [hn, slots_add] at h
  exact List.append_inj h (slots_length ..)

/-- A part of an array that is read, and one that is written, in one piece. -/
def read (mb : Nat → α) (i n : Nat) : List α := (List.range n).map fun j => mb (i + j)

def write (mb : Nat → α) (i : Nat) (l : List α) : Nat → α :=
  fun j => if i ≤ j then (l[j - i]?).getD (mb j) else mb j

theorem write_of_not_mem (mb : Nat → α) (l : List α) (h : j < i ∨ i + l.length ≤ j) :
    write mb i l j = mb j := by
  unfold write
  split
  · rw [List.getElem?_eq_none (by omega)]
    rfl
  · rfl

theorem read_of_write (mb : Nat → α) (i : Nat) (l : List α) : read (write mb i l) i l.length = l := by
  refine List.ext_getElem? fun j => ?_
  unfold read write
  rw [List.getElem?_map]
  by_cases hj : j < l.length
  · rw [List.getElem?_range hj, Option.map_some, if_pos (Nat.le_add_right i j),
      Nat.add_sub_cancel_left, List.getElem?_eq_getElem hj]
    rfl
  · rw [List.getElem?_eq_none (by simpa using hj), List.getElem?_eq_none (Nat.not_lt.1 hj)]
    rfl

/-- The values that do not reach the end of the array are read in one piece. -/
theorem slots_eq_read (mb : Nat → α) (h : i + n ≤ cap) : slots mb cap i n = read mb i n :=
  List.map_congr_left fun j hj =>
    congrArg mb (Nat.mod_eq_of_lt (by have := List.mem_range.1 hj; omega))

/-- Values that are written behind the last one, without reaching the end of the array. -/
theorem slots_write (mb : Nat → α) (l : List α) (h : count + l.length ≤ cap)
    (hi : i = (head + count) % cap) (hfit : i + l.length ≤ cap) :
    slots (write mb i l) cap head (count + l.length) = slots mb cap head count ++ l := by
  subst hi
  rw [slots_add, slots_eq_read _ hfit, read_of_write]
  refine congrArg (· ++ l) (List.map_congr_left fun j hj => write_of_not_mem mb l ?_)
  have hlt := List.mem_range.1 hj
  have hcap : 0 < cap := by omega
  by_contra hn
  obtain ⟨k, hk, he⟩ : ∃ k, k < l.length ∧ (head + j) % cap = (head + count) % cap + k :=
    ⟨(head + j) % cap - (head + count) % cap, by omega, by omega⟩
  have hm : head + j ≡ head + (count + k) [MOD cap] := by
    have h1 := (Nat.mod_modEq (head + j) cap).symm
    rw [he] at h1
    rw [← Nat.add_assoc]
    exact h1.trans ((Nat.mod_modEq (head + count) cap).add_right k)
  have hjc := Nat.ModEq.add_left_cancel' head hm
  rw [Nat.ModEq, Nat.mod_eq_of_lt (by omega), Nat.mod_eq_of_lt (by omega)] at hjc
  omega

/-- The position that is behind the last one of the array is the first one. -/
theorem add_end (h : i < cap) (he : i = a % cap) : (a + (cap - i)) % cap = 0 := by
  rw [Nat.add_mod, ← he]
  by_cases hi : i = 0
  · subst hi
    simp
  · rw [Nat.mod_eq_of_lt (show cap - i < cap by omega), show i + (cap - i) = cap by omega,
      Nat.mod_self]

/-- Values that are written behind the last one, in two pieces. -/
theorem slots_write_two (mb : Nat → α) (l : List α) (h : count + l.length ≤ cap)
    (hi : i = (head + count) % cap) (hr : cap - i < l.length) :
    slots (write (write mb i (l.take (cap - i))) 0 (l.drop (cap - i))) cap head
      (count + l.length) = slots mb cap head count ++ l := by
  have hlt : i < cap := hi ▸ Nat.mod_lt _ (by omega)
  have h0 := add_end hlt hi
  have htake : (l.take (cap - i)).length = cap - i := List.length_take_of_le hr.le
  have hdrop : (l.drop (cap - i)).length = l.length - (cap - i) := List.length_drop
  have h1 := slots_write mb (l.take (cap - i)) (by omega) hi (by omega)
  have h2 := slots_write (write mb i (l.take (cap - i))) (l.drop (cap - i))
    (show count + (cap - i) + _ ≤ cap by omega) (h0.symm.trans (congrArg (· % cap)
      (Nat.add_assoc head count (cap - i)))) (by omega)
  rw [htake] at h1
  rw [hdrop, h1, List.append_assoc, List.take_append_drop,
    show count + (cap - i) + (l.length - (cap - i)) = count + l.length by omega] at h2
  exact h2

/-- Values that reach the end of the array are read in two pieces. -/
theorem slots_eq_two (mb : Nat → α) (hi : i < cap) (hr : cap - i < n) (hn : n ≤ cap) :
    slots mb cap i n = read mb i (cap - i) ++ read mb 0 (n - (cap - i)) := by
  have h0 := add_end hi (Nat.mod_eq_of_lt hi).symm
  rw [show n = cap - i + (n - (cap - i)) by omega, slots_add, h0, slots_eq_read mb (by omega),
    slots_eq_read mb (by omega), Nat.add_sub_cancel_left]

end Ring
