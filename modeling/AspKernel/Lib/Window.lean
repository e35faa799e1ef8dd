import Mathlib.Data.List.Basic

/-! Buffers that hold the newest values: in a full buffer the oldest one makes room. -/

namespace Window
set_option autoImplicit true

variable {came read held : List α}

/-- The values that have come in last are held. Of the others some have been read, in order, and
`lost` have not. -/
def Passed (came read held : List α) (lost : Nat) : Prop :=
  ∃ gone, came = gone ++ held ∧ read.Sublist gone ∧ gone.length = read.length + lost

theorem Passed.nil : Passed ([] : List α) [] [] 0 := ⟨[], rfl, .slnil, rfl⟩

theorem Passed.put (h : Passed came read held lost) (a : α) :
    Passed (came ++ [a]) read (held ++ [a]) lost := by
  obtain ⟨gone, hc, hs, hl⟩ := h
  refine ⟨gone, ?_, hs, hl⟩
  rw [hc, List.append_assoc]

theorem Passed.lose (h : Passed came read (a :: held) lost) : Passed came read held (lost + 1) := by
  obtain ⟨gone, hc, hs, hl⟩ := h
  refine ⟨gone ++ [a], ?_, hs.trans (List.sublist_append_left gone [a]), ?_⟩
  · rw [hc, List.append_cons]
  · rw [List.length_append, hl]
    rfl

theorem Passed.get (h : Passed came read (a :: held) lost) : Passed came (read ++ [a]) held lost := by
  obtain ⟨gone, hc, hs, hl⟩ := h
  refine ⟨gone ++ [a], ?_, hs.append (.refl [a]), ?_⟩
  · rw [hc, List.append_cons]
  · rw [List.length_append, List.length_append, hl]
    exact Nat.add_right_comm ..

theorem Passed.clear (h : Passed came read held lost) :
    Passed came read [] (lost + held.length) := by
  induction held generalizing lost with
  | nil => exact h
  | cons a held ih =>
    have hc := ih h.lose
    rwa [Nat.add_right_comm] at hc

/-- The values that are held are the newest ones. -/
theorem Passed.newest (h : Passed came read held lost) :
    held = came.drop (came.length - held.length) := by
  obtain ⟨gone, hc, -, -⟩ := h
  rw [hc, List.length_append, Nat.add_sub_cancel, List.drop_left]

theorem Passed.sublist (h : Passed came read held lost) : (read ++ held).Sublist came := by
  obtain ⟨gone, hc, hs, -⟩ := h
  rw [hc]
  exact hs.append (.refl held)

theorem Passed.length (h : Passed came read held lost) :
    came.length = read.length + held.length + lost := by
  obtain ⟨gone, hc, -, hl⟩ := h
  rw [hc, List.length_append, hl, Nat.add_right_comm]

end Window
