import Mathlib.Data.Nat.Notation

/-!
A memory of words: writes, blocks of words that are copied or cleared, and records at addresses
that are so far apart that their fields do not overlap.
-/

namespace WordMem
set_option autoImplicit true

/-- The word at an address. -/
structure Mem where
  word : Nat → Nat

instance : CoeFun Mem fun _ => Nat → Nat := ⟨Mem.word⟩

namespace Mem

def set (m : Mem) (a v : Nat) : Mem := ⟨fun x => if x = a then v else m x⟩

/-- `memcpy` between places that do not overlap. -/
def copy (m : Mem) (dst src n : Nat) : Mem :=
  ⟨fun x => if dst ≤ x ∧ x < dst + n then m (x - dst + src) else m x⟩

/-- `memset` with zero. Of the last word only the bytes below the end are cleared. -/
def zero (m : Mem) (a n : Nat) : Mem := ⟨fun x =>
  if a ≤ x ∧ x < a + n then if x + 4 ≤ a + n then 0 else m x >>> (8 * (a + n - x)) <<< (8 * (a + n - x)) else m x⟩

section
variable {m : Mem} {a b v x n : Nat}

theorem set_apply (m : Mem) (a v x : Nat) : m.set a v x = if x = a then v else m x := rfl

@[simp] theorem set_self : m.set a v a = v := if_pos rfl

theorem set_ne (h : x ≠ a) : m.set a v x = m x := if_neg h

@[ext] theorem ext {m m' : Mem} (h : ∀ x, m x = m' x) : m = m' := congrArg Mem.mk (funext h)

theorem set_set (m : Mem) (a v w : Nat) : (m.set a v).set a w = m.set a w := by
  apply ext
  intro x
  by_cases hx : x = a
  · rw [hx, set_self, set_self]
  · rw [set_ne hx, set_ne hx, set_ne hx]

theorem set_word (m : Mem) (a : Nat) : m.set a (m a) = m := by
  apply ext
  intro x
  by_cases hx : x = a
  · rw [hx, set_self]
  · exact set_ne hx

theorem set_comm (h : a ≠ b) : (m.set a v).set b w = (m.set b w).set a v := by
  apply ext
  intro x
  by_cases ha : x = a
  · have hb : x ≠ b := fun hb => h (ha.symm.trans hb)
    rw [set_ne hb, ha, set_self, set_self]
  · by_cases hb : x = b
    · rw [hb, set_self, set_ne h.symm, set_self]
    · rw [set_ne hb, set_ne ha, set_ne ha, set_ne hb]

theorem copy_of_lt (h : i < n) : m.copy a b n (a + i) = m (b + i) := by
  have hif : a ≤ a + i ∧ a + i < a + n := by omega
  exact (if_pos hif).trans (congrArg m.word (by omega))

theorem copy_of_ne (h : x < a ∨ a + n ≤ x) : m.copy a b n x = m x := by
  apply if_neg
  omega

theorem zero_of_lt (h : a ≤ x) (h' : x + 4 ≤ a + n) : m.zero a n x = 0 := by
  have hif : a ≤ x ∧ x < a + n := by omega
  exact (if_pos hif).trans (if_pos h')

theorem zero_of_ne (h : x < a ∨ a + n ≤ x) : m.zero a n x = m x := by
  apply if_neg
  omega

end

end Mem

/-- Records of `d` bytes at the addresses do not overlap. -/
def Spaced (d : Nat) (S : Nat → Prop) : Prop := ∀ a b, S a → S b → a = b ∨ a + d ≤ b ∨ b + d ≤ a

theorem Spaced.mono (h : Spaced d S) (hs : ∀ a, T a → S a) : Spaced d T :=
  fun a b ha hb => h a b (hs a ha) (hs b hb)

end WordMem
