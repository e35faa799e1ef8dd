import AspKernel.Basic
import AspKernel.Lib.Ring
import Mathlib.Data.Vector.Basic

/-! The ring buffer that the system log and the trace log have in common. -/

namespace AspKernel
set_option autoImplicit true

structure SYSLOG where
  logtype : BitVec 32
  logtim : BitVec 32
  loginfo : Vector IntPtr 6
  deriving DecidableEq

structure LogBuf where
  buffer : Nat → SYSLOG
  count : Nat
  head : Nat
  tail : Nat

namespace LogBuf

/-- Nothing is in the buffer. -/
def clear (b : LogBuf) : LogBuf := { b with count := 0, head := 0, tail := 0 }

/-- A record is stored. The buffer has room for `tcnt` records, and the oldest one is overwritten
when it is full. -/
def put (tcnt : Nat) (b : LogBuf) (p : SYSLOG) : LogBuf :=
  let tail := if tcnt ≤ b.tail + 1 then 0 else b.tail + 1
  let b' := { b with buffer := Function.update b.buffer b.tail p, tail }
  if b.count < tcnt then { b' with count := b.count + 1 } else { b' with head := tail }

/-- The oldest record, and the buffer without it. -/
def get (tcnt : Nat) (b : LogBuf) : Option (SYSLOG × LogBuf) :=
  if 0 < b.count then
    some (b.buffer b.head,
      { b with count := b.count - 1, head := if tcnt ≤ b.head + 1 then 0 else b.head + 1 })
  else none

/-- The records in the buffer, the oldest one first. -/
def contents (tcnt : Nat) (b : LogBuf) : List SYSLOG := Ring.slots b.buffer tcnt b.head b.count

structure Ok (tcnt : Nat) (b : LogBuf) : Prop where
  head_lt : b.head < tcnt
  count_le : b.count ≤ tcnt
  tail_eq : b.tail = (b.head + b.count) % tcnt

variable {b b' : LogBuf}

theorem Ok.tail_lt (h : b.Ok tcnt) : b.tail < tcnt :=
  h.tail_eq ▸ Nat.mod_lt _ (Nat.zero_lt_of_lt h.head_lt)

theorem contents_length (tcnt : Nat) (b : LogBuf) : (b.contents tcnt).length = b.count :=
  Ring.slots_length ..

theorem clear_ok (b : LogBuf) (ht : 0 < tcnt) : b.clear.Ok tcnt :=
  ⟨ht, Nat.zero_le _, (Nat.zero_mod _).symm⟩

theorem put_count (tcnt : Nat) (b : LogBuf) (p : SYSLOG) :
    (b.put tcnt p).count = if b.count < tcnt then b.count + 1 else b.count := by
  simp only [put]
  split
  · rfl
  · rfl

theorem Ok.put_ok (h : b.Ok tcnt) (p : SYSLOG) : (b.put tcnt p).Ok tcnt := by
  have hw := Ring.wrap_eq h.tail_lt
  simp only [put]
  split
  · rename_i hlt
    refine ⟨h.head_lt, hlt, hw.trans ?_⟩
    rw [h.tail_eq, Nat.mod_add_mod, Nat.add_assoc]
  · rename_i hge
    have hc : b.count = tcnt := Nat.le_antisymm h.count_le (Nat.not_lt.1 hge)
    refine ⟨?_, h.count_le, ?_⟩
    · exact hw ▸ Nat.mod_lt _ (Nat.zero_lt_of_lt h.head_lt)
    · simp only [hc, Nat.add_mod_right, hw, Nat.mod_mod]

/-- While there is room, a record is stored behind the others. -/
theorem Ok.put_room (h : b.Ok tcnt) (hlt : b.count < tcnt) (p : SYSLOG) :
    (b.put tcnt p).contents tcnt = b.contents tcnt ++ [p] := by
  simp only [put, if_pos hlt, contents, h.tail_eq]
  exact Ring.slots_put b.buffer hlt p

/-- In a full buffer a record takes the place of the oldest one. -/
theorem Ok.put_full (h : b.Ok tcnt) (hge : ¬b.count < tcnt) (p : SYSLOG) :
    ∃ a l, b.contents tcnt = a :: l ∧ (b.put tcnt p).contents tcnt = l ++ [p] := by
  have hc : b.count = tcnt := Nat.le_antisymm h.count_le (Nat.not_lt.1 hge)
  obtain ⟨n, hn⟩ : ∃ n, tcnt = n + 1 := Nat.exists_eq_add_one.2 (Nat.zero_lt_of_lt h.head_lt)
  have ht : b.tail = b.head := by
    rw [h.tail_eq, hc, Nat.add_mod_right, Nat.mod_eq_of_lt h.head_lt]
  have hs : ((b.head + 1) % tcnt + n) % tcnt = b.head := by
    rw [Nat.mod_add_mod, Nat.add_assoc, Nat.add_comm 1 n, ← hn, Nat.add_mod_right,
      Nat.mod_eq_of_lt h.head_lt]
  refine ⟨b.buffer (b.head % tcnt), Ring.slots b.buffer tcnt ((b.head + 1) % tcnt) n, ?_, ?_⟩
  · rw [← Ring.slots_cons, ← hn, contents, hc]
  · have hp : Ring.slots _ tcnt ((b.head + 1) % tcnt) (n + 1) = _ :=
      Ring.slots_put b.buffer (show n < tcnt by omega) p
    rw [hs, ← hn] at hp
    simp only [put, if_neg hge, contents, Ring.wrap_eq h.tail_lt]
    rwa [hc, ht]

theorem Ok.get (h : b.Ok tcnt) (hg : b.get tcnt = some (p, b')) :
    b'.Ok tcnt ∧ b.contents tcnt = p :: b'.contents tcnt := by
  unfold LogBuf.get at hg
  split at hg
  · rename_i hpos
    cases hg
    obtain ⟨n, hn⟩ : ∃ n, b.count = n + 1 := Nat.exists_eq_add_one.2 hpos
    have hw := Ring.wrap_eq h.head_lt
    refine ⟨⟨?_, (Nat.sub_le ..).trans h.count_le, ?_⟩, ?_⟩
    · exact hw ▸ Nat.mod_lt _ (Nat.zero_lt_of_lt h.head_lt)
    · simp only [hw, hn, Nat.add_sub_cancel, Nat.mod_add_mod]
      rw [h.tail_eq, hn, Nat.add_right_comm, Nat.add_assoc]
    · simp only [contents, hn, hw, Nat.add_sub_cancel]
      rw [Ring.slots_cons, Nat.mod_eq_of_lt h.head_lt]
  · cases hg

end LogBuf

end AspKernel
