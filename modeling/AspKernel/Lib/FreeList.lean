import Mathlib.Data.List.Nodup
import Mathlib.Data.List.Basic

/-! Slots that are taken from the head of a free list and given back at its end. -/

namespace FreeList
set_option autoImplicit true

structure Slots (ι : Type) where
  free : List ι
  used : ι → Prop

/-- The slots of `D` are free, each once in the list, or in use. -/
structure Partition (D : ι → Prop) (s : Slots ι) : Prop where
  nodup : s.free.Nodup
  mem : ∀ i, i ∈ s.free ↔ D i ∧ ¬s.used i

/-- What an operation may do: nothing, take the first free slot, or give back a slot in use. -/
inductive Step (D : ι → Prop) (s s' : Slots ι) : Prop
  | same (hf : s'.free = s.free) (hu : ∀ j, s'.used j ↔ s.used j)
  | take (i : ι) (hf : s.free = i :: s'.free) (hu : ∀ j, s'.used j ↔ j = i ∨ s.used j)
  | give (i : ι) (hD : D i) (hi : s.used i) (hf : s'.free = s.free ++ [i])
    (hu : ∀ j, s'.used j ↔ j ≠ i ∧ s.used j)

section
variable {D : ι → Prop} {s s' : Slots ι}

theorem Step.refl : Step D s s := .same rfl fun _ => .rfl

theorem Partition.step (h : Partition D s) (hs : Step D s s') : Partition D s' := by
  cases hs with
  | same hf hu =>
    refine ⟨hf ▸ h.nodup, fun j => ?_⟩
    rw [hf, hu]
    exact h.mem j
  | take i hf hu =>
    have hn := h.nodup
    rw [hf, List.nodup_cons] at hn
    refine ⟨hn.2, fun j => ?_⟩
    have hj := h.mem j
    rw [hf, List.mem_cons] at hj
    rw [hu]
    constructor
    · intro hm
      obtain ⟨hD, hnu⟩ := hj.1 (.inr hm)
      exact ⟨hD, fun ho => ho.elim (fun he => hn.1 (he ▸ hm)) hnu⟩
    · rintro ⟨hD, hno⟩
      rw [not_or] at hno
      exact (hj.2 ⟨hD, hno.2⟩).resolve_left hno.1
  | give i hD hi hf hu =>
    have hni : i ∉ s.free := fun hm => ((h.mem i).1 hm).2 hi
    refine ⟨?_, fun j => ?_⟩
    · rw [hf]
      exact h.nodup.append (List.nodup_singleton i) fun j hj hj' =>
        hni (List.mem_singleton.1 hj' ▸ hj)
    · rw [hf, List.mem_append, List.mem_singleton, h.mem, hu, not_and_or, not_not]
      constructor
      · rintro (⟨hd, hn⟩ | rfl)
        · exact ⟨hd, .inr hn⟩
        · exact ⟨hD, .inl rfl⟩
      · rintro ⟨hd, he | hn⟩
        · exact .inr he
        · exact .inl ⟨hd, hn⟩

/-- A slot that comes into use was free, and one that goes out of use is free afterwards. -/
theorem Step.change (hs : Step D s s') {i : ι} : (¬s.used i → s'.used i → i ∈ s.free) ∧
    (s.used i → ¬s'.used i → i ∈ s'.free) := by
  cases hs with
  | same hf hu => exact ⟨fun hn hi => absurd ((hu i).1 hi) hn, fun hi hn => absurd ((hu i).2 hi) hn⟩
  | take j hf hu =>
    refine ⟨fun hn hi => ?_, fun hi hn => absurd ((hu i).2 (.inr hi)) hn⟩
    rw [hf]
    exact (((hu i).1 hi).resolve_right hn) ▸ List.mem_cons_self ..
  | give j hD hj hf hu =>
    refine ⟨fun hn hi => absurd ((hu i).1 hi).2 hn, fun hi hn => ?_⟩
    have he : i = j := by
      by_contra hne
      exact hn ((hu i).2 ⟨hne, hi⟩)
    rw [hf, he]
    exact List.mem_append_right _ (List.mem_singleton_self j)

end

end FreeList
