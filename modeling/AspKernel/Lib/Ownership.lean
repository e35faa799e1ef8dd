import Mathlib.Data.List.Nodup
import Mathlib.Logic.Function.Basic

/-! The pieces of an allocator, each with one owner. -/

namespace Ownership
set_option autoImplicit true

section
variable {α κ ι : Type} {key : α → κ} {L : List α} {own : ι → List α}

/-- The pieces are those of the owners, and none is there twice. -/
structure Holds (key : α → κ) (L : List α) (own : ι → List α) : Prop where
  nodup : (L.map key).Nodup
  each : ∀ x, ((own x).map key).Nodup
  mem : ∀ a, a ∈ L ↔ ∃ x, a ∈ own x
  unique : ∀ x y a, a ∈ own x → a ∈ own y → x = y

theorem Holds.start : Holds key [] fun _ : ι => [] :=
  ⟨List.nodup_nil, fun _ => List.nodup_nil, fun a => by simp, fun _ _ _ ha => by simp at ha⟩

/-- Pieces with the same key are the same. -/
theorem eq_of_key (h : (L.map key).Nodup) (ha : a ∈ L) (hb : b ∈ L) (he : key a = key b) : a = b :=
  List.inj_on_of_nodup_map h ha hb he

/-- A new owner gets pieces whose keys are new. -/
theorem Holds.create [DecidableEq ι] (h : Holds key L own) (hx : own x = []) (hn : (got.map key).Nodup)
    (hf : ∀ a ∈ got, key a ∉ L.map key) :
    Holds key (got ++ L) (Function.update own x got.reverse) := by
  have hnew : ∀ a ∈ got, ∀ y, a ∉ own y := fun a ha y hy =>
    hf a ha (List.mem_map_of_mem ((h.mem a).2 ⟨y, hy⟩))
  have hcases (y : ι) (a : α) : a ∈ Function.update own x got.reverse y ↔ y = x ∧ a ∈ got ∨ a ∈ own y := by
    by_cases hy : y = x
    · subst hy
      rw [Function.update_self, List.mem_reverse, hx]
      simp
    · rw [Function.update_of_ne hy]
      simp [hy]
  refine ⟨?_, fun y => ?_, fun a => ?_, fun y z a hy hz => ?_⟩
  · rw [List.map_append, List.nodup_append]
    refine ⟨hn, h.nodup, ?_⟩
    rintro k hk k' hk' rfl
    obtain ⟨a, ha, rfl⟩ := List.mem_map.1 hk
    exact hf a ha hk'
  · by_cases hy : y = x
    · subst hy
      rw [Function.update_self, List.map_reverse]
      exact List.nodup_reverse.2 hn
    · rw [Function.update_of_ne hy]
      exact h.each y
  · simp only [List.mem_append, hcases, h.mem]
    constructor
    · rintro (ha | ⟨y, ha⟩)
      · exact ⟨x, .inl ⟨rfl, ha⟩⟩
      · exact ⟨y, .inr ha⟩
    · rintro ⟨y, ⟨-, ha⟩ | ha⟩
      · exact .inl ha
      · exact .inr ⟨y, ha⟩
  · rcases (hcases y a).1 hy with ⟨rfl, ha⟩ | ha
    · rcases (hcases z a).1 hz with ⟨rfl, -⟩ | hb
      · rfl
      · exact absurd hb (hnew a ha z)
    · rcases (hcases z a).1 hz with ⟨-, hb⟩ | hb
      · exact absurd ha (hnew a hb y)
      · exact h.unique y z a ha hb

/-- The first piece with a key is given back. -/
def free [DecidableEq κ] (key : α → κ) (L : List α) (k : κ) : List α := L.eraseP (key · == k)

variable [DecidableEq κ]

theorem free_sublist (L : List α) (k : κ) : (free key L k).Sublist L := List.eraseP_sublist

theorem nodup_free (h : (L.map key).Nodup) (k : κ) : ((free key L k).map key).Nodup :=
  ((free_sublist L k).map key).nodup h

theorem free_eq_filter (h : (L.map key).Nodup) : free key L k = L.filter fun a => decide (key a ≠ k) := by
  induction L with
  | nil => rfl
  | cons a L ih =>
    obtain ⟨ha, hL⟩ := List.nodup_cons.1 h
    unfold free at ih ⊢
    by_cases hk : key a = k
    · subst hk
      rw [List.eraseP_cons_of_pos (by simp), List.filter_cons_of_neg (by simp), List.filter_eq_self.2]
      intro b hb
      apply decide_eq_true
      intro he
      exact ha (he ▸ List.mem_map_of_mem hb)
    · rw [List.eraseP_cons_of_neg (by simpa using hk), List.filter_cons_of_pos (by simpa using hk), ih hL]

theorem mem_free (h : (L.map key).Nodup) : a ∈ free key L k ↔ a ∈ L ∧ key a ≠ k := by
  rw [free_eq_filter h, List.mem_filter, decide_eq_true_eq]

theorem mem_freeAll {ks : List κ} (h : (L.map key).Nodup) :
    a ∈ ks.foldl (free key) L ↔ a ∈ L ∧ key a ∉ ks := by
  induction ks generalizing L with
  | nil => simp
  | cons k ks ih =>
    rw [List.foldl_cons, ih (nodup_free h k), mem_free h, List.mem_cons, not_or, and_assoc]

theorem nodup_freeAll {ks : List κ} (h : (L.map key).Nodup) : ((ks.foldl (free key) L).map key).Nodup := by
  induction ks generalizing L with
  | nil => exact h
  | cons k ks ih => exact ih (nodup_free h k)

/-- An owner gives its pieces back. -/
theorem Holds.delete [DecidableEq ι] (h : Holds key L own) (x : ι) :
    Holds key (((own x).map key).foldl (free key) L) (Function.update own x []) := by
  have hcases (y : ι) (a : α) : a ∈ Function.update own x [] y ↔ y ≠ x ∧ a ∈ own y := by
    by_cases hy : y = x
    · subst hy
      rw [Function.update_self]
      simp
    · rw [Function.update_of_ne hy]
      simp [hy]
  refine ⟨nodup_freeAll h.nodup, fun y => ?_, fun a => ?_, fun y z a hy hz => ?_⟩
  · by_cases hy : y = x
    · subst hy
      rw [Function.update_self]
      exact List.nodup_nil
    · rw [Function.update_of_ne hy]
      exact h.each y
  · simp only [mem_freeAll h.nodup, hcases, h.mem]
    constructor
    · rintro ⟨⟨y, hy⟩, hk⟩
      refine ⟨y, fun he => hk ?_, hy⟩
      rw [← he]
      exact List.mem_map_of_mem hy
    · rintro ⟨y, hne, hy⟩
      refine ⟨⟨y, hy⟩, fun hk => hne ?_⟩
      obtain ⟨b, hb, he⟩ := List.mem_map.1 hk
      obtain rfl := eq_of_key h.nodup ((h.mem b).2 ⟨x, hb⟩) ((h.mem a).2 ⟨y, hy⟩) he
      exact h.unique y x b hy hb
  · exact h.unique y z a ((hcases y a).1 hy).2 ((hcases z a).1 hz).2

end

end Ownership
