import Mathlib.Data.List.Nodup
import Mathlib.Logic.Function.Basic

/-!
Queues whose entries carry their own links: an entry is linked into at most one of the queues,
and deleting it needs no queue. Insertion behind the entries of the same rank keeps a queue
sorted.
-/

namespace Links
set_option autoImplicit true

section
variable {ι ρ : Type}

/-- `loc` says for every entry in which queue it is linked. -/
def Linked (loc : ι → Option ρ) (queue : ρ → List ι) : Prop :=
  ∀ q, (queue q).Nodup ∧ ∀ t, t ∈ queue q ↔ loc t = some q

theorem Linked.mem {loc : ι → Option ρ} {queue : ρ → List ι} (h : Linked loc queue) :
    t ∈ queue q ↔ loc t = some q := (h q).2 t

theorem Linked.nodup {loc : ι → Option ρ} {queue : ρ → List ι} (h : Linked loc queue) (q : ρ) :
    (queue q).Nodup := (h q).1

/-- An entry is linked exactly once into its queue and not at all into the others. -/
theorem Linked.count [DecidableEq ι] [DecidableEq ρ] {loc : ι → Option ρ} {queue : ρ → List ι}
    (h : Linked loc queue) (q : ρ) (t : ι) :
    (queue q).count t = if loc t = some q then 1 else 0 := by
  rw [(h.nodup q).count]
  simp only [h.mem]

/-- Unlink an entry from the queue that it is in. -/
def delete [DecidableEq ι] (queue : ρ → List ι) (t : ι) : ρ → List ι := fun q => (queue q).erase t

theorem Linked.delete [DecidableEq ι] {loc : ι → Option ρ} {queue : ρ → List ι} (h : Linked loc queue) (t : ι) :
    Linked (Function.update loc t none) (delete queue t) := by
  intro q
  refine ⟨(h.nodup q).erase t, ?_⟩
  intro s
  simp only [Links.delete, (h.nodup q).mem_erase_iff, h.mem]
  by_cases hs : s = t
  · subst hs
    simp only [ne_eq, not_true_eq_false, false_and, Function.update_self, reduceCtorEq]
  · simp only [ne_eq, hs, not_false_eq_true, true_and, Function.update_of_ne]

theorem delete_eq_self [DecidableEq ι] {queue : ρ → List ι} {loc : ι → Option ρ}
    (h : Linked loc queue) (hq : loc t ≠ some q) : delete queue t q = queue q :=
  List.erase_of_not_mem fun hm => hq (h.mem.1 hm)

/-- Link an entry into a queue, at any place. -/
theorem Linked.insert [DecidableEq ι] [DecidableEq ρ] {loc : ι → Option ρ} {queue : ρ → List ι}
    (h : Linked loc queue) (ht : loc t = none) (hp : l.Perm (t :: queue q)) :
    Linked (Function.update loc t (some q)) (Function.update queue q l) := by
  have hnew (q' : ρ) : t ∉ queue q' := by
    intro hm
    rw [h.mem, ht] at hm
    cases hm
  intro q'
  by_cases hq : q' = q
  · subst hq
    rw [Function.update_self]
    refine ⟨hp.nodup_iff.2 (List.nodup_cons.2 ⟨hnew q', h.nodup q'⟩), ?_⟩
    intro s
    rw [hp.mem_iff, List.mem_cons, h.mem]
    by_cases hs : s = t
    · simp only [hs, true_or, Function.update_self]
    · simp only [hs, false_or, ne_eq, not_false_eq_true, Function.update_of_ne]
  · rw [Function.update_of_ne hq]
    refine ⟨h.nodup q', ?_⟩
    intro s
    rw [h.mem]
    by_cases hs : s = t
    · subst hs
      simp only [ht, reduceCtorEq, Function.update_self, Option.some.injEq, Ne.symm hq]
    · simp only [ne_eq, hs, not_false_eq_true, Function.update_of_ne]

/-- Reorder one queue. -/
theorem Linked.perm [DecidableEq ρ] {loc : ι → Option ρ} {queue : ρ → List ι}
    (h : Linked loc queue) (hp : l.Perm (queue q)) : Linked loc (Function.update queue q l) := by
  intro q'
  by_cases hq : q' = q
  · subst hq
    rw [Function.update_self]
    exact ⟨hp.nodup_iff.2 (h.nodup q'), fun t => hp.mem_iff.trans h.mem⟩
  · rw [Function.update_of_ne hq]
    exact h q'

end

/-- Insertion before the first entry of a lower rank. -/
def insertBy (lt : α → α → Bool) (a : α) : List α → List α
  | [] => [a]
  | b :: l => if lt a b then a :: b :: l else b :: insertBy lt a l

theorem insertBy_perm (lt : α → α → Bool) (a : α) (l : List α) :
    (insertBy lt a l).Perm (a :: l) := by
  induction l with
  | nil => exact .refl _
  | cons b l ih =>
    unfold insertBy
    split
    · exact .refl _
    · exact (ih.cons b).trans (.swap a b l)

/-- The place of the entry: it precedes the next one and none of those before it. -/
theorem insertBy_eq (lt : α → α → Bool) (a : α) (l : List α) : ∃ l₁ l₂, l = l₁ ++ l₂ ∧
    insertBy lt a l = l₁ ++ a :: l₂ ∧ (∀ b ∈ l₁, lt a b = false) ∧
      ∀ b ∈ l₂.head?, lt a b = true := by
  induction l with
  | nil => exact ⟨[], [], rfl, rfl, nofun, nofun⟩
  | cons b l ih =>
    unfold insertBy
    split
    · rename_i hb
      refine ⟨[], b :: l, rfl, rfl, nofun, ?_⟩
      rintro c ⟨⟩
      exact hb
    · rename_i hb
      obtain ⟨l₁, l₂, rfl, he, h1, h2⟩ := ih
      refine ⟨b :: l₁, l₂, rfl, congrArg (b :: ·) he, ?_, h2⟩
      intro c hc
      rcases List.mem_cons.1 hc with rfl | hc
      · exact Bool.eq_false_iff.2 hb
      · exact h1 c hc

theorem insertBy_dropWhile (lt : α → α → Bool) (a : α) (l : List α) : insertBy lt a l =
    (l.takeWhile fun b => !lt a b) ++ a :: l.dropWhile fun b => !lt a b := by
  induction l with
  | nil => rfl
  | cons b l ih =>
    rw [insertBy, List.takeWhile_cons, List.dropWhile_cons]
    cases lt a b with
    | true => rfl
    | false => exact congrArg (b :: ·) ih

theorem insertBy_congr {lt : α → α → Bool} (lt' : α → α → Bool) {l : List α}
    (h : ∀ b ∈ l, lt a b = lt' a b) : insertBy lt a l = insertBy lt' a l := by
  induction l with
  | nil => rfl
  | cons b l ih =>
    simp only [insertBy, h b (List.mem_cons_self ..),
      ih fun c hc => h c (List.mem_cons_of_mem b hc)]

/-- An entry goes behind the entries that it does not precede and before all others. -/
theorem insertBy_pairwise {lt : α → α → Bool} {r : α → α → Prop} {l : List α}
    (hl : l.Pairwise r) (htrans : ∀ b c, r a b → r b c → r a c)
    (hlt : ∀ b ∈ l, lt a b = true → r a b) (hge : ∀ b ∈ l, lt a b = false → r b a) :
    (insertBy lt a l).Pairwise r := by
  induction l with
  | nil => exact List.pairwise_singleton r a
  | cons b l ih =>
    obtain ⟨hb, hl⟩ := List.pairwise_cons.1 hl
    unfold insertBy
    split
    · rename_i hab
      have har := hlt b (List.mem_cons_self ..) hab
      refine List.pairwise_cons.2 ⟨?_, List.pairwise_cons.2 ⟨hb, hl⟩⟩
      intro c hc
      rcases List.mem_cons.1 hc with rfl | hc
      · exact har
      · exact htrans b c har (hb c hc)
    · rename_i hab
      refine List.pairwise_cons.2 ⟨?_, ih hl ?_ ?_⟩
      · intro c hc
        rcases List.mem_cons.1 ((insertBy_perm lt a l).mem_iff.1 hc) with rfl | hc
        · exact hge b (List.mem_cons_self ..) (Bool.eq_false_iff.2 hab)
        · exact hb c hc
      · exact fun c hc => hlt c (List.mem_cons_of_mem b hc)
      · exact fun c hc => hge c (List.mem_cons_of_mem b hc)

theorem insertBy_erase [DecidableEq α] {lt : α → α → Bool} {a : α} {l : List α} (h : a ∉ l) :
    (insertBy lt a l).erase a = l := by
  induction l with
  | nil => exact List.erase_cons_head ..
  | cons b l ih =>
    obtain ⟨hb, hl⟩ := List.ne_and_not_mem_of_not_mem_cons h
    unfold insertBy
    split
    · exact List.erase_cons_head ..
    · rw [List.erase_cons_tail (by simpa using Ne.symm hb), ih hl]

end Links
