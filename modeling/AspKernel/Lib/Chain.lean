import AspKernel.Lib.Links

/-! Singly linked lists: every cell holds the next one. -/

namespace Chain
set_option autoImplicit true

section
variable {ι : Type} {next : ι → Option ι} {head : Option ι} {l l' : List ι} {a b : ι} {n : Nat}

/-- The cells from a link on, in their order. -/
def Chained (next : ι → Option ι) : Option ι → List ι → Prop
  | head, [] => head = none
  | head, a :: l => head = some a ∧ Chained next (next a) l

/-- The first cells from a link on, `n` at most. -/
def walk (next : ι → Option ι) : Nat → Option ι → List ι
  | 0, _ => []
  | _ + 1, none => []
  | n + 1, some a => a :: walk next n (next a)

theorem Chained.walk_eq (h : Chained next head l) (hn : l.length ≤ n) :
    walk next n head = l := by
  induction l generalizing head n with
  | nil =>
    cases h
    cases n <;> rfl
  | cons a l ih =>
    obtain ⟨rfl, h⟩ := h
    cases n with
    | zero => cases hn
    | succ n => exact congrArg _ (ih h (Nat.le_of_succ_le_succ hn))

theorem Chained.head_eq (h : Chained next head l) : head = l.head? := by
  cases l with
  | nil => exact h
  | cons a l => exact h.1

theorem Chained.unique (h : Chained next head l) (h' : Chained next head l') : l = l' := by
  have hw := h.walk_eq (Nat.le_max_left l.length l'.length)
  rw [h'.walk_eq (Nat.le_max_right ..)] at hw
  exact hw.symm

/-- A cell from which another one starts. -/
theorem Chained.next_eq (h : Chained next head (l ++ a :: l')) : next a = l'.head? := by
  induction l generalizing head with
  | nil => exact h.2.head_eq
  | cons b l ih => exact ih h.2

theorem Chained.tail (h : Chained next head (l ++ a :: l')) : Chained next (some a) (a :: l') := by
  induction l generalizing head with
  | nil => exact ⟨rfl, h.2⟩
  | cons b l ih => exact ih h.2

/-- A list that ends has no cell twice. -/
theorem Chained.nodup (h : Chained next head l) : l.Nodup := by
  induction l generalizing head with
  | nil => exact List.nodup_nil
  | cons a l ih =>
    refine List.nodup_cons.2 ⟨fun ha => ?_, ih h.2⟩
    obtain ⟨l₁, l₂, rfl⟩ := List.append_of_mem ha
    have ht : Chained next (some a) (a :: l₂) := Chained.tail (l := a :: l₁) h
    have he := congrArg List.length (Chained.unique (h.1 ▸ h) ht)
    simp only [List.length_cons, List.length_append] at he
    omega

theorem Chained.congr {next' : ι → Option ι} (h : Chained next head l)
    (he : ∀ a ∈ l, next' a = next a) : Chained next' head l := by
  induction l generalizing head with
  | nil => exact h
  | cons a l ih =>
    obtain ⟨rfl, h⟩ := h
    refine ⟨rfl, ?_⟩
    rw [he a (List.mem_cons_self ..)]
    exact ih h fun b hb => he b (List.mem_cons_of_mem a hb)

/-- What follows the last of the first cells. -/
theorem Chained.after (h : Chained next head (l ++ l')) : l.getLast?.elim head next = l'.head? := by
  rcases l.eq_nil_or_concat with rfl | ⟨l, b, rfl⟩
  · exact h.head_eq
  · rw [List.concat_eq_append, List.append_assoc] at h
    rw [List.concat_eq_append, List.getLast?_append]
    exact h.next_eq

/-- The search for the place of a new cell: the last cell before the first one where `stop` holds. -/
def search (next : ι → Option ι) (head : Option ι) (stop : ι → Bool) : Nat → Option ι → Option ι
  | 0, prev => prev
  | n + 1, prev =>
    match prev.elim head next with
    | none => prev
    | some a => if stop a then prev else search next head stop n (some a)

theorem Chained.search_eq {stop : ι → Bool} (h : Chained next head (l ++ l'))
    (hn : l'.length ≤ n) :
    search next head stop n l.getLast? = (l ++ l'.takeWhile (!stop ·)).getLast? := by
  induction n generalizing l l' with
  | zero =>
    rw [List.length_eq_zero_iff.1 (Nat.le_zero.1 hn), List.takeWhile_nil, List.append_nil]
    rfl
  | succ n ih =>
    unfold search
    rw [h.after]
    cases l' with
    | nil =>
      rw [List.takeWhile_nil, List.append_nil]
      rfl
    | cons a l' =>
      simp only [List.head?_cons]
      split
      · rename_i hs
        rw [List.takeWhile_cons_of_neg (by rw [hs]; exact Bool.false_ne_true), List.append_nil]
      · rename_i hs
        have hr := ih (l := l ++ [a]) (by rwa [List.append_assoc])
          (Nat.le_of_succ_le_succ hn)
        rw [List.getLast?_append, List.append_assoc] at hr
        rw [List.takeWhile_cons_of_pos (by simpa using hs)]
        exact hr

variable [DecidableEq ι]

theorem Chained.update (h : Chained next head l) (ha : a ∉ l) (x : Option ι) :
    Chained (Function.update next a x) head l :=
  h.congr fun b hb => Function.update_of_ne (by rintro rfl; exact ha hb) ..

/-- A new cell with the link `x` goes in behind the cell `prev`. -/
def link (next : ι → Option ι) (prev : Option ι) (a : ι) (x : Option ι) : ι → Option ι :=
  match prev with
  | none => Function.update next a x
  | some b => Function.update (Function.update next a x) b (some a)

theorem Chained.insert (h : Chained next head (l ++ l')) (ha : a ∉ l ++ l') :
    Chained (link next l.getLast? a l'.head?) (if l = [] then some a else head) (l ++ a :: l') := by
  induction l generalizing head with
  | nil =>
    refine ⟨rfl, ?_⟩
    rw [show link next ([] : List ι).getLast? a l'.head? a = l'.head? from Function.update_self ..,
      ← Chained.head_eq (l := l') h]
    exact Chained.update h ha _
  | cons b l ih =>
    obtain ⟨hb, hn⟩ := List.nodup_cons.1 h.nodup
    obtain ⟨rfl, h⟩ := h
    refine ⟨rfl, ?_⟩
    have ha' : a ∉ l ++ l' := fun hm => ha (List.mem_cons_of_mem b hm)
    have hab : b ≠ a := fun he => ha (he ▸ List.mem_cons_self ..)
    rcases l.eq_nil_or_concat with rfl | ⟨m, c, hl⟩
    · rw [List.getLast?_singleton]
      unfold link
      simp only [Function.update_self]
      refine ⟨rfl, ?_⟩
      rw [Function.update_of_ne hab.symm, Function.update_self]
      have hu := Chained.update (Chained.update h ha' l'.head?) hb (some a)
      rwa [show next b = l'.head? from h.head_eq] at hu
    · have hlast : l.getLast? = some c := by rw [hl, List.concat_eq_append, List.getLast?_concat]
      have hne : l ≠ [] := by
        rintro rfl
        cases hlast
      have hcb : b ≠ c := by
        rintro rfl
        exact hb (List.mem_append_left _ (List.mem_of_getLast? hlast))
      have hi := ih h ha'
      rw [hlast, if_neg hne] at hi
      rw [List.getLast?_cons, hlast]
      unfold link at hi ⊢
      simp only [Option.getD_some]
      rw [Function.update_of_ne hcb, Function.update_of_ne hab]
      exact hi

end

end Chain
