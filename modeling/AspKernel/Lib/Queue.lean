import AspKernel.Lib.Links

/-!
Circular queues in memory, linked in both directions. The nodes are the heads of the queues and the
entries; every node holds the next one and the previous one.
-/

namespace Queue
set_option autoImplicit true

inductive Node (ρ ι : Type)
  | head (q : ρ)
  | entry (t : ι)
  deriving DecidableEq

structure Mem (ρ ι : Type) where
  next : Node ρ ι → Node ρ ι
  prev : Node ρ ι → Node ρ ι

section
variable {ρ ι : Type}

/-- The entries of `l` stand between two nodes. -/
def Mem.Path (m : Mem ρ ι) : Node ρ ι → List ι → Node ρ ι → Prop
  | a, [], b => m.next a = b ∧ m.prev b = a
  | a, t :: l, b => m.next a = .entry t ∧ m.prev (.entry t) = a ∧ m.Path (.entry t) l b

/-- The first node of the rest of a queue. -/
def front (q : ρ) : List ι → Node ρ ι
  | [] => .head q
  | t :: _ => .entry t

/-- The links behind the first node of the rest of a queue. -/
def Mem.Tail (m : Mem ρ ι) (q : ρ) : List ι → Prop
  | [] => True
  | t :: l => m.Path (.entry t) l (.head q)

/-- The memory holds the queues. -/
def Mem.Holds (m : Mem ρ ι) (queue : ρ → List ι) : Prop :=
  ∀ q, m.Path (.head q) (queue q) (.head q)

/-- The memory holds the queues whose heads are initialized. -/
def Mem.HoldsOn (m : Mem ρ ι) (S : ρ → Prop) (queue : ρ → List ι) : Prop :=
  ∀ q, S q → m.Path (.head q) (queue q) (.head q)

variable {m m' : Mem ρ ι} {a b : Node ρ ι} {l l₁ l₂ : List ι} {queue : ρ → List ι}
  {loc : ι → Option ρ} {q : ρ} {t : ι} {S : ρ → Prop}

theorem Mem.holds_iff : m.Holds queue ↔ m.HoldsOn (fun _ => True) queue :=
  ⟨fun h q _ => h q, fun h q => h q trivial⟩

theorem Mem.Path.congr (h : m.Path a l b)
    (hn : m'.next a = m.next a ∧ ∀ t ∈ l, m'.next (.entry t) = m.next (.entry t))
    (hp : m'.prev b = m.prev b ∧ ∀ t ∈ l, m'.prev (.entry t) = m.prev (.entry t)) :
    m'.Path a l b := by
  induction l generalizing a with
  | nil => exact ⟨hn.1.trans h.1, hp.1.trans h.2⟩
  | cons t l ih =>
    obtain ⟨h1, h2, h3⟩ := h
    refine ⟨hn.1.trans h1, (hp.2 t List.mem_cons_self).trans h2, ih h3 ?_ ?_⟩
    · exact ⟨hn.2 t List.mem_cons_self, fun u hu => hn.2 u (List.mem_cons_of_mem _ hu)⟩
    · exact ⟨hp.1, fun u hu => hp.2 u (List.mem_cons_of_mem _ hu)⟩

theorem Mem.path_append :
    m.Path a (l₁ ++ t :: l₂) b ↔ m.Path a l₁ (.entry t) ∧ m.Path (.entry t) l₂ b := by
  induction l₁ generalizing a with
  | nil => exact and_assoc.symm
  | cons u l₁ ih =>
    change _ ∧ _ ∧ m.Path (.entry u) (l₁ ++ t :: l₂) b ↔ (_ ∧ _ ∧ m.Path (.entry u) l₁ _) ∧ _
    rw [ih]
    simp only [and_assoc]

/-- A queue is cut in front of any of its nodes. -/
theorem Mem.path_front : m.Path a (l₁ ++ l₂) (.head q) ↔
    m.Path a l₁ (front q l₂) ∧ m.Tail q l₂ := by
  cases l₂ with
  | nil =>
    rw [List.append_nil]
    exact (and_iff_left trivial).symm
  | cons t l₂ => exact path_append

/-- The node in front of the end of a path. -/
theorem Mem.Path.prev_mem (h : m.Path a l b) : m.prev b = a ∨ ∃ t ∈ l, m.prev b = .entry t := by
  induction l generalizing a with
  | nil => exact .inl h.2
  | cons t l ih =>
    rcases ih h.2.2 with he | ⟨u, hu, he⟩
    · exact .inr ⟨t, List.mem_cons_self, he⟩
    · exact .inr ⟨u, List.mem_cons_of_mem _ hu, he⟩

theorem Mem.Path.next_front (h : m.Path a l (.head q)) : m.next a = front q l := by
  cases l with
  | nil => exact h.1
  | cons t l => exact h.1

theorem Mem.Holds.next_head (h : m.Holds queue) (q : ρ) :
    m.next (.head q) = front q (queue q) := (h q).next_front

theorem Mem.HoldsOn.next_entry (h : m.HoldsOn S queue) (hS : S q) (hq : queue q = l₁ ++ t :: l₂) :
    m.next (.entry t) = front q l₂ := by
  have hp := h q hS
  rw [hq, path_append] at hp
  exact hp.2.next_front

theorem Mem.Holds.next_entry (h : m.Holds queue) (hq : queue q = l₁ ++ t :: l₂) :
    m.next (.entry t) = front q l₂ := (holds_iff.1 h).next_entry trivial hq

theorem front_ne_entry (h : t ∉ l) : front q l ≠ .entry t := by
  cases l with
  | nil => exact nofun
  | cons u l =>
    rintro ⟨⟩
    exact h List.mem_cons_self

/-- The links behind a node. -/
theorem Mem.path_tail (h : m.Path a l (.head q)) : m.Tail q l := by
  cases l with
  | nil => trivial
  | cons t l => exact h.2.2

/-- The node is the head of the queue or one of its entries. -/
def Node.On (loc : ι → Option ρ) (q : ρ) : Node ρ ι → Prop
  | head q' => q' = q
  | entry t => loc t = some q

theorem Node.On.unique {x : Node ρ ι} (h : x.On loc q) (h' : x.On loc q') : q = q' := by
  cases x with
  | head p => exact h.symm.trans h'
  | entry t => exact Option.some.inj (h.symm.trans h')

theorem front_on (h : ∀ t ∈ l, loc t = some q) : (front q l).On loc q := by
  cases l with
  | nil => rfl
  | cons t l => exact h t List.mem_cons_self

theorem Mem.Path.prev_on (h : m.Path (.head q) l b) (hl : ∀ t ∈ l, loc t = some q) :
    (m.prev b).On loc q := by
  rcases h.prev_mem with he | ⟨t, ht, he⟩
  · rw [he]
    rfl
  · rw [he]
    exact hl t ht

section
variable [DecidableEq ρ] [DecidableEq ι]

/-- `queue_insert_prev`. -/
def Mem.insertPrev (m : Mem ρ ι) (p e : Node ρ ι) : Mem ρ ι :=
  let m := { m with prev := Function.update m.prev e (m.prev p) }
  let m := { m with next := Function.update m.next e p }
  let m := { m with next := Function.update m.next (m.prev p) e }
  { m with prev := Function.update m.prev p e }

/-- `queue_delete`. -/
def Mem.delete (m : Mem ρ ι) (e : Node ρ ι) : Mem ρ ι :=
  let m := { m with next := Function.update m.next (m.prev e) (m.next e) }
  { m with prev := Function.update m.prev (m.next e) (m.prev e) }

/-- Two nodes become neighbours. -/
def Mem.join (m : Mem ρ ι) (a b : Node ρ ι) : Mem ρ ι :=
  ⟨Function.update m.next a b, Function.update m.prev b a⟩

theorem Mem.insertPrev_eq (m : Mem ρ ι) (hp : m.prev p ≠ e) :
    m.insertPrev p e = (m.join (m.prev p) e).join e p := by
  have hprev : Function.update m.prev e (m.prev p) p = m.prev p := by
    by_cases he : p = e
    · rw [he, Function.update_self]
    · rw [Function.update_of_ne he]
  unfold insertPrev join
  simp only [hprev]
  rw [Function.update_comm hp]

theorem Mem.delete_eq (m : Mem ρ ι) (e : Node ρ ι) :
    m.delete e = m.join (m.prev e) (m.next e) := by
  have hnext : Function.update m.next (m.prev e) (m.next e) e = m.next e := by
    by_cases he : e = m.prev e
    · rw [← he, Function.update_self]
    · rw [Function.update_of_ne he]
  unfold delete join
  simp only [hnext]

theorem Mem.Path.join (h : m.Path a l b) (hx : x ≠ a) (hxl : ∀ t ∈ l, x ≠ .entry t) (hy : y ≠ b)
    (hyl : ∀ t ∈ l, y ≠ .entry t) : (m.join x y).Path a l b := by
  apply h.congr
  · exact ⟨Function.update_of_ne hx.symm .., fun t ht => Function.update_of_ne (hxl t ht).symm ..⟩
  · exact ⟨Function.update_of_ne hy.symm .., fun t ht => Function.update_of_ne (hyl t ht).symm ..⟩

/-- A path comes to end at another node. -/
theorem Mem.Path.retarget (h : m.Path a l b) (hn : l.Nodup) (ha : ∀ t ∈ l, a ≠ .entry t)
    (hc : ∀ t ∈ l, c ≠ .entry t) : (m.join (m.prev b) c).Path a l c := by
  induction l generalizing a with
  | nil =>
    have hb : m.prev b = a := h.2
    rw [hb]
    exact ⟨Function.update_self .., Function.update_self ..⟩
  | cons t l ih =>
    obtain ⟨h1, h2, h3⟩ := h
    obtain ⟨ht, hn⟩ := List.nodup_cons.1 hn
    have hb : m.prev b ≠ a := by
      intro he
      rcases h3.prev_mem with hb | ⟨u, hu, hb⟩
      · exact ha t List.mem_cons_self (he.symm.trans hb)
      · exact ha u (List.mem_cons_of_mem t hu) (he.symm.trans hb)
    refine ⟨?_, ?_, ih h3 hn ?_ ?_⟩
    · exact (Function.update_of_ne hb.symm ..).trans h1
    · exact (Function.update_of_ne (hc t List.mem_cons_self).symm ..).trans h2
    · rintro u hu ⟨⟩
      exact ht hu
    · exact fun u hu => hc u (List.mem_cons_of_mem t hu)

theorem Mem.Tail.join (h : m.Tail q l) (hx : ∀ t ∈ l, x ≠ .entry t) (hy : y ≠ .head q)
    (hyl : ∀ t ∈ l, y ≠ .entry t) : (m.join x y).Tail q l := by
  cases l with
  | nil => trivial
  | cons t l =>
    apply Path.join h
    · exact hx t List.mem_cons_self
    · exact fun u hu => hx u (List.mem_cons_of_mem t hu)
    · exact hy
    · exact fun u hu => hyl u (List.mem_cons_of_mem t hu)

/-- A node is put in front of the rest of a queue. -/
theorem Mem.Tail.path (h : m.Tail q l) (hn : l.Nodup) (hx : ∀ t ∈ l, x ≠ .entry t) :
    (m.join x (front q l)).Path x l (.head q) := by
  cases l with
  | nil => exact ⟨Function.update_self .., Function.update_self ..⟩
  | cons t l =>
    obtain ⟨ht, hn⟩ := List.nodup_cons.1 hn
    refine ⟨Function.update_self .., Function.update_self .., ?_⟩
    apply Path.join h
    · exact hx t List.mem_cons_self
    · exact fun u hu => hx u (List.mem_cons_of_mem t hu)
    · exact nofun
    · rintro u hu ⟨⟩
      exact ht hu

/-- The links of another queue stay. -/
theorem Mem.Path.off (h : m.Path (.head q) (queue q) (.head q)) (hl : Links.Linked loc queue)
    (hx : ¬ x.On loc q) (hy : ¬ y.On loc q) :
    (m.join x y).Path (.head q) (queue q) (.head q) := by
  have hent (t : ι) (ht : t ∈ queue q) : (Node.entry t : Node ρ ι).On loc q := hl.mem.1 ht
  apply h.join
  · rintro rfl
    exact hx rfl
  · rintro t ht rfl
    exact hx (hent t ht)
  · rintro rfl
    exact hy rfl
  · rintro t ht rfl
    exact hy (hent t ht)

/-- Deleting an entry unlinks it from the queue that it is in. -/
theorem Mem.HoldsOn.delete (h : m.HoldsOn S queue) (hl : Links.Linked loc queue)
    (ht : loc t = some q) (hS : S q) :
    (m.delete (.entry t)).HoldsOn S (Links.delete queue t) := by
  obtain ⟨l₁, l₂, hq⟩ := List.append_of_mem (hl.mem.2 ht)
  have hn := hl.nodup q
  rw [hq] at hn
  obtain ⟨hn1, hn2, hd⟩ := List.nodup_append'.1 hn
  obtain ⟨ht2, hn2⟩ := List.nodup_cons.1 hn2
  have ht1 : t ∉ l₁ := fun hm => hd hm List.mem_cons_self
  have hp := h q hS
  rw [hq, path_append] at hp
  obtain ⟨hp1, hp2⟩ := hp
  have hon (u : ι) (hu : u ∈ l₁ ++ t :: l₂) : loc u = some q := hl.mem.1 (hq ▸ hu)
  have hprev := hp1.prev_on fun u hu => hon u (List.mem_append_left _ hu)
  have hfront := front_on (q := q) fun u hu =>
    hon u (List.mem_append_right l₁ (List.mem_cons_of_mem t hu))
  rw [delete_eq, h.next_entry hS hq]
  intro q' hS'
  by_cases he : q' = q
  · subst he
    have herase : (queue q').erase t = l₁ ++ l₂ := by
      rw [hq, List.erase_append_right _ ht1, List.erase_cons_head]
    change Mem.Path _ _ ((queue q').erase t) _
    rw [herase, path_front]
    constructor
    · apply hp1.retarget hn1 nofun
      intro u hu
      exact front_ne_entry fun hm => hd hu (List.mem_cons_of_mem t hm)
    · apply path_tail
      apply (path_tail hp2).path hn2
      intro u hu he
      rcases hp1.prev_mem with hb | ⟨v, hv, hb⟩
      · cases hb.symm.trans he
      · cases hb.symm.trans he
        exact hd hv (List.mem_cons_of_mem t hu)
  · rw [Links.delete_eq_self hl (by rw [ht]; exact fun hs => he (Option.some.inj hs).symm)]
    apply (h q' hS').off hl
    · exact fun hx => he (hx.unique hprev)
    · exact fun hy => he (hy.unique hfront)

theorem Mem.Holds.delete (h : m.Holds queue) (hl : Links.Linked loc queue) (ht : loc t = some q) :
    (m.delete (.entry t)).Holds (Links.delete queue t) :=
  holds_iff.2 ((holds_iff.1 h).delete hl ht trivial)

/-- An entry is linked into a queue in front of any of its nodes. -/
theorem Mem.HoldsOn.insert (h : m.HoldsOn S queue) (hl : Links.Linked loc queue)
    (ht : loc t = none) (hS : S q) (hq : queue q = l₁ ++ l₂) :
    (m.insertPrev (front q l₂) (.entry t)).HoldsOn S
      (Function.update queue q (l₁ ++ t :: l₂)) := by
  have hn := hl.nodup q
  rw [hq] at hn
  obtain ⟨hn1, hn2, hd⟩ := List.nodup_append'.1 hn
  have hon (u : ι) (hu : u ∈ l₁ ++ l₂) : loc u = some q := hl.mem.1 (hq ▸ hu)
  have hoff (q' : ρ) : ¬ (Node.entry t : Node ρ ι).On loc q' := by
    intro he
    cases ht.symm.trans he
  have hnew : t ∉ l₁ ++ l₂ := fun hm => hoff q (hon t hm)
  have hp := h q hS
  rw [hq, path_front] at hp
  obtain ⟨hp1, hp2⟩ := hp
  have hprev := hp1.prev_on fun u hu => hon u (List.mem_append_left _ hu)
  have hfront := front_on (q := q) fun u hu => hon u (List.mem_append_right l₁ hu)
  have hne : m.prev (front q l₂) ≠ .entry t := by
    intro he
    exact hoff q (he ▸ hprev)
  rw [insertPrev_eq _ hne]
  intro q' hS'
  by_cases he : q' = q
  · subst he
    rw [Function.update_self, path_append]
    have hnew1 (u : ι) (hu : u ∈ l₁) : (Node.entry t : Node ρ ι) ≠ .entry u := by
      rintro ⟨⟩
      exact hnew (List.mem_append_left _ hu)
    have hnew2 (u : ι) (hu : u ∈ l₂) : (Node.entry t : Node ρ ι) ≠ .entry u := by
      rintro ⟨⟩
      exact hnew (List.mem_append_right _ hu)
    have hnewh : (Node.entry t : Node ρ ι) ≠ .head q' := nofun
    have hp1' := hp1.retarget (c := .entry t) hn1 nofun hnew1
    constructor
    · apply hp1'.join hnewh hnew1
      · exact front_ne_entry fun hm => hnew (List.mem_append_right _ hm)
      · exact fun u hu => front_ne_entry fun hm => hd hu hm
    · refine (hp2.join ?_ hnewh hnew2).path hn2 hnew2
      intro u hu he
      rcases hp1.prev_mem with hb | ⟨v, hv, hb⟩
      · cases hb.symm.trans he
      · cases hb.symm.trans he
        exact hd hv hu
  · rw [Function.update_of_ne he]
    apply Path.off _ hl
    · exact hoff q'
    · exact fun hy => he (hy.unique hfront)
    · apply (h q' hS').off hl
      · exact fun hx => he (hx.unique hprev)
      · exact hoff q'

theorem Mem.Holds.insert (h : m.Holds queue) (hl : Links.Linked loc queue) (ht : loc t = none)
    (hq : queue q = l₁ ++ l₂) :
    (m.insertPrev (front q l₂) (.entry t)).Holds (Function.update queue q (l₁ ++ t :: l₂)) :=
  holds_iff.2 ((holds_iff.1 h).insert hl ht trivial hq)

/-- `queue_initialize`. -/
def Mem.initHead (m : Mem ρ ι) (p : Node ρ ι) : Mem ρ ι :=
  let m := { m with prev := Function.update m.prev p p }
  { m with next := Function.update m.next p p }

theorem Mem.HoldsOn.initHead (h : m.HoldsOn S queue) (hq : queue q = []) :
    (m.initHead (.head q)).HoldsOn (fun p => S p ∨ p = q) queue := by
  intro p hp
  by_cases he : p = q
  · rw [he, hq]
    exact ⟨Function.update_self .., Function.update_self ..⟩
  · have hne : (Node.head p : Node ρ ι) ≠ .head q := fun h => he (Node.head.inj h)
    have hent (t : ι) : (Node.entry t : Node ρ ι) ≠ .head q := nofun
    have hnext (x : Node ρ ι) (hx : x ≠ .head q) : (m.initHead (.head q)).next x = m.next x :=
      Function.update_of_ne hx ..
    have hprev (x : Node ρ ι) (hx : x ≠ .head q) : (m.initHead (.head q)).prev x = m.prev x :=
      Function.update_of_ne hx ..
    apply (h p (hp.resolve_right he)).congr
    · exact ⟨hnext _ hne, fun t _ => hnext _ (hent t)⟩
    · exact ⟨hprev _ hne, fun t _ => hprev _ (hent t)⟩

/-- `queue_delete_next`. -/
def Mem.deleteNext (m : Mem ρ ι) (p : Node ρ ι) : Mem ρ ι × Node ρ ι :=
  let e := m.next p
  let m := { m with next := Function.update m.next p (m.next e) }
  ({ m with prev := Function.update m.prev (m.next e) p }, e)

/-- The entry is linked behind the head. -/
theorem Mem.HoldsOn.deleteNext (h : m.HoldsOn S queue) (hS : S q) (hq : queue q = t :: l) :
    m.deleteNext (.head q) = (m.delete (.entry t), .entry t) := by
  have hp := h q hS
  rw [hq] at hp
  have hne : (Node.entry t : Node ρ ι) ≠ .head q := nofun
  have hprev : m.prev (.entry t) = .head q := hp.2.1
  unfold Mem.deleteNext Mem.delete
  simp only [hp.1, hprev, Function.update_of_ne hne]

end

section
variable [DecidableEq ρ]

/-- The first entry of a queue that meets a condition, from a node on: the head where there is none. It
has no result at the head of another queue, or where the steps are used up. -/
def Mem.scan (m : Mem ρ ι) (q : ρ) (p : ι → Option Bool) : Nat → Node ρ ι → Option (Node ρ ι)
  | 0, _ => none
  | _ + 1, .head q' => if q' = q then some (.head q') else none
  | n + 1, .entry t =>
    match p t with
    | none => none
    | some true => some (.entry t)
    | some false => m.scan q p n (m.next (.entry t))

theorem Mem.Path.scan {α : Type} {key : α → ι} {p : ι → Option Bool} {f : α → Bool} {l : List α}
    (h : m.Path a (l.map key) (.head q)) (hp : ∀ x ∈ l, p (key x) = some (f x))
    (hn : l.length < n) : m.scan q p n (m.next a) =
      some (front q ((l.dropWhile fun x => !f x).map key)) := by
  rw [h.next_front]
  induction l generalizing a n with
  | nil =>
    obtain ⟨n, rfl⟩ := Nat.exists_eq_add_of_lt hn
    exact if_pos rfl
  | cons x l ih =>
    obtain ⟨n, rfl⟩ := Nat.exists_eq_add_of_lt hn
    change Mem.scan m q p (_ + 1) (.entry (key x)) = _
    rw [Mem.scan, hp x List.mem_cons_self, List.dropWhile_cons]
    cases f x with
    | true => rfl
    | false =>
      rw [h.2.2.next_front]
      apply ih h.2.2 fun y hy => hp y (List.mem_cons_of_mem x hy)
      rw [List.length_cons]
      omega

end

end

end Queue
