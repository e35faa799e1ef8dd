import Mathlib.Data.Finset.Card
import Mathlib.Logic.Function.Basic

/-!
Binary heaps in an array with positions 1 to `last` and a back pointer from every entry to its
position. Operations move a hole: every lemma about the order speaks of the heap with one
position left out.
-/

namespace BinHeap
set_option autoImplicit true

structure Node (κ ι : Type) where
  key : κ
  id : ι

structure Heap (κ ι : Type) where
  last : Nat
  node : Nat → Node κ ι
  index : ι → Nat

/-- A total preorder given by a decision procedure. -/
structure TotalPre (le : κ → κ → Bool) : Prop where
  total : ∀ a b, le a b = true ∨ le b a = true
  trans : ∀ a b c, le a b = true → le b c = true → le a c = true

theorem TotalPre.refl {κ : Type} {le : κ → κ → Bool} (ht : TotalPre le) (a : κ) :
    le a a = true := by
  rcases ht.total a a with h | h <;> exact h

theorem TotalPre.of_not (ht : TotalPre le) (h : le a b = false) : le b a = true := by
  rcases ht.total a b with hab | hba
  · rw [h] at hab
    cases hab
  · exact hba

section
variable {κ ι : Type} [DecidableEq ι]

/-- Write an entry into a position and point the entry back to it. -/
def Heap.place (h : Heap κ ι) (i : Nat) (n : Node κ ι) : Heap κ ι :=
  { h with node := Function.update h.node i n, index := Function.update h.index n.id i }

@[simp] theorem place_last (h : Heap κ ι) (i : Nat) (n : Node κ ι) :
    (h.place i n).last = h.last := rfl

@[simp] theorem place_node_self (h : Heap κ ι) (i : Nat) (n : Node κ ι) :
    (h.place i n).node i = n := Function.update_self ..

theorem place_node_ne (h : Heap κ ι) (n : Node κ ι) {i j : Nat} (hj : j ≠ i) :
    (h.place i n).node j = h.node j := Function.update_of_ne hj ..

@[simp] theorem place_index_self (h : Heap κ ι) (i : Nat) (n : Node κ ι) :
    (h.place i n).index n.id = i := Function.update_self ..

theorem place_index_ne (h : Heap κ ι) (n : Node κ ι) {p : ι} (i : Nat) (hp : p ≠ n.id) :
    (h.place i n).index p = h.index p := Function.update_of_ne hp ..

/-- The back pointers are right. -/
def WF (h : Heap κ ι) : Prop := ∀ i, 1 ≤ i → i ≤ h.last → h.index (h.node i).id = i

/-- The key under which an identity is registered. -/
def Heap.lookup (h : Heap κ ι) (p : ι) : Option κ :=
  if 1 ≤ h.index p ∧ h.index p ≤ h.last ∧ (h.node (h.index p)).id = p
  then some (h.node (h.index p)).key else none

theorem lookup_eq_some {h : Heap κ ι} {p : ι} {k : κ} : h.lookup p = some k ↔
    1 ≤ h.index p ∧ h.index p ≤ h.last ∧ h.node (h.index p) = ⟨k, p⟩ := by
  simp only [Heap.lookup, Option.ite_none_right_eq_some, Option.some.injEq]
  constructor
  · rintro ⟨⟨hl, hu, hp⟩, hk⟩
    refine ⟨hl, hu, ?_⟩
    cases hn : h.node (h.index p) with
    | mk key id =>
      rw [hn] at hp hk
      subst hp hk
      rfl
  · rintro ⟨hl, hu, hn⟩
    rw [hn]
    exact ⟨⟨hl, hu, rfl⟩, rfl⟩

theorem WF.lookup_node {h : Heap κ ι} (hw : WF h) (hl : 1 ≤ i) (hu : i ≤ h.last) :
    h.lookup (h.node i).id = some (h.node i).key := by
  rw [lookup_eq_some, hw i hl hu]
  exact ⟨hl, hu, rfl⟩

/-- The heap holds exactly the entries of the map `m`. -/
structure Holds (h : Heap κ ι) (m : ι → Option κ) : Prop where
  at_pos : ∀ i, 1 ≤ i → i ≤ h.last →
    h.index (h.node i).id = i ∧ m (h.node i).id = some (h.node i).key
  in_heap : ∀ p k, m p = some k →
    1 ≤ h.index p ∧ h.index p ≤ h.last ∧ h.node (h.index p) = ⟨k, p⟩

theorem WF.holds {h : Heap κ ι} (hw : WF h) : Holds h h.lookup :=
  ⟨fun i hl hu => ⟨hw i hl hu, hw.lookup_node hl hu⟩, fun _ _ => lookup_eq_some.1⟩

/-- The entries, whatever their positions are. -/
def Heap.entries (h : Heap κ ι) : Multiset (κ × ι) :=
  (Multiset.range h.last).map fun i => ((h.node (i + 1)).key, (h.node (i + 1)).id)

omit [DecidableEq ι] in
theorem Holds.mem_entries {h : Heap κ ι} (hh : Holds h m) :
    (k, p) ∈ h.entries ↔ m p = some k := by
  unfold Heap.entries
  simp only [Multiset.mem_map, Multiset.mem_range, Prod.mk.injEq]
  constructor
  · rintro ⟨i, hi, rfl, rfl⟩
    exact (hh.at_pos (i + 1) (Nat.le_add_left ..) hi).2
  · intro hp
    obtain ⟨h1, h2, hn⟩ := hh.in_heap p k hp
    refine ⟨h.index p - 1, by omega, ?_⟩
    rw [Nat.sub_add_cancel h1, hn]
    exact ⟨rfl, rfl⟩

omit [DecidableEq ι] in
theorem Holds.nodup_entries {h : Heap κ ι} (hh : Holds h m) : h.entries.Nodup := by
  unfold Heap.entries
  apply Multiset.Nodup.map_on
  · intro i hi j hj he
    have hx := hh.at_pos (i + 1) (Nat.le_add_left ..) (Multiset.mem_range.1 hi)
    have hy := hh.at_pos (j + 1) (Nat.le_add_left ..) (Multiset.mem_range.1 hj)
    have hid := (Prod.mk.inj he).2
    rw [hid, hy.1] at hx
    omega
  · exact Multiset.nodup_range _

/-- Registering one more identity adds one entry. -/
theorem Holds.entries_cons {h h' : Heap κ ι} (hh : Holds h m)
    (hh' : Holds h' (Function.update m p (some k))) (hp : m p = none) :
    h'.entries = (k, p) ::ₘ h.entries := by
  have hn : (k, p) ∉ h.entries := by
    intro hm
    rw [hh.mem_entries, hp] at hm
    cases hm
  apply (Multiset.Nodup.ext hh'.nodup_entries (Multiset.nodup_cons.2 ⟨hn, hh.nodup_entries⟩)).2
  rintro ⟨l, q⟩
  rw [hh'.mem_entries, Multiset.mem_cons, hh.mem_entries]
  by_cases hq : q = p
  · subst hq
    rw [Function.update_self, hp, Option.some.injEq]
    simp only [Prod.mk.injEq, and_true, reduceCtorEq, or_false]
    exact eq_comm
  · rw [Function.update_of_ne hq]
    simp only [Prod.mk.injEq, hq, and_false, false_or]

theorem Holds.lookup_eq {h : Heap κ ι} (hh : Holds h m) : h.lookup = m := by
  funext p
  cases hm : m p with
  | some k => exact lookup_eq_some.2 (hh.in_heap p k hm)
  | none =>
    cases hl : h.lookup p with
    | none => rfl
    | some k =>
      obtain ⟨h1, h2, hn⟩ := lookup_eq_some.1 hl
      have he := (hh.at_pos _ h1 h2).2
      rw [hn, hm] at he
      cases he

/-- The heap without the position `hole` holds the entries of `m` other than `e`. -/
structure Sifting (h : Heap κ ι) (hole : Nat) (e : Node κ ι) (m : ι → Option κ) : Prop where
  pos : 1 ≤ hole
  le_last : hole ≤ h.last
  at_pos : ∀ i, 1 ≤ i → i ≤ h.last → i ≠ hole → h.index (h.node i).id = i ∧
    m (h.node i).id = some (h.node i).key ∧ (h.node i).id ≠ e.id
  held : m e.id = some e.key
  in_heap : ∀ p k, m p = some k → p ≠ e.id →
    1 ≤ h.index p ∧ h.index p ≤ h.last ∧ h.index p ≠ hole ∧ h.node (h.index p) = ⟨k, p⟩

theorem Sifting.move {h : Heap κ ι} (hs : Sifting h hole e m) (hl : 1 ≤ j) (hu : j ≤ h.last)
    (hj : j ≠ hole) : Sifting (h.place hole (h.node j)) j e m where
  pos := hl
  le_last := hu
  held := hs.held
  at_pos i hi hi' hij := by
    obtain ⟨hjx, hjm, hje⟩ := hs.at_pos j hl hu hj
    by_cases hih : i = hole
    · subst hih
      rw [place_node_self]
      exact ⟨place_index_self .., hjm, hje⟩
    · rw [place_node_ne _ _ hih]
      obtain ⟨hix, him, hie⟩ := hs.at_pos i hi hi' hih
      refine ⟨?_, him, hie⟩
      rw [place_index_ne _ _ _ ?_, hix]
      intro he
      rw [he, hjx] at hix
      exact hij hix.symm
  in_heap p k hp hpe := by
    obtain ⟨h1, h2, h3, hn⟩ := hs.in_heap p k hp hpe
    by_cases hpj : p = (h.node j).id
    · have hx := (hs.at_pos j hl hu hj).1
      rw [← hpj] at hx
      rw [hx] at hn
      rw [hpj, place_index_self, place_node_self]
      exact ⟨hs.pos, hs.le_last, hj.symm, by rw [hn]⟩
    · rw [place_index_ne _ _ _ hpj, place_node_ne _ _ h3]
      refine ⟨h1, h2, ?_, hn⟩
      intro he
      rw [he] at hn
      exact hpj (congrArg Node.id hn).symm

theorem Sifting.finish {h : Heap κ ι} (hs : Sifting h hole e m) : Holds (h.place hole e) m where
  at_pos i hi hi' := by
    by_cases hih : i = hole
    · subst hih
      rw [place_node_self]
      exact ⟨place_index_self .., hs.held⟩
    · obtain ⟨hix, him, hie⟩ := hs.at_pos i hi hi' hih
      rw [place_node_ne _ _ hih, place_index_ne _ _ _ hie]
      exact ⟨hix, him⟩
  in_heap p k hp := by
    by_cases hpe : p = e.id
    · subst hpe
      have hk : e.key = k := Option.some.inj (hs.held.symm.trans hp)
      rw [place_index_self, place_node_self]
      exact ⟨hs.pos, hs.le_last, by rw [← hk]⟩
    · obtain ⟨h1, h2, h3, hn⟩ := hs.in_heap p k hp hpe
      rw [place_index_ne _ _ _ hpe, place_node_ne _ _ h3]
      exact ⟨h1, h2, hn⟩

/-- A heap grown by one free position at its end. -/
theorem Holds.grow {h : Heap κ ι} (hh : Holds h m) (hp : m e.id = none) :
    Sifting { h with last := h.last + 1 } (h.last + 1) e
      (Function.update m e.id (some e.key)) where
  pos := Nat.le_add_left ..
  le_last := Nat.le_refl _
  held := Function.update_self ..
  at_pos i hi hi' hih := by
    have hu : i ≤ h.last := by simp only at hi'; omega
    obtain ⟨hix, him⟩ := hh.at_pos i hi hu
    have hne : (h.node i).id ≠ e.id := by
      intro he
      rw [he, hp] at him
      cases him
    exact ⟨hix, by rw [Function.update_of_ne hne, him], hne⟩
  in_heap p k hpk hpe := by
    rw [Function.update_of_ne hpe] at hpk
    obtain ⟨h1, h2, hn⟩ := hh.in_heap p k hpk
    exact ⟨h1, Nat.le_succ_of_le h2, Nat.ne_of_lt (Nat.lt_succ_of_le h2), hn⟩

/-- A heap shrunk by its last position, with a hole where the entry of `p` was. -/
theorem Holds.shrink {h : Heap κ ι} (hh : Holds h m) (hp : m p = some k)
    (hn : h.index p ≠ h.last) :
    Sifting { h with last := h.last - 1 } (h.index p) (h.node h.last)
      (Function.update m p none) := by
  obtain ⟨h1, h2, hnode⟩ := hh.in_heap p k hp
  obtain ⟨hlx, hlm⟩ := hh.at_pos h.last (by omega) (Nat.le_refl _)
  have hlast : (h.node h.last).id ≠ p := by
    intro he
    rw [he] at hlx
    exact hn hlx
  refine ⟨h1, by simp only; omega, ?_, by rw [Function.update_of_ne hlast, hlm], ?_⟩
  · intro i hi hi' hih
    have hu : i < h.last := by simp only at hi'; omega
    obtain ⟨hix, him⟩ := hh.at_pos i hi hu.le
    have hip : (h.node i).id ≠ p := by
      intro he
      rw [he] at hix
      exact hih hix.symm
    refine ⟨hix, by rw [Function.update_of_ne hip, him], ?_⟩
    intro he
    rw [he, hlx] at hix
    omega
  · intro q l hq hqe
    have hqp : q ≠ p := by
      rintro rfl
      simp only [Function.update_self, reduceCtorEq] at hq
    rw [Function.update_of_ne hqp] at hq
    obtain ⟨h3, h4, hqn⟩ := hh.in_heap q l hq
    refine ⟨h3, ?_, ?_, hqn⟩
    · have hne : h.index q ≠ h.last := by
        intro he
        rw [he] at hqn
        exact hqe (congrArg Node.id hqn).symm
      simp only
      omega
    · intro he
      rw [he, hnode] at hqn
      exact hqp (congrArg Node.id hqn).symm

/-- Dropping the last position removes its entry. -/
theorem Holds.drop_last {h : Heap κ ι} (hh : Holds h m) (hp : m p = some k)
    (hn : h.index p = h.last) :
    Holds { h with last := h.last - 1 } (Function.update m p none) where
  at_pos i hi hi' := by
    obtain ⟨h1, _, _⟩ := hh.in_heap p k hp
    have hu : i < h.last := by simp only at hi'; omega
    obtain ⟨hix, him⟩ := hh.at_pos i hi hu.le
    have hip : (h.node i).id ≠ p := by
      intro he
      rw [he] at hix
      omega
    exact ⟨hix, by rw [Function.update_of_ne hip, him]⟩
  in_heap q l hq := by
    have hqp : q ≠ p := by
      rintro rfl
      simp only [Function.update_self, reduceCtorEq] at hq
    rw [Function.update_of_ne hqp] at hq
    obtain ⟨h3, h4, hqn⟩ := hh.in_heap q l hq
    obtain ⟨_, _, hpn⟩ := hh.in_heap p k hp
    refine ⟨h3, ?_, hqn⟩
    have hne : h.index q ≠ h.last := by
      intro he
      rw [he, ← hn, hpn] at hqn
      exact hqp (congrArg Node.id hqn).symm
    simp only
    omega

end

/-- Every parent is at or before its children. -/
def Ordered (le : κ → κ → Bool) (h : Heap κ ι) : Prop :=
  ∀ i, 1 < i → i ≤ h.last → le (h.node (i / 2)).key (h.node i).key = true

/-- The order of the pairs that do not touch the hole. -/
def OrderedExcept (le : κ → κ → Bool) (h : Heap κ ι) (hole : Nat) : Prop :=
  ∀ i, 1 < i → i ≤ h.last → i ≠ hole → i / 2 ≠ hole →
    le (h.node (i / 2)).key (h.node i).key = true

/-- The parent of the hole is at or before the children of the hole. -/
def Bridged (le : κ → κ → Bool) (h : Heap κ ι) (hole : Nat) : Prop :=
  1 < hole → ∀ c, c / 2 = hole → c ≤ h.last → le (h.node (hole / 2)).key (h.node c).key = true

/-- What moving the hole upwards for the key `k` needs of the order. -/
structure UpOrder (le : κ → κ → Bool) (h : Heap κ ι) (hole : Nat) (k : κ) : Prop where
  except : OrderedExcept le h hole
  bridge : Bridged le h hole
  below : ∀ c, c / 2 = hole → c ≤ h.last → le k (h.node c).key = true

/-- What moving the hole downwards for the key `k` needs of the order. -/
structure DownOrder (le : κ → κ → Bool) (h : Heap κ ι) (hole : Nat) (k : κ) : Prop where
  except : OrderedExcept le h hole
  bridge : Bridged le h hole
  above : 1 < hole → le (h.node (hole / 2)).key k = true

section
variable {κ ι : Type} [DecidableEq ι] {le : κ → κ → Bool}

theorem UpOrder.move {h : Heap κ ι} (ht : TotalPre le) (o : UpOrder le h hole k)
    (hl : 1 < hole) (hu : hole ≤ h.last) (hk : le (h.node (hole / 2)).key k = false) :
    UpOrder le (h.place hole (h.node (hole / 2))) (hole / 2) k := by
  have hgrand (hg : 1 < hole / 2) :
      le (h.node (hole / 2 / 2)).key (h.node (hole / 2)).key = true :=
    o.except (hole / 2) hg (by omega) (by omega) (by omega)
  refine ⟨?_, ?_, ?_⟩
  · intro i hi hi' hiq hpi
    have hih : i ≠ hole := by rintro rfl; exact hpi rfl
    rw [place_node_ne _ _ hih]
    by_cases hph : i / 2 = hole
    · rw [hph, place_node_self]
      exact o.bridge hl i hph hi'
    · rw [place_node_ne _ _ hph]
      exact o.except i hi hi' hih hph
  · intro hg c hc hc'
    rw [place_node_ne _ _ (by omega : hole / 2 / 2 ≠ hole)]
    by_cases hch : c = hole
    · subst hch
      rw [place_node_self]
      exact hgrand hg
    · rw [place_node_ne _ _ hch]
      have hcq := o.except c (by omega) hc' hch (by omega)
      rw [hc] at hcq
      exact ht.trans _ _ _ (hgrand hg) hcq
  · intro c hc hc'
    by_cases hch : c = hole
    · subst hch
      rw [place_node_self]
      exact ht.of_not hk
    · rw [place_node_ne _ _ hch]
      have hcq := o.except c (by omega) hc' hch (by omega)
      rw [hc] at hcq
      exact ht.trans _ _ _ (ht.of_not hk) hcq

theorem UpOrder.finish {h : Heap κ ι} (o : UpOrder le h hole e.key) (hp : 1 ≤ hole)
    (hstop : 1 < hole → le (h.node (hole / 2)).key e.key = true) :
    Ordered le (h.place hole e) := by
  intro i hi hi'
  by_cases hih : i = hole
  · subst hih
    rw [place_node_self, place_node_ne _ _ (by omega : i / 2 ≠ i)]
    exact hstop hi
  · rw [place_node_ne _ _ hih]
    by_cases hph : i / 2 = hole
    · rw [hph, place_node_self]
      exact o.below i hph hi'
    · rw [place_node_ne _ _ hph]
      exact o.except i hi hi' hih hph

/-- The hole moves to the child that is at or before its sibling. -/
theorem DownOrder.move {h : Heap κ ι} (ht : TotalPre le) (o : DownOrder le h hole k)
    (hp : 1 ≤ hole) (hc : c / 2 = hole) (hu : c ≤ h.last)
    (hmin : ∀ d, d / 2 = hole → d ≤ h.last → le (h.node c).key (h.node d).key = true)
    (hk : le k (h.node c).key = false) :
    DownOrder le (h.place hole (h.node c)) c k := by
  have hch : c ≠ hole := by omega
  refine ⟨?_, ?_, ?_⟩
  · intro i hi hi' hic hpi
    by_cases hih : i = hole
    · subst hih
      rw [place_node_self, place_node_ne _ _ (by omega : i / 2 ≠ i)]
      exact o.bridge hi c hc hu
    · rw [place_node_ne _ _ hih]
      by_cases hph : i / 2 = hole
      · rw [hph, place_node_self]
        exact hmin i hph hi'
      · rw [place_node_ne _ _ hph]
        exact o.except i hi hi' hih hph
  · intro _ d hd hd'
    rw [hc, place_node_self, place_node_ne _ _ (by omega : d ≠ hole)]
    have hcd := o.except d (by omega) hd' (by omega) (by omega)
    rwa [hd] at hcd
  · intro _
    rw [hc, place_node_self]
    exact ht.of_not hk

theorem DownOrder.finish {h : Heap κ ι} (o : DownOrder le h hole e.key) (hp : 1 ≤ hole)
    (hstop : ∀ c, c / 2 = hole → c ≤ h.last → le e.key (h.node c).key = true) :
    Ordered le (h.place hole e) :=
  UpOrder.finish ⟨o.except, o.bridge, hstop⟩ hp o.above

end

theorem Holds.wf {h : Heap κ ι} {m : ι → Option κ} (hh : Holds h m) : WF h :=
  fun i hl hu => (hh.at_pos i hl hu).1

theorem Ordered.except {h : Heap κ ι} (ho : Ordered le h) (hole : Nat) :
    OrderedExcept le h hole := fun i hi hi' _ _ => ho i hi hi'

theorem Ordered.bridge {h : Heap κ ι} (ht : TotalPre le) (ho : Ordered le h)
    (hu : hole ≤ h.last) : Bridged le h hole := by
  intro hl c hc hc'
  have hcp := ho c (by omega) hc'
  rw [hc] at hcp
  exact ht.trans _ _ _ (ho hole hl hu) hcp

theorem Ordered.shrink {h : Heap κ ι} (ho : Ordered le h) :
    Ordered le { h with last := h.last - 1 } :=
  fun i hi hi' => ho i hi (by simp only at hi'; omega)

/-- The root of an ordered heap is at or before every entry. -/
theorem Ordered.root {h : Heap κ ι} (ht : TotalPre le) (ho : Ordered le h) (hl : 1 ≤ i)
    (hu : i ≤ h.last) : le (h.node 1).key (h.node i).key = true := by
  induction i using Nat.strongRecOn with
  | ind i ih =>
    by_cases h1 : i = 1
    · subst h1
      exact ht.refl _
    · exact ht.trans _ _ _ (ih (i / 2) (by omega) (by omega) (by omega)) (ho i (by omega) hu)

/-- A change of the order that agrees on the registered keys keeps the heap ordered. -/
theorem Ordered.congr {h : Heap κ ι} (ho : Ordered le h)
    (he : ∀ i j, 1 ≤ i → i ≤ h.last → 1 ≤ j → j ≤ h.last →
      le (h.node i).key (h.node j).key = true → le' (h.node i).key (h.node j).key = true) :
    Ordered le' h :=
  fun i hi hi' => he _ _ (by omega) (by omega) (by omega) hi' (ho i hi hi')

end BinHeap
