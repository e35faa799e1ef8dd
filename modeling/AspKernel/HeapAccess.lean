import AspKernel.TimeEventInv

/-! The operations of the time event heap with every access to `tmevt_heap` checked. -/

namespace AspKernel
open BinHeap
set_option autoImplicit true

/-- `TMEVT_NODE(index)`, where the positions 1 to `lim` may be accessed. -/
def nodeAt (lim : Nat) (h : TmevtHeap) (index : Nat) : Option (Node EVTTIM TmevtbPtr) :=
  if 1 ≤ index ∧ index ≤ lim then some (h.node index) else none

/-- Write `TMEVT_NODE(index)` and the back pointer of the entry written. -/
def placeAt (lim : Nat) (h : TmevtHeap) (index : Nat) (e : Node EVTTIM TmevtbPtr) :
    Option TmevtHeap :=
  if 1 ≤ index ∧ index ≤ lim then some (h.place index e) else none

/-- The loop of `tmevt_up`; there is no outcome where it has not ended after the given number of
steps. -/
def tmevtUpAt (minTime : EVTTIM) (lim : Nat) :
    Nat → TmevtHeap → Nat → EVTTIM → Option (TmevtHeap × Nat)
  | 0, _, _, _ => none
  | n + 1, h, index, time =>
    if 1 < index then do
      let parent := index / 2
      let e ← nodeAt lim h parent
      if evttimLe minTime e.key time then some (h, index)
      else
        let h ← placeAt lim h index e
        tmevtUpAt minTime lim n h parent time
    else some (h, index)

/-- The child of `index` that the loop of `tmevt_down` goes on with. -/
def tmevtChildAt (minTime : EVTTIM) (lim : Nat) (h : TmevtHeap) (index : Nat) : Option Nat :=
  let child := index * 2
  if child + 1 ≤ h.last then do
    let r ← nodeAt lim h (child + 1)
    let l ← nodeAt lim h child
    some (if evttimLt minTime r.key l.key then child + 1 else child)
  else some child

/-- The loop of `tmevt_down`. -/
def tmevtDownAt (minTime : EVTTIM) (lim : Nat) :
    Nat → TmevtHeap → Nat → EVTTIM → Option (TmevtHeap × Nat)
  | 0, _, _, _ => none
  | n + 1, h, index, time =>
    if index * 2 ≤ h.last then do
      let child ← tmevtChildAt minTime lim h index
      let e ← nodeAt lim h child
      if evttimLe minTime time e.key then some (h, index)
      else
        let h ← placeAt lim h index e
        tmevtDownAt minTime lim n h child time
    else some (h, index)

/-- `tmevtb_insert`, with `n` steps for its loop. -/
def tmevtbInsertAt (minTime : EVTTIM) (lim n : Nat) (h : TmevtHeap) (p : TmevtbPtr)
    (time : EVTTIM) : Option TmevtHeap := do
  let h := { h with last := h.last + 1 }
  let (h, index) ← tmevtUpAt minTime lim n h h.last time
  placeAt lim h index ⟨time, p⟩

/-- The condition under which `tmevtb_delete` searches upwards. -/
def tmevtRisesAt (minTime : EVTTIM) (lim : Nat) (h : TmevtHeap) (index : Nat) (time : EVTTIM) :
    Option Bool :=
  if 1 < index then do
    let e ← nodeAt lim h (index / 2)
    some (evttimLt minTime time e.key)
  else some false

/-- `tmevtb_delete`. The last entry is read again where it is moved, after the loop. -/
def tmevtbDeleteAt (minTime : EVTTIM) (lim n : Nat) (h : TmevtHeap) (p : TmevtbPtr) :
    Option TmevtHeap := do
  let index := h.index p
  let time := (← nodeAt lim h h.last).key
  let h := { h with last := h.last - 1 }
  if h.last = 0 then some h
  else
    let rises ← tmevtRisesAt minTime lim h index time
    let (h, index) ←
      if rises then do
        let e ← nodeAt lim h (index / 2)
        let h ← placeAt lim h index e
        tmevtUpAt minTime lim n h (index / 2) time
      else tmevtDownAt minTime lim n h index time
    let e ← nodeAt lim h (h.last + 1)
    placeAt lim h index e

/-- `tmevtb_delete_top`. -/
def tmevtbDeleteTopAt (minTime : EVTTIM) (lim n : Nat) (h : TmevtHeap) : Option TmevtHeap := do
  let time := (← nodeAt lim h h.last).key
  let h := { h with last := h.last - 1 }
  if h.last = 0 then some h
  else
    let (h, index) ← tmevtDownAt minTime lim n h 1 time
    let e ← nodeAt lim h (h.last + 1)
    placeAt lim h index e

section
variable {m : EVTTIM} {h : TmevtHeap} {f : TmevtbPtr → Option EVTTIM}

theorem nodeAt_eq (h1 : 1 ≤ i) (h2 : i ≤ lim) : nodeAt lim h i = some (h.node i) :=
  if_pos ⟨h1, h2⟩

theorem placeAt_eq (h1 : 1 ≤ i) (h2 : i ≤ lim) (e : Node EVTTIM TmevtbPtr) :
    placeAt lim h i e = some (h.place i e) := if_pos ⟨h1, h2⟩

theorem tmevtUpAt_eq (h1 : 1 ≤ i) (h2 : i ≤ lim) (hn : i ≤ n) (hk : i ≤ k) (time : EVTTIM) :
    tmevtUpAt m lim n h i time = some (tmevtUp m k h i time) := by
  induction n generalizing h i k with
  | zero => omega
  | succ n ih =>
    obtain ⟨k, rfl⟩ : ∃ j, k = j + 1 := ⟨k - 1, by omega⟩
    unfold tmevtUpAt tmevtUp
    by_cases hi : 1 < i
    · have hp : nodeAt lim h (i / 2) = some (h.node (i / 2)) := nodeAt_eq (by omega) (by omega)
      simp only [if_pos hi, hp, Option.bind_eq_bind, Option.bind_some]
      split
      · rfl
      · rw [placeAt_eq h1 h2, Option.bind_some]
        exact ih (by omega) (by omega) (by omega) (by omega)
    · rw [if_neg hi, if_neg hi]

theorem tmevtChildAt_eq (h1 : 1 ≤ i) (hl : h.last ≤ lim) :
    tmevtChildAt m lim h i = some (tmevtChild m h i) := by
  unfold tmevtChildAt tmevtChild
  simp only
  by_cases hc : i * 2 + 1 ≤ h.last
  · have hr : nodeAt lim h (i * 2 + 1) = some (h.node (i * 2 + 1)) :=
      nodeAt_eq (by omega) (by omega)
    have hl : nodeAt lim h (i * 2) = some (h.node (i * 2)) := nodeAt_eq (by omega) (by omega)
    simp only [if_true, hr, hl, Option.bind_eq_bind, Option.bind_some, eq_true hc, true_and]
  · rw [if_neg hc, if_neg fun h => hc h.1]

theorem tmevtDownAt_eq (h1 : 1 ≤ i) (hl : h.last ≤ lim) (hn : h.last < i + n) (hp : 0 < n)
    (hk : h.last < i + k) (time : EVTTIM) :
    tmevtDownAt m lim n h i time = some (tmevtDown m k h i time) := by
  induction n generalizing h i k with
  | zero => omega
  | succ n ih =>
    unfold tmevtDownAt
    by_cases hi : i * 2 ≤ h.last
    · obtain ⟨k, rfl⟩ : ∃ j, k = j + 1 := ⟨k - 1, by omega⟩
      obtain ⟨hc, hcl, -⟩ := tmevtChild_spec (m := m) h hi
      unfold tmevtDown
      have he : nodeAt lim h (tmevtChild m h i) = some (h.node (tmevtChild m h i)) :=
        nodeAt_eq (by omega) (by omega)
      simp only [if_pos hi, tmevtChildAt_eq h1 hl, he, Option.bind_eq_bind, Option.bind_some]
      split
      · rfl
      · rw [placeAt_eq h1 (by omega), Option.bind_some]
        exact ih (by omega) hl (by rw [place_last]; omega) (by omega) (by rw [place_last]; omega)
    · rw [if_neg hi, tmevtDown_leaf m k h hi]

/-- What the search upwards changes: only entries up to the position it starts from. -/
theorem tmevtUp_frame (m : EVTTIM) (k : Nat) (h : TmevtHeap) (h1 : 1 ≤ i) (time : EVTTIM) :
    (tmevtUp m k h i time).1.last = h.last ∧
      (∀ j, i < j → (tmevtUp m k h i time).1.node j = h.node j) ∧
      1 ≤ (tmevtUp m k h i time).2 ∧ (tmevtUp m k h i time).2 ≤ i := by
  induction k generalizing h i with
  | zero => exact ⟨rfl, fun _ _ => rfl, h1, Nat.le_refl _⟩
  | succ k ih =>
    unfold tmevtUp
    split
    · simp only
      split
      · exact ⟨rfl, fun _ _ => rfl, h1, Nat.le_refl _⟩
      · obtain ⟨hl, hn, hp, hle⟩ := ih (h.place i (h.node (i / 2))) (i := i / 2) (by omega)
        refine ⟨hl, fun j hj => ?_, hp, by omega⟩
        rw [hn j (by omega), place_node_ne _ _ (by omega)]
    · exact ⟨rfl, fun _ _ => rfl, h1, Nat.le_refl _⟩

/-- What the search downwards changes: only entries up to the last one. -/
theorem tmevtDown_frame (m : EVTTIM) (k : Nat) (h : TmevtHeap) (i : Nat) (time : EVTTIM) :
    (tmevtDown m k h i time).1.last = h.last ∧
      (∀ j, h.last < j → (tmevtDown m k h i time).1.node j = h.node j) ∧
      i ≤ (tmevtDown m k h i time).2 ∧ (tmevtDown m k h i time).2 ≤ max i h.last := by
  induction k generalizing h i with
  | zero => exact ⟨rfl, fun _ _ => rfl, Nat.le_refl _, Nat.le_max_left ..⟩
  | succ k ih =>
    unfold tmevtDown
    split
    · rename_i hi
      obtain ⟨hc, hcl, -⟩ := tmevtChild_spec (m := m) h hi
      simp only
      split
      · exact ⟨rfl, fun _ _ => rfl, Nat.le_refl _, Nat.le_max_left ..⟩
      · obtain ⟨hl, hn, hp, hle⟩ :=
          ih (h.place i (h.node (tmevtChild m h i))) (tmevtChild m h i)
        rw [place_last] at hn hle hl
        refine ⟨hl, fun j hj => ?_, by omega, by omega⟩
        rw [hn j hj, place_node_ne _ _ (by omega)]
    · exact ⟨rfl, fun _ _ => rfl, Nat.le_refl _, Nat.le_max_left ..⟩

theorem tmevtbInsertAt_eq (hn : h.last < n) (p : TmevtbPtr) (time : EVTTIM) :
    tmevtbInsertAt m (h.last + 1) n h p time = some (tmevtbInsert m h p time) := by
  obtain ⟨-, -, hp, hle⟩ := tmevtUp_frame m (h.last + 1) { h with last := h.last + 1 }
    (Nat.le_add_left 1 h.last) time
  unfold tmevtbInsertAt tmevtbInsert
  simp only [Option.bind_eq_bind]
  rw [tmevtUpAt_eq (Nat.le_add_left ..) (Nat.le_refl _) hn (Nat.le_refl _), Option.bind_some]
  exact placeAt_eq hp hle _

theorem tmevtRisesAt_eq (h2 : i ≤ lim) (time : EVTTIM) : tmevtRisesAt m lim h i time =
    some (decide (1 < i ∧ evttimLt m time (h.node (i / 2)).key)) := by
  unfold tmevtRisesAt
  by_cases hi : 1 < i
  · have hp : nodeAt lim h (i / 2) = some (h.node (i / 2)) := nodeAt_eq (by omega) (by omega)
    simp only [if_true, hp, Option.bind_eq_bind, Option.bind_some, eq_true hi, true_and,
      Bool.decide_eq_true]
  · rw [if_neg hi, decide_eq_false fun h => hi h.1]

/-- The end of both deletions: the last entry is still where it was. -/
theorem placeLast_eq {r : TmevtHeap × Nat} (hl : r.1.last + 1 = h.last)
    (hn : r.1.node h.last = h.node h.last) (h1 : 1 ≤ r.2) (h2 : r.2 ≤ h.last) :
    ((nodeAt h.last r.1 (r.1.last + 1)).bind fun e => placeAt h.last r.1 r.2 e) =
      some (r.1.place r.2 (h.node h.last)) := by
  rw [hl, nodeAt_eq (by omega) (Nat.le_refl _), Option.bind_some, hn]
  exact placeAt_eq h1 h2 _

theorem TmevtInv.deleteAt_eq (hh : TmevtInv m h f) (hp : f p = some k) (hn : h.last < n) :
    tmevtbDeleteAt m h.last n h p = some (tmevtbDelete m h p) := by
  obtain ⟨h1, h2, -⟩ := hh.holds.in_heap p k hp
  have hlast : nodeAt h.last h h.last = some (h.node h.last) :=
    nodeAt_eq (by omega) (Nat.le_refl _)
  unfold tmevtbDeleteAt tmevtbDelete
  simp only [hlast, Option.bind_eq_bind, Option.bind_some]
  split
  · rfl
  · rename_i hz
    rw [tmevtRisesAt_eq h2, Option.bind_some]
    by_cases hr : 1 < h.index p ∧ evttimLt m (h.node h.last).key (h.node (h.index p / 2)).key = true
    · have hlt : h.index p ≠ h.last := by
        intro he
        have hle := hh.ordered (h.index p) hr.1 h2
        have hx := not_evttimLe_of_lt hr.2
        rw [he] at hle hx
        rw [hle] at hx
        cases hx
      have he : nodeAt h.last { h with last := h.last - 1 } (h.index p / 2) =
          some (h.node (h.index p / 2)) := nodeAt_eq (by omega) (by omega)
      obtain ⟨hl, hnode, hp1, hp2⟩ := tmevtUp_frame m (h.index p / 2)
        (Heap.place { h with last := h.last - 1 } (h.index p) (h.node (h.index p / 2)))
        (i := h.index p / 2) (by omega) (h.node h.last).key
      rw [if_pos hr, if_pos (decide_eq_true hr), he, Option.bind_some, placeAt_eq h1 h2,
        Option.bind_some, tmevtUpAt_eq (by omega) (by omega) (by omega) (Nat.le_refl _),
        Option.bind_some]
      refine placeLast_eq ?_ ?_ hp1 (by omega)
      · rw [hl, place_last]
        simp only
        omega
      · rw [hnode _ (by omega), place_node_ne _ _ hlt.symm]
    · obtain ⟨hl, hnode, hp1, hp2⟩ := tmevtDown_frame m (h.last - 1) { h with last := h.last - 1 }
        (h.index p) (h.node h.last).key
      simp only at hl hnode hp2
      rw [if_neg hr, if_neg fun hd => hr (of_decide_eq_true hd),
        tmevtDownAt_eq (k := h.last - 1) h1 (by simp only; omega) (by simp only; omega) (by omega)
          (by simp only; omega), Option.bind_some]
      exact placeLast_eq (by omega) (hnode _ (by omega)) (by omega) (by omega)

theorem tmevtbDeleteTopAt_eq (hl : 0 < h.last) (hn : h.last < n) :
    tmevtbDeleteTopAt m h.last n h = some (tmevtbDeleteTop m h) := by
  have hlast : nodeAt h.last h h.last = some (h.node h.last) := nodeAt_eq hl (Nat.le_refl _)
  unfold tmevtbDeleteTopAt tmevtbDeleteTop
  simp only [hlast, Option.bind_eq_bind, Option.bind_some]
  split
  · rfl
  · rename_i hz
    obtain ⟨hr, hnode, hp1, hp2⟩ := tmevtDown_frame m (h.last - 1) { h with last := h.last - 1 } 1
      (h.node h.last).key
    simp only at hr hnode hp2
    rw [tmevtDownAt_eq (k := h.last - 1) (Nat.le_refl _) (by simp only; omega)
      (by simp only; omega) (by omega) (by simp only; omega), Option.bind_some]
    exact placeLast_eq (by omega) (hnode _ (by omega)) hp1 (by omega)

/-- A heap in the order of its times as they are seen from `min_time`, with right back pointers. -/
structure TmevtOk (m : EVTTIM) (h : TmevtHeap) : Prop where
  wf : WF h
  ordered : Ordered (evttimLe m) h

theorem TmevtOk.inv (hh : TmevtOk m h) : TmevtInv m h h.lookup := ⟨hh.wf.holds, hh.ordered⟩

theorem TmevtInv.ok (hh : TmevtInv m h f) : TmevtOk m h := ⟨hh.holds.wf, hh.ordered⟩

theorem tmevtUp_last (m : EVTTIM) (k : Nat) (h : TmevtHeap) (i : Nat) (time : EVTTIM) :
    (tmevtUp m k h i time).1.last = h.last := by
  induction k generalizing h i with
  | zero => rfl
  | succ k ih =>
    unfold tmevtUp
    split
    · simp only
      split
      · rfl
      · exact ih ..
    · rfl

theorem tmevtbInsert_last (m : EVTTIM) (h : TmevtHeap) (p : TmevtbPtr) (time : EVTTIM) :
    (tmevtbInsert m h p time).last = h.last + 1 := tmevtUp_last ..

theorem tmevtbDelete_last (m : EVTTIM) (h : TmevtHeap) (p : TmevtbPtr) :
    (tmevtbDelete m h p).last = h.last - 1 := by
  unfold tmevtbDelete
  simp only
  split
  · rfl
  · split
    · exact tmevtUp_last ..
    · exact (tmevtDown_frame ..).1

theorem tmevtbDeleteTop_last (m : EVTTIM) (h : TmevtHeap) :
    (tmevtbDeleteTop m h).last = h.last - 1 := by
  unfold tmevtbDeleteTop
  simp only
  split
  · rfl
  · exact (tmevtDown_frame ..).1

/-- A deletion takes one entry away. -/
theorem TmevtInv.entries_delete (hh : TmevtInv m h f) (hp : f p = some k)
    (hd : TmevtInv m h' (Function.update f p none)) : h.entries = (k, p) ::ₘ h'.entries := by
  refine hd.holds.entries_cons ?_ (Function.update_self ..)
  rw [Function.update_idem, ← hp, Function.update_eq_self]
  exact hh.holds

/-- The operations of the time event heap, for every heap in order whose back pointers are right. The
heaps they leave are so too, with one entry more or less. With every access checked they have the same
outcome: the searches end and stay within the positions in use, and a deletion goes no further than the
slot it frees. -/
theorem tmevt_heap_ops (hh : TmevtOk m h) :
    (∀ p time, h.lookup p = none →
      (∀ n, h.last < n → tmevtbInsertAt m (h.last + 1) n h p time =
        some (tmevtbInsert m h p time)) ∧
      TmevtOk m (tmevtbInsert m h p time) ∧
      (tmevtbInsert m h p time).last = h.last + 1 ∧
      (tmevtbInsert m h p time).entries = (time, p) ::ₘ h.entries) ∧
    (∀ i, 1 ≤ i → i ≤ h.last → ∀ p, p = (h.node i).id →
      (∀ n, h.last < n → tmevtbDeleteAt m h.last n h p = some (tmevtbDelete m h p)) ∧
      TmevtOk m (tmevtbDelete m h p) ∧
      (tmevtbDelete m h p).last + 1 = h.last ∧
      h.entries = ((h.node i).key, p) ::ₘ (tmevtbDelete m h p).entries) ∧
    (0 < h.last →
      (∀ n, h.last < n → tmevtbDeleteTopAt m h.last n h = some (tmevtbDeleteTop m h)) ∧
      TmevtOk m (tmevtbDeleteTop m h) ∧
      (tmevtbDeleteTop m h).last + 1 = h.last ∧
      h.entries = ((h.node 1).key, (h.node 1).id) ::ₘ (tmevtbDeleteTop m h).entries) ∧
    ∀ (g : TmevtHeap) (index : Nat) (time : EVTTIM), 1 ≤ index →
      (index ≤ g.last → ∀ n, g.last < n →
        tmevtUpAt m g.last n g index time = some (tmevtUp m index g index time)) ∧
      ∀ n, g.last < n →
        tmevtDownAt m g.last n g index time = some (tmevtDown m g.last g index time) := by
  refine ⟨fun p time hp => ?_, fun i h1 h2 p hid => ?_, fun hl => ?_, fun g i time h1 => ?_⟩
  · have hi := hh.inv.insert hp time
    exact ⟨fun n hn => tmevtbInsertAt_eq hn p time, hi.ok, tmevtbInsert_last ..,
      hh.inv.holds.entries_cons hi.holds hp⟩
  · subst hid
    have hp := hh.wf.lookup_node h1 h2
    have hd := hh.inv.delete hp
    refine ⟨fun n hn => hh.inv.deleteAt_eq hp hn, hd.ok, ?_, hh.inv.entries_delete hp hd⟩
    rw [tmevtbDelete_last]
    omega
  · have hd := hh.inv.deleteTop hl
    refine ⟨fun n hn => tmevtbDeleteTopAt_eq hl hn, hd.ok, ?_,
      hh.inv.entries_delete (hh.wf.lookup_node (Nat.le_refl _) hl) hd⟩
    rw [tmevtbDeleteTop_last]
    omega
  · exact ⟨fun h2 n hn => tmevtUpAt_eq h1 h2 (by omega) (Nat.le_refl _) time,
      fun n hn => tmevtDownAt_eq h1 (Nat.le_refl _) (by omega) (by omega) (by omega) time⟩

/-- The first of three events is deleted; the last one comes up through the root. -/
theorem tmevt_heap_ops_three : ∃ h : TmevtHeap, TmevtOk 3 h ∧
    tmevtbDeleteAt 3 3 4 h (.cyc 0) = some (tmevtbDelete 3 h (.cyc 0)) ∧
    TmevtOk 3 (tmevtbDelete 3 h (.cyc 0)) ∧ (tmevtbDelete 3 h (.cyc 0)).last + 1 = 3 := by
  have hh : TmevtOk 3 ⟨3, fun i => if i = 1 then ⟨5, .cyc 0⟩ else if i = 2 then ⟨9, .alm 0⟩
      else ⟨7, .alm 1⟩, fun p => if p = .cyc 0 then 1 else if p = .alm 0 then 2 else 3⟩ := by
    refine ⟨fun i h1 h2 => ?_, fun i h1 h2 => ?_⟩
    · obtain rfl | rfl | rfl : i = 1 ∨ i = 2 ∨ i = 3 := by simp only at h2; omega
      · rfl
      · rfl
      · rfl
    · obtain rfl | rfl : i = 2 ∨ i = 3 := by simp only at h2; omega
      · decide
      · decide
  obtain ⟨-, hd, -⟩ := tmevt_heap_ops hh
  obtain ⟨h1, h2, h3, -⟩ := hd 1 (by decide) (by decide) (.cyc 0) rfl
  exact ⟨_, hh, h1 4 (by decide), h2, h3⟩

end

end AspKernel
