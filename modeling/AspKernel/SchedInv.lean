import AspKernel.Task
import Mathlib.Tactic.IntervalCases

namespace AspKernel
set_option autoImplicit true

/-- The scheduled task: the first one of the first ready queue that is not empty. -/
def IsTop (ready : Nat → List Nat) : Option Nat → Prop
  | none => ∀ p, ready p = []
  | some t => ∃ p, (ready p).head? = some t ∧ ∀ p' < p, ready p' = []

/-- The bit map has the bits of the ready queues that are not empty. -/
def Primap (primap : BitVec 16) (ready : Nat → List Nat) : Prop :=
  ∀ p < TNUM_TPRI, primap.getLsbD p = true ↔ ready p ≠ []

theorem IsTop.unique {ready : Nat → List Nat} (h : IsTop ready o) (h' : IsTop ready o') :
    o = o' := by
  cases o with
  | none =>
    cases o' with
    | none => rfl
    | some t' =>
      obtain ⟨p, hp, _⟩ := h'
      rw [h p] at hp
      cases hp
  | some t =>
    obtain ⟨p, hp, hlow⟩ := h
    cases o' with
    | none =>
      rw [h' p] at hp
      cases hp
    | some t' =>
      obtain ⟨p', hp', hlow'⟩ := h'
      rcases Nat.lt_trichotomy p p' with hlt | rfl | hlt
      · rw [hlow' p hlt] at hp
        cases hp
      · exact hp.symm.trans hp'
      · rw [hlow p' hlt] at hp'
        cases hp'

theorem primapBit_getLsbD (hp : p < 16) (q : Nat) :
    (primapBit p).getLsbD q = decide (q = p) := by
  unfold primapBit
  rw [BitVec.getLsbD_shiftLeft, BitVec.getLsbD_one]
  by_cases hq : q = p
  · subst hq
    simp only [hp, decide_true, Nat.lt_irrefl, decide_false, Bool.not_false, Bool.and_self,
      Nat.sub_self]
    decide
  · simp only [hq, decide_false]
    by_cases hlt : q < p
    · simp only [hlt, decide_true, Bool.not_true, Bool.and_false, Bool.false_and]
    · have hne : 0 ≠ q - p := by omega
      simp only [Ne.symm hne, decide_false, Bool.and_false]

theorem Primap.set {ready : Nat → List Nat} (h : Primap primap ready) (hp : p < TNUM_TPRI)
    (hl : l ≠ []) : Primap (primap ||| primapBit p) (Function.update ready p l) := by
  intro q hq
  rw [BitVec.getLsbD_or, primapBit_getLsbD hp]
  by_cases hqp : q = p
  · subst hqp
    simp only [decide_true, Bool.or_true, Function.update_self, ne_eq, hl, not_false_eq_true]
  · simp only [hqp, decide_false, Bool.or_false, Function.update_of_ne hqp]
    exact h q hq

theorem Primap.clear {ready : Nat → List Nat} (h : Primap primap ready) (hp : p < TNUM_TPRI) :
    Primap (primap &&& ~~~primapBit p) (Function.update ready p []) := by
  intro q hq
  rw [BitVec.getLsbD_and, BitVec.getLsbD_not, primapBit_getLsbD hp]
  have hq' : decide (q < 16) = true := decide_eq_true hq
  by_cases hqp : q = p
  · subst hqp
    simp only [decide_true, Bool.not_true, Bool.and_false, Bool.false_eq_true,
      Function.update_self, ne_eq, not_true_eq_false]
  · simp only [hqp, hq', decide_false, Bool.not_false, Bool.and_true, Function.update_of_ne hqp]
    exact h q hq

theorem Primap.congr {ready : Nat → List Nat} (h : Primap primap ready)
    (hl : l = [] ↔ ready p = []) : Primap primap (Function.update ready p l) := by
  intro q hq
  by_cases hqp : q = p
  · subst hqp
    rw [Function.update_self, h q hq, ne_eq, ne_eq, hl]
  · rw [Function.update_of_ne hqp]
    exact h q hq

/-- The lowest bit that is set. -/
def Lowest (v : BitVec 16) (k : Nat) : Prop :=
  v.getLsbD k = true ∧ ∀ j < k, v.getLsbD j = false

theorem and_mask_eq_zero {v : BitVec 16} (hn : n ≤ 16) :
    v &&& BitVec.ofNat 16 (2 ^ n - 1) = 0 ↔ ∀ j < n, v.getLsbD j = false := by
  constructor
  · intro h j hj
    have hb := congrArg (·.getLsbD j) h
    rw [BitVec.ofNat_eq_ofNat, BitVec.getLsbD_zero, BitVec.getLsbD_and, BitVec.getLsbD_ofNat,
      Nat.testBit_two_pow_sub_one] at hb
    simpa only [show j < 16 by omega, hj, decide_true, Bool.and_true] using hb
  · intro h
    apply BitVec.eq_of_getLsbD_eq
    intro j hj
    rw [BitVec.getLsbD_and, BitVec.getLsbD_ofNat, Nat.testBit_two_pow_sub_one]
    by_cases hjn : j < n
    · rw [h j hjn, Bool.false_and]
      exact BitVec.getLsbD_zero.symm
    · rw [decide_eq_false hjn, Bool.and_false, Bool.and_false]
      exact BitVec.getLsbD_zero.symm

theorem Lowest.shift {v : BitVec 16} (hz : ∀ j < s, v.getLsbD j = false)
    (h : Lowest (v >>> s) k) : Lowest v (s + k) := by
  obtain ⟨hk, hlow⟩ := h
  rw [BitVec.getLsbD_ushiftRight] at hk
  refine ⟨hk, ?_⟩
  intro j hj
  by_cases hjs : j < s
  · exact hz j hjs
  · have hb := hlow (j - s) (by omega)
    rwa [BitVec.getLsbD_ushiftRight, Nat.add_sub_cancel' (Nat.le_of_not_lt hjs)] at hb

theorem bitmapSearchTable_spec : ∀ n < 16, n ≠ 0 →
    n.testBit (bitmapSearchTable.getD (n - 1) 0) = true ∧
    bitmapSearchTable.getD (n - 1) 0 < 4 ∧
    ∀ j < bitmapSearchTable.getD (n - 1) 0, n.testBit j = false := by decide

theorem lowest_nibble {v : BitVec 16} (h : v &&& 0x0f ≠ 0) :
    Lowest v (bitmapSearchTable.getD ((v &&& 0x0f).toNat - 1) 0) := by
  have hlt : (v &&& 0x0f).toNat < 16 := by
    rw [BitVec.toNat_and]
    exact Nat.lt_of_le_of_lt Nat.and_le_right (by decide)
  have hne : (v &&& 0x0f).toNat ≠ 0 := fun he => h (BitVec.eq_of_toNat_eq he)
  obtain ⟨hbit, hk, hlow⟩ := bitmapSearchTable_spec _ hlt hne
  have hget (j : Nat) (hj : j < 4) : (v &&& 0x0f).toNat.testBit j = v.getLsbD j := by
    have hm : (0x0f : BitVec 16).getLsbD j = true := by
      interval_cases j <;> decide
    rw [BitVec.testBit_toNat, BitVec.getLsbD_and, hm, Bool.and_true]
  refine ⟨(hget _ hk).symm.trans hbit, ?_⟩
  intro j hj
  exact (hget j (hj.trans hk)).symm.trans (hlow j hj)

/-- A step of the search: the lowest bit is among the first `m` bits of what is left. -/
structure Search (b : BitVec 16) (r : Nat × BitVec 16) (m : Nat) : Prop where
  lowest : ∀ k, Lowest r.2 k → Lowest b (r.1 + k)
  bit : ∃ j < m, r.2.getLsbD j = true

theorem Search.half (h : Search b r (2 * m)) (hm : m ≤ 16) :
    Search b (if r.2 &&& BitVec.ofNat 16 (2 ^ m - 1) = 0 then (r.1 + m, r.2 >>> m) else r) m := by
  obtain ⟨hlow, j, hj, hbit⟩ := h
  split
  · rename_i hz
    have hz := (and_mask_eq_zero hm).1 hz
    have hjm : ¬j < m := fun hlt => by
      rw [hz j hlt] at hbit
      cases hbit
    refine ⟨?_, j - m, by omega, ?_⟩
    · intro k hk
      rw [Nat.add_assoc]
      exact hlow _ (hk.shift hz)
    · rwa [BitVec.getLsbD_ushiftRight, Nat.add_sub_cancel' (Nat.le_of_not_lt hjm)]
  · rename_i hz
    refine ⟨hlow, ?_⟩
    by_contra hno
    refine hz ((and_mask_eq_zero hm).2 fun i hi => ?_)
    by_contra hb
    exact hno ⟨i, hi, by simpa only [Bool.not_eq_false] using hb⟩

theorem bitmapSearch_lowest {b : BitVec 16} (h : b ≠ 0) : Lowest b (bitmapSearch b) := by
  have hex : ∃ j < 2 * 8, b.getLsbD j = true := by
    by_contra hno
    refine h (BitVec.eq_of_getLsbD_eq fun j hj => ?_)
    rw [BitVec.ofNat_eq_ofNat, BitVec.getLsbD_zero]
    by_contra hb
    exact hno ⟨j, hj, by simpa only [Bool.not_eq_false] using hb⟩
  have h0 : Search b (0, b) (2 * 8) := ⟨fun k hk => by rwa [Nat.zero_add], hex⟩
  have h8 := h0.half (m := 2 * 4) (by decide)
  have h4 := h8.half (by decide)
  refine h4.lowest _ (lowest_nibble fun hz => ?_)
  obtain ⟨j, hj, hbit⟩ := h4.bit
  rw [(and_mask_eq_zero (n := 4) (by decide)).1 hz j hj] at hbit
  cases hbit

theorem lowest_lt {v : BitVec 16} (h : Lowest v k) : k < TNUM_TPRI := by
  by_contra hk
  have hb := h.1
  rw [BitVec.getLsbD_of_ge v k (Nat.le_of_not_lt hk)] at hb
  cases hb

/-- The task is the first one of the first ready queue that is not empty. -/
def Top (ready : Nat → List Nat) (t p : Nat) : Prop :=
  (ready p).head? = some t ∧ ∀ p' < p, ready p' = []

theorem Top.update_ge {ready : Nat → List Nat} (h : Top ready u pu) (hp : pu ≤ p)
    (hl : p = pu → l.head? = some u) : Top (Function.update ready p l) u pu := by
  refine ⟨?_, ?_⟩
  · by_cases he : pu = p
    · subst he
      rw [Function.update_self]
      exact hl rfl
    · rw [Function.update_of_ne he]
      exact h.1
  · intro p' hp'
    rw [Function.update_of_ne (Nat.ne_of_lt (hp'.trans_le hp))]
    exact h.2 p' hp'

theorem Top.update_le {ready : Nat → List Nat} (hlow : ∀ p' < p, ready p' = [])
    (hl : l.head? = some t) : Top (Function.update ready p l) t p := by
  refine ⟨by rwa [Function.update_self], ?_⟩
  intro p' hp'
  rw [Function.update_of_ne (Nat.ne_of_lt hp')]
  exact hlow p' hp'

theorem Top.le {ready : Nat → List Nat} (h : Top ready u pu) (hp : ready p ≠ []) : pu ≤ p := by
  by_contra hlt
  exact hp (h.2 p (Nat.lt_of_not_le hlt))

theorem Top.ne_nil {ready : Nat → List Nat} (h : Top ready u pu) : ready pu ≠ [] := by
  intro he
  have hh := h.1
  rw [he] at hh
  cases hh

theorem IsTop.of {ready ready' : Nat → List Nat} (h : Top ready t p) (he : ready' = ready) :
    IsTop ready' (some t) := ⟨p, he ▸ h⟩

/-- The order of the tasks in a wait queue: by priority, where the queue asks for it, and then by
arrival. -/
def Before (tpri : Bool) (pri arrival : Nat → Nat) (t u : Nat) : Prop :=
  if tpri then pri t < pri u ∨ pri t = pri u ∧ arrival t < arrival u else arrival t < arrival u

/-- The queues are those of `L`, which agrees with the priorities; the wait queues are in order,
those of which `tp` holds by priority. -/
structure SchedBase (L : Nat → Option TaskQueue) (pri : Nat → Nat) (tp : WQueue → Bool)
    (s : Sched) : Prop where
  linked : Links.Linked L s.queue
  ready_pri : ∀ t p, L t = some (.ready p) → p = pri t ∧ p < TNUM_TPRI
  primap : Primap s.readyPrimap s.ready
  bitmap : s.bitmapOk = true
  sorted : ∀ q, (s.queue (.wait q)).Pairwise (Before (tp q) pri s.arrival)
  fresh : ∀ q, ∀ t ∈ s.queue (.wait q), s.arrival t < s.arrivals

structure SchedInv (L : Nat → Option TaskQueue) (pri : Nat → Nat) (tp : WQueue → Bool)
    (s : Sched) : Prop extends SchedBase L pri tp s where
  top : IsTop s.ready s.pSchedtsk

section
variable {L : Nat → Option TaskQueue} {pri : Nat → Nat} {tp : WQueue → Bool} {s : Sched}

theorem ready_update (s : Sched) (p : Nat) (l : List Nat) :
    ({ s with queue := Function.update s.queue (.ready p) l } : Sched).ready =
      Function.update s.ready p l := by
  funext p'
  change Function.update s.queue (.ready p) l (.ready p') = _
  by_cases hp : p' = p
  · subst hp
    rw [Function.update_self, Function.update_self]
  · rw [Function.update_of_ne hp,
      Function.update_of_ne (by simpa only [ne_eq, TaskQueue.ready.injEq])]
    rfl

theorem SchedBase.mem_ready (h : SchedBase L pri tp s) (ht : t ∈ s.ready p) :
    p = pri t ∧ p < TNUM_TPRI := h.ready_pri t p (h.linked.mem.1 ht)

theorem SchedBase.ready_eq_nil (h : SchedBase L pri tp s) (hp : ¬p < TNUM_TPRI) :
    s.ready p = [] :=
  List.eq_nil_iff_forall_not_mem.2 fun _ ht => hp (h.mem_ready ht).2

/-- `search_schedtsk` finds the scheduled task. -/
theorem SchedBase.searchSchedtsk (h : SchedBase L pri tp s) (hne : s.readyPrimap ≠ 0) :
    SchedInv L pri tp s.searchSchedtsk := by
  have hlow := bitmapSearch_lowest hne
  have hbit := (h.primap _ (lowest_lt hlow)).1 hlow.1
  refine ⟨⟨h.linked, h.ready_pri, h.primap, ?_, h.sorted, h.fresh⟩, ?_⟩
  · simp only [Sched.searchSchedtsk, h.bitmap, Bool.true_and, bne_iff_ne, ne_eq]
    exact hne
  · obtain ⟨t, l, he⟩ := List.exists_cons_of_ne_nil hbit
    change IsTop s.ready (s.ready (bitmapSearch s.readyPrimap)).head?
    rw [he]
    refine ⟨bitmapSearch s.readyPrimap, congrArg List.head? he, ?_⟩
    intro p hp
    by_contra hnil
    have hlt : p < TNUM_TPRI := hp.trans (lowest_lt hlow)
    rw [← ne_eq, ← h.primap p hlt, hlow.2 p hp] at hnil
    cases hnil

theorem SchedBase.empty (h : SchedBase L pri tp s) (he : s.readyPrimap = 0) :
    IsTop s.ready none := by
  intro p
  by_cases hp : p < TNUM_TPRI
  · by_contra hne
    have hbit := (h.primap p hp).2 hne
    rw [he, BitVec.ofNat_eq_ofNat, BitVec.getLsbD_zero] at hbit
    cases hbit
  · exact h.ready_eq_nil hp

theorem SchedInv.top_pri (h : SchedInv L pri tp s) (hs : s.pSchedtsk = some u) :
    Top s.ready u (pri u) ∧ L u = some (.ready (pri u)) := by
  have ht := h.top
  rw [hs] at ht
  obtain ⟨p, hp, hlow⟩ := ht
  have hm : u ∈ s.ready p := List.mem_of_mem_head? hp
  have hL := h.linked.mem.1 hm
  obtain ⟨rfl, _⟩ := h.mem_ready hm
  exact ⟨⟨hp, hlow⟩, hL⟩

theorem SchedBase.inv (h : SchedBase L pri tp s) (hs : s.pSchedtsk = o) (ht : IsTop s.ready o) :
    SchedInv L pri tp s := ⟨h, hs ▸ ht⟩

theorem SchedBase.schedule (h : SchedBase L pri tp s) (ht : IsTop s.ready o) :
    SchedInv L pri tp (s.schedule o) :=
  ⟨⟨h.linked, h.ready_pri, h.primap, h.bitmap, h.sorted, h.fresh⟩, ht⟩

/-- Link a task into the ready queue of its priority. -/
theorem SchedBase.insertReady (h : SchedBase L pri tp s) (ht : L t = none)
    (hp : pri t < TNUM_TPRI) (hl : l.Perm (t :: s.ready (pri t))) :
    SchedBase (Function.update L t (some (.ready (pri t)))) pri tp
      (({ s with queue := Function.update s.queue (.ready (pri t)) l } : Sched).primapSet
        (pri t)) where
  linked := h.linked.insert ht hl
  ready_pri u p hu := by
    by_cases hut : u = t
    · subst hut
      rw [Function.update_self] at hu
      cases hu
      exact ⟨rfl, hp⟩
    · rw [Function.update_of_ne hut] at hu
      exact h.ready_pri u p hu
  primap := by
    have hne : l ≠ [] := by
      rintro rfl
      exact List.not_mem_nil (hl.mem_iff.2 (List.mem_cons_self ..))
    have hset := h.primap.set hp hne
    rw [← ready_update] at hset
    exact hset
  bitmap := h.bitmap
  sorted q := by
    simp only [Sched.primapSet, ne_eq, reduceCtorEq, not_false_eq_true, Function.update_of_ne]
    exact h.sorted q
  fresh q u hu := by
    simp only [Sched.primapSet, ne_eq, reduceCtorEq, not_false_eq_true, Function.update_of_ne] at hu
    exact h.fresh q u hu

theorem SchedBase.unlinked (h : SchedBase L pri tp s) (t : Nat) :
    Links.Linked (Function.update L t none) (s.queueDelete t).queue := h.linked.delete t

theorem SchedBase.sorted_delete (h : SchedBase L pri tp s) (t : Nat) (q : WQueue) :
    ((s.queueDelete t).queue (.wait q)).Pairwise (Before (tp q) pri s.arrival) :=
  (h.sorted q).sublist List.erase_sublist

theorem ready_pri_delete {t : Nat} (h : ∀ u p, L u = some (.ready p) → p = pri u ∧ p < TNUM_TPRI) :
    ∀ u p, Function.update L t none u = some (.ready p) → p = pri u ∧ p < TNUM_TPRI := by
  intro u p hu
  by_cases hut : u = t
  · subst hut
    rw [Function.update_self] at hu
    cases hu
  · rw [Function.update_of_ne hut] at hu
    exact h u p hu

/-- The ready queues after a ready task has been unlinked. -/
theorem SchedBase.ready_delete (h : SchedBase L pri tp s) (ht : L t = some (.ready p)) :
    (s.queueDelete t).ready = Function.update s.ready p ((s.ready p).erase t) := by
  funext p'
  by_cases hp : p' = p
  · subst hp
    rw [Function.update_self]
    rfl
  · rw [Function.update_of_ne hp]
    refine Links.delete_eq_self h.linked ?_
    rw [ht]
    simpa only [ne_eq, Option.some.injEq, TaskQueue.ready.injEq] using Ne.symm hp

theorem SchedBase.ready_delete_of_not (h : SchedBase L pri tp s)
    (ht : ∀ p, L t ≠ some (.ready p)) : (s.queueDelete t).ready = s.ready :=
  funext fun p => Links.delete_eq_self h.linked (ht p)

theorem primapUpdate_queue (s : Sched) (p : Nat) : (s.primapUpdate p).queue = s.queue := by
  unfold Sched.primapUpdate
  split <;> rfl

theorem primapUpdate_pSchedtsk (s : Sched) (p : Nat) :
    (s.primapUpdate p).pSchedtsk = s.pSchedtsk := by
  unfold Sched.primapUpdate
  split <;> rfl

theorem SchedBase.deleteReady (h : SchedBase L pri tp s) (ht : L t = some (.ready p)) :
    SchedBase (Function.update L t none) pri tp ((s.queueDelete t).primapUpdate p) := by
  have hp := (h.ready_pri t p ht).2
  have hq := primapUpdate_queue (s.queueDelete t) p
  have harr : ((s.queueDelete t).primapUpdate p).arrival = s.arrival ∧
      ((s.queueDelete t).primapUpdate p).arrivals = s.arrivals ∧
      ((s.queueDelete t).primapUpdate p).bitmapOk = s.bitmapOk := by
    unfold Sched.primapUpdate
    split <;> exact ⟨rfl, rfl, rfl⟩
  refine ⟨?_, ready_pri_delete h.ready_pri, ?_, ?_, ?_, ?_⟩
  · rw [hq]
    exact h.unlinked t
  · have hr : ((s.queueDelete t).primapUpdate p).ready = (s.queueDelete t).ready :=
      funext fun p' => congrFun hq (.ready p')
    rw [hr]
    have hrd := h.ready_delete ht
    unfold Sched.primapUpdate
    split
    · rename_i he
      rw [hrd, Function.update_self] at he
      rw [hrd, he]
      exact h.primap.clear hp
    · rename_i he
      rw [hrd, Function.update_self] at he
      rw [hrd]
      refine h.primap.congr ⟨fun he' => absurd he' he, fun he' => ?_⟩
      rw [he', List.erase_nil]
  · exact harr.2.2.trans h.bitmap
  · intro q
    rw [hq, harr.1]
    exact h.sorted_delete t q
  · intro q u hu
    rw [hq] at hu
    rw [harr.1, harr.2.1]
    exact h.fresh q u (List.mem_of_mem_erase hu)

/-- The first task stays the first one when another one is unlinked. -/
theorem Top.delete (h : SchedInv L pri tp s) (hs : s.pSchedtsk = some u) (hut : u ≠ t) :
    Top (s.queueDelete t).ready u (pri u) := by
  obtain ⟨⟨hhead, hlow⟩, _⟩ := h.top_pri hs
  refine ⟨?_, ?_⟩
  · cases hr : s.ready (pri u) with
    | nil =>
      rw [hr] at hhead
      cases hhead
    | cons v l =>
      rw [hr] at hhead
      cases hhead
      change ((s.ready (pri u)).erase t).head? = some u
      rw [hr, List.erase_cons_tail (by simpa only [beq_iff_eq] using hut)]
      rfl
  · intro p' hp'
    change (s.ready p').erase t = []
    rw [hlow p' hp', List.erase_nil]

/-- Whether a dispatch is asked for, after a change of the scheduled task. -/
def Signals (dspflg : Bool) (s : Sched) (r : Sched × Bool) : Prop :=
  r.2 = false → r.1.pSchedtsk = s.pSchedtsk ∨ dspflg = false

theorem SchedInv.makeRunnable (h : SchedInv L pri tp s) (ht : L t = none)
    (hp : pri t < TNUM_TPRI) :
    SchedInv (Function.update L t (some (.ready (pri t)))) pri tp (s.makeRunnable pri d t).1 := by
  have hb := h.toSchedBase.insertReady ht hp (List.perm_append_singleton t _)
  have hr := ready_update s (pri t) (s.ready (pri t) ++ [t])
  have hnil (hl : s.ready (pri t) = []) : (s.ready (pri t) ++ [t]).head? = some t := by rw [hl]; rfl
  unfold Sched.makeRunnable
  simp only
  split
  · rename_i hs
    have htop := h.top
    rw [show s.pSchedtsk = none from hs] at htop
    exact hb.schedule (.of (Top.update_le (fun p' _ => htop p') (hnil (htop _))) hr)
  · rename_i u hs
    obtain ⟨hu, _⟩ := h.top_pri hs
    split
    · rename_i hlt
      have hlow (p' : Nat) (hp' : p' < pri t) : s.ready p' = [] := hu.2 p' (hp'.trans hlt)
      exact hb.schedule (.of (Top.update_le hlow (hnil (hu.2 _ hlt))) hr)
    · rename_i hlt
      refine hb.inv hs (.of (Top.update_ge hu (Nat.le_of_not_lt hlt) ?_) hr)
      intro he
      rw [he, List.head?_append_of_ne_nil _ hu.ne_nil]
      exact hu.1

theorem makeRunnable_signals (s : Sched) (pri : Nat → Nat) (d : Bool) (t : Nat) :
    Signals d s (s.makeRunnable pri d t) := by
  unfold Signals Sched.makeRunnable
  simp only
  split
  · exact .inr
  · split
    · exact .inr
    · exact fun _ => .inl rfl

theorem SchedInv.makeNonRunnable (h : SchedInv L pri tp s) (ht : L t = some (.ready (pri t))) :
    SchedInv (Function.update L t none) pri tp (s.makeNonRunnable pri d t).1 := by
  have hb := h.toSchedBase.deleteReady ht
  have hr := h.ready_delete ht
  have hother (hs : ¬s.pSchedtsk = some t) : IsTop (s.queueDelete t).ready s.pSchedtsk := by
    cases hp : s.pSchedtsk with
    | none =>
      have htop := h.top
      rw [hp] at htop
      intro p
      change (s.ready p).erase t = []
      rw [htop p, List.erase_nil]
    | some u => exact .of (Top.delete h hp fun he => hs (hp.trans (congrArg some he))) rfl
  unfold Sched.primapUpdate at hb
  unfold Sched.makeNonRunnable
  simp only
  split
  · rename_i he
    rw [if_pos he] at hb
    split
    · split
      · rename_i hz
        refine hb.schedule (hb.empty ?_)
        simpa only [Sched.primapEmpty, beq_iff_eq] using hz
      · rename_i hz
        refine hb.searchSchedtsk ?_
        simpa only [Sched.primapEmpty, beq_iff_eq] using hz
    · rename_i hs
      exact hb.inv rfl (hother hs)
  · rename_i he
    rw [if_neg he] at hb
    split
    · rename_i hs
      obtain ⟨hu, _⟩ := h.top_pri hs
      obtain ⟨u, l, hl⟩ := List.exists_cons_of_ne_nil he
      rw [hl]
      rw [hr, Function.update_self] at hl
      exact hb.schedule (.of (Top.update_le hu.2 (by rw [hl]; rfl)) hr)
    · rename_i hs
      exact hb.inv rfl (hother hs)

theorem makeNonRunnable_signals (s : Sched) (pri : Nat → Nat) (d : Bool) (t : Nat) :
    Signals d s (s.makeNonRunnable pri d t) := by
  unfold Signals Sched.makeNonRunnable
  simp only
  split
  · split
    · exact .inr
    · exact fun _ => .inl rfl
  · split
    · exact .inr
    · exact fun _ => .inl rfl

/-- The priorities of the tasks whose place in a queue depends on them are all that matters. -/
theorem SchedBase.pri_congr (h : SchedBase L pri tp s)
    (hr : ∀ u p, L u = some (.ready p) → pri' u = pri u)
    (hw : ∀ u q, L u = some (.wait q) → tp q = true → pri' u = pri u) :
    SchedBase L pri' tp s where
  linked := h.linked
  ready_pri u p hu := by
    rw [hr u p hu]
    exact h.ready_pri u p hu
  primap := h.primap
  bitmap := h.bitmap
  sorted q := by
    refine (h.sorted q).imp_of_mem ?_
    intro t u ht hu hb
    unfold Before at hb ⊢
    split
    · rename_i hq
      rw [hw t q (h.linked.mem.1 ht) hq, hw u q (h.linked.mem.1 hu) hq]
      rwa [if_pos hq] at hb
    · rename_i hq
      rwa [if_neg hq] at hb
  fresh := h.fresh

theorem SchedInv.pri_congr (h : SchedInv L pri tp s)
    (hr : ∀ u p, L u = some (.ready p) → pri' u = pri u)
    (hw : ∀ u q, L u = some (.wait q) → tp q = true → pri' u = pri u) :
    SchedInv L pri' tp s := ⟨h.toSchedBase.pri_congr hr hw, h.top⟩

theorem requeue_pSchedtsk (s : Sched) (t old new : Nat) (m : Bool) :
    (s.requeue t old new m).pSchedtsk = s.pSchedtsk := by
  cases m <;> exact primapUpdate_pSchedtsk ..

/-- The ready queues after the move: the task is at one of the ends of its new queue. -/
theorem requeue_ready (s : Sched) (t old new : Nat) (m : Bool) :
    (s.requeue t old new m).ready = Function.update (s.queueDelete t).ready new
      (if m then t :: (s.queueDelete t).ready new else (s.queueDelete t).ready new ++ [t]) := by
  have hq : ((s.queueDelete t).primapUpdate old).ready = (s.queueDelete t).ready :=
    funext fun p => congrFun (primapUpdate_queue ..) (.ready p)
  unfold Sched.requeue
  rw [← hq]
  cases m <;> exact ready_update ..

theorem SchedBase.requeue (h : SchedBase L pri tp s) (ht : L t = some (.ready (pri t)))
    (hn : new < TNUM_TPRI) : SchedBase (Function.update L t (some (.ready new)))
      (Function.update pri t new) tp (s.requeue t (pri t) new m) := by
  have hself : Function.update pri t new t = new := Function.update_self ..
  have hne (u : Nat) (o : TaskQueue) (hu : Function.update L t none u = some o) : u ≠ t := by
    rintro rfl
    rw [Function.update_self] at hu
    cases hu
  have hb : SchedBase _ (Function.update pri t new) tp _ := (h.deleteReady ht).pri_congr
    (fun u p hu => Function.update_of_ne (hne u _ hu) ..)
    (fun u q hu _ => Function.update_of_ne (hne u _ hu) ..)
  have hins (l : List Nat) (hl : l.Perm (t :: ((s.queueDelete t).primapUpdate (pri t)).ready new)) :=
    hb.insertReady (t := t) (l := l) (Function.update_self ..) (by rwa [hself]) (by rwa [hself])
  simp only [hself, Function.update_idem] at hins
  cases m with
  | true => exact hins _ (.refl _)
  | false => exact hins _ (List.perm_append_singleton t _)

/-- A runnable task gets a new priority. -/
theorem SchedInv.changePriority (h : SchedInv L pri tp s) (ht : L t = some (.ready (pri t)))
    (hn : new < TNUM_TPRI) : SchedInv (Function.update L t (some (.ready new)))
      (Function.update pri t new) tp
      (s.changePriority (Function.update pri t new) d t (pri t) m).1 := by
  have hself : Function.update pri t new t = new := Function.update_self ..
  have hb := h.toSchedBase.requeue (m := m) ht hn
  have hr := requeue_ready s t (pri t) new m
  have hempty (p : Nat) (hp : s.ready p = []) : (s.queueDelete t).ready p = [] := by
    change (s.ready p).erase t = []
    rw [hp, List.erase_nil]
  have hhead (he : (s.queueDelete t).ready new = []) :
      (if m then t :: (s.queueDelete t).ready new
        else (s.queueDelete t).ready new ++ [t]).head? = some t := by
    rw [he]
    cases m <;> rfl
  unfold Sched.changePriority
  simp only [hself]
  split
  · rename_i hs
    rw [requeue_pSchedtsk] at hs
    have htop := h.top
    rw [hs] at htop
    have hm : t ∈ s.ready (pri t) := h.linked.mem.2 ht
    rw [htop (pri t)] at hm
    cases hm
  · rename_i u hs
    have hsu := hs
    rw [requeue_pSchedtsk] at hsu
    obtain ⟨hu, hLu⟩ := h.top_pri hsu
    by_cases hut : u = t
    · subst hut
      rw [if_pos rfl]
      split
      · refine hb.searchSchedtsk fun hz => ?_
        have hm : u ∈ (s.requeue u (pri u) new m).ready new :=
          hb.linked.mem.2 (Function.update_self ..)
        rw [hb.empty hz new] at hm
        cases hm
      · rename_i hlt
        have hlow (p' : Nat) (hp' : p' < pri u) := hempty p' (hu.2 p' hp')
        have hlt := Nat.lt_of_not_le hlt
        exact hb.inv hs (.of (Top.update_le (fun p' hp' => hlow p' (hp'.trans hlt))
          (hhead (hlow new hlt))) hr)
    · rw [if_neg hut, Function.update_of_ne hut]
      have hu1 := Top.delete h hsu hut
      split
      · rename_i ha
        refine hb.schedule (.of (Top.update_le (fun p' hp' => hu1.2 p' ?_) ?_) hr)
        · cases m with
          | true => exact Nat.lt_of_lt_of_le hp' (of_decide_eq_true ha)
          | false => exact hp'.trans (of_decide_eq_true ha)
        · cases m with
          | true => rfl
          | false => exact hhead (hu1.2 new (of_decide_eq_true ha))
      · rename_i ha
        cases m with
        | true =>
          have hlt : pri u < new := Nat.lt_of_not_le fun hle => ha (decide_eq_true hle)
          exact hb.inv hs (.of (Top.update_ge hu1 hlt.le fun he => absurd he hlt.ne') hr)
        | false =>
          have hle : pri u ≤ new := Nat.le_of_not_lt fun hlt => ha (decide_eq_true hlt)
          refine hb.inv hs (.of (Top.update_ge hu1 hle fun he => ?_) hr)
          rw [he, if_neg Bool.false_ne_true, List.head?_append_of_ne_nil _ hu1.ne_nil]
          exact hu1.1

theorem changePriority_signals (s : Sched) (pri : Nat → Nat) (d : Bool) (t old : Nat) (m : Bool) :
    Signals d s (s.changePriority pri d t old m) := by
  have hsame := requeue_pSchedtsk s t old (pri t) m
  unfold Signals Sched.changePriority
  simp only
  split
  · exact fun _ => .inl hsame
  · rename_i u hs
    split
    · rename_i hut
      split
      · intro hb
        rcases Bool.and_eq_false_iff.1 hb with hb | hb
        · refine .inl ((bne_eq_false_iff_eq.1 hb).trans ?_)
          rw [← hut, ← hs, hsame]
        · exact .inr hb
      · exact fun _ => .inl hsame
    · split
      · exact .inr
      · exact fun _ => .inl hsame

/-- Reorder one ready queue. -/
theorem SchedBase.reorder (h : SchedBase L pri tp s) (hl : l.Perm (s.ready p)) :
    SchedBase L pri tp { s with queue := Function.update s.queue (.ready p) l } where
  linked := h.linked.perm hl
  ready_pri := h.ready_pri
  primap := by
    rw [ready_update]
    refine h.primap.congr ⟨fun he => ?_, fun he => ?_⟩
    · rw [he] at hl
      exact hl.symm.eq_nil
    · rw [he] at hl
      exact hl.eq_nil
  bitmap := h.bitmap
  sorted q := by
    simp only [ne_eq, reduceCtorEq, not_false_eq_true, Function.update_of_ne]
    exact h.sorted q
  fresh q u hu := by
    simp only [ne_eq, reduceCtorEq, not_false_eq_true, Function.update_of_ne] at hu
    exact h.fresh q u hu

/-- The rotation of a ready queue. -/
theorem SchedInv.rotateReadyQueue (h : SchedInv L pri tp s) (p : Nat) :
    SchedInv L pri tp (s.rotateReadyQueue d p).1 := by
  unfold Sched.rotateReadyQueue
  split
  · rename_i a b l hq
    have ha : L a = some (.ready p) :=
      h.linked.mem.1 (show a ∈ s.ready p by rw [hq]; exact List.mem_cons_self ..)
    have hpa := (h.ready_pri a p ha).1
    have heq : (s.queueDelete a).queueInsertPrev (.ready p) a =
        { s with queue := Function.update s.queue (.ready p) (b :: l ++ [a]) } := by
      have hrest : (s.queueDelete a).queue (.ready p) = b :: l := by
        change (s.ready p).erase a = b :: l
        rw [hq, List.erase_cons_head]
      unfold Sched.queueInsertPrev
      rw [hrest]
      congr 1
      funext q
      by_cases hqp : q = .ready p
      · rw [hqp, Function.update_self, Function.update_self]
      · rw [Function.update_of_ne hqp, Function.update_of_ne hqp]
        refine Links.delete_eq_self h.linked ?_
        rw [ha]
        simpa only [ne_eq, Option.some.injEq] using Ne.symm hqp
    have hbase := h.toSchedBase.reorder (p := p) (l := b :: l ++ [a]) (by
      rw [hq]
      exact List.perm_append_singleton a (b :: l))
    have hr := ready_update s p (b :: l ++ [a])
    rw [heq]
    simp only
    split
    · rename_i hs
      obtain ⟨hu, _⟩ := h.top_pri hs
      rw [← hpa] at hu
      rw [hr, Function.update_self]
      exact hbase.schedule (.of (Top.update_le hu.2 rfl) hr)
    · rename_i hs
      refine hbase.inv rfl ?_
      cases hu : s.pSchedtsk with
      | none =>
        have htop := h.top
        rw [hu] at htop
        rw [htop p] at hq
        cases hq
      | some u =>
        obtain ⟨htop, _⟩ := h.top_pri hu
        refine .of (Top.update_ge htop (htop.le (by rw [hq]; exact List.cons_ne_nil _ _)) ?_) hr
        intro he
        have hhead := htop.1
        rw [← he, hq] at hhead
        exact absurd (hu.trans hhead.symm) hs
  · exact h

theorem rotateReadyQueue_signals (s : Sched) (d : Bool) (p : Nat) :
    Signals d s (s.rotateReadyQueue d p) := by
  unfold Signals Sched.rotateReadyQueue
  split
  · simp only
    split
    · exact .inr
    · exact fun _ => .inl rfl
  · exact fun _ => .inl rfl

/-- A task that is not ready leaves its wait queue. -/
theorem SchedInv.queueDelete (h : SchedInv L pri tp s) (ht : ∀ p, L t ≠ some (.ready p)) :
    SchedInv (Function.update L t none) pri tp (s.queueDelete t) where
  linked := h.unlinked t
  ready_pri := ready_pri_delete h.ready_pri
  primap := by
    rw [h.ready_delete_of_not ht]
    exact h.primap
  bitmap := h.bitmap
  sorted := h.sorted_delete t
  fresh q u hu := h.fresh q u (List.mem_of_mem_erase hu)
  top := by
    rw [h.ready_delete_of_not ht]
    exact h.top

theorem Before.trans {b : Bool} {arrival : Nat → Nat} (h : Before b pri arrival t u)
    (h' : Before b pri arrival u v) : Before b pri arrival t v := by
  unfold Before at h h' ⊢
  split at h <;> split <;> rename_i h1 h2
  · rw [if_pos h1] at h'
    omega
  · exact absurd h1 h2
  · exact absurd h2 h1
  · rw [if_neg h1] at h'
    exact h.trans h'

theorem Before.congr {b : Bool} {arrival arrival' : Nat → Nat} (h : Before b pri arrival t u)
    (ht : arrival' t = arrival t) (hu : arrival' u = arrival u) : Before b pri arrival' t u := by
  unfold Before at h ⊢
  rwa [ht, hu]

theorem SchedInv.enterWait (h : SchedInv L pri tp s) (ht : L t = none) (q : WQueue) :
    SchedInv (Function.update L t (some (.wait q))) pri tp (s.enterWait pri q (tp q) t) := by
  have hnot (u : Nat) (q' : WQueue) (hu : u ∈ s.queue (.wait q')) : u ≠ t := by
    rintro rfl
    rw [h.linked.mem, ht] at hu
    cases hu
  have harr (u : Nat) (q' : WQueue) (hu : u ∈ s.queue (.wait q')) :
      Function.update s.arrival t s.arrivals u = s.arrival u :=
    Function.update_of_ne (hnot u q' hu) ..
  have hsorted (q' : WQueue) : (s.queue (.wait q')).Pairwise
      (Before (tp q') pri (Function.update s.arrival t s.arrivals)) :=
    (h.sorted q').imp_of_mem fun hu hv hb => hb.congr (harr _ q' hu) (harr _ q' hv)
  obtain ⟨l, hl, heq, hpair⟩ : ∃ l, l.Perm (t :: s.queue (.wait q)) ∧
      s.enterWait pri q (tp q) t =
        ({ s with queue := Function.update s.queue (.wait q) l } : Sched).arrive t ∧
      l.Pairwise (Before (tp q) pri (Function.update s.arrival t s.arrivals)) := by
    have hlast (u : Nat) (hu : u ∈ s.queue (.wait q)) :
        Function.update s.arrival t s.arrivals u < Function.update s.arrival t s.arrivals t := by
      rw [harr u q hu, Function.update_self]
      exact h.fresh q u hu
    unfold Sched.enterWait
    have hs := hsorted q
    generalize tp q = b at hs ⊢
    cases b with
    | true =>
      refine ⟨_, Links.insertBy_perm .., rfl, Links.insertBy_pairwise hs ?_ ?_ ?_⟩
      · exact fun _ _ => Before.trans
      · exact fun b _ hlt => .inl (of_decide_eq_true hlt)
      · intro b hb hlt
        have hle := Nat.le_of_not_lt (of_decide_eq_false hlt)
        rcases Nat.lt_or_eq_of_le hle with hlt | he
        · exact .inl hlt
        · exact .inr ⟨he, hlast b hb⟩
    | false =>
      refine ⟨_, List.perm_append_singleton t _, rfl, List.pairwise_append.2 ⟨hs, ?_, ?_⟩⟩
      · exact List.pairwise_singleton ..
      · intro u hu v hv
        rw [List.mem_singleton.1 hv]
        exact hlast u hu
  have hr : (({ s with queue := Function.update s.queue (.wait q) l } : Sched).arrive t).ready =
      s.ready := by
    funext p
    exact Function.update_of_ne (nofun : TaskQueue.ready p ≠ .wait q) l s.queue
  rw [heq]
  refine ⟨⟨h.linked.insert ht hl, ?_, hr ▸ h.primap, h.bitmap, ?_, ?_⟩, hr ▸ h.top⟩
  · intro u p hu
    by_cases hut : u = t
    · subst hut
      rw [Function.update_self] at hu
      cases hu
    · rw [Function.update_of_ne hut] at hu
      exact h.ready_pri u p hu
  · intro q'
    simp only [Sched.arrive]
    by_cases hq : q' = q
    · subst hq
      rwa [Function.update_self]
    · rw [Function.update_of_ne (by simpa only [ne_eq, TaskQueue.wait.injEq] using hq)]
      exact hsorted q'
  · intro q' u hu
    simp only [Sched.arrive] at hu ⊢
    by_cases hut : u = t
    · rw [hut, Function.update_self]
      exact Nat.lt_succ_self _
    · rw [Function.update_of_ne hut]
      refine Nat.lt_succ_of_lt (h.fresh q' u ?_)
      by_cases hq : q' = q
      · subst hq
        rw [Function.update_self] at hu
        exact (List.mem_cons.1 (hl.mem_iff.1 hu)).resolve_left hut
      · rwa [Function.update_of_ne (by simpa only [ne_eq, TaskQueue.wait.injEq] using hq)] at hu

/-- A waiting task enters its queue again, behind the tasks of its new priority. -/
theorem SchedInv.wobjChangePriority (h : SchedInv L pri tp s) (ht : L t = some (.wait q))
    (hq : tp q = true) : SchedInv L (Function.update pri t new) tp
      (s.wobjChangePriority (Function.update pri t new) q t) := by
  have hd := h.queueDelete (t := t) fun p hp => by rw [ht] at hp; cases hp
  have hne (u : Nat) (o : TaskQueue) (hu : Function.update L t none u = some o) : u ≠ t := by
    rintro rfl
    rw [Function.update_self] at hu
    cases hu
  have hp : SchedInv _ (Function.update pri t new) _ _ := hd.pri_congr
    (fun u p hu => Function.update_of_ne (hne u _ hu) ..)
    (fun u q hu _ => Function.update_of_ne (hne u _ hu) ..)
  have he := hp.enterWait (t := t) (Function.update_self ..) q
  rw [Function.update_idem, ← ht, Function.update_eq_self, hq] at he
  exact he

end

end AspKernel
