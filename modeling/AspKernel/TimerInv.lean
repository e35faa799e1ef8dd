import AspKernel.TimeEventInv

namespace AspKernel
open BinHeap
set_option autoImplicit true

/-- The heap registers exactly the blocks of which `E` holds, with the callbacks of `K`. -/
structure TimerInv (E : TmevtbPtr → Bool) (K : TmevtbPtr → CBack) (tm : Timer) : Prop where
  heap : TmevtInv tm.minTime tm.heap tm.heap.lookup
  dom : ∀ p, (tm.heap.lookup p).isSome = E p
  callback : ∀ p, E p = true → tm.callback p = K p
  dequeue : tm.dequeueOk = true

/-- The clock, and what `signal_time` has fired. -/
def Timer.clock (tm : Timer) :=
  (tm.currentTime, tm.minTime, tm.nextTime, tm.nextSubtime, tm.ticks, tm.fired)

section
variable {E : TmevtbPtr → Bool} {K : TmevtbPtr → CBack} {tm : Timer}

theorem TimerInv.congr (h : TimerInv E K tm) (hK : ∀ p, E p = true → K' p = K p) :
    TimerInv E K' tm where
  heap := h.heap
  dom := h.dom
  callback p hp := (h.callback p hp).trans (hK p hp).symm
  dequeue := h.dequeue

theorem TimerInv.same (h : TimerInv E K tm) (he : E e = b) :
    TimerInv (Function.update E e b) K tm := by
  rwa [← he, Function.update_eq_self]

theorem TimerInv.lookup_none (h : TimerInv E K tm) (hp : E p = false) :
    tm.heap.lookup p = none := by
  have hd := h.dom p
  rwa [hp, Option.isSome_eq_false_iff, Option.isNone_iff_eq_none] at hd

theorem TimerInv.lookup_some (h : TimerInv E K tm) (hp : E p = true) :
    ∃ k, tm.heap.lookup p = some k := by
  rw [← Option.isSome_iff_exists, h.dom, hp]

theorem isSome_update (f : TmevtbPtr → Option EVTTIM) (p : TmevtbPtr) (o : Option EVTTIM)
    (hf : ∀ p, (f p).isSome = E p) (q : TmevtbPtr) :
    (Function.update f p o q).isSome = Function.update E p o.isSome q := by
  by_cases hq : q = p
  · subst hq
    rw [Function.update_self, Function.update_self]
  · rw [Function.update_of_ne hq, Function.update_of_ne hq, hf]

theorem TimerInv.register (h : TimerInv E K tm) (hp : E p = false) (time : EVTTIM) (cb : CBack)
    (d : Option RELTIM) : TimerInv (Function.update E p true) (Function.update K p cb)
      (tm.register p time cb d) where
  heap := by
    have hi := h.heap.insert (h.lookup_none hp) time
    have he := hi.lookup_eq
    unfold Timer.register
    simp only
    rw [he]
    exact hi
  dom q := by
    have he := (h.heap.insert (h.lookup_none hp) time).lookup_eq
    unfold Timer.register
    simp only
    rw [he]
    exact isSome_update _ p (some time) h.dom q
  callback q hq := by
    unfold Timer.register
    by_cases hqp : q = p
    · subst hqp
      simp only [Function.update_self]
    · rw [Function.update_of_ne hqp] at hq
      simp only [Function.update_of_ne hqp]
      exact h.callback q hq
  dequeue := h.dequeue

theorem TimerInv.tmevtbDequeue (h : TimerInv E K tm) (hp : E p = true) :
    TimerInv (Function.update E p false) K (tm.tmevtbDequeue p) := by
  obtain ⟨k, hk⟩ := h.lookup_some hp
  have hd := h.heap.delete hk
  have he := hd.lookup_eq
  unfold Timer.tmevtbDequeue
  refine ⟨?_, ?_, ?_, ?_⟩
  · simp only
    rw [he]
    exact hd
  · intro q
    simp only
    rw [he]
    exact isSome_update _ p none h.dom q
  · intro q hq
    by_cases hqp : q = p
    · subst hqp
      rw [Function.update_self] at hq
      cases hq
    · rw [Function.update_of_ne hqp] at hq
      exact h.callback q hq
  · simp only [h.dequeue, hk, Option.isSome_some, Bool.and_self]

theorem TimerInv.registered (h : TimerInv E K tm) (hl : 0 < tm.heap.last) :
    E (tm.heap.node 1).id = true := by
  rw [← h.dom, (h.heap.holds.at_pos 1 (Nat.le_refl _) hl).2]
  rfl

theorem TimerInv.sigPop (h : TimerInv E K tm) (hl : 0 < tm.heap.last) :
    TimerInv (Function.update E (tm.heap.node 1).id false) K tm.sigPop := by
  have hd := h.heap.deleteTop hl
  have he := hd.lookup_eq
  unfold Timer.sigPop
  refine ⟨?_, ?_, ?_, h.dequeue⟩
  · simp only
    rw [he]
    exact hd
  · intro q
    simp only
    rw [he]
    exact isSome_update _ _ none h.dom q
  · intro q hq
    by_cases hqp : q = (tm.heap.node 1).id
    · subst hqp
      rw [Function.update_self] at hq
      cases hq
    · rw [Function.update_of_ne hqp] at hq
      exact h.callback q hq

theorem TimerInv.sigBegin (h : TimerInv E K tm) (nume deno : BitVec 32) :
    TimerInv E K (tm.sigBegin nume deno) := ⟨h.heap, h.dom, h.callback, h.dequeue⟩

theorem sub_toNat_of_le {a b m : EVTTIM} (h : (b - m).toNat ≤ (a - m).toNat) :
    (a - b).toNat = (a - m).toNat - (b - m).toNat := by
  have he : a - b = a - m - (b - m) := (sub_sub_sub_cancel_right a b m).symm
  rw [he, BitVec.toNat_sub_of_le h]

/-- The times that are left after the loop of `signal_time` are in the same order from the new
`min_time`. -/
theorem TimerInv.sigEnd (h : TimerInv E K tm) (hdue : tm.due = false) :
    TimerInv E K tm.sigEnd := by
  have hlate (i : Nat) (h1 : 1 ≤ i) (h2 : i ≤ tm.heap.last) :
      (tm.currentTime - tm.minTime).toNat ≤ ((tm.heap.node i).key - tm.minTime).toNat := by
    have hroot := h.heap.ordered.root (evttimLe_total _) h1 h2
    have hl : decide (0 < tm.heap.last) = true := decide_eq_true (by omega)
    rw [Timer.due, hl, Bool.true_and, Bool.eq_false_iff, ne_eq, evttimLe_iff] at hdue
    rw [evttimLe_iff] at hroot
    omega
  refine ⟨⟨h.heap.holds, ?_⟩, h.dom, h.callback, h.dequeue⟩
  refine h.heap.ordered.congr fun i j hi hi' hj hj' hle => ?_
  rw [evttimLe_iff] at hle ⊢
  change ((tm.heap.node i).key - tm.currentTime).toNat ≤
    ((tm.heap.node j).key - tm.currentTime).toNat
  rw [sub_toNat_of_le (hlate i hi hi'), sub_toNat_of_le (hlate j hj hj')]
  omega

end

end AspKernel
