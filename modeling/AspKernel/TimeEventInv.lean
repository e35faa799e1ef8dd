import AspKernel.TimeEvent

namespace AspKernel
open BinHeap
set_option autoImplicit true

theorem evttimLe_iff : evttimLe m a b = true ↔ (a - m).toNat ≤ (b - m).toNat := by
  simp only [evttimLe, BitVec.ule_eq_decide, decide_eq_true_eq]

theorem evttimLt_iff : evttimLt m a b = true ↔ (a - m).toNat < (b - m).toNat := by
  simp only [evttimLt, BitVec.ult_eq_decide, decide_eq_true_eq]

theorem evttimLe_total (m : EVTTIM) : TotalPre (evttimLe m) where
  total a b := by
    simp only [evttimLe_iff]
    exact Nat.le_total ..
  trans a b c h h' := by
    rw [evttimLe_iff] at h h' ⊢
    exact h.trans h'

theorem evttimLe_of_not_lt (h : ¬evttimLt m a b = true) : evttimLe m b a = true := by
  rw [evttimLt_iff] at h
  exact evttimLe_iff.2 (Nat.le_of_not_lt h)

theorem evttimLe_of_lt (h : evttimLt m a b = true) : evttimLe m a b = true :=
  evttimLe_iff.2 (evttimLt_iff.1 h).le

theorem not_evttimLe_of_lt (h : evttimLt m a b = true) : evttimLe m b a = false := by
  rw [evttimLt_iff] at h
  rw [Bool.eq_false_iff, ne_eq, evttimLe_iff]
  exact Nat.not_le_of_lt h

/-- Where the search upwards stops. -/
structure UpStop (m : EVTTIM) (h : TmevtHeap) (i : Nat) (e : Node EVTTIM TmevtbPtr)
    (f : TmevtbPtr → Option EVTTIM) : Prop where
  sifting : Sifting h i e f
  order : UpOrder (evttimLe m) h i e.key
  stop : 1 < i → evttimLe m (h.node (i / 2)).key e.key = true

theorem tmevtUp_stop (hs : Sifting h i e f) (ho : UpOrder (evttimLe m) h i e.key) (hn : i ≤ n) :
    UpStop m (tmevtUp m n h i e.key).1 (tmevtUp m n h i e.key).2 e f := by
  induction n generalizing h i with
  | zero => exact absurd hs.pos (by omega)
  | succ n ih =>
    unfold tmevtUp
    split
    · rename_i hi
      simp only
      split
      · rename_i hle
        exact ⟨hs, ho, fun _ => hle⟩
      · rename_i hle
        have hu := hs.le_last
        exact ih (hs.move (by omega) (by omega) (by omega))
          (ho.move (evttimLe_total m) hi hu (Bool.eq_false_iff.2 hle)) (by omega)
    · rename_i hi
      exact ⟨hs, ho, fun hi' => absurd hi' hi⟩

theorem UpStop.holds (h : UpStop m h' i e f) : Holds (h'.place i e) f := h.sifting.finish

theorem UpStop.ordered (h : UpStop m h' i e f) : Ordered (evttimLe m) (h'.place i e) :=
  h.order.finish h.sifting.pos h.stop

/-- Where the search downwards stops. -/
structure DownStop (m : EVTTIM) (h : TmevtHeap) (i : Nat) (e : Node EVTTIM TmevtbPtr)
    (f : TmevtbPtr → Option EVTTIM) : Prop where
  sifting : Sifting h i e f
  order : DownOrder (evttimLe m) h i e.key
  stop : ∀ c, c / 2 = i → c ≤ h.last → evttimLe m e.key (h.node c).key = true

theorem tmevtChild_spec (h : TmevtHeap) (hi : i * 2 ≤ h.last) :
    (tmevtChild m h i) / 2 = i ∧ tmevtChild m h i ≤ h.last ∧
      ∀ d, 1 ≤ i → d / 2 = i → d ≤ h.last →
        evttimLe m (h.node (tmevtChild m h i)).key (h.node d).key = true := by
  have hd (d : Nat) (h1 : 1 ≤ i) (hd : d / 2 = i) : d = i * 2 ∨ d = i * 2 + 1 := by omega
  unfold tmevtChild
  simp only
  split
  · rename_i hc
    refine ⟨by omega, hc.1, ?_⟩
    intro d h1 hdi hdl
    rcases hd d h1 hdi with rfl | rfl
    · exact evttimLe_of_lt hc.2
    · exact (evttimLe_total m).refl _
  · rename_i hc
    refine ⟨by omega, hi, ?_⟩
    intro d h1 hdi hdl
    rcases hd d h1 hdi with rfl | rfl
    · exact (evttimLe_total m).refl _
    · exact evttimLe_of_not_lt fun hlt => hc ⟨hdl, hlt⟩

theorem tmevtDown_stop (hs : Sifting h i e f) (ho : DownOrder (evttimLe m) h i e.key)
    (hn : h.last < i + n) :
    DownStop m (tmevtDown m n h i e.key).1 (tmevtDown m n h i e.key).2 e f := by
  have hleaf (h : TmevtHeap) (i : Nat) (hs : Sifting h i e f)
      (ho : DownOrder (evttimLe m) h i e.key) (hi : ¬i * 2 ≤ h.last) : DownStop m h i e f :=
    ⟨hs, ho, fun c hc hcl => absurd hcl (by omega)⟩
  induction n generalizing h i with
  | zero =>
    have hu := hs.le_last
    omega
  | succ n ih =>
    have hpos := hs.pos
    unfold tmevtDown
    split
    · rename_i hi
      obtain ⟨hc, hcl, hmin⟩ := tmevtChild_spec (m := m) h hi
      simp only
      split
      · rename_i hle
        exact ⟨hs, ho, fun c hci hcl => (evttimLe_total m).trans _ _ _ hle (hmin c hpos hci hcl)⟩
      · rename_i hle
        exact ih (hs.move (by omega) hcl (by omega))
          (ho.move (evttimLe_total m) hpos hc hcl (fun d => hmin d hpos) (Bool.eq_false_iff.2 hle))
          (by simp only [place_last]; omega)
    · rename_i hi
      exact hleaf h i hs ho hi

theorem DownStop.holds (h : DownStop m h' i e f) : Holds (h'.place i e) f := h.sifting.finish

theorem DownStop.ordered (h : DownStop m h' i e f) : Ordered (evttimLe m) (h'.place i e) :=
  h.order.finish h.sifting.pos h.stop

/-- The heap is in the order of the times and registers the entries of `f`. -/
structure TmevtInv (m : EVTTIM) (h : TmevtHeap) (f : TmevtbPtr → Option EVTTIM) : Prop where
  holds : Holds h f
  ordered : Ordered (evttimLe m) h

theorem TmevtInv.insert (hh : TmevtInv m h f) (hp : f p = none) (time : EVTTIM) :
    TmevtInv m (tmevtbInsert m h p time) (Function.update f p (some time)) := by
  have hs := hh.holds.grow (e := ⟨time, p⟩) hp
  have ho : UpOrder (evttimLe m) { h with last := h.last + 1 } (h.last + 1) time := by
    refine ⟨?_, ?_, ?_⟩
    · intro i hi hi' hne _
      exact hh.ordered i hi (by simp only at hi'; omega)
    · intro hl c hc hc'
      simp only at hc'
      omega
    · intro c hc hc'
      simp only at hc'
      omega
  have hstop := tmevtUp_stop hs ho (Nat.le_refl _)
  exact ⟨hstop.holds, hstop.ordered⟩

/-- An entry outside of the heap may be written. -/
theorem holds_place_beyond {h : TmevtHeap} (hh : Holds h f) (hi : h.last < i)
    (hp : f e.id = none) : Holds (h.place i e) f where
  at_pos j hj hj' := by
    obtain ⟨hx, hm⟩ := hh.at_pos j hj hj'
    have hj' : j ≤ h.last := hj'
    rw [place_node_ne _ _ (by omega), place_index_ne _ _ _ ?_]
    · exact ⟨hx, hm⟩
    · intro he
      rw [he, hp] at hm
      cases hm
  in_heap q k hq := by
    obtain ⟨h1, h2, hn⟩ := hh.in_heap q k hq
    rw [place_index_ne _ _ _ ?_, place_node_ne _ _ (by omega)]
    · exact ⟨h1, h2, hn⟩
    · intro he
      rw [he, hp] at hq
      cases hq

theorem ordered_place_beyond {h : TmevtHeap} (ho : Ordered (evttimLe m) h) (hi : h.last < i) :
    Ordered (evttimLe m) (h.place i e) := by
  intro j hj hj'
  simp only [place_last] at hj'
  rw [place_node_ne _ _ (by omega), place_node_ne _ _ (by omega)]
  exact ho j hj hj'

theorem tmevtDown_leaf (m : EVTTIM) (n : Nat) (h : TmevtHeap) (hi : ¬i * 2 ≤ h.last)
    (time : EVTTIM) : tmevtDown m n h i time = (h, i) := by
  cases n with
  | zero => rfl
  | succ n =>
    unfold tmevtDown
    rw [if_neg hi]

/-- The last entry takes a place from which it may have to move down. -/
theorem TmevtInv.down (hh : TmevtInv m h f) (hp : f p = some k) (hl : h.index p ≠ h.last)
    (habove : 1 < h.index p →
      evttimLe m (h.node (h.index p / 2)).key (h.node h.last).key = true) :
    DownStop m (tmevtDown m (h.last - 1) { h with last := h.last - 1 } (h.index p)
        (h.node h.last).key).1
      (tmevtDown m (h.last - 1) { h with last := h.last - 1 } (h.index p) (h.node h.last).key).2
      (h.node h.last) (Function.update f p none) := by
  have hs := hh.holds.shrink hp hl
  have hu := hs.le_last
  have hpos := hs.pos
  simp only at hu
  have ho := hh.ordered.shrink
  exact tmevtDown_stop hs ⟨ho.except _, ho.bridge (evttimLe_total m) hu, habove⟩
    (by simp only; omega)

theorem TmevtInv.delete (hh : TmevtInv m h f) (hp : f p = some k) :
    TmevtInv m (tmevtbDelete m h p) (Function.update f p none) := by
  obtain ⟨h1, h2, hn⟩ := hh.holds.in_heap p k hp
  unfold tmevtbDelete
  simp only
  split
  · exact ⟨hh.holds.drop_last hp (by omega), hh.ordered.shrink⟩
  · rename_i hz
    by_cases hl : h.index p = h.last
    · have hlt : ¬(1 < h.index p ∧ evttimLt m (h.node h.last).key
          (h.node (h.index p / 2)).key = true) := by
        rintro ⟨hlt, hlt'⟩
        have hle := hh.ordered (h.index p) hlt h2
        rw [hl] at hle hlt'
        rw [not_evttimLe_of_lt hlt'] at hle
        cases hle
      rw [if_neg hlt, tmevtDown_leaf _ _ _ (by simp only; omega)]
      have hid : (h.node h.last).id = p := by
        rw [← hl, hn]
      refine ⟨holds_place_beyond (hh.holds.drop_last hp hl) (by simp only; omega) ?_,
        ordered_place_beyond hh.ordered.shrink (by simp only; omega)⟩
      rw [hid, Function.update_self]
    · have hs := hh.holds.shrink hp hl
      split
      · rename_i hlt
        obtain ⟨hi, hlt⟩ := hlt
        have ho := hh.ordered.shrink
        have hu := hs.le_last
        have hu' : h.index p ≤ h.last - 1 := hu
        have hup : UpOrder (evttimLe m) { h with last := h.last - 1 } (h.index p)
            (h.node h.last).key :=
          ⟨ho.except _, ho.bridge (evttimLe_total m) hu, fun c hc hcl =>
            (evttimLe_total m).trans _ _ _ (evttimLe_of_lt hlt)
              (ho.bridge (evttimLe_total m) hu hi c hc hcl)⟩
        have hstop := tmevtUp_stop (hs.move (j := h.index p / 2) (by omega) (by simp only; omega)
          (by omega)) (hup.move (evttimLe_total m) hi hu (not_evttimLe_of_lt hlt)) (Nat.le_refl _)
        exact ⟨hstop.holds, hstop.ordered⟩
      · rename_i hlt
        have hstop := hh.down hp hl fun hi => evttimLe_of_not_lt fun hlt' => hlt ⟨hi, hlt'⟩
        exact ⟨hstop.holds, hstop.ordered⟩

theorem TmevtInv.deleteTop (hh : TmevtInv m h f) (hl : 0 < h.last) :
    TmevtInv m (tmevtbDeleteTop m h) (Function.update f (h.node 1).id none) := by
  obtain ⟨hx, hp⟩ := hh.holds.at_pos 1 (Nat.le_refl _) hl
  unfold tmevtbDeleteTop
  simp only
  split
  · rename_i hz
    exact ⟨hh.holds.drop_last hp (by omega), hh.ordered.shrink⟩
  · rename_i hz
    have hstop := hh.down hp (by omega) fun hi => absurd hi (by omega)
    rw [hx] at hstop
    exact ⟨hstop.holds, hstop.ordered⟩

theorem TmevtInv.lookup_eq (hh : TmevtInv m h f) : h.lookup = f := hh.holds.lookup_eq

/-- The first entry comes first. -/
theorem TmevtInv.first (hh : TmevtInv m h f) (hp : f p = some k) :
    0 < h.last ∧ evttimLe m (h.node 1).key k = true := by
  obtain ⟨h1, h2, hn⟩ := hh.holds.in_heap p k hp
  have hr := hh.ordered.root (evttimLe_total m) h1 h2
  rw [hn] at hr
  exact ⟨by omega, hr⟩

end AspKernel
