import Mathlib.Order.Bounds.Basic
import AspKernel.Fair

namespace AspKernel
set_option autoImplicit true

/-- The holder of a mutex. -/
def Core.holder (c : Core) (m : Nat) : Option Nat := (c.mtxcb m).pLoctsk

/-- What bounds the priority of a task: its base priority and the ceilings of its mutexes. -/
def Core.bounds (c : Core) (H : Nat → Option Nat) (t : Nat) : Set Nat :=
  insert (c.tcb t).bpriority {p | ∃ m, H m = some t ∧ c.mtxCeiling m = true ∧ c.ceilpri m = p}

/-- The condition of the mutexes whose holders are those of `H`; a mutex of `X` may have no holder
although tasks wait for it, and the tasks of `D` are detached. -/
structure MutexBase (H : Nat → Option Nat) (X : Nat → Prop) (D : Nat → Bool) (c : Core) :
    Prop where
  linked : Links.Linked H c.mutexQueue
  free : ∀ m ∈ c.freeWobj .MTX, H m = none
  idle : ∀ m t, ¬X m → H m = none → c.loc D t ≠ some (.wait (.MTX, m))
  held : ∀ m t, H m = some t → c.mtxCeiling m = true → c.ceilpri m ≤ (c.tcb t).bpriority
  waits : ∀ m t, c.loc D t = some (.wait (.MTX, m)) → c.mtxCeiling m = true →
    c.ceilpri m ≤ (c.tcb t).bpriority
  dormant : ∀ m t, H m = some t → (c.tcb t).tstat ≠ .DORMANT

/-- The condition of the mutexes and of the priorities that they give. -/
structure MutexInv (D : Nat → Bool) (c : Core) : Prop where
  base : MutexBase c.holder (fun _ => False) D c
  pri : ∀ t, D t = false → IsLeast (c.bounds c.holder t) (c.priority t)

/-- What the conditions of the mutexes depend on. -/
structure SameMtx (c c' : Core) : Prop where
  mutexQueue : c'.mutexQueue = c.mutexQueue
  free : c'.freeWobj .MTX = c.freeWobj .MTX
  ceiling : ∀ m, c'.mtxCeiling m = c.mtxCeiling m
  ceilpri : ∀ m, c'.ceilpri m = c.ceilpri m
  bpriority : ∀ t, (c'.tcb t).bpriority = (c.tcb t).bpriority
  dormant : ∀ t, (c'.tcb t).tstat = .DORMANT → (c.tcb t).tstat = .DORMANT

section
variable {cfg : Cfg} {H H' : Nat → Option Nat} {X : Nat → Prop} {D : Nat → Bool}
  {S : Scope} {P : WQueue → Prop} {R : Nat → Prop} {c c' c'' : Core}

theorem SameMtx.refl : SameMtx c c :=
  ⟨rfl, rfl, fun _ => rfl, fun _ => rfl, fun _ => rfl, fun _ h => h⟩

theorem SameMtx.bounds (h : SameMtx c c') (t : Nat) : c'.bounds H t = c.bounds H t := by
  unfold Core.bounds
  simp only [h.bpriority, h.ceiling, h.ceilpri]

theorem mtxCeiling_eq (h : c'.wobjatr (.MTX, m) = c.wobjatr (.MTX, m)) :
    c'.mtxCeiling m = c.mtxCeiling m := by
  unfold Core.mtxCeiling
  rw [h]

theorem MFrame.same (h : MFrame c c') : SameMtx c c' where
  mutexQueue := h.mutexQueue
  free := h.free
  ceiling m := mtxCeiling_eq (h.atr m)
  ceilpri m := by
    unfold Core.ceilpri
    rw [h.mtxcb]
  bpriority := h.bpriority
  dormant := h.dormant

/-- A change of one control block that is not about mutexes. -/
theorem SameMtx.of_local (h : c.Local c') (ht : c'.tcb = Function.update c.tcb t p)
    (hb : p.bpriority = (c.tcb t).bpriority)
    (hd : p.tstat = .DORMANT → (c.tcb t).tstat = .DORMANT) : SameMtx c c' := by
  obtain ⟨_, _, _, _, rfl⟩ := h
  simp only at ht
  subst ht
  refine ⟨rfl, rfl, fun _ => rfl, fun _ => rfl, fun u => ?_, fun u hu => ?_⟩ <;> simp only at *
  · by_cases hut : u = t
    · subst hut
      rwa [Function.update_self]
    · rw [Function.update_of_ne hut]
  · by_cases hut : u = t
    · subst hut
      rw [Function.update_self] at hu
      exact hd hu
    · rwa [Function.update_of_ne hut] at hu

theorem MutexBase.congr (h : MutexBase H X D c) (hs : SameMtx c c')
    (hl : ∀ t m, c'.loc D t = some (.wait (.MTX, m)) → c.loc D t = some (.wait (.MTX, m))) :
    MutexBase H X D c' where
  linked := by
    rw [hs.mutexQueue]
    exact h.linked
  free := by
    rw [hs.free]
    exact h.free
  idle m t hX hm hloc := h.idle m t hX hm (hl t m hloc)
  held m t := by
    rw [hs.ceiling, hs.ceilpri, hs.bpriority]
    exact h.held m t
  waits m t hloc := by
    rw [hs.ceiling, hs.ceilpri, hs.bpriority]
    exact h.waits m t (hl t m hloc)
  dormant m t hm hd := h.dormant m t hm (hs.dormant t hd)

/-- A change that has nothing to do with mutexes, after which no task waits for one that did not
wait for it before. -/
theorem MutexInv.congr (h : MutexInv D c) (hm : MFrame c c')
    (hl : ∀ t m, c'.loc D t = some (.wait (.MTX, m)) → c.loc D t = some (.wait (.MTX, m))) :
    MutexInv D c' := by
  have hh : c'.holder = c.holder := by
    funext m
    unfold Core.holder
    rw [hm.mtxcb]
  refine ⟨?_, fun t hd => ?_⟩
  · rw [hh]
    exact h.base.congr hm.same hl
  · rw [hh, hm.same.bounds, show c'.priority t = c.priority t from hm.priority t]
    exact h.pri t hd

/-- The holders of the other tasks' mutexes are the same. -/
theorem bounds_update_ne (hn : H m ≠ some u) (ho : o ≠ some u) :
    c.bounds (Function.update H m o) u = c.bounds H u := by
  have he (m' : Nat) : Function.update H m o m' = some u ↔ H m' = some u := by
    by_cases hm : m' = m
    · subst hm
      rw [Function.update_self]
      exact ⟨fun h => absurd h ho, fun h => absurd h hn⟩
    · rw [Function.update_of_ne hm]
  unfold Core.bounds
  simp only [he]

/-- The bounds of a task with one more mutex. -/
theorem bounds_update (hn : H m = none) (t : Nat) :
    c.bounds (Function.update H m (some t)) t =
      if c.mtxCeiling m then insert (c.ceilpri m) (c.bounds H t) else c.bounds H t := by
  ext p
  have he (m' : Nat) : Function.update H m (some t) m' = some t ↔ m' = m ∨ H m' = some t := by
    by_cases hm : m' = m
    · subst hm
      rw [Function.update_self]
      exact ⟨fun _ => .inl rfl, fun _ => rfl⟩
    · rw [Function.update_of_ne hm]
      exact ⟨.inr, fun h => h.resolve_left hm⟩
  unfold Core.bounds
  simp only [he]
  split
  · rename_i hc
    simp only [Set.mem_insert_iff, Set.mem_ofPred_eq]
    constructor
    · rintro (h | ⟨m', rfl | h, h1, h2⟩)
      · exact .inr (.inl h)
      · exact .inl h2.symm
      · exact .inr (.inr ⟨m', h, h1, h2⟩)
    · rintro (h | h | ⟨m', h, h1, h2⟩)
      · exact .inr ⟨m, .inl rfl, hc, h.symm⟩
      · exact .inl h
      · exact .inr ⟨m', .inr h, h1, h2⟩
  · rename_i hc
    simp only [Set.mem_insert_iff, Set.mem_ofPred_eq]
    constructor
    · rintro (h | ⟨m', rfl | h, h1, h2⟩)
      · exact .inl h
      · exact absurd h1 hc
      · exact .inr ⟨m', h, h1, h2⟩
    · rintro (h | ⟨m', h, h1, h2⟩)
      · exact .inl h
      · exact .inr ⟨m', .inr h, h1, h2⟩

/-- The bounds of a task before it loses a mutex. -/
theorem bounds_of_holder (hm : H m = some t) : c.bounds H t =
    if c.mtxCeiling m then insert (c.ceilpri m) (c.bounds (Function.update H m none) t)
    else c.bounds (Function.update H m none) t := by
  have h := bounds_update (c := c) (H := Function.update H m none) (m := m)
    (Function.update_self ..) t
  rwa [Function.update_idem, ← hm, Function.update_eq_self] at h

theorem foldl_least (c : Core) (l : List Nat) (b : Nat) :
    IsLeast (insert b {p | ∃ m ∈ l, c.mtxCeiling m = true ∧ c.ceilpri m = p})
      (l.foldl (fun pri m => if c.mtxCeiling m ∧ c.ceilpri m < pri then c.ceilpri m else pri) b) := by
  induction l generalizing b with
  | nil => exact ⟨.inl rfl, by rintro p (rfl | ⟨m, hm, _⟩) <;> [exact Nat.le_refl _; cases hm]⟩
  | cons m l ih =>
    rw [List.foldl_cons]
    have hle : (if c.mtxCeiling m = true ∧ c.ceilpri m < b then c.ceilpri m else b) ≤ b := by
      split
      · rename_i hc
        exact hc.2.le
      · exact Nat.le_refl _
    obtain ⟨hmem, hlow⟩ := ih (if c.mtxCeiling m = true ∧ c.ceilpri m < b then c.ceilpri m else b)
    refine ⟨?_, ?_⟩
    · rcases hmem with hmem | ⟨m', hm', hc', hp'⟩
      · rw [hmem]
        split
        · rename_i hc
          exact .inr ⟨m, List.mem_cons_self .., hc.1, rfl⟩
        · exact .inl rfl
      · exact .inr ⟨m', List.mem_cons_of_mem _ hm', hc', hp'⟩
    · rintro p (rfl | ⟨m', hm', hc', rfl⟩)
      · exact (hlow (.inl rfl)).trans hle
      · rcases List.mem_cons.1 hm' with rfl | hm'
        · refine (hlow (.inl rfl)).trans ?_
          split
          · exact Nat.le_refl _
          · rename_i hn
            exact Nat.le_of_not_lt fun hlt => hn ⟨hc', hlt⟩
        · exact hlow (.inr ⟨m', hm', hc', rfl⟩)

/-- The priority that `mutex_calc_priority` finds is the least bound. -/
theorem mutexCalcPriority_least (hl : Links.Linked H c.mutexQueue) (t : Nat) :
    IsLeast (c.bounds H t) (c.mutexCalcPriority t) := by
  have h := foldl_least c (c.mutexQueue t) (c.tcb t).bpriority
  unfold Core.bounds
  simp only [← hl.mem]
  exact h

theorem sameMtx_changePriority (c : Core) (t new : Nat) (b : Bool) :
    SameMtx c (c.changePriority t new b).1 :=
  .of_local (local_changePriority c t new b) (changePriority_tcb c t new b) rfl id

theorem MutexBase.changePriority (h : MutexBase H X D c) (t new : Nat) (b : Bool) :
    MutexBase H X D (c.changePriority t new b).1 := by
  refine h.congr (sameMtx_changePriority c t new b) fun u m hl => ?_
  obtain ⟨hd, hl⟩ := Core.loc_some hl
  rw [Core.loc_attached hd]
  rw [changePriority_tcb] at hl
  by_cases hut : u = t
  · subst hut
    rw [Function.update_self] at hl
    obtain ⟨h1, h2, h3⟩ := TCB.loc_eq_wait.1 hl
    exact TCB.loc_eq_wait.2 ⟨h1, h2, h3⟩
  · rwa [Function.update_of_ne hut] at hl

theorem changePriority_priority (c : Core) (t new : Nat) (b : Bool) :
    (c.changePriority t new b).1.priority = Function.update c.priority t new := by
  funext u
  unfold Core.priority
  rw [changePriority_tcb]
  by_cases hut : u = t
  · subst hut
    rw [Function.update_self, Function.update_self]
  · rw [Function.update_of_ne hut, Function.update_of_ne hut]

theorem IsLeast.of_insert {s : Set Nat} (h : IsLeast (insert q s) p) (hne : p ≠ q) : IsLeast s p :=
  ⟨h.1.resolve_left hne, fun _ hx => h.2 (.inr hx)⟩

/-- The priorities after a task has lost a mutex. -/
theorem drop_least (hl : Links.Linked (Function.update H m none) c.mutexQueue) (hm : H m = some t)
    (hp : ∀ u, D u = false → IsLeast (c.bounds H u) (c.priority u)) (hu : D u = false) :
    IsLeast (Core.bounds
      (if c.mtxCeiling m then c.mutexDropPriority t (c.ceilpri m) else (c, false)).1
        (Function.update H m none) u)
      ((if c.mtxCeiling m then c.mutexDropPriority t (c.ceilpri m) else (c, false)).1.priority u) := by
  have hold := hp u hu
  by_cases hut : u = t
  · subst hut
    rw [bounds_of_holder hm] at hold
    split
    · rename_i hc
      rw [if_pos hc] at hold
      unfold Core.mutexDropPriority
      split
      · simp only
        split
        · rw [(sameMtx_changePriority ..).bounds, changePriority_priority, Function.update_self]
          exact mutexCalcPriority_least hl u
        · rename_i he
          have he : c.mutexCalcPriority u = c.priority u := not_not.1 he
          rw [← he]
          exact mutexCalcPriority_least hl u
      · rename_i hne
        exact IsLeast.of_insert hold fun he => hne he.symm
    · rename_i hc
      rwa [if_neg hc] at hold
  · have hb := bounds_update_ne (c := c) (H := H) (m := m) (u := u) (o := none)
      (by rw [hm]; exact fun he => hut (Option.some.inj he).symm) nofun
    rw [← hb] at hold
    split
    · unfold Core.mutexDropPriority
      split
      · simp only
        split
        · rw [(sameMtx_changePriority ..).bounds, changePriority_priority, Function.update_of_ne hut]
          exact hold
        · exact hold
      · exact hold
    · exact hold

theorem MutexBase.drop (h : MutexBase H X D c) (t m : Nat) : MutexBase H X D
    (if c.mtxCeiling m then c.mutexDropPriority t (c.ceilpri m) else (c, false)).1 := by
  split
  · unfold Core.mutexDropPriority
    split
    · simp only
      split
      · exact h.changePriority ..
      · exact h
    · exact h
  · exact h

theorem drop_local (c : Core) (t m : Nat) : c.Local
    (if c.mtxCeiling m then c.mutexDropPriority t (c.ceilpri m) else (c, false)).1 := by
  split
  · unfold Core.mutexDropPriority
    split
    · simp only
      split
      · exact local_changePriority ..
      · exact .refl c
    · exact .refl c
  · exact .refl c

/-- What the hand-over of a mutex changes. -/
theorem handOver_mtx (c : Core) (t m : Nat) :
    ((c.mutexHandOver t m).makeNonWait t).1.mtxcb = (c.setLoctsk m (some t)).mtxcb ∧
    ((c.mutexHandOver t m).makeNonWait t).1.mutexQueue =
      Function.update c.mutexQueue t (c.mutexQueue t ++ [m]) ∧
    ((c.mutexHandOver t m).makeNonWait t).1.wobjatr = c.wobjatr ∧
    ((c.mutexHandOver t m).makeNonWait t).1.freeWobj = c.freeWobj := by
  have h : (c.mutexHandOver t m).mtxcb = (c.setLoctsk m (some t)).mtxcb ∧
      (c.mutexHandOver t m).mutexQueue =
        Function.update c.mutexQueue t (c.mutexQueue t ++ [m]) ∧
      (c.mutexHandOver t m).wobjatr = c.wobjatr ∧ (c.mutexHandOver t m).freeWobj = c.freeWobj := by
    have he := (Ending.refl c t).queueDelete.waitDequeueTmevtb.setWercd E_OK
    unfold Core.mutexHandOver
    generalize (((c.queueDelete t).waitDequeueTmevtb t).setWercd t E_OK) = c1 at he ⊢
    obtain ⟨_, _, _, _, rfl⟩ := he.same
    simp only
    split <;> exact ⟨rfl, rfl, rfl, rfl⟩
  obtain ⟨_, _, _, _, hl⟩ := local_makeNonWait (c.mutexHandOver t m) t
  rw [hl]
  exact h

theorem handOver_tcb (c : Core) (t m : Nat) : ((c.mutexHandOver t m).makeNonWait t).1.tcb =
    Function.update c.tcb t { c.tcb t with
      tstat := (c.tcb t).tstat.nonWait
      priority := c.raised t m
      winfo := { (c.tcb t).winfo with cell := .wercd E_OK } } := by
  rw [makeNonWait_tcb, mutexHandOver_tcb, Function.update_idem, Function.update_self]

theorem holder_setLoctsk (c : Core) (m : Nat) (o : Option Nat) :
    (c.setLoctsk m o).holder = Function.update c.holder m o := by
  funext m'
  unfold Core.holder Core.setLoctsk
  by_cases hm : m' = m
  · subst hm
    simp only [Function.update_self]
  · simp only [Function.update_of_ne hm]

theorem raised_eq (c : Core) (t m : Nat) :
    c.raised t m = if c.mtxCeiling m then min (c.ceilpri m) (c.priority t) else c.priority t := by
  unfold Core.raised
  split
  · rename_i h
    rw [if_pos h.1, Nat.min_eq_left h.2.le]
  · rename_i h
    split
    · rename_i hc
      exact (Nat.min_eq_right (Nat.le_of_not_lt fun hlt => h ⟨hc, hlt⟩)).symm
    · rfl

theorem MutexBase.mono {X' : Nat → Prop} (h : MutexBase H X D c) (hX : ∀ m, X m → X' m) :
    MutexBase H X' D c :=
  ⟨h.linked, h.free, fun m t hn => h.idle m t fun hx => hn (hX m hx), h.held, h.waits, h.dormant⟩

/-- A mutex leaves the queue of its holder. -/
theorem MutexBase.unlink (h : MutexBase H X D c) (m : Nat) :
    MutexBase (Function.update H m none) (fun m' => X m' ∨ m' = m) D (c.mutexUnlink m) := by
  have hle (m' : Nat) (o : Nat) (ho : Function.update H m none m' = some o) : H m' = some o := by
    by_cases hm : m' = m
    · subst hm
      rw [Function.update_self] at ho
      cases ho
    · rwa [Function.update_of_ne hm] at ho
  refine ⟨h.linked.delete m, fun m' hm' => ?_, fun m' t hX hn => ?_, fun m' t ho => ?_, h.waits,
    fun m' t ho => h.dormant m' t (hle m' t ho)⟩
  · by_cases hm : m' = m
    · rw [hm, Function.update_self]
    · rw [Function.update_of_ne hm]
      exact h.free m' hm'
  · obtain ⟨hX, hm⟩ := not_or.1 hX
    rw [Function.update_of_ne hm] at hn
    exact h.idle m' t hX hn
  · exact h.held m' t (hle m' t ho)

/-- A mutex without a holder is handed over to the first task of its wait queue, if there is one. -/
theorem MutexBase.release (hc : CoreInv cfg D c) (h : MutexBase H (· = m) D c) (hm : H m = none)
    (hh : ∀ m' ≠ m, c.holder m' = H m')
    (hp : ∀ u, D u = false → IsLeast (c.bounds H u) (c.priority u)) :
    MutexInv D (c.mutexRelease m).1 := by
  have hhold (o : Option Nat) : (c.setLoctsk m o).holder = Function.update H m o := by
    rw [holder_setLoctsk]
    funext m'
    by_cases hm' : m' = m
    · rw [hm', Function.update_self, Function.update_self]
    · rw [Function.update_of_ne hm', Function.update_of_ne hm', hh m' hm']
  unfold Core.mutexRelease
  split
  · rename_i hhead
    have hempty : c.sched.queue (.wait (.MTX, m)) = [] := List.head?_eq_none_iff.1 hhead
    have hs : SameMtx c (c.setLoctsk m none) :=
      ⟨rfl, rfl, fun _ => rfl, fun _ => ceilpri_setLoctsk .., fun _ => rfl, fun _ hd => hd⟩
    have hH : (c.setLoctsk m none).holder = H := by
      rw [hhold, ← hm, Function.update_eq_self]
    refine ⟨?_, fun u hu => ?_⟩
    · rw [hH]
      have h1 := h.congr hs fun _ _ hl => hl
      refine ⟨h1.linked, h1.free, fun m' t _ hn => ?_, h1.held, h1.waits, h1.dormant⟩
      by_cases hm' : m' = m
      · rw [hm']
        exact hc.loc_ne_wait hempty
      · exact h1.idle m' t hm' hn
    · rw [hH, hs.bounds]
      exact hp u hu
  · rename_i t ht
    obtain ⟨hd, hl⟩ := hc.of_mem (mem_of_headTsk ht)
    have hloc : c.loc D t = some (.wait (.MTX, m)) := (Core.loc_attached hd).trans hl
    obtain ⟨hmtx, hq, hatr, hfree⟩ := handOver_mtx c t m
    have htcb := handOver_tcb c t m
    generalize ((c.mutexHandOver t m).makeNonWait t).1 = c' at hmtx hq hatr hfree htcb ⊢
    have hH : c'.holder = Function.update H m (some t) := by
      rw [← hhold (some t)]
      funext m'
      unfold Core.holder
      rw [hmtx]
    have hce (m' : Nat) : c'.mtxCeiling m' = c.mtxCeiling m' := mtxCeiling_eq (by rw [hatr])
    have hcp (m' : Nat) : c'.ceilpri m' = c.ceilpri m' := by
      rw [← ceilpri_setLoctsk c m m' (some t)]
      unfold Core.ceilpri
      rw [hmtx]
    have hbp (u : Nat) : (c'.tcb u).bpriority = (c.tcb u).bpriority := by
      rw [htcb]
      by_cases hut : u = t
      · rw [hut, Function.update_self]
      · rw [Function.update_of_ne hut]
    have hb (H' : Nat → Option Nat) (u : Nat) : c'.bounds H' u = c.bounds H' u := by
      unfold Core.bounds
      simp only [hbp, hce, hcp]
    have hloc' (u m' : Nat) (hl' : c'.loc D u = some (.wait (.MTX, m'))) :
        u ≠ t ∧ c.loc D u = some (.wait (.MTX, m')) := by
      obtain ⟨hdu, hl'⟩ := Core.loc_some hl'
      rw [htcb] at hl'
      by_cases hut : u = t
      · rw [hut, Function.update_self] at hl'
        exact absurd hl' (loc_nonWait (p := { c.tcb t with priority := c.raised t m }) _ _)
      · rw [Function.update_of_ne hut] at hl'
        exact ⟨hut, (Core.loc_attached hdu).trans hl'⟩
    refine ⟨⟨?_, fun m' hm' => ?_, fun m' u _ hn hl' => ?_, fun m' u ho hc' => ?_,
      fun m' u hl' hc' => ?_, fun m' u ho hd' => ?_⟩, fun u hu => ?_⟩
    · rw [hH, hq]
      exact h.linked.insert hm (List.perm_append_singleton m _)
    · rw [hfree] at hm'
      have hne : m' ≠ m := by
        rintro rfl
        exact hc.exist t _ hloc (hc.free.wobj .MTX m' hm')
      rw [hH, Function.update_of_ne hne]
      exact h.free m' hm'
    · have hne : m' ≠ m := by
        rintro rfl
        rw [hH, Function.update_self] at hn
        cases hn
      rw [hH, Function.update_of_ne hne] at hn
      exact h.idle m' u hne hn (hloc' u m' hl').2
    · rw [hcp, hbp]
      rw [hce] at hc'
      by_cases hne : m' = m
      · subst hne
        rw [hH, Function.update_self] at ho
        cases ho
        exact h.waits m' t hloc hc'
      · rw [hH, Function.update_of_ne hne] at ho
        exact h.held m' u ho hc'
    · rw [hcp, hbp]
      rw [hce] at hc'
      exact h.waits m' u (hloc' u m' hl').2 hc'
    · rw [htcb] at hd'
      by_cases hut : u = t
      · subst hut
        rw [Function.update_self] at hd'
        rcases (c.tcb u).tstat.nonWait_cases with he | he <;> (simp only [he] at hd'; cases hd')
      · rw [Function.update_of_ne hut] at hd'
        have hne : m' ≠ m := by
          rintro rfl
          rw [hH, Function.update_self] at ho
          exact hut (Option.some.inj ho).symm
        rw [hH, Function.update_of_ne hne] at ho
        exact h.dormant m' u ho hd'
    · rw [hH, hb]
      have hpri : c'.priority u = Function.update c.priority t (c.raised t m) u := by
        unfold Core.priority
        rw [htcb]
        by_cases hut : u = t
        · subst hut
          rw [Function.update_self, Function.update_self]
        · rw [Function.update_of_ne hut, Function.update_of_ne hut]
      rw [hpri]
      by_cases hut : u = t
      · subst hut
        rw [bounds_update hm, Function.update_self, raised_eq]
        split
        · exact (hp u hu).insert _
        · exact hp u hu
      · rw [bounds_update_ne (by rw [hm]; nofun) fun he => hut (Option.some.inj he).symm,
          Function.update_of_ne hut]
        exact hp u hu

theorem holder_of_local (h : c.Local c') : c'.holder = c.holder := by
  obtain ⟨_, _, _, _, rfl⟩ := h
  rfl

theorem MutexInv.unlock (h : MutexInv D c) (hc : CoreInv cfg D c) (hd : D t = false)
    (hm : c.holder m = some t) : MutexInv D (c.unlock t m).1 := by
  have h1 : CoreInv cfg D (c.mutexUnlink m) := hc.flags
  have hb := (h.base.unlink m).mono fun m' => Or.rec False.elim id
  have hp (u : Nat) (hu : D u = false) := drop_least hb.linked hm h.pri hu
  have hl := drop_local (c.mutexUnlink m) t m
  have h2 : CoreInv cfg D (if (c.mutexUnlink m).mtxCeiling m then
      (c.mutexUnlink m).mutexDropPriority t ((c.mutexUnlink m).ceilpri m)
      else (c.mutexUnlink m, false)).1 := by
    split
    · exact h1.mutexDropPriority hd _
    · exact h1
  refine (hb.drop t m).release h2 (Function.update_self ..) (fun m' hm' => ?_) hp
  rw [holder_of_local hl, Function.update_of_ne hm']
  rfl

theorem MutexInv.disown (h : MutexInv D c) (hc : CoreInv cfg D c) (hm : c.holder m = some t)
    (hq : c.sched.queue (.wait (.MTX, m)) = []) : MutexInv D (c.disown t m).1 := by
  have hs : SameMtx (c.mutexUnlink m) ((c.mutexUnlink m).setLoctsk m none) :=
    ⟨rfl, rfl, fun _ => rfl, fun _ => ceilpri_setLoctsk .., fun _ => rfl, fun _ hd => hd⟩
  have h1 := (h.base.unlink m).congr hs fun _ _ hl => hl
  have hb : MutexBase (Function.update c.holder m none) (fun _ => False) D
      ((c.mutexUnlink m).setLoctsk m none) := by
    refine ⟨h1.linked, h1.free, fun m' u _ hn => ?_, h1.held, h1.waits, h1.dormant⟩
    by_cases hm' : m' = m
    · rw [hm']
      exact hc.loc_ne_wait hq
    · exact h1.idle m' u (fun he => hm' (he.resolve_left id)) hn
  have hpri (u : Nat) (hu : D u = false) :
      IsLeast (((c.mutexUnlink m).setLoctsk m none).bounds c.holder u)
        (((c.mutexUnlink m).setLoctsk m none).priority u) := by
    rw [hs.bounds]
    exact h.pri u hu
  have hl := drop_local ((c.mutexUnlink m).setLoctsk m none) t m
  have hH := (holder_of_local hl).trans (holder_setLoctsk (c.mutexUnlink m) m none)
  unfold Core.disown
  refine ⟨?_, fun u hu => ?_⟩
  · rw [hH]
    exact hb.drop t m
  · rw [hH]
    exact drop_least hb.linked hm hpri hu

/-- The acquisition of a mutex that nobody holds. -/
theorem MutexInv.acquire (h : MutexInv D c) (hc : CoreInv cfg D c)
    (hr : (c.tcb t).tstat.runnable = true) (hn : c.holder m = none)
    (hm : ¬(c.mtxCeiling m = true ∧ (c.tcb t).bpriority < c.ceilpri m))
    (hex : c.noWobj (.MTX, m) = false) : MutexInv D (c.mutexAcquire t m).1 := by
  obtain ⟨c1, hc1⟩ : ∃ c1, c1 = { c.setLoctsk m (some t) with
      mutexQueue := Function.update c.mutexQueue t (m :: c.mutexQueue t) } := ⟨_, rfl⟩
  have hH : c1.holder = Function.update c.holder m (some t) := by
    rw [hc1]
    exact holder_setLoctsk c m (some t)
  have hce (m' : Nat) : c1.mtxCeiling m' = c.mtxCeiling m' := by rw [hc1]; rfl
  have hcp (m' : Nat) : c1.ceilpri m' = c.ceilpri m' := by
    rw [hc1]
    exact ceilpri_setLoctsk c m m' (some t)
  have htcb : c1.tcb = c.tcb := by rw [hc1]; rfl
  have hbase : MutexBase c1.holder (fun _ => False) D c1 := by
    have hold (m' u : Nat) (ho : c1.holder m' = some u) : m' = m ∧ u = t ∨ c.holder m' = some u := by
      rw [hH] at ho
      by_cases hm' : m' = m
      · rw [hm', Function.update_self] at ho
        exact .inl ⟨hm', (Option.some.inj ho).symm⟩
      · rw [Function.update_of_ne hm'] at ho
        exact .inr ho
    have hloc (u : Nat) : c1.loc D u = c.loc D u := by
      unfold Core.loc
      rw [htcb]
    refine ⟨?_, fun m' hm' => ?_, fun m' u _ hn' hl => ?_, fun m' u ho hc' => ?_,
      fun m' u hl hc' => ?_, fun m' u ho => ?_⟩
    · rw [hH, hc1]
      exact h.base.linked.insert hn (List.Perm.refl _)
    · have hfree : c1.freeWobj = c.freeWobj := by rw [hc1]; rfl
      rw [hfree] at hm'
      have hne : m' ≠ m := by
        rintro rfl
        rw [Core.noWobj, hc.free.wobj .MTX m' hm', beq_self_eq_true] at hex
        cases hex
      rw [hH, Function.update_of_ne hne]
      exact h.base.free m' hm'
    · rw [hloc] at hl
      have hne : m' ≠ m := by
        rintro rfl
        rw [hH, Function.update_self] at hn'
        cases hn'
      rw [hH, Function.update_of_ne hne] at hn'
      exact h.base.idle m' u id hn' hl
    · rw [hce] at hc'
      rw [hcp, htcb]
      rcases hold m' u ho with ⟨rfl, rfl⟩ | ho
      · exact Nat.le_of_not_lt fun hlt => hm ⟨hc', hlt⟩
      · exact h.base.held m' u ho hc'
    · rw [hce] at hc'
      rw [hloc] at hl
      rw [hcp, htcb]
      exact h.base.waits m' u hl hc'
    · rw [htcb]
      rcases hold m' u ho with ⟨rfl, rfl⟩ | ho
      · exact ne_dormant_of_runnable hr
      · exact h.base.dormant m' u ho
  have hb (u : Nat) : c1.bounds c1.holder u = if u = t ∧ c.mtxCeiling m = true then
      insert (c.ceilpri m) (c.bounds c.holder u) else c.bounds c.holder u := by
    have he : c1.bounds c1.holder u = c.bounds c1.holder u := by
      unfold Core.bounds
      simp only [htcb, hce, hcp]
    rw [he, hH]
    by_cases hut : u = t
    · subst hut
      simp only [true_and]
      exact bounds_update hn u
    · simp only [hut, false_and, if_false]
      exact bounds_update_ne (by rw [hn]; nofun) fun he => hut (Option.some.inj he).symm
  have hpri (u : Nat) : c1.priority u = c.priority u := by
    unfold Core.priority
    rw [htcb]
  have hne {u : Nat} (hut : u ≠ t) (hu : D u = false) :
      IsLeast (c1.bounds c1.holder u) (c1.priority u) := by
    rw [hb, hpri, if_neg fun he => hut he.1]
    exact h.pri u hu
  have heq : c.mutexAcquire t m = if c1.mtxCeiling m then c1.mutexRaisePriority t (c1.ceilpri m)
      else (c1, false) := by
    rw [hc1]
    rfl
  rw [heq]
  unfold Core.mutexRaisePriority
  split
  · rename_i hceil
    rw [hce] at hceil
    split
    · rename_i hlt
      have hl := local_changePriority c1 t (c1.ceilpri m) true
      refine ⟨?_, fun u hu => ?_⟩
      · rw [holder_of_local hl]
        exact hbase.changePriority ..
      · rw [holder_of_local hl, (sameMtx_changePriority ..).bounds, changePriority_priority]
        by_cases hut : u = t
        · subst hut
          have hi := (h.pri u hu).insert (c.ceilpri m)
          rw [hcp, hpri] at hlt
          rw [Function.update_self, hb, if_pos ⟨rfl, hceil⟩, hcp]
          rwa [Nat.min_eq_left hlt.le] at hi
        · rw [Function.update_of_ne hut]
          exact hne hut hu
    · rename_i hge
      refine ⟨hbase, fun u hu => ?_⟩
      by_cases hut : u = t
      · subst hut
        have hi := (h.pri u hu).insert (c.ceilpri m)
        rw [hcp, hpri] at hge
        rw [hb, if_pos ⟨rfl, hceil⟩, hpri]
        rwa [Nat.min_eq_right (Nat.le_of_not_lt hge)] at hi
      · exact hne hut hu
  · rename_i hceil
    rw [hce] at hceil
    refine ⟨hbase, fun u hu => ?_⟩
    rw [hb, if_neg fun he => hceil he.2, hpri]
    exact h.pri u hu

/-- A new base priority, of which the mutexes of the task have been asked. -/
theorem MutexInv.setBpriority (h : MutexInv D c)
    (hc : c.mutexQueue t ≠ [] ∨ (c.tcb t).tstat.waitMtx = true →
      c.mutexCheckCeilpri t new = true) : MutexInv D (c.setBpriority t new).1 := by
  obtain ⟨c1, hc1⟩ : ∃ c1, c1 = c.setTcb t { c.tcb t with bpriority := new } := ⟨_, rfl⟩
  have hbp (u : Nat) : (c1.tcb u).bpriority = if u = t then new else (c.tcb u).bpriority := by
    rw [hc1]
    split
    · rename_i hut
      rw [hut, Core.setTcb_self]
    · rename_i hut
      rw [Core.setTcb_of_ne _ _ hut]
  have hloc (u : Nat) (q : WQueue) (hl : c1.loc D u = some (.wait q)) :
      c.loc D u = some (.wait q) := by
    obtain ⟨hd, hl⟩ := Core.loc_some hl
    rw [Core.loc_attached hd]
    rw [hc1] at hl
    by_cases hut : u = t
    · rw [hut, Core.setTcb_self] at hl
      obtain ⟨h1, h2, h3⟩ := TCB.loc_eq_wait.1 hl
      rw [hut]
      exact TCB.loc_eq_wait.2 ⟨h1, h2, h3⟩
    · rwa [Core.setTcb_of_ne _ _ hut] at hl
  have hheld (m : Nat) (hm : c.holder m = some t) (hce : c.mtxCeiling m = true) :
      c.ceilpri m ≤ new := by
    have hmem : m ∈ c.mutexQueue t := h.base.linked.mem.2 hm
    have hck := hc (.inl (List.ne_nil_of_mem hmem))
    have hall := List.all_eq_true.1 (Bool.and_eq_true_iff.1 hck).1 m hmem
    rw [hce, Bool.true_and, Bool.not_eq_true', decide_eq_false_iff_not] at hall
    exact Nat.le_of_not_lt hall
  have hbase : MutexBase c1.holder (fun _ => False) D c1 := by
    refine ⟨?_, ?_, fun m u hX hn hl => ?_, fun m u ho hce => ?_, fun m u hl hce => ?_,
      fun m u ho hd => ?_⟩
    · rw [hc1]
      exact h.base.linked
    · rw [hc1]
      exact h.base.free
    · rw [hc1] at hn
      exact h.base.idle m u hX hn (hloc u _ hl)
    · rw [hbp]
      rw [hc1] at ho hce ⊢
      split
      · rename_i hut
        rw [hut] at ho
        exact hheld m ho hce
      · exact h.base.held m u ho hce
    · have hl' := hloc u _ hl
      rw [hbp]
      rw [hc1] at hce ⊢
      split
      · rename_i hut
        rw [hut] at hl'
        obtain ⟨_, _, _, hf, hi⟩ := TCB.loc_eq_wait.1 (Core.loc_some hl').2
        have hf : (c.tcb t).tstat.factor = .MTX := hf
        have hi : (c.tcb t).winfo.wobjcb = m := hi
        have hw : (c.tcb t).tstat.waitMtx = true := by
          unfold TStat.waitMtx
          rw [hf]
          rfl
        have hck := (Bool.and_eq_true_iff.1 (hc (.inr hw))).2
        rw [hw, hi, show c.mtxCeiling m = true from hce, Bool.true_and, Bool.true_and,
          Bool.not_eq_true', decide_eq_false_iff_not] at hck
        exact Nat.le_of_not_lt hck
      · exact h.base.waits m u hl' hce
    · rw [hc1] at ho hd
      refine h.base.dormant m u ho ?_
      by_cases hut : u = t
      · rw [hut, Core.setTcb_self] at hd
        rw [hut]
        exact hd
      · rwa [Core.setTcb_of_ne _ _ hut] at hd
  have hH : c1.holder = c.holder := by rw [hc1]; rfl
  have hb (u : Nat) : c1.bounds c.holder u = insert (if u = t then new else (c.tcb u).bpriority)
      {p | ∃ m, c.holder m = some u ∧ c.mtxCeiling m = true ∧ c.ceilpri m = p} := by
    unfold Core.bounds
    rw [hbp, hc1]
    rfl
  have hne {u : Nat} (hut : u ≠ t) (hu : D u = false) :
      IsLeast (c1.bounds c.holder u) (c.priority u) := by
    rw [hb, if_neg hut]
    exact h.pri u hu
  unfold Core.setBpriority
  simp only [← hc1]
  split
  · rename_i hno
    have hl := local_changePriority c1 t new false
    refine ⟨?_, fun u hu => ?_⟩
    · rw [holder_of_local hl]
      exact hbase.changePriority ..
    · rw [holder_of_local hl, (sameMtx_changePriority ..).bounds, changePriority_priority, hH]
      by_cases hut : u = t
      · subst hut
        rw [Function.update_self, hb, if_pos rfl]
        refine ⟨.inl rfl, ?_⟩
        rintro p (rfl | ⟨m, ho, hce, _⟩)
        · exact Nat.le_refl _
        · exfalso
          have hmem : m ∈ c.mutexQueue u := h.base.linked.mem.2 ho
          rw [hc1] at hno
          rcases hno with hno | hno
          · exact List.ne_nil_of_mem hmem hno
          · have hany : (c.mutexQueue u).any c.mtxCeiling = true :=
              List.any_eq_true.2 ⟨m, hmem, hce⟩
            rw [show (c.mutexQueue u).any c.mtxCeiling = false from hno] at hany
            cases hany
      · rw [Function.update_of_ne hut, show c1.priority u = c.priority u by
          rw [hc1, Core.priority, Core.setTcb_of_ne _ _ hut, Core.priority]]
        exact hne hut hu
  · rename_i hno
    have hpri (u : Nat) : c1.priority u = c.priority u := by
      rw [hc1]
      exact congrFun (Core.priority_setTcb_eq (p := { c.tcb t with bpriority := new }) rfl) u
    refine ⟨hbase, fun u hu => ?_⟩
    rw [hH, hpri]
    by_cases hut : u = t
    · -- the least bound is a ceiling, which the new base priority respects
      subst hut
      rw [hb, if_pos rfl]
      obtain ⟨hmem, hlow⟩ := h.pri u hu
      obtain ⟨m, hm, hce⟩ : ∃ m, c.holder m = some u ∧ c.mtxCeiling m = true := by
        have hany : c1.mutexScanCeilmtx u = true := Bool.not_eq_false _ ▸ (not_or.1 hno).2
        rw [hc1] at hany
        obtain ⟨m, hmem, hce⟩ := List.any_eq_true.1 hany
        exact ⟨m, h.base.linked.mem.1 hmem, hce⟩
      refine ⟨.inr ?_, ?_⟩
      · rcases hmem with hmem | hmem
        · refine ⟨m, hm, hce, Nat.le_antisymm ?_ (hlow (.inr ⟨m, hm, hce, rfl⟩))⟩
          rw [hmem]
          exact h.base.held m u hm hce
        · exact hmem
      · rintro p (rfl | hp)
        · exact (hlow (.inr ⟨m, hm, hce, rfl⟩)).trans (hheld m hm hce)
        · exact hlow (.inr hp)
    · exact hne hut hu

/-- The release of one mutex of a detached task. -/
theorem MutexInv.unlinkRelease (h : MutexInv D c) (hc : CoreInv cfg D c) (hd : D t = true)
    (hm : c.holder m = some t) : MutexInv D ((c.mutexUnlink m).mutexRelease m).1 := by
  have hb := (h.base.unlink m).mono fun m' => Or.rec False.elim id
  refine hb.release hc.flags (Function.update_self ..) (fun m' hm' => ?_) fun u hu => ?_
  · rw [Function.update_of_ne hm']
    rfl
  · have hut : u ≠ t := by
      rintro rfl
      rw [hd] at hu
      cases hu
    have hne : c.holder m ≠ some u := by
      rw [hm]
      exact fun he => hut (Option.some.inj he).symm
    rw [bounds_update_ne (o := none) hne nofun]
    exact h.pri u hu

theorem mutexRelease_queue (h : CoreInv cfg D c) (hd : D t = true) (m : Nat) :
    (c.mutexRelease m).1.mutexQueue t = c.mutexQueue t := by
  unfold Core.mutexRelease
  split
  · rfl
  · rename_i u hu
    have hut : t ≠ u := by
      rintro rfl
      rw [(h.of_mem (mem_of_headTsk hu)).1] at hd
      cases hd
    rw [(handOver_mtx c u m).2.1, Function.update_of_ne hut]

/-- All mutexes of a detached task are released. -/
theorem MutexInv.releaseAllLoop (h : MutexInv D c) (hc : CoreInv cfg D c) (hd : D t = true)
    (hn : (c.mutexQueue t).length ≤ n) : MutexInv D (Core.mutexReleaseAllLoop n c t).1 ∧
      (Core.mutexReleaseAllLoop n c t).1.mutexQueue t = [] := by
  induction n generalizing c with
  | zero => exact ⟨h, List.length_eq_zero_iff.1 (Nat.le_zero.1 hn)⟩
  | succ n ih =>
    unfold Core.mutexReleaseAllLoop
    split
    · rename_i hq
      exact ⟨h, hq⟩
    · rename_i m l hq
      have hm : c.holder m = some t := h.base.linked.mem.1 (by rw [hq]; exact List.mem_cons_self ..)
      have h1 : CoreInv cfg D (c.mutexUnlink m) := hc.flags
      refine ih (h.unlinkRelease hc hd hm) (h1.mutexRelease m) ?_
      rw [mutexRelease_queue h1 hd]
      change ((c.mutexQueue t).erase m).length ≤ n
      rw [hq, List.length_cons] at hn
      rw [hq, List.erase_cons_head]
      exact Nat.le_of_succ_le_succ hn

/-- A task that is detached and holds no mutex becomes dormant. -/
theorem MutexInv.makeDormant (h : MutexInv (Function.update D t true) c)
    (hq : c.mutexQueue t = []) : MutexInv D (c.makeDormant t) := by
  have hno (m : Nat) : c.holder m ≠ some t := fun hm => by
    have hmem : m ∈ c.mutexQueue t := h.base.linked.mem.2 hm
    rw [hq] at hmem
    cases hmem
  have htcb (u : Nat) (hu : u ≠ t) : (c.makeDormant t).tcb u = c.tcb u := Core.setTcb_of_ne _ _ hu
  have hself : ((c.makeDormant t).tcb t).tstat = .DORMANT ∧
      ((c.makeDormant t).tcb t).priority = ((c.makeDormant t).tcb t).bpriority := by
    unfold Core.makeDormant
    rw [Core.setTcb_self]
    exact ⟨rfl, rfl⟩
  have hloc (u m : Nat) (hl : (c.makeDormant t).loc D u = some (.wait (.MTX, m))) :
      u ≠ t ∧ c.loc (Function.update D t true) u = some (.wait (.MTX, m)) := by
    obtain ⟨hd, hl⟩ := Core.loc_some hl
    by_cases hut : u = t
    · rw [hut] at hl
      have hw := (TCB.loc_eq_wait.1 hl).2.1
      rw [hself.1] at hw
      cases hw
    · rw [htcb u hut] at hl
      exact ⟨hut, (Core.loc_attached (by rw [Function.update_of_ne hut]; exact hd)).trans hl⟩
  refine ⟨⟨h.base.linked, h.base.free, fun m u hX hn hl => ?_, fun m u ho hce => ?_,
    fun m u hl hce => ?_, fun m u ho hd => ?_⟩, fun u hu => ?_⟩
  · exact h.base.idle m u hX hn (hloc u m hl).2
  · have hut : u ≠ t := fun he => hno m (he ▸ ho)
    rw [htcb u hut]
    exact h.base.held m u ho hce
  · obtain ⟨hut, hl⟩ := hloc u m hl
    rw [htcb u hut]
    exact h.base.waits m u hl hce
  · have hut : u ≠ t := fun he => hno m (he ▸ ho)
    rw [htcb u hut] at hd
    exact h.base.dormant m u ho hd
  · by_cases hut : u = t
    · subst hut
      refine ⟨.inl hself.2, ?_⟩
      rintro p (rfl | ⟨m, ho, _⟩)
      · exact Nat.le_of_eq hself.2
      · exact absurd ho (hno m)
    · unfold Core.bounds Core.priority
      rw [htcb u hut]
      exact h.pri u (by rw [Function.update_of_ne hut]; exact hu)

theorem MutexInv.detach (h : MutexInv D c) (hl : c.Local c') (ht : c'.tcb = c.tcb) (t : Nat) :
    MutexInv (Function.update D t true) c' := by
  obtain ⟨_, _, _, _, rfl⟩ := hl
  cases ht
  have hD (u : Nat) (hu : Function.update D t true u = false) : D u = false := by
    by_cases hut : u = t
    · rw [hut, Function.update_self] at hu
      cases hu
    · rwa [Function.update_of_ne hut] at hu
  have hloc (u : Nat) (q : WQueue) (hl : c.loc (Function.update D t true) u = some (.wait q)) :
      c.loc D u = some (.wait q) := by
    obtain ⟨hd, hl⟩ := Core.loc_some hl
    exact (Core.loc_attached (hD u hd)).trans hl
  exact ⟨⟨h.base.linked, h.base.free, fun m u hX hn hl => h.base.idle m u hX hn (hloc u _ hl),
    h.base.held, fun m u hl => h.base.waits m u (hloc u _ hl), h.base.dormant⟩,
    fun u hu => h.pri u (hD u hu)⟩

/-- The end of a task. -/
theorem MutexInv.terminate (h : MutexInv noD c) (hc : CoreInv cfg noD c)
    (hd : (c.tcb t).tstat ≠ .DORMANT) : MutexInv noD ((c.unlink t).terminate t).1 := by
  have hself : Function.update noD t true t = true := Function.update_self ..
  have hl := frame_unlink c t
  have h1 := h.detach hl.1 hl.2 t
  have hc1 := hc.unlink (t := t) rfl hd
  have h2 : MutexInv (Function.update noD t true) (if (c.unlink t).mutexQueue t = [] then
        (c.unlink t, false) else (c.unlink t).mutexReleaseAll t).1 ∧
      (if (c.unlink t).mutexQueue t = [] then (c.unlink t, false)
        else (c.unlink t).mutexReleaseAll t).1.mutexQueue t = [] := by
    split
    · rename_i hq
      exact ⟨h1, hq⟩
    · exact h1.releaseAllLoop hc1 hself (Nat.le_refl _)
  unfold Core.terminate
  simp only
  generalize (if (c.unlink t).mutexQueue t = [] then (c.unlink t, false)
    else (c.unlink t).mutexReleaseAll t) = r at h2 ⊢
  have h3 := h2.1.makeDormant h2.2
  have hidle : ((r.1.makeDormant t).tcb t).tstat = .DORMANT := by
    unfold Core.makeDormant
    rw [Core.setTcb_self]
  split
  · have h4 := frame_setTcb (N := fun _ => True) (P := fun _ => False) (c := r.1.makeDormant t) (t := t)
      (p := { (r.1.makeDormant t).tcb t with actque := false }) ⟨rfl, rfl, rfl, rfl, rfl⟩
    have h5 := frame_makeActive (N := fun _ => True) (P := fun _ => False) ((r.1.makeDormant t).setTcb t
      { (r.1.makeDormant t).tcb t with actque := false }) t
    exact h3.congr (h4.2.trans h5.2) fun u m hl =>
      (h4.1.wait u _ id (h5.1.wait u _ id hl).1).1
  · exact h3

/-- The start of a wait; for a mutex its ceiling has been asked. -/
theorem MutexInv.block (h : MutexInv noD c) (hb : BlockOk c f ev q) (t : Nat) (w : WInfo)
    (hm : ∀ m tp, q = some ((.MTX, m), tp) → c.holder m ≠ none ∧
      ¬(c.mtxCeiling m = true ∧ (c.tcb t).bpriority < c.ceilpri m)) :
    MutexInv noD (c.block t f w ev q) := by
  have hf := (frame_block (N := fun _ => True) (P := fun _ => True) c t f w ev q trivial
    (fun _ _ => trivial) hb.wobj fun r hr => (hb.queue r hr).1).2
  have hloc (u m : Nat) (hl : (c.block t f w ev q).loc noD u = some (.wait (.MTX, m))) :
      c.loc noD u = some (.wait (.MTX, m)) ∨ u = t ∧ c.holder m ≠ none ∧
        ¬(c.mtxCeiling m = true ∧ (c.tcb t).bpriority < c.ceilpri m) := by
    rw [Core.loc_attached rfl] at hl ⊢
    change TCB.loc (Function.update c.tcb t
      { c.tcb t with tstat := .WAITING f, winfo := w.start t ev q } u) = _ at hl
    by_cases hut : u = t
    · rw [hut, Function.update_self, block_loc hb.wobj fun r hr => (hb.queue r hr).1] at hl
      obtain ⟨⟨q', tp⟩, hr, he⟩ := Option.map_eq_some_iff.1 hl
      cases he
      exact .inr ⟨hut, hm m tp hr⟩
    · rw [Function.update_of_ne hut] at hl
      exact .inl hl
  have hs := hf.same
  have hH : (c.block t f w ev q).holder = c.holder := rfl
  refine ⟨⟨h.base.linked, h.base.free, fun m u hX hn hl => ?_, fun m u ho hce => ?_,
    fun m u hl hce => ?_, fun m u ho hd => ?_⟩, fun u hu => ?_⟩
  · rcases hloc u m hl with hl | ⟨_, hne, _⟩
    · exact h.base.idle m u hX hn hl
    · exact hne hn
  · rw [hs.bpriority]
    exact h.base.held m u ho hce
  · rw [hs.bpriority]
    rcases hloc u m hl with hl | ⟨rfl, _, hnot⟩
    · exact h.base.waits m u hl hce
    · exact Nat.le_of_not_lt fun hlt => hnot ⟨hce, hlt⟩
  · exact h.base.dormant m u ho (hs.dormant u hd)
  · rw [hH, hs.bounds, show (c.block t f w ev q).priority u = c.priority u from hf.priority u]
    exact h.pri u hu

theorem MutexInv.newTsk (h : MutexInv noD c) (hs : (c.tcb t).tstat = .DORMANT) (l : List Nat)
    (tinib : TINIB) : MutexInv noD (Core.initTcb { c with freeTcb := l } t tinib) := by
  have hq : c.mutexQueue t = [] := by
    refine List.eq_nil_iff_forall_not_mem.2 fun m hm => ?_
    exact h.base.dormant m t (h.base.linked.mem.1 hm) hs
  obtain ⟨c1, hc1⟩ : ∃ c1 : Core, c1 = Core.setTcb { c with freeTcb := l } t
      { c.tcb t with tinib := tinib, actque := false } := ⟨_, rfl⟩
  have hm : MFrame c c1 := by
    rw [hc1]
    exact .of_update rfl rfl rfl (fun _ => rfl) rfl rfl rfl id
  have hloc (u m : Nat) (hl : c1.loc noD u = some (.wait (.MTX, m))) :
      c.loc noD u = some (.wait (.MTX, m)) := by
    rw [Core.loc_attached rfl] at hl ⊢
    rw [hc1] at hl
    by_cases hut : u = t
    · rw [hut, Core.setTcb_self] at hl
      rw [hut]
      exact hl
    · rwa [Core.setTcb_of_ne _ _ hut] at hl
  have h1 := ((h.congr hm hloc).detach (.refl c1) rfl t).makeDormant (D := noD)
    (by rw [hm.mutexQueue]; exact hq)
  rw [hc1] at h1
  have he : Function.update c.mutexQueue t [] = c.mutexQueue := by rw [← hq, Function.update_eq_self]
  unfold Core.initTcb
  change MutexInv noD { Core.makeDormant (Core.setTcb { c with freeTcb := l } t
    { c.tcb t with tinib := tinib, actque := false }) t with
    mutexQueue := Function.update c.mutexQueue t [] }
  rw [he]
  exact h1

/-- The creation of a mutex from a free control block. -/
theorem MutexInv.newMtx (h : MutexInv noD c) (hc : CoreInv cfg noD c)
    (ht : c.takeWobj n .MTX = some (m, c')) : MutexInv noD { c'.initWobj (.MTX, m) atr with
      mtxcb := Function.update c.mtxcb m ⟨ceilpri, none⟩ } := by
  have hempty := (hc.newWobj (f := .MTX) rfl ht TA_NULL).2 (.MTX, m) rfl
  obtain ⟨l, hl, rfl⟩ := takeWobj_eq ht
  have hmem : m ∈ c.freeWobj .MTX := by
    rw [hl]
    exact List.mem_cons_self ..
  have hno : c.holder m = none := h.base.free m hmem
  obtain ⟨c2, hc2⟩ : ∃ c2 : Core, c2 = { Core.initWobj
      { c with freeWobj := Function.update c.freeWobj .MTX l } (.MTX, m) atr with
      mtxcb := Function.update c.mtxcb m ⟨ceilpri, none⟩ } := ⟨_, rfl⟩
  rw [← hc2]
  have hmtx : c2.mtxcb = Function.update c.mtxcb m ⟨ceilpri, none⟩ := by rw [hc2]
  have hH : c2.holder = c.holder := by
    funext m'
    unfold Core.holder
    rw [hmtx]
    by_cases hm' : m' = m
    · rw [hm', Function.update_self]
      exact hno.symm
    · rw [Function.update_of_ne hm']
  have hother (m' : Nat) (hm' : m' ≠ m) :
      c2.mtxCeiling m' = c.mtxCeiling m' ∧ c2.ceilpri m' = c.ceilpri m' := by
    refine ⟨?_, ?_⟩
    · rw [hc2]
      exact mtxCeiling_eq (Function.update_of_ne (fun he => hm' (congrArg Prod.snd he)) ..)
    · unfold Core.ceilpri
      rw [hmtx, Function.update_of_ne hm']
  have hheld (m' u : Nat) (ho : c.holder m' = some u) : m' ≠ m := by
    rintro rfl
    rw [hno] at ho
    cases ho
  have htcb : c2.tcb = c.tcb := by rw [hc2]; rfl
  have hloc (u : Nat) : c2.loc noD u = c.loc noD u := by
    unfold Core.loc
    rw [htcb]
  refine ⟨⟨?_, fun m' hm' => ?_, fun m' u hX hn hl => ?_, fun m' u ho hce => ?_,
    fun m' u hl' hce => ?_, fun m' u ho hd => ?_⟩, fun u hu => ?_⟩
  · rw [hH, hc2]
    exact h.base.linked
  · rw [hH]
    have hfree : c2.freeWobj = Function.update c.freeWobj .MTX l := by
      rw [hc2]
      rfl
    rw [hfree, Function.update_self] at hm'
    refine h.base.free m' ?_
    rw [hl]
    exact List.mem_cons_of_mem _ hm'
  · rw [hH] at hn
    rw [hloc] at hl
    exact h.base.idle m' u hX hn hl
  · rw [hH] at ho
    have hne := hheld m' u ho
    rw [(hother m' hne).1] at hce
    rw [(hother m' hne).2, htcb]
    exact h.base.held m' u ho hce
  · rw [hloc] at hl'
    have hne : m' ≠ m := by
      rintro rfl
      exact hc.loc_ne_wait (t := u) hempty hl'
    rw [(hother m' hne).1] at hce
    rw [(hother m' hne).2, htcb]
    exact h.base.waits m' u hl' hce
  · rw [hH] at ho
    rw [htcb] at hd
    exact h.base.dormant m' u ho hd
  · have hb : c2.bounds c2.holder u = c.bounds c.holder u := by
      rw [hH]
      unfold Core.bounds
      rw [htcb]
      congr 1
      ext p
      constructor
      · rintro ⟨m', ho, hce, hp⟩
        have hne := hheld m' u ho
        exact ⟨m', ho, (hother m' hne).1 ▸ hce, (hother m' hne).2 ▸ hp⟩
      · rintro ⟨m', ho, hce, hp⟩
        have hne := hheld m' u ho
        exact ⟨m', ho, (hother m' hne).1.trans hce, (hother m' hne).2.trans hp⟩
    rw [hb, show c2.priority u = c.priority u by unfold Core.priority; rw [htcb]]
    exact h.pri u hu

/-- The deletion of a mutex that nobody holds. -/
theorem MutexInv.freeMtx (h : MutexInv noD c) (hn : c.holder m = none) :
    MutexInv noD (c.freeWobjcb (.MTX, m)) := by
  have hother (m' : Nat) (hm' : m' ≠ m) :
      (c.freeWobjcb (.MTX, m)).mtxCeiling m' = c.mtxCeiling m' :=
    mtxCeiling_eq (Function.update_of_ne (fun he => hm' (congrArg Prod.snd he)) ..)
  have hheld (m' u : Nat) (ho : c.holder m' = some u) : m' ≠ m := by
    rintro rfl
    rw [hn] at ho
    cases ho
  refine ⟨⟨h.base.linked, fun m' hm' => ?_, h.base.idle, fun m' u ho hce => ?_,
    fun m' u hl hce => ?_, h.base.dormant⟩, fun u hu => ?_⟩
  · have hfree : (c.freeWobjcb (.MTX, m)).freeWobj =
        Function.update c.freeWobj .MTX (c.freeWobj .MTX ++ [m]) := rfl
    rw [hfree, Function.update_self] at hm'
    rcases List.mem_append.1 hm' with hm' | hm'
    · exact h.base.free m' hm'
    · rw [List.mem_singleton.1 hm']
      exact hn
  · rw [hother m' (hheld m' u ho)] at hce
    exact h.base.held m' u ho hce
  · have hne : m' ≠ m := by
      rintro rfl
      exact h.base.idle m' u id hn hl
    rw [hother m' hne] at hce
    exact h.base.waits m' u hl hce
  · have hb : (c.freeWobjcb (.MTX, m)).bounds c.holder u = c.bounds c.holder u := by
      unfold Core.bounds
      congr 1
      ext p
      constructor
      · rintro ⟨m', ho, hce, hp⟩
        exact ⟨m', ho, hother m' (hheld m' u ho) ▸ hce, hp⟩
      · rintro ⟨m', ho, hce, hp⟩
        exact ⟨m', ho, (hother m' (hheld m' u ho)).trans hce, hp⟩
    exact hb ▸ h.pri u hu

theorem Move.mutexInv (m : Move cfg S P R c b c') (hc : CoreInv cfg noD c) (hS : S.unlocked)
    (h : MutexInv noD c) : MutexInv noD c' := by
  have hq {b : Bool} {c' : Core} (m : Move cfg S (fun _ => False) R c b c') (hm : MFrame c c') :
      MutexInv noD c' := h.congr hm fun u i hl => ((m.frame hc).wait u _ id hl).1
  have hsame {c' : Core} (hm : MFrame c c') (ht : c'.tcb = c.tcb) : MutexInv noD c' :=
    h.congr hm fun u i hl => by
      rw [Core.loc_attached rfl] at hl ⊢
      rwa [ht] at hl
  cases m with
  | touch hO hl hi hx hu =>
    exact hq (.touch hO hl hi hx hu) (frame_setTcb (N := fun _ => True) (P := fun _ => True) hl).2
  | tex hX hl hi hu =>
    exact hq (.tex hX hl hi hu) (frame_setTcb (N := fun _ => True) (P := fun _ => True) hl).2
  | mem hM areas freeOk =>
    exact hsame ⟨rfl, rfl, fun _ => rfl, rfl, fun _ => rfl, fun _ => rfl, fun _ => id⟩ rfl
  | flags hc hf hs hI => exact hsame ⟨rfl, rfl, fun _ => rfl, rfl, fun _ => rfl, fun _ => rfl, fun _ => id⟩ rfl
  | activate hO hf hr hs =>
    exact hq (.activate hO hf hr hs) (frame_makeActive (N := fun _ => True) (P := fun _ => True) c _).2
  | suspend hO hr hc hd =>
    exact hq (.suspend hO hr hc hd)
      (frame_suspend (N := fun _ => True) (P := fun _ => True) c _ trivial).2
  | setSuspended hO hw b =>
    exact hq (.setSuspended hO hw b)
      (frame_setSuspended (N := fun _ => True) (P := fun _ => True) c _ b hw).2
  | resume hO hs =>
    exact hq (.resume hO hs) (frame_resume (N := fun _ => True) (P := fun _ => True) c _).2
  | block hW ht hr hc hb _ w hm => exact h.block hb _ w hm
  | complete ht hh hP hw =>
    rename_i q t w
    have hf := frame_waitComplete (N := fun _ => True) (P := fun _ => False) (c := c) w
      (TCB.loc_eq_wait.1 (hc.of_mem ht).2).1
    exact h.congr hf.2 fun u i hl => (hf.1.wait u _ id hl).1
  | wakeup hO hs =>
    rename_i t
    have hw : (c.tcb t).tstat.waiting = true := by
      by_contra hw
      have hf : (c.tcb t).tstat.factor = .SLP := beq_iff_eq.1 hs
      rw [(hc.task t).legal.factor (Bool.eq_false_iff.2 hw)] at hf
      cases hf
    exact hq (.wakeup hO hs) (frame_wakeup (N := fun _ => True) (P := fun _ => True)
      ((hc.task t).legal.not_runnable hw)).2
  | release hO hw hL =>
    exact hq (.release hO hw hL) (frame_waitRelease (N := fun _ => True) (P := fun _ => True)
      ((hc.task _).legal.not_runnable hw)).2
  | initQueue q hI =>
    exact hq (.initQueue q hI) (frame_initWaitQueue (N := fun _ => True) (P := fun _ => True) hc q).2
  | setBpriority hR hd hb hck => exact h.setBpriority hck
  | rotate pri =>
    exact hq (.rotate pri) (frame_rotate (N := fun _ => True) (P := fun _ => True) c pri).2
  | lock ht hr hs hn hm hex hP =>
    refine (h.acquire hc hr hn hm hex).congr ?_ fun _ _ hl => hl
    exact ⟨rfl, rfl, fun _ => rfl, rfl, fun _ => rfl, fun _ => rfl, fun _ => id⟩
  | unlock ht hr hn _ => exact h.unlock hc rfl hn
  | disown hR hn hq' => exact h.disown hc hn hq'
  | terminate hO hd _ hb ht _ => exact h.terminate hc hd
  | newTsk hO ht hi ha hx hK =>
    obtain ⟨_, _, _, _, hs⟩ := hc.newTsk ht hi
    obtain ⟨l, _, rfl⟩ := takeTcb_eq ht
    exact h.newTsk hs l _
  | delTsk hO hn hs ht hd hK =>
    exact hq (.delTsk hO hn hs ht hd hK) (.of_update rfl rfl rfl (fun _ => rfl) rfl rfl rfl id)
  | newWobj hm hf ht ha hK =>
    obtain ⟨l, _, rfl⟩ := takeWobj_eq ht
    refine hsame ⟨rfl, rfl, fun m => ?_, ?_, fun _ => rfl, fun _ => rfl, fun _ => id⟩ rfl
    · exact Function.update_of_ne (fun he => hf (congrArg Prod.fst he).symm) ..
    · exact Function.update_of_ne hf.symm ..
  | freeWobj hm hf hq' hex hd hK =>
    refine hsame ⟨rfl, rfl, fun m => ?_, ?_, fun _ => rfl, fun _ => rfl, fun _ => id⟩ rfl
    · exact Function.update_of_ne (fun he => hf (congrArg Prod.fst he).symm) ..
    · exact Function.update_of_ne hf.symm ..
  | newMtx ht ha hK => exact h.newMtx hc ht
  | freeMtx hq' hex hS' hd hK => exact h.freeMtx (hS' hS)
  | newCyc hl ht hp ha hK =>
    exact hsame ⟨rfl, rfl, fun _ => rfl, rfl, fun _ => rfl, fun _ => rfl, fun _ => id⟩ rfl
  | startCyc hn hr hs =>
    exact hsame ⟨rfl, rfl, fun _ => rfl, rfl, fun _ => rfl, fun _ => rfl, fun _ => id⟩ rfl
  | stopCyc _ =>
    unfold Core.stopCyc
    split
    · exact hsame ⟨rfl, rfl, fun _ => rfl, rfl, fun _ => rfl, fun _ => rfl, fun _ => id⟩ rfl
    · exact h
  | delCyc hn hr hs hd hK hex =>
    exact hsame ⟨rfl, rfl, fun _ => rfl, rfl, fun _ => rfl, fun _ => rfl, fun _ => id⟩ rfl
  | newAlm hl ha hK =>
    exact hsame ⟨rfl, rfl, fun _ => rfl, rfl, fun _ => rfl, fun _ => rfl, fun _ => id⟩ rfl
  | startAlm hn hr hs ht =>
    exact hsame ⟨rfl, rfl, fun _ => rfl, rfl, fun _ => rfl, fun _ => rfl, fun _ => id⟩ rfl
  | stopAlm i =>
    unfold Core.stopAlm
    split
    · exact hsame ⟨rfl, rfl, fun _ => rfl, rfl, fun _ => rfl, fun _ => rfl, fun _ => id⟩ rfl
    · exact h
  | delAlm hn hr hs hd hK hex =>
    exact hsame ⟨rfl, rfl, fun _ => rfl, rfl, fun _ => rfl, fun _ => rfl, fun _ => id⟩ rfl

theorem Moves.mutexInv (m : Moves cfg S P R c b c') (hc : CoreInv cfg noD c) (hS : S.unlocked)
    (h : MutexInv noD c) : MutexInv noD c' := by
  induction m with
  | refl => exact h
  | step hs hm ih => exact hm.mutexInv (hs.coreInv hc) hS ih

theorem Core.Alike.mframe (h : c.Alike c') : MFrame c c' := by
  have hm : c'.mtxcb = c.mtxcb ∧ c'.mutexQueue = c.mutexQueue ∧ c'.wobjatr = c.wobjatr ∧
      c'.freeWobj = c.freeWobj := by
    obtain ⟨_, _, _, _, _, _, _, _, _, _, rfl⟩ := h.outside
    exact ⟨rfl, rfl, rfl, rfl⟩
  obtain ⟨h1, h2, h3, h4⟩ := hm
  refine ⟨h1, h2, fun m => by rw [h3], by rw [h4], fun u => (h.tcb u).priority,
    fun u => (h.tcb u).bpriority, fun u hu => ?_⟩
  rwa [(h.tcb u).tstat] at hu

theorem MutexInv.alike (h : MutexInv noD c) (ha : c.Alike c') : MutexInv noD c' :=
  h.congr ha.mframe fun u m hl => by
    rw [Core.loc_attached rfl] at hl ⊢
    rwa [(ha.tcb u).loc] at hl

/-- No mutex is deleted while a task holds it. -/
def Event.delUnlocked (cfg : Cfg) (k : Kernel) : Event → Prop
  | .call c => c.delUnlocked cfg k
  | _ => True

theorem MutexInv.step {k k' : Kernel} (h : MutexInv noD k.core) (hi : RunInv cfg k.core)
    (hs : Step cfg k e k') (hd : e.delUnlocked cfg k) : MutexInv noD k'.core := by
  cases hi.coreStep hs with
  | call hc hm ha => exact (hm.mutexInv hi.inv hd h).alike ha
  | fire hf =>
    obtain ⟨b, c2, hf, hr, hm⟩ := hf.frame (P := fun _ => False) hi.inv
    have h2 : MutexInv noD c2 := h.congr hm fun u m hl => (hf.wait u _ id hl).1
    rw [hr]
    exact h2.alike (.of_tcb rfl ⟨_, _, _, _, _, _, _, _, _, _, rfl⟩)
  | outside he hf ha => exact h.alike ha

end

end AspKernel
