import AspKernel.Exist
import AspKernel.Reach

namespace AspKernel
set_option autoImplicit true

section
variable {cfg : Cfg} {k k' : Kernel} {c : Core}

theorem MutexInv.boot (cfg : Cfg) : MutexInv noD (boot cfg).core := by
  have h := BootInv.all cfg
  refine MutexInv.alike ?_ (.dispatcher _)
  have hrest := h.rest
  simp only [Core.rest, Prod.mk.injEq] at hrest
  obtain ⟨_, _, _, _, hmtx, hqueue, _⟩ := hrest
  have hn (m : Nat) : (Core.initializeAll cfg).holder m = none := by
    unfold Core.holder
    rw [hmtx]
    rfl
  have hw (t : Nat) (m : Nat) : (Core.initializeAll cfg).loc noD t ≠ some (.wait (.MTX, m)) := by
    rw [Core.loc_attached rfl]
    exact TCB.loc_ne_wait (h.task t).waiting _
  refine ⟨⟨fun t => ?_, fun m _ => hn m, fun m t _ _ => hw t m, fun m t ht => ?_,
    fun m t hl => absurd hl (hw t m), fun m t ht => ?_⟩, fun t _ => ?_⟩
  · rw [hqueue]
    refine ⟨List.nodup_nil, fun m => ?_⟩
    rw [hn m]
    constructor
    · intro hm
      cases hm
    · intro hm
      cases hm
  · rw [hn m] at ht
    cases ht
  · rw [hn m] at ht
    cases ht
  · refine ⟨.inl (h.task t).priority, ?_⟩
    rintro p (rfl | ⟨m, hm, _⟩)
    · exact Nat.le_of_eq (h.task t).priority
    · rw [hn m] at hm
      cases hm

theorem MutexInv.mem (h : MutexInv noD c) (m t : Nat) :
    m ∈ c.mutexQueue t ↔ (c.mtxcb m).pLoctsk = some t := h.base.linked.mem

theorem MutexInv.unlinked (h : MutexInv noD c) (m : Nat) :
    (∀ t, m ∉ c.mutexQueue t) ↔ (c.mtxcb m).pLoctsk = none := by
  simp only [h.mem, Option.eq_none_iff_forall_ne_some]

/-- The current priority of a task is the highest of its base priority and of the ceilings of its
mutexes. -/
theorem MutexInv.least (h : MutexInv noD c) (t : Nat) :
    IsLeast (insert (c.tcb t).bpriority
      {p | ∃ m ∈ c.mutexQueue t, c.mtxCeiling m = true ∧ c.ceilpri m = p}) (c.tcb t).priority := by
  have hp := h.pri t rfl
  unfold Core.bounds at hp
  have hset : {p | ∃ m, c.holder m = some t ∧ c.mtxCeiling m = true ∧ c.ceilpri m = p} =
      {p | ∃ m ∈ c.mutexQueue t, c.mtxCeiling m = true ∧ c.ceilpri m = p} := by
    ext p
    exact exists_congr fun m => and_congr_left fun _ => (h.mem m t).symm
  rwa [hset] at hp

/-- The calls that lock a mutex, and those that end a task, have a behaviour in C. -/
theorem MutexInv.defined {k : Kernel} (h : MutexInv noD k.core) {id : ID} {tmout : TMO} :
    (Call.locMtx id).defined cfg k = true ∧ (Call.plocMtx id).defined cfg k = true ∧
      (Call.tlocMtx id tmout).defined cfg k = true ∧ Call.extTsk.defined cfg k = true ∧
      (Call.terTsk id).defined cfg k = true := by
  have hloc : (!decide ((k.core.mtxcb (index id)).pLoctsk = none ∧
      k.core.mutexLinked cfg (index id) = true)) = true := by
    rw [Bool.not_eq_true', decide_eq_false_iff_not]
    rintro ⟨hn, hl⟩
    unfold Core.mutexLinked at hl
    obtain ⟨t, _, ht⟩ := List.any_eq_true.1 hl
    exact (h.unlinked _).2 hn t (of_decide_eq_true ht)
  have hrel (t : Nat) : k.core.releasable t = true := by
    unfold Core.releasable
    refine List.all_eq_true.2 fun m hq => ?_
    rw [Bool.not_eq_true', decide_eq_false_iff_not]
    intro hf
    have hh : k.core.holder m = some t := h.base.linked.mem.1 hq
    rw [h.base.free m hf] at hh
    cases hh
  exact ⟨hloc, hloc, hloc, hrel _, hrel _⟩

/-- The state after a service call. -/
theorem step_call {k k' : Kernel} (h : Step cfg k (.call call) k') :
    ((k.core.senseContext = true ∨ k.core.pRuntsk ≠ none) ∧ call.defined cfg k = true) ∧
      k' = (exec cfg k call).settle := by
  unfold Step Kernel.step at h
  simp only at h
  split at h
  · rename_i hc
    cases h
    exact ⟨hc, rfl⟩
  · cases h

end

end AspKernel
