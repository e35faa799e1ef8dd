import AspKernel.Checks
import AspKernel.MutexReach

namespace AspKernel
set_option autoImplicit true

/-- The test of a call that its object does not exist. -/
def Core.noexs (c : Core) : ObjKind → Nat → Bool
  | .tsk, i => c.noTsk i
  | .wobj f, i => c.noWobj (f, i)
  | .cyc, i => c.noCyc i
  | .alm, i => c.noAlm i

theorem Core.noexs_iff (c : Core) (x : ObjKind) (i : Nat) :
    c.noexs x i = true ↔ c.atr x i = TA_NOEXS := by
  cases x <;> exact beq_iff_eq

section
variable {cfg : Cfg} {k : Kernel} {x : ObjKind} {id : ID}

theorem CoreInv.noexs_of_free {c : Core} (h : CoreInv cfg noD c) (hf : i ∈ c.freeList x) :
    c.noexs x i = true := by
  refine (c.noexs_iff x i).2 ?_
  cases x with
  | tsk => exact (h.free.tcb i hf).2.2.1
  | wobj f => exact h.free.wobj f i hf
  | cyc => exact (h.free.cyc i hf).2.1
  | alm => exact (h.free.alm i hf).2.1

end

end AspKernel
