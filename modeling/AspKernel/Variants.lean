import AspKernel.Reach

namespace AspKernel
set_option autoImplicit true

/-- The same data structures within `n` nested interrupt handlers, with the dispatch request that is
given. -/
def Core.nested (n : Nat) (q : Bool) (c : Core) : Core := { c with intnest := n, reqflg := q }

def Obj.nested (n : Nat) (q : Bool) (o : Obj β) : Obj β := o.setCore (o.core.nested n q)

def Kernel.nested (n : Nat) (q : Bool) (k : Kernel) : Kernel := k.setCore (k.core.nested n q)

/-- The result of a call by a task agrees with that of a call by an interrupt handler, `N` being the
nesting of the data structures: both return the same and leave the same data structures, and where
the first calls `dispatch` the second sets `reqflg`. -/
structure Agree (N : Nat → Bool → σ → σ) (n : Nat) (q : Bool) (r r' : Res σ) : Prop where
  ercd : r'.ercd = r.ercd
  out : r'.out = r.out
  disp : r'.disp = false
  st : ∃ s, r.st = N 0 q s ∧ r'.st = N (n + 1) (q || r.disp) s

section
variable {cfg : Cfg} {c : Core} {n : Nat} {q : Bool} {N : Nat → Bool → σ → σ}

theorem Agree.check {r r' : Res σ} (h : Agree N n q r r') (s : σ) (l : List (Bool × ER)) :
    Agree N n q (check l (N 0 q s) r) (check l (N (n + 1) q s) r') := by
  unfold AspKernel.check
  split
  · refine ⟨rfl, rfl, rfl, s, rfl, ?_⟩
    rw [show (Res.err (N 0 q s) _).disp = false from rfl, Bool.or_false]
    rfl
  · exact h

theorem Agree.err (s : σ) (e : ER) :
    Agree N n q (.err (N 0 q s) e) (.err (N (n + 1) q s) e) := by
  refine ⟨rfl, rfl, rfl, s, rfl, ?_⟩
  rw [show (Res.err (N 0 q s) _).disp = false from rfl, Bool.or_false]
  rfl

theorem Agree.ite {p : Prop} [Decidable p] {a a' b b' : Res σ} (ha : Agree N n q a a')
    (hb : Agree N n q b b') : Agree N n q (if p then a else b) (if p then a' else b') := by
  split
  · exact ha
  · exact hb

theorem Agree.ok (c : Core) (b : Bool) (out : Out) :
    Agree Core.nested n q (.ok .tsk (c.nested 0 q) b out) (.ok .int (c.nested (n + 1) q) b out) :=
  ⟨rfl, rfl, rfl, c, rfl, rfl⟩

theorem Agree.kernel {f : σ → Kernel} {r r' : Res σ} (h : Agree N n q r r')
    (hf : ∀ m b s, f (N m b s) = (f s).nested m b) :
    Agree Kernel.nested n q (r.map f) (r'.map f) := by
  obtain ⟨s, h1, h2⟩ := h.st
  refine ⟨h.ercd, h.out, h.disp, f s, ?_, ?_⟩
  · exact (congrArg f h1).trans (hf ..)
  · exact (congrArg f h2).trans (hf ..)

end

end AspKernel
