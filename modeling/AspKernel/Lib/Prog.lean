/-! Sequential programs that call operations, and the rules for what they leave. -/

set_option autoImplicit true

/-- What is left of a program: its result, or the next operation with what follows each outcome. -/
inductive Prog (Op : Type) (Out : Op → Type) (α : Type)
  | ret (a : α)
  | call (op : Op) (k : Out op → Prog Op Out α)

namespace Prog

def bind (p : Prog Op Out α) (f : α → Prog Op Out β) : Prog Op Out β :=
  match p with
  | .ret a => f a
  | .call op k => .call op fun r => (k r).bind f

instance : Monad (Prog Op Out) where
  pure := .ret
  bind := .bind

/-- The program has returned. -/
def returned : Prog Op Out α → Bool
  | .ret _ => true
  | .call _ _ => false

/-- When an operation may be called, and what it does to the resources of its caller. -/
structure Spec (Op : Type) (Out : Op → Type) (σ : Type) where
  pre : Op → σ → Prop
  post : (op : Op) → σ → Out op → σ → Prop

/-- The program, with the resources `s`, calls every operation where it may, and returns with the
postcondition `Q`. -/
def wp (S : Spec Op Out σ) : Prog Op Out α → σ → (α → σ → Prop) → Prop
  | .ret a, s, Q => Q a s
  | .call op k, s, Q => S.pre op s ∧ ∀ r s', S.post op s r s' → (k r).wp S s' Q

variable {S : Spec Op Out σ}

@[simp] theorem wp_pure (a : α) (s : σ) (Q : α → σ → Prop) :
    (pure a : Prog Op Out α).wp S s Q ↔ Q a s := Iff.rfl

theorem wp.mono {p : Prog Op Out α} {Q Q' : α → σ → Prop} (h : p.wp S s Q)
    (hQ : ∀ a s, Q a s → Q' a s) : p.wp S s Q' := by
  induction p generalizing s with
  | ret a => exact hQ a s h
  | call op k ih => exact ⟨h.1, fun r s' hr => ih r (h.2 r s' hr)⟩

theorem wp.bind {p : Prog Op Out α} {f : α → Prog Op Out β} {Q : β → σ → Prop}
    (h : p.wp S s fun a s => (f a).wp S s Q) : (p >>= f).wp S s Q := by
  induction p generalizing s with
  | ret a => exact h
  | call op k ih => exact ⟨h.1, fun r s' hr => ih r (h.2 r s' hr)⟩

/-- An operation that has been called, its outcome, and a note. -/
structure Entry (Op : Type) (Out : Op → Type) (τ : Type) where
  op : Op
  out : Out op
  note : τ

/-- The operations of a list, with their outcomes, lead from a program to what is left of it. -/
inductive Trace {Op : Type} {Out : Op → Type} {α τ : Type} :
    Prog Op Out α → List (Entry Op Out τ) → Prog Op Out α → Prop
  | nil : Trace p [] p
  | cons {k : Out op → Prog Op Out α} : Trace (k r) l q → Trace (.call op k) (⟨op, r, t⟩ :: l) q

section
variable {p : Prog Op Out α} {k : Out op → Prog Op Out α} {l : List (Entry Op Out τ)}

theorem Trace.snoc (h : Trace p l (.call op k)) (r : Out op) (t : τ) :
    Trace p (l ++ [⟨op, r, t⟩]) (k r) := by
  generalize hq : Prog.call op k = q at h
  induction h with
  | nil =>
    subst hq
    exact .cons .nil
  | cons _ ih => exact .cons (ih hq)

theorem Trace.of_ret (h : Trace (.ret a : Prog Op Out α) l (.ret b)) : l = [] ∧ a = b := by
  cases h
  exact ⟨rfl, rfl⟩

/-- What is left is an operation: the first one, or one after its outcome. -/
theorem Trace.to_call (h : Trace (.call op k) l (.call op' k')) :
    l = [] ∧ Prog.call op k = .call op' k' ∨
      ∃ r t l', l = ⟨op, r, t⟩ :: l' ∧ Trace (k r) l' (.call op' k') := by
  cases h with
  | nil => exact .inl ⟨rfl, rfl⟩
  | cons h => exact .inr ⟨_, _, _, rfl, h⟩

theorem Trace.of_call (h : Trace (.call op k) l (.ret a)) :
    ∃ r t l', l = ⟨op, r, t⟩ :: l' ∧ Trace (k r) l' (.ret a) := by
  cases h with
  | cons h => exact ⟨_, _, _, rfl, h⟩

end

end Prog
