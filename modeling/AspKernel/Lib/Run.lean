import Mathlib.Data.List.Basic

/-! Runs of a transition system whose steps are labelled by events. -/

namespace Trans
set_option autoImplicit true

inductive Run {σ ε : Type} (step : σ → ε → σ → Prop) (s : σ) : List ε → σ → Prop
  | nil : Run step s [] s
  | snoc : Run step s es t → step t e u → Run step s (es ++ [e]) u

theorem Run.one {step : σ → ε → σ → Prop} (h : step s e t) : Run step s [e] t := .snoc .nil h

theorem Run.trans {step : σ → ε → σ → Prop} (h : Run step s es t) (h' : Run step t es' u) :
    Run step s (es ++ es') u := by
  induction h' with
  | nil => rwa [List.append_nil]
  | snoc _ he ih =>
    rw [← List.append_assoc]
    exact .snoc ih he

/-- What every step preserves holds in every state of a run. -/
theorem Run.invariant {step : σ → ε → σ → Prop} {I : σ → Prop} (h : Run step s es t)
    (hstep : ∀ t e u, I t → step t e u → I u) (hs : I s) : I t := by
  induction h with
  | nil => exact hs
  | snoc _ he ih => exact hstep _ _ _ ih he

/-- A relation to the first state, under an invariant. -/
theorem Run.relation {step : σ → ε → σ → Prop} {I : σ → Prop} {R : σ → List ε → σ → Prop}
    (h : Run step s es t) (hI : ∀ t e u, I t → step t e u → I u) (hs : I s) (hnil : R s [] s)
    (hsnoc : ∀ es t e u, I t → R s es t → step t e u → R s (es ++ [e]) u) : R s es t := by
  induction h with
  | nil => exact hnil
  | snoc hr he ih => exact hsnoc _ _ _ _ (hr.invariant hI hs) ih he

/-- The steps of a function, one after the other. -/
theorem Run.of_foldlM {step : σ → ε → Option σ} (h : es.foldlM step s = some t) :
    Run (fun s e t => step s e = some t) s es t := by
  induction es generalizing s with
  | nil =>
    cases h
    exact .nil
  | cons e es ih =>
    obtain ⟨u, he, hes⟩ := Option.bind_eq_some_iff.1 h
    exact (Run.one he).trans (ih hes)

/-- A run whose events all meet a condition is a run of the steps that the condition allows. -/
theorem Run.restrict {step step' : σ → ε → σ → Prop} {P : ε → Prop} (h : Run step s es t)
    (hs : ∀ t e u, P e → step t e u → step' t e u) (hP : ∀ e ∈ es, P e) : Run step' s es t := by
  induction h with
  | nil => exact .nil
  | snoc _ he ih =>
    refine .snoc (ih fun e he' => hP e (List.mem_append_left _ he')) (hs _ _ _ (hP _ ?_) he)
    exact List.mem_append_right _ (List.mem_singleton_self _)

/-- What every step preserves under an invariant of all steps. -/
theorem Run.along {step step' : σ → ε → σ → Prop} {I J : σ → Prop} (h : Run step' s es t)
    (hst : ∀ t e u, step' t e u → step t e u) (hI : ∀ t e u, I t → step t e u → I u)
    (hJ : ∀ t e u, I t → J t → step' t e u → J u) (hi : I s) (hj : J s) : I t ∧ J t :=
  h.invariant (I := fun s => I s ∧ J s)
    (fun _ _ _ hs he => ⟨hI _ _ _ hs.1 (hst _ _ _ he), hJ _ _ _ hs.1 hs.2 he⟩) ⟨hi, hj⟩

/-- What the steps of a run show to an observer. -/
def observe {σ ε α : Type} (step : σ → ε → Option σ) (obs : σ → ε → σ → List α) :
    σ → List ε → List α
  | _, [] => []
  | s, e :: es =>
    match step s e with
    | none => []
    | some t => obs s e t ++ observe step obs t es

section
variable {σ ε α : Type} {step : σ → ε → Option σ} {obs : σ → ε → σ → List α}

theorem Run.foldlM (h : Run (fun s e t => step s e = some t) s es t) :
    es.foldlM step s = some t := by
  induction h with
  | nil => rfl
  | snoc _ he ih =>
    rw [List.foldlM_append, ih]
    exact Option.bind_eq_some_iff.2 ⟨_, rfl, Option.bind_eq_some_iff.2 ⟨_, he, rfl⟩⟩

theorem observe_append (h : es.foldlM step s = some t) :
    observe step obs s (es ++ es') = observe step obs s es ++ observe step obs t es' := by
  induction es generalizing s with
  | nil =>
    cases h
    rfl
  | cons e es ih =>
    obtain ⟨u, he, hes⟩ := Option.bind_eq_some_iff.1 h
    simp only [List.cons_append, observe, he, ih hes, List.append_assoc]

/-- What every step preserves of the last state and what has been observed. -/
theorem Run.observe_invariant {step' : σ → ε → σ → Prop} {R : List α → σ → Prop}
    (h : Run step' s es t) (hst : ∀ t e u, step' t e u → step t e = some u) (hnil : R [] s)
    (hsnoc : ∀ l t e u, R l t → step' t e u → R (l ++ obs t e u) u) :
    R (observe step obs s es) t := by
  induction h with
  | nil => exact hnil
  | snoc hr he ih =>
    have hr' : Run (fun s e t => step s e = some t) s _ _ :=
      hr.restrict (P := fun _ => True) (fun _ _ _ _ => hst _ _ _) fun _ _ => trivial
    rw [observe_append hr'.foldlM]
    simp only [observe, hst _ _ _ he, List.append_nil]
    exact hsnoc _ _ _ _ ih he

/-- A relation between the first state, what has been observed, and the last state, in a run whose
events all meet a condition. -/
theorem Run.observed (obs : σ → ε → σ → List α) {I : σ → Prop} {P : ε → Prop} {R : σ → List α → σ → Prop}
    (h : Run (fun s e t => step s e = some t) s es t) (hP : ∀ e ∈ es, P e)
    (hI : ∀ t e u, I t → step t e = some u → I u) (hs : I s) (hnil : R s [] s)
    (hsnoc : ∀ t e u l, I t → P e → R s l t → step t e = some u → R s (l ++ obs t e u) u) :
    R s (observe step obs s es) t := by
  induction h with
  | nil => exact hnil
  | snoc hr he ih =>
    have hl := ih fun e he => hP e (List.mem_append_left _ he)
    rw [observe_append hr.foldlM]
    simp only [observe, he, List.append_nil]
    exact hsnoc _ _ _ _ (hr.invariant hI hs) (hP _ (List.mem_append_right _
      (List.mem_singleton_self _))) hl he

end

end Trans
