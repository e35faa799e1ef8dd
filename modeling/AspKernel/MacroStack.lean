import AspKernel.MacroMean
import Mathlib.Data.List.Infix

/-! Every node leaves one value on the stack, as long as no unary operator is applied. -/

namespace AspKernel.Toppers.Macro
set_option autoImplicit true
open Itronx (Str TextLine showLong)

theorem Run.bind_apply (m : Run α) (f : α → Run β) (stk : List Var) (c : Context) :
    (m >>= f) stk c = match m stk c with
      | .ok q => f q.1.1 q.1.2 q.2
      | .error h => .error h := by
  show (m stk c >>= fun q => f q.1.1 q.1.2 q.2) = _
  cases m stk c <;> rfl

theorem Eff.bind_apply (m : Eff α) (f : α → Eff β) (c : Context) :
    (m >>= f) c = match m c with
      | .ok p => f p.1 p.2
      | .error h => .error h := by
  show (m c >>= fun p => f p.1 p.2) = _
  cases m c <;> rfl

theorem Run.lift_apply (m : Eff α) (stk : List Var) (c : Context) :
    (liftM m : Run α) stk c = match m c with
      | .ok p => .ok ((p.1, stk), p.2)
      | .error h => .error h := by
  show (m c >>= fun p => Except.ok ((p.1, stk), p.2)) = _
  cases m c <;> rfl

theorem Run.of_bind {m : Run α} {f : α → Run β} (h : (m >>= f) stk c = .ok (r, c')) :
    ∃ a stk' d, m stk c = .ok ((a, stk'), d) ∧ f a stk' d = .ok (r, c') := by
  rw [Run.bind_apply] at h
  cases hm : m stk c with
  | error e =>
    rw [hm] at h
    cases h
  | ok q =>
    rw [hm] at h
    exact ⟨q.1.1, q.1.2, q.2, rfl, h⟩

theorem Eff.of_bind {m : Eff α} {f : α → Eff β} (h : (m >>= f) c = .ok (b, c')) :
    ∃ a d, m c = .ok (a, d) ∧ f a d = .ok (b, c') := by
  rw [Eff.bind_apply] at h
  cases hm : m c with
  | error e =>
    rw [hm] at h
    cases h
  | ok p =>
    rw [hm] at h
    exact ⟨p.1, p.2, rfl, h⟩

/-- Two traces are the same up to an event that differs. -/
def Diverge (t t' : List Event) : Prop :=
  ∃ p a b r r', a ≠ b ∧ t = p ++ a :: r ∧ t' = p ++ b :: r'

theorem Diverge.extend (h : Diverge t t') (hu : t <+: u) (hu' : t' <+: u') : Diverge u u' := by
  obtain ⟨p, a, b, r, r', hne, rfl, rfl⟩ := h
  obtain ⟨s, rfl⟩ := hu
  obtain ⟨s', rfl⟩ := hu'
  exact ⟨p, a, b, r ++ s, r' ++ s', hne, by simp, by simp⟩

theorem Diverge.ne (h : Diverge t t') : t ≠ t' := by
  obtain ⟨p, a, b, r, r', hne, rfl, rfl⟩ := h
  intro he
  exact hne (List.cons.inj (List.append_cancel_left he)).1

/-- An evaluation only adds to the trace. -/
def Adds (m : Eff α) : Prop := ∀ c a c', m c = .ok (a, c') → c.trace <+: c'.trace

/-- A run against a meaning. A clean run has the outcome `clean` makes of the value and the stack. Where the guard stops
the meaning, a run has left more on the stack, or its trace is another one. -/
structure Sim (clean : α → List Var → β × List Var) (m : Run β) (n : Bool → Eff α) : Prop where
  grows : m stk c = .ok (r, c') → (∃ a xs, r = clean a (xs ++ stk)) ∧ c.trace <+: c'.trace
  adds : Adds (n false)
  ok (stk : List Var) : n true c = .ok (a, c') → m stk c = .ok (clean a stk, c') ∧ n false c = .ok (a, c')
  error : n true c = .error h → h ≠ .lost → m stk c = .error h
  lost : n true c = .error .lost → m stk c = .ok (r, c') →
    (∃ a x xs, r = clean a (x :: (xs ++ stk))) ∨ ∀ a d, n false c = .ok (a, d) → Diverge c'.trace d.trace

def plainly (a : α) (stk : List Var) : α × List Var := (a, stk)

def pushed (v : Var) (stk : List Var) : Bool × List Var := (true, v :: stk)

def finished (_ : Unit) (stk : List Var) : Bool × List Var := (true, stk)

theorem Adds.bind {m : Eff α} {f : α → Eff β} (hm : Adds m) (hf : ∀ a, Adds (f a)) : Adds (m >>= f) := by
  intro c b c' h
  rw [Eff.bind_apply] at h
  cases hr : m c with
  | error e =>
    rw [hr] at h
    cases h
  | ok p =>
    rw [hr] at h
    exact (hm c p.1 p.2 hr).trans (hf p.1 p.2 b c' h)

theorem more_below (ys : List Var) (x : Var) (xs stk : List Var) :
    ∃ y zs, ys ++ x :: (xs ++ stk) = y :: (zs ++ stk) := by
  cases ys with
  | nil => exact ⟨x, xs, rfl⟩
  | cons y ys => exact ⟨y, ys ++ x :: xs, by simp⟩

/-- What follows a run goes on from its clean outcome. -/
theorem Sim.bind {n' : α → Bool → Eff γ} {f : β → Run δ} {k : α → Run δ} {clean' : γ → List Var → δ × List Var}
    (hm : Sim clean m n) (hf : ∀ a stk, f (clean a stk).1 (clean a stk).2 = k a stk)
    (hk : ∀ a, Sim clean' (k a) (n' a)) : Sim clean' (m >>= f) fun g => n g >>= fun a => n' a g where
  grows := by
    intro stk c r c' h
    rw [Run.bind_apply] at h
    cases hr : m stk c with
    | error e =>
      rw [hr] at h
      cases h
    | ok q =>
      rw [hr] at h
      obtain ⟨⟨a, xs, hq⟩, ht⟩ := hm.grows hr
      simp only [hq, hf] at h
      obtain ⟨⟨b, ys, rfl⟩, ht'⟩ := (hk a).grows h
      exact ⟨⟨b, ys ++ xs, by rw [List.append_assoc]⟩, ht.trans ht'⟩
  adds := hm.adds.bind fun a => (hk a).adds
  ok := by
    intro c a c' stk h
    rw [Eff.bind_apply] at h
    cases hr : n true c with
    | error e =>
      rw [hr] at h
      cases h
    | ok p =>
      rw [hr] at h
      obtain ⟨h1, h2⟩ := hm.ok stk hr
      obtain ⟨h3, h4⟩ := (hk p.1).ok stk h
      rw [Run.bind_apply, Eff.bind_apply, h1, h2]
      exact ⟨(congrFun (hf p.1 stk) p.2).trans h3, h4⟩
  error := by
    intro c h stk hr hne
    rw [Eff.bind_apply] at hr
    rw [Run.bind_apply]
    cases hn : n true c with
    | error e =>
      rw [hn] at hr
      cases hr
      rw [hm.error hn hne]
    | ok p =>
      rw [hn] at hr
      rw [(hm.ok stk hn).1]
      exact (congrFun (hf p.1 stk) p.2).trans ((hk p.1).error hr hne)
  lost := by
    intro c stk r c' hl hr
    rw [Eff.bind_apply] at hl
    rw [Run.bind_apply] at hr
    cases hn : n true c with
    | error e =>
      rw [hn] at hl
      cases hl
      cases hm' : m stk c with
      | error e =>
        rw [hm'] at hr
        cases hr
      | ok q =>
        rw [hm'] at hr
        obtain ⟨⟨a, xs, hq⟩, -⟩ := hm.grows hm'
        rcases hm.lost hn hm' with ⟨a, x, xs, hq⟩ | hd
        · left
          simp only [hq, hf] at hr
          obtain ⟨⟨b, ys, rfl⟩, -⟩ := (hk a).grows hr
          obtain ⟨y, zs, he⟩ := more_below ys x xs stk
          exact ⟨b, y, zs, by rw [he]⟩
        · right
          intro b d hb
          rw [Eff.bind_apply] at hb
          simp only [hq, hf] at hr
          cases hn' : n false c with
          | error e =>
            rw [hn'] at hb
            cases hb
          | ok p =>
            rw [hn'] at hb
            exact (hd p.1 p.2 hn').extend ((hk a).grows hr).2 ((hk p.1).adds p.2 b d hb)
    | ok p =>
      rw [hn] at hl
      obtain ⟨h1, h2⟩ := hm.ok stk hn
      rw [h1] at hr
      rw [Eff.bind_apply, h2]
      exact (hk p.1).lost hl ((congrFun (hf p.1 stk) p.2).symm.trans hr)

theorem Sim.lift {m : Eff α} (hm : Adds m) : Sim plainly (liftM m : Run α) fun _ => m where
  grows := by
    intro stk c r c' h
    rw [Run.lift_apply] at h
    cases hr : m c with
    | error e =>
      rw [hr] at h
      cases h
    | ok p =>
      rw [hr] at h
      cases h
      exact ⟨⟨p.1, [], rfl⟩, hm c p.1 p.2 hr⟩
  adds := hm
  ok := by
    intro c a c' stk h
    rw [Run.lift_apply, h]
    exact ⟨rfl, rfl⟩
  error := by
    intro c h stk hr _
    rw [Run.lift_apply, hr]
  lost := by
    intro c stk r c' hl h
    rw [Run.lift_apply, hl] at h
    cases h

/-- Where the guard stops the meaning at once, a run only has to show it. -/
theorem Sim.guarded {n : Bool → Eff α} {clean : α → List Var → β × List Var} {m : Run β} (hn : n true = throw Halt.lost) (ha : Adds (n false))
    (hg : ∀ {stk c r c'}, m stk c = .ok (r, c') → (∃ a xs, r = clean a (xs ++ stk)) ∧ c.trace <+: c'.trace)
    (hl : ∀ {stk c r c'}, m stk c = .ok (r, c') → (∃ a x xs, r = clean a (x :: (xs ++ stk))) ∨
      ∀ a d, n false c = .ok (a, d) → Diverge c'.trace d.trace) : Sim clean m n where
  grows := hg
  adds := ha
  ok _ h := by
    rw [hn] at h
    cases h
  error h hne := by
    rw [hn] at h
    cases h
    exact absurd rfl hne
  lost _ h := hl h

theorem Adds.pure (a : α) : Adds (Pure.pure a : Eff α) := by
  intro c b c' h
  cases h
  exact List.prefix_rfl

theorem Adds.stop (s : Stop) : Adds (Macro.stop s : Eff α) := by
  intro c a c' h
  cases h

theorem Adds.halt (h : Halt) : Adds (throw h : Eff α) := by
  intro c a c' he
  cases he

theorem Adds.modifyEnv (f : Env → Env) : Adds (Macro.modifyEnv f) := by
  intro c a c' h
  cases h
  exact List.prefix_rfl

theorem Adds.getEnv : Adds Macro.getEnv := by
  intro c a c' h
  cases h
  exact List.prefix_rfl

theorem Adds.note (e : Event) : Adds (Macro.note e) := by
  intro c a c' h
  cases h
  exact List.prefix_append _ _

theorem Adds.ite {p : Prop} [Decidable p] {m m' : Eff α} (h : Adds m) (h' : Adds m') : Adds (if p then m else m') := by
  split
  · exact h
  · exact h'

theorem Sim.pure (a : α) : Sim plainly (Pure.pure a : Run α) fun _ => Pure.pure a :=
  Sim.lift (Adds.pure a)

section
variable {m : Run β} {clean' : γ → List Var → δ × List Var}

/-- A step on the context alone. -/
theorem Sim.eff {m : Eff α} {k : α → Run δ} {n' : α → Bool → Eff γ} (hm : Adds m)
    (hk : ∀ a, Sim clean' (k a) (n' a)) : Sim clean' (liftM m >>= k) fun g => m >>= fun a => n' a g :=
  (Sim.lift hm).bind (fun _ _ => rfl) hk

/-- An operand, whose value is popped. -/
theorem Sim.operand {m : Run Bool} {k : Var → Run δ} {z : Run δ} {n' : Var → Bool → Eff γ} (hm : Sim pushed m n)
    (hk : ∀ v, Sim clean' (k v) (n' v)) :
    Sim clean' (m >>= fun b => if b = true then pop >>= k else z) fun g => n g >>= fun v => n' v g :=
  hm.bind (fun _ _ => rfl) hk

/-- An operand whose result is kept. -/
theorem Sim.result {m : Run Bool} {k : Bool → Var → Run δ} {n' : Var → Bool → Eff γ} (hm : Sim pushed m n)
    (hk : ∀ v, Sim clean' (k true v) (n' v)) :
    Sim clean' (m >>= fun b => pop >>= fun v => k b v) fun g => n g >>= fun v => n' v g :=
  hm.bind (fun _ _ => rfl) hk

/-- A command, whose result goes on. -/
theorem Sim.command {m : Run Bool} {f : Bool → Run δ} {n : Bool → Eff Unit} {n' : Bool → Eff γ}
    (hm : Sim finished m n) (hk : Sim clean' (f true) n') : Sim clean' (m >>= f) fun g => n g >>= fun _ => n' g :=
  hm.bind (k := fun _ => f true) (fun _ _ => rfl) fun _ => hk

theorem Sim.bindRun {m : Run α} {k : α → Run δ} {n' : α → Bool → Eff γ} (hm : Sim plainly m n)
    (hk : ∀ a, Sim clean' (k a) (n' a)) : Sim clean' (m >>= k) fun g => n g >>= fun a => n' a g :=
  hm.bind (fun _ _ => rfl) hk

end

theorem Sim.value (v : Var) : Sim pushed (push v >>= fun _ => Pure.pure true) fun _ => Pure.pure v where
  grows h := by
    cases h
    exact ⟨⟨v, [], rfl⟩, List.prefix_rfl⟩
  adds := Adds.pure v
  ok _ h := by
    cases h
    exact ⟨rfl, rfl⟩
  error h := by cases h
  lost h := by cases h

/-- A value that is computed and pushed. -/
theorem Sim.push {m : Run Var} (hm : Sim plainly m n) :
    Sim pushed (m >>= fun v => Macro.push v >>= fun _ => Pure.pure true) n := by
  have h := hm.bindRun Sim.value
  simpa only [bind_pure] using h

/-- A node that is there for its only child. -/
theorem Sim.pass {m : Run Bool} (hm : Sim pushed m n) :
    Sim pushed (m >>= fun b => if b = true then Pure.pure true else Pure.pure true) n := by
  have h := hm.bind (f := fun b => if b = true then Pure.pure true else Pure.pure true) (fun v stk => rfl) Sim.value
  simpa only [bind_pure] using h

/-- The outcome of a loop that goes on while its operands succeed. -/
def succeeded (v : Var) (stk : List Var) : (Bool × Var) × List Var := ((true, v), stk)

theorem Sim.succeed (v : Var) : Sim succeeded (Pure.pure (true, v)) fun _ => Pure.pure v where
  grows h := by
    cases h
    exact ⟨⟨v, [], rfl⟩, List.prefix_rfl⟩
  adds := Adds.pure v
  ok _ h := by
    cases h
    exact ⟨rfl, rfl⟩
  error h := by cases h
  lost h := by cases h

theorem Sim.halt (h : Halt) : Sim clean (throw h) fun _ => throw h where
  grows h := by cases h
  adds := Adds.halt h
  ok _ h := by cases h
  error h _ := by
    cases h
    rfl
  lost _ h := by cases h

theorem Sim.done : Sim finished (Pure.pure true) fun _ => Pure.pure () where
  grows h := by
    cases h
    exact ⟨⟨(), [], rfl⟩, List.prefix_rfl⟩
  adds := Adds.pure ()
  ok _ h := by
    cases h
    exact ⟨rfl, rfl⟩
  error h := by cases h
  lost h := by cases h

section
variable {q : Var → Var → Eff Var}

/-- The value of two operands that are both on the stack. -/
def combine (q : Var → Var → Eff Var) : Run Bool := do
  let b ← pop
  let a ← pop
  let v ← q a b
  push v
  return true

theorem combine_apply (q : Var → Var → Eff Var) (b a : Var) (stk : List Var) (c : Context) :
    combine q (b :: a :: stk) c = match q a b c with
      | .ok p => .ok (pushed p.1 stk, p.2)
      | .error h => .error h := by
  have h : combine q (b :: a :: stk) c =
      ((liftM (q a b) : Run Var) >>= fun v => push v >>= fun _ => pure true) stk c := rfl
  rw [h, Run.bind_apply, Run.lift_apply]
  cases q a b c <;> rfl

/-- The second operand is evaluated above the value of the first one; what it leaves in between is taken for that value. -/
theorem Sim.above {m : Run Bool} {z : Run Bool} (hm : Sim pushed m n) (hq : ∀ a b, Adds (q a b)) (a : Var) :
    Sim pushed (fun stk => (m >>= fun r => if r = true then combine q else z) (a :: stk)) fun g =>
      n g >>= fun b => q a b := by
  have hrun {stk c r c'} (h : (m >>= fun r => if r = true then combine q else z) (a :: stk) c = .ok (r, c')) :
      ∃ b xs c₁ x ys v, m (a :: stk) c = .ok (pushed b (xs ++ a :: stk), c₁) ∧ xs ++ a :: stk = x :: (ys ++ stk) ∧
        q x b c₁ = .ok (v, c') ∧ r = pushed v (ys ++ stk) := by
    rw [Run.bind_apply] at h
    cases hr : m (a :: stk) c with
    | error e =>
      rw [hr] at h
      cases h
    | ok p =>
      obtain ⟨s, c₁⟩ := p
      obtain ⟨⟨b, xs, rfl⟩, -⟩ := hm.grows hr
      obtain ⟨x, ys, hs⟩ := more_below xs a [] stk
      rw [List.nil_append] at hs
      rw [hr] at h
      have h' : combine q (b :: (xs ++ a :: stk)) c₁ = .ok (r, c') := h
      rw [hs, combine_apply] at h'
      cases hv : q x b c₁ with
      | error e =>
        rw [hv] at h'
        cases h'
      | ok p =>
        rw [hv] at h'
        cases h'
        exact ⟨b, xs, c₁, x, ys, p.1, rfl, hs, hv, rfl⟩
  exact {
    grows := by
      intro stk c r c' h
      obtain ⟨b, xs, c₁, x, ys, v, hr, -, hv, rfl⟩ := hrun h
      exact ⟨⟨v, ys, rfl⟩, (hm.grows hr).2.trans (hq x b c₁ v c' hv)⟩
    adds := hm.adds.bind fun b => hq a b
    ok := by
      intro c v c' stk h
      rw [Eff.bind_apply] at h
      cases hn : n true c with
      | error e =>
        rw [hn] at h
        cases h
      | ok p =>
        rw [hn] at h
        obtain ⟨h1, h2⟩ := hm.ok (a :: stk) hn
        rw [Eff.bind_apply, h2, Run.bind_apply, h1]
        have hq' : q a p.1 p.2 = .ok (v, c') := h
        refine ⟨(combine_apply q p.1 a stk p.2).trans ?_, h⟩
        rw [hq']
    error := by
      intro c h stk he hne
      rw [Eff.bind_apply] at he
      rw [Run.bind_apply]
      cases hn : n true c with
      | error e =>
        rw [hn] at he
        cases he
        rw [hm.error hn hne]
      | ok p =>
        rw [hn] at he
        rw [(hm.ok (a :: stk) hn).1]
        have hq' : q a p.1 p.2 = .error h := he
        refine (combine_apply q p.1 a stk p.2).trans ?_
        rw [hq']
    lost := by
      intro c stk r c' hl h
      obtain ⟨b, xs, c₁, x, ys, v, hr, hs, hv, rfl⟩ := hrun h
      rw [Eff.bind_apply] at hl
      cases hn : n true c with
      | error e =>
        rw [hn] at hl
        cases hl
        rcases hm.lost hn hr with ⟨b', x', xs', he⟩ | hd
        · left
          have ht : xs ++ a :: stk = x' :: (xs' ++ a :: stk) := congrArg (fun r => r.2.tail) he
          rw [hs] at ht
          obtain ⟨y, zs, hy⟩ := more_below xs' a [] stk
          rw [(List.cons.inj ht).2]
          exact ⟨v, y, zs, congrArg (pushed v) hy⟩
        · right
          intro w d hw
          rw [Eff.bind_apply] at hw
          cases hn' : n false c with
          | error e =>
            rw [hn'] at hw
            cases hw
          | ok p =>
            rw [hn'] at hw
            exact (hd p.1 p.2 hn').extend (hq x b c₁ v c' hv) (hq a p.1 p.2 w d hw)
      | ok p =>
        rw [hn] at hl
        have he := Except.ok.inj (hr.symm.trans (hm.ok (a :: stk) hn).1)
        have hp : pushed b (xs ++ a :: stk) = pushed p.1 (a :: stk) := congrArg Prod.fst he
        have hc : c₁ = p.2 := congrArg Prod.snd he
        have hb : b :: (xs ++ a :: stk) = p.1 :: a :: stk := congrArg Prod.snd hp
        rw [hs] at hb
        obtain ⟨rfl, hx⟩ := List.cons.inj hb
        obtain ⟨rfl, -⟩ := List.cons.inj hx
        have hq' : q x p.1 p.2 = .error .lost := hl
        rw [hc, hq'] at hv
        cases hv }

end

/-- What a run makes of the value under it. -/
theorem Sim.keep (w : Var) {m : Run Bool} (hm : Sim pushed m n) :
    Sim (fun (p : Var × Var) stk => pushed p.1 (p.2 :: stk)) (fun stk => m (w :: stk)) fun g => n g >>= fun v => Pure.pure (v, w) where
  grows := by
    intro stk c r c' h
    obtain ⟨⟨a, xs, rfl⟩, ht⟩ := hm.grows h
    obtain ⟨x, ys, hx⟩ := more_below xs w [] stk
    exact ⟨⟨(a, x), ys, congrArg (pushed a) hx⟩, ht⟩
  adds := hm.adds.bind fun v => Adds.pure (v, w)
  ok := by
    intro c a c' stk h
    rw [Eff.bind_apply] at h
    cases hn : n true c with
    | error e =>
      rw [hn] at h
      cases h
    | ok p =>
      rw [hn] at h
      cases h
      obtain ⟨h1, h2⟩ := hm.ok (w :: stk) hn
      rw [Eff.bind_apply, h2]
      exact ⟨h1, rfl⟩
  error := by
    intro c h stk he hne
    rw [Eff.bind_apply] at he
    cases hn : n true c with
    | error e =>
      rw [hn] at he
      cases he
      exact hm.error hn hne
    | ok p =>
      rw [hn] at he
      cases he
  lost := by
    intro c stk r c' hl h
    rw [Eff.bind_apply] at hl
    cases hn : n true c with
    | error e =>
      rw [hn] at hl
      cases hl
      rcases hm.lost hn h with ⟨a, x, xs, rfl⟩ | hd
      · obtain ⟨y, zs, hy⟩ := more_below xs w [] stk
        rw [List.nil_append] at hy
        exact .inl ⟨(a, x), y, zs, congrArg (fun l => pushed a (x :: l)) hy⟩
      · right
        intro a d ha
        rw [Eff.bind_apply] at ha
        cases hn' : n false c with
        | error e =>
          rw [hn'] at ha
          cases ha
        | ok p =>
          rw [hn'] at ha
          cases ha
          exact hd p.1 p.2 hn'
    | ok p =>
      rw [hn] at hl
      cases hl

theorem adds_enter (e : Expr) : Adds (enter e) :=
  (Adds.modifyEnv _).bind fun _ => Adds.note _

theorem adds_error (line : TextLine) (msg : Str) : Adds (error line msg) :=
  (Adds.modifyEnv _).bind fun _ => Adds.getEnv.bind fun _ => (Adds.stop _).ite (Adds.pure _)

theorem adds_errors (line : TextLine) (msgs : List Str) : Adds (errors line msgs) := by
  induction msgs with
  | nil => exact Adds.pure ()
  | cons msg msgs ih => exact (adds_error line msg).bind fun _ => ih

theorem adds_int (var : Var) : Adds (int var) := by
  apply Adds.getEnv.bind
  intro env
  cases getI env.line var with
  | ok i => exact Adds.pure i
  | error s => exact Adds.stop s

theorem adds_getVar (name : Str) : Adds (getVar name) :=
  Adds.getEnv.bind fun _ => Adds.pure _

theorem adds_setVar (name : Str) (var : Var) : Adds (setVar name var) :=
  Adds.modifyEnv _

theorem adds_report (line : TextLine) (out : Out) : Adds (report line out) := by
  match out with
  | none => exact Adds.stop _
  | some (msgs, i) => exact (adds_errors line msgs).bind fun _ => Adds.pure i

theorem adds_apply (level : Level) (op : Str) (line : TextLine) (x y : Int) (lhs rhs : Str) :
    Adds (level.apply op line x y lhs rhs) := by
  cases level with
  | or | xor | and | equality | relational => exact Adds.pure _
  | shift | additive | multiplicative => exact adds_report _ _

theorem adds_binary (level : Level) (op : Str) (line : TextLine) (lhs rhs : Var) :
    Adds (binary level op line lhs rhs) :=
  (adds_int lhs).bind fun _ => (adds_int rhs).bind fun _ => (adds_apply _ _ _ _ _ _ _).bind fun _ => Adds.pure _

theorem adds_unaryValue (line : TextLine) (op : Str) (value : Int) : Adds (unaryValue line op value) := by
  unfold unaryValue
  exact (Adds.pure _).ite ((adds_report _ _).ite ((Adds.pure _).ite (Adds.pure _)))

theorem adds_applyUnary (line : TextLine) (op : Str) (expr : Var) : Adds (applyUnary line op expr) := by
  unfold applyUnary
  split
  · exact (adds_int expr).bind fun _ => (adds_unaryValue _ _ _).bind fun _ => Adds.pure _
  · cases expr with
    | nil => exact Adds.stop _
    | cons e expr => exact Adds.pure _

theorem adds_meanOps (line : TextLine) (v : Var) (ops : List (TextLine × Str)) : Adds (meanOps line v ops) := by
  induction ops generalizing v with
  | nil => exact Adds.pure v
  | cons op ops ih => exact (adds_applyUnary _ _ _).bind ih

theorem adds_stringValue (text : Str) : Adds (stringValue text) := by
  unfold stringValue
  split
  · exact Adds.pure _
  all_goals exact Adds.stop _

theorem adds_element (name expr : Var) : Adds (element name expr) :=
  (adds_int expr).bind fun _ => Adds.pure _

theorem adds_sequence (line : TextLine) (first second last : Var) : Adds (sequence line first second last) := by
  apply (adds_int first).bind fun a0 => (adds_int second).bind fun a1 => (adds_int last).bind fun an => ?_
  split
  · exact Adds.stop _
  · exact (adds_errors _ _).bind fun _ => Adds.pure _

theorem adds_pushBack (lhs rhs : Var) : Adds (pushBack lhs rhs) := by
  cases rhs with
  | nil => exact Adds.stop _
  | cons e rhs => exact Adds.pure _

theorem adds_passArgv (i : Nat) (args : List Var) : Adds (passArgv i args) := by
  induction args generalizing i with
  | nil => exact adds_setVar _ _
  | cons arg args ih => exact (adds_setVar _ _).bind fun _ => ih (i + 1)

theorem adds_passArgs (funcName : Str) (args : List Var) : Adds (passArgs funcName args) :=
  (Adds.modifyEnv _).bind fun _ => (Adds.modifyEnv _).bind fun _ => (adds_passArgv _ _).bind fun _ =>
    Adds.getEnv.bind fun _ => (Adds.modifyEnv _).bind fun _ => Adds.pure _

theorem adds_takeResult (prevLocation : Str) : Adds (takeResult prevLocation) :=
  (Adds.modifyEnv _).bind fun _ => (adds_getVar _).bind fun _ => (Adds.modifyEnv _).bind fun _ => Adds.pure _

theorem adds_setLine (line : TextLine) : Adds (setLine line) :=
  Adds.modifyEnv _

theorem unaryBody_sim (line leaf : TextLine) (op : Str) (outer : List (TextLine × Str)) (expr : Var) :
    Sim pushed (unaryBody line leaf op outer expr) fun _ => applyUnary line op expr >>= fun v =>
      if outer = [] then pure v else setLine leaf >>= fun _ => pure v := by
  apply Sim.eff (adds_applyUnary line op expr)
  intro v
  by_cases ho : outer = []
  · simp only [if_pos ho]
    exact Sim.value v
  · simp only [if_neg ho]
    exact Sim.eff (adds_setLine leaf) fun _ => Sim.value v

section
variable {eval : Expr → Run Bool} {mean : Bool → Expr → Eff Var}
  (h : ∀ e, Sim pushed (eval e) fun g => mean g e)
include h

theorem chainLoop_sim (level : Level) (line : TextLine) (lhs : Var) (rest : List (Str × Expr)) :
    Sim plainly (chainLoop eval level line lhs rest) fun g => meanChainLoop (mean g) level line lhs rest := by
  induction rest generalizing lhs with
  | nil => exact Sim.pure lhs
  | cons a rest ih => exact (h a.2).operand fun rhs => Sim.eff (adds_binary level a.1 line lhs rhs) ih

theorem chainExpr_sim (level : Level) (line : TextLine) (lhs : Expr) (rest : List (Str × Expr)) :
    Sim pushed (chainExpr eval level line lhs rest) fun g =>
      mean g lhs >>= fun lhs => meanChainLoop (mean g) level line lhs rest := by
  cases rest with
  | nil =>
    simp only [meanChainLoop, bind_pure]
    exact (h lhs).pass
  | cons a rest => exact (h lhs).operand fun lhs => (chainLoop_sim h level line lhs (a :: rest)).push

/-- The result that the loop returns is that of the last operand, which is `true`. -/
theorem logicalLoop_sim (isOr : Bool) (lhs : Var) (rest : List Expr) :
    Sim succeeded (logicalLoop eval isOr true lhs rest) fun g => meanLogicalLoop (mean g) isOr lhs rest := by
  induction rest generalizing lhs with
  | nil => exact Sim.succeed lhs
  | cons e rest ih =>
    apply Sim.eff (adds_int lhs)
    intro value
    split
    · exact Sim.succeed lhs
    · exact (h e).result fun rhs => Sim.eff (adds_int rhs) fun value2 => ih _

theorem logicalExpr_sim (isOr : Bool) (lhs : Expr) (rest : List Expr) :
    Sim pushed (logicalExpr eval isOr lhs rest) fun g =>
      mean g lhs >>= fun lhs => meanLogicalLoop (mean g) isOr lhs rest := by
  cases rest with
  | nil =>
    simp only [meanLogicalLoop, bind_pure]
    exact (h lhs).pass
  | cons e rest =>
    apply (h lhs).operand
    intro lhs
    have hl := (logicalLoop_sim h isOr lhs (e :: rest)).bind
      (f := fun p => push p.2 >>= fun _ => pure p.1) (fun v stk => rfl) Sim.value
    simpa only [bind_pure] using hl

theorem listLoop_sim (lhs : Var) (rest : List Expr) :
    Sim plainly (listLoop eval lhs rest) fun g => meanListLoop (mean g) lhs rest := by
  induction rest generalizing lhs with
  | nil => exact Sim.pure lhs
  | cons e rest ih => exact (h e).operand fun rhs => ih (lhs ++ rhs)

theorem orderedList_sim (items : List Expr) :
    Sim pushed (orderedList eval items) fun g => meanList (mean g) items := by
  cases items with
  | nil => exact Sim.value []
  | cons e rest => exact (h e).operand fun lhs => (listLoop_sim h lhs rest).push

theorem itemLoop_sim (lhs : Var) (rest : List Expr) :
    Sim plainly (itemLoop eval lhs rest) fun g => meanItemLoop (mean g) lhs rest := by
  induction rest generalizing lhs with
  | nil => exact Sim.pure lhs
  | cons e rest ih => exact (h e).operand fun rhs => Sim.eff (adds_pushBack lhs rhs) ih

theorem orderedItem_sim (lhs : Expr) (rest : List Expr) :
    Sim pushed (orderedItem eval lhs rest) fun g => mean g lhs >>= fun lhs => meanItemLoop (mean g) lhs rest :=
  (h lhs).operand fun lhs => (itemLoop_sim h lhs rest).push

theorem orderedSequence_sim (line : TextLine) (first second last : Expr) :
    Sim pushed (orderedSequence eval line first second last) fun g =>
      mean g first >>= fun a => mean g second >>= fun b => mean g last >>= fun c => sequence line a b c :=
  (h first).operand fun a => (h second).operand fun b => (h last).operand fun c =>
    (Sim.lift (adds_sequence line a b c)).push

theorem primaryLvalue_sim (lvalue : Expr) :
    Sim pushed (primaryLvalue eval lvalue) fun g => mean g lvalue >>= fun ident => getVar (getS ident) :=
  (h lvalue).result fun ident => (Sim.lift (adds_getVar (getS ident))).push

theorem lvalueExpr_sim (name : Expr) (subscript : Option Expr) :
    Sim pushed (lvalueExpr eval name subscript) fun g =>
      mean g name >>= fun name => meanSubscript (mean g) name subscript := by
  cases subscript with
  | none =>
    simp only [meanSubscript, bind_pure]
    exact (h name).pass
  | some e =>
    exact (h name).bind (k := fun v stk => (eval e >>= fun r => if r = true then combine element else pure true)
      (v :: stk)) (fun _ _ => rfl) fun v => (h e).above adds_element v

/-- A unary operator leaves two values, that of its operand below its own. -/
theorem unaryExpr_twice (line : TextLine) (hops : ops ≠ []) (operand : Expr) :
    ∃ n, Sim (fun (p : Var × Var) stk => pushed p.1 (p.2 :: stk)) (unaryExpr eval line ops operand) n := by
  cases he : ops.reverse with
  | nil => exact absurd (List.reverse_eq_nil_iff.1 he) hops
  | cons a outer =>
    unfold unaryExpr
    rw [he]
    exact ⟨_, (h operand).operand fun v => (h operand).bind (fun _ _ => rfl) fun w =>
      Sim.keep w (unaryBody_sim line a.1 a.2 outer v)⟩

theorem unaryExpr_sim (line : TextLine) (ops : List (TextLine × Str)) (operand : Expr) :
    Sim pushed (unaryExpr eval line ops operand) fun g => meanUnary (mean g) g line ops operand := by
  cases ops with
  | nil =>
    simp only [meanUnary, meanOps, List.reverse_nil, bind_pure, ne_eq, not_true_eq_false, and_false, if_false]
    exact (h operand).pass
  | cons op ops =>
    have hne : op :: ops ≠ [] := List.cons_ne_nil _ _
    obtain ⟨n, hs⟩ := unaryExpr_twice h line hne operand
    have hg : meanUnary (mean true) true line (op :: ops) operand = throw Halt.lost := by
      simp only [meanUnary, hne, ne_eq, not_false_eq_true, and_self, if_true]
    have ha : Adds (meanUnary (mean false) false line (op :: ops) operand) := by
      simp only [meanUnary, Bool.false_eq_true, false_and, if_false]
      exact (h operand).adds.bind fun v => adds_meanOps line v _
    apply Sim.guarded hg ha
    · intro stk c r c' hr
      obtain ⟨⟨a, xs, rfl⟩, ht⟩ := hs.grows hr
      exact ⟨⟨a.1, a.2 :: xs, rfl⟩, ht⟩
    · intro stk c r c' hr
      obtain ⟨⟨a, xs, rfl⟩, -⟩ := hs.grows hr
      exact .inl ⟨a.1, a.2, xs, rfl⟩

end

def Context.at (c : Context) (line : TextLine) : Context := { c with env := { c.env with line } }

section
variable {evalTop : Top → Run Bool} {meanTop : Bool → Top → Eff Unit}
  (hT : ∀ t, Sim finished (evalTop t) fun g => meanTop g t)
include hT

theorem runProg_sim (p : Prog) : Sim plainly (runProg evalTop p) fun g => meanProg (meanTop g) p := by
  induction p with
  | done env v => exact Sim.eff (Adds.modifyEnv _) fun _ => Sim.pure v
  | stop s => exact Sim.lift (Adds.stop s)
  | call env body k ih =>
    exact Sim.eff (Adds.modifyEnv _) fun _ => (hT body).command (Sim.eff Adds.getEnv fun env => ih true env)

theorem callFunc_sim (builtins : Builtins) (line : TextLine) (funcName : Str) (args : List Var) (func : Func) :
    Sim pushed (callFunc evalTop builtins line funcName args func) fun g =>
      meanFunc (meanTop g) builtins line funcName args func := by
  cases func with
  | builtin f => exact Sim.eff Adds.getEnv fun env => (runProg_sim hT (builtins f line args env)).push
  | user body =>
    exact Sim.eff (adds_passArgs funcName args) fun prev =>
      (hT body).command (Sim.lift (adds_takeResult prev)).push
  | unset => exact Sim.value []

end

/-- What evaluates nodes: it notes the node and its line first. -/
structure Nodes (eval : Expr → Run Bool) (mean : Bool → Expr → Eff Var) : Prop where
  sim : ∀ e, Sim pushed (eval e) fun g => mean g e
  starts : eval e stk c = .ok (r, c') → c.trace ++ [.node e] <+: c'.trace
  meanStarts : mean false e c = .ok (v, c') → c.trace ++ [.node e] <+: c'.trace
  line (l : TextLine) : eval e stk (c.at l) = eval e stk c

theorem diverge_of_prefix {a b : Event} (hne : a ≠ b) (h : t ++ [a] <+: u) (h' : t ++ [b] <+: u') : Diverge u u' :=
  Diverge.extend ⟨t, a, b, [], [], hne, rfl, rfl⟩ h h'

/-- The operands that the loop over the arguments comes to. -/
def taken : List (TextLine ⊕ Expr) → List Expr
  | [] => []
  | [.inl _] => []
  | [.inr e] => [e]
  | .inl _ :: _ :: cs => taken cs
  | .inr e :: _ :: cs => e :: taken cs

section
variable {eval : Expr → Run Bool} {mean : Bool → Expr → Eff Var} (h : Nodes eval mean)
include h

theorem argsLoop_one (e : Expr) (rest : List (TextLine × Expr)) :
    Sim plainly (argsLoop eval (.inr e :: rest.flatMap fun a => [.inl a.1, .inr a.2])) fun g =>
      meanArgs (mean g) (e :: rest.map Prod.snd) := by
  induction rest generalizing e with
  | nil => exact (h.sim e).operand fun v => Sim.pure [v]
  | cons a rest ih => exact (h.sim e).operand fun v => (ih a.2).bindRun fun args => Sim.pure (v :: args)

omit h in
theorem argsLoop_inr (e : Expr) (cs : List (TextLine ⊕ Expr)) : argsLoop eval (.inr e :: cs) = eval e >>= fun b =>
    if b = true then pop >>= fun arg => argsLoop eval (cs.drop 1) >>= fun args => pure (arg :: args)
    else argsLoop eval (cs.drop 1) := by
  cases cs <;> rfl

omit h in
theorem argsLoop_inl (line : TextLine) (cs : List (TextLine ⊕ Expr)) :
    argsLoop eval (.inl line :: cs) = liftM (setLine line) >>= fun _ => argsLoop eval (cs.drop 1) := by
  cases cs <;> rfl

theorem argsLoop_sim (cs : List (TextLine ⊕ Expr)) : ∃ n, Sim plainly (argsLoop eval cs) n := by
  match cs with
  | [] => exact ⟨_, Sim.pure []⟩
  | .inl line :: cs =>
    obtain ⟨n, hn⟩ := argsLoop_sim (cs.drop 1)
    rw [argsLoop_inl]
    exact ⟨_, Sim.eff (adds_setLine line) fun _ => hn⟩
  | .inr e :: cs =>
    obtain ⟨n, hn⟩ := argsLoop_sim (cs.drop 1)
    rw [argsLoop_inr]
    exact ⟨_, (h.sim e).operand fun v => hn.bindRun fun args => Sim.pure (v :: args)⟩
termination_by cs.length
decreasing_by all_goals simp

theorem meanArgs_adds (L : List Expr) : Adds (meanArgs (mean false) L) := by
  induction L with
  | nil => exact Adds.pure []
  | cons e L ih => exact (h.sim e).adds.bind fun v => ih.bind fun args => Adds.pure _

theorem meanArgs_starts (hr : meanArgs (mean false) (e :: L) c = .ok (ws, d)) :
    c.trace ++ [.node e] <+: d.trace := by
  rw [meanArgs, Eff.bind_apply] at hr
  cases hm : mean false e c with
  | error e =>
    rw [hm] at hr
    cases hr
  | ok p =>
    rw [hm] at hr
    exact (h.meanStarts hm).trans (((meanArgs_adds h L).bind fun args => Adds.pure _) _ _ _ hr)

omit h in
theorem args_of_bind {m : Run (List Var)}
    (hr : (pop >>= fun arg => m >>= fun args => pure (arg :: args) : Run (List Var)) (v :: stk) c =
      .ok ((vs, stk'), c')) : ∃ args, m stk c = .ok ((args, stk'), c') := by
  have hr' : (m >>= fun args => (pure (v :: args) : Run (List Var))) stk c = .ok ((vs, stk'), c') := hr
  rw [Run.bind_apply] at hr'
  cases hm : m stk c with
  | error e =>
    rw [hm] at hr'
    cases hr'
  | ok q =>
    rw [hm] at hr'
    cases hr'
    exact ⟨q.1.1, rfl⟩

omit h in
theorem meanArgs_of_bind {m : Eff (List Var)} (hr : (m >>= fun args => pure (v :: args)) c = .ok (ws, d)) :
    ∃ args, m c = .ok (args, d) := by
  rw [Eff.bind_apply] at hr
  cases hm : m c with
  | error e =>
    rw [hm] at hr
    cases hr
  | ok q =>
    rw [hm] at hr
    cases hr
    exact ⟨q.1, rfl⟩

/-- Where a call does not come to its operands one after the other, this shows in the trace. -/
theorem args_diverge (f : Str) (cs : List (TextLine ⊕ Expr)) (L : List Expr) (hne : taken cs ≠ L)
    (hr : argsLoop eval cs stk (c.at l) = .ok ((vs, stk'), c')) (hm : meanArgs (mean false) L c = .ok (ws, d)) :
    (∃ x xs, stk' = x :: (xs ++ stk)) ∨ Diverge (c'.trace ++ [.call f]) (d.trace ++ [.call f]) := by
  match cs with
  | [] =>
    cases hr
    cases L with
    | nil => exact absurd rfl hne
    | cons b L =>
      right
      exact diverge_of_prefix (by simp) List.prefix_rfl ((meanArgs_starts h hm).trans (List.prefix_append _ _))
  | .inl line :: cs =>
    rw [argsLoop_inl] at hr
    have ht : taken (.inl line :: cs) = taken (cs.drop 1) := by cases cs <;> rfl
    rw [ht] at hne
    exact args_diverge (c := c) (l := line) f (cs.drop 1) L hne hr hm
  | .inr e :: cs =>
    have ht : taken (.inr e :: cs) = e :: taken (cs.drop 1) := by cases cs <;> rfl
    rw [ht] at hne
    rw [argsLoop_inr, Run.bind_apply, h.line] at hr
    cases hv : eval e stk c with
    | error x =>
      rw [hv] at hr
      cases hr
    | ok q =>
      rw [hv] at hr
      obtain ⟨s, c₁⟩ := q
      obtain ⟨⟨v, xs, rfl⟩, -⟩ := (h.sim e).grows hv
      have hstart := h.starts hv
      obtain ⟨args, hargs⟩ := args_of_bind hr
      obtain ⟨n, hn⟩ := argsLoop_sim h (cs.drop 1)
      obtain ⟨⟨_, ys, hys⟩, hgrow⟩ := hn.grows hargs
      have hys : stk' = ys ++ (xs ++ stk) := congrArg Prod.snd hys
      cases L with
      | nil =>
        right
        cases hm
        exact diverge_of_prefix (by simp) ((hstart.trans hgrow).trans (List.prefix_append _ _)) List.prefix_rfl
      | cons b L =>
        by_cases hb : e = b
        · subst hb
          rw [meanArgs, Eff.bind_apply] at hm
          cases hf : mean false e c with
          | error x =>
            rw [hf] at hm
            cases hm
          | ok p =>
            rw [hf] at hm
            obtain ⟨ws', hm'⟩ := meanArgs_of_bind hm
            have hL := meanArgs_adds h L p.2 ws' d hm'
            cases ht : mean true e c with
            | ok p' =>
              obtain ⟨h1, h2⟩ := (h.sim e).ok stk ht
              have he := Except.ok.inj (hv.symm.trans h1)
              have hp : p = p' := Except.ok.inj (hf.symm.trans h2)
              have hc : c₁ = p.2 := hp ▸ congrArg Prod.snd he
              have hs : xs ++ stk = stk := congrArg (fun r => r.1.2.tail) he
              have hne' : taken (cs.drop 1) ≠ L := fun ht => hne (by rw [ht])
              rw [hs, hc] at hargs
              exact args_diverge (c := p.2) (l := p.2.env.line) f (cs.drop 1) L hne' hargs hm'
            | error x =>
              by_cases hx : x = .lost
              · subst hx
                rcases (h.sim e).lost ht hv with ⟨w, y, zs, hw⟩ | hd
                · left
                  have hxs : xs ++ stk = y :: (zs ++ stk) := congrArg (fun r => r.2.tail) hw
                  rw [hys, hxs]
                  exact more_below ys y zs stk
                · right
                  exact (hd p.1 p.2 hf).extend (hgrow.trans (List.prefix_append _ _))
                    (hL.trans (List.prefix_append _ _))
              · rw [(h.sim e).error ht hx] at hv
                cases hv
        · right
          exact diverge_of_prefix (by simpa using hb) ((hstart.trans hgrow).trans (List.prefix_append _ _))
            ((meanArgs_starts h hm).trans (List.prefix_append _ _))
termination_by cs.length
decreasing_by all_goals simp

end

/-- The expressions among the children of a call. -/
def exprs : List (TextLine ⊕ Expr) → List Expr
  | [] => []
  | .inl _ :: cs => exprs cs
  | .inr e :: cs => e :: exprs cs

theorem exprs_append (cs cs' : List (TextLine ⊕ Expr)) : exprs (cs ++ cs') = exprs cs ++ exprs cs' := by
  induction cs with
  | nil => rfl
  | cons c cs ih =>
    cases c with
    | inl line => exact ih
    | inr e => exact congrArg (e :: ·) ih

/-- The children behind the first one of a list of arguments. -/
def tailChildren (rest : List (TextLine × Expr)) : List (TextLine ⊕ Expr) :=
  rest.flatMap fun a => [.inl a.1, .inr a.2]

theorem exprs_tailChildren (rest : List (TextLine × Expr)) : exprs (tailChildren rest) = rest.map Prod.snd := by
  induction rest with
  | nil => rfl
  | cons a rest ih => exact congrArg (a.2 :: ·) ih

theorem callChildren_cons (a : Expr × List (TextLine × Expr)) (args : List (Expr × List (TextLine × Expr))) :
    callChildren (a :: args) = .inr a.1 :: (tailChildren a.2 ++ callChildren args) := rfl

theorem operands_cons (a : Expr × List (TextLine × Expr)) (args : List (Expr × List (TextLine × Expr))) :
    operands (a :: args) = a.1 :: (a.2.map Prod.snd ++ operands args) := rfl

theorem exprs_callChildren (args : List (Expr × List (TextLine × Expr))) :
    exprs (callChildren args) = operands args := by
  induction args with
  | nil => rfl
  | cons a args ih =>
    have hr : exprs (tailChildren a.2 ++ callChildren args) = a.2.map Prod.snd ++ operands args := by
      rw [exprs_append, exprs_tailChildren, ih]
    exact congrArg (a.1 :: ·) hr

theorem taken_length (cs : List (TextLine ⊕ Expr)) : (taken cs).length ≤ (exprs cs).length := by
  match cs with
  | [] => exact Nat.le_refl _
  | [.inl _] => exact Nat.le_refl _
  | [.inr _] => exact Nat.le_refl _
  | .inl _ :: .inl _ :: cs => exact taken_length cs
  | .inl _ :: .inr _ :: cs => exact Nat.le_succ_of_le (taken_length cs)
  | .inr _ :: .inl _ :: cs => exact Nat.succ_le_succ (taken_length cs)
  | .inr _ :: .inr _ :: cs => exact Nat.succ_le_succ (Nat.le_succ_of_le (taken_length cs))

theorem taken_first (e : Expr) (rest : List (TextLine × Expr)) (d : TextLine ⊕ Expr) (cs : List (TextLine ⊕ Expr)) :
    taken (.inr e :: (tailChildren rest ++ d :: cs)) = e :: (rest.map Prod.snd ++ taken cs) := by
  induction rest generalizing e with
  | nil => rfl
  | cons a rest ih => exact congrArg (e :: ·) (ih a.2)

/-- Where a second list of arguments follows without a comma, the loop misses its first one. -/
theorem taken_ne (h : 1 < args.length) : taken (callChildren args) ≠ operands args := by
  match args with
  | a :: b :: args =>
    intro he
    rw [callChildren_cons, callChildren_cons b, taken_first, operands_cons, List.cons.injEq,
      List.append_cancel_left_eq] at he
    have hle := taken_length (tailChildren b.2 ++ callChildren args)
    have hex : b.1 :: exprs (tailChildren b.2 ++ callChildren args) = operands (b :: args) :=
      exprs_callChildren (b :: args)
    rw [he.2, ← hex, List.length_cons] at hle
    omega

theorem error_trace (h : error line msg c = .ok (a, c')) : c'.trace = c.trace := by
  let d : Context := { c with env := { c.env with
    errors := c.env.errors + 1, log := c.env.log ++ [(c.env.location, line, msg)] } }
  have he : (if d.env.maxErrors ≤ d.env.errors then stop .tooManyErrors else pure () : Eff Unit) d = .ok (a, c') := h
  split at he
  · cases he
  · have hd : d = c' := congrArg Prod.snd (Except.ok.inj he)
    rw [← hd]

/-- A call of a function that is not there comes to none of its operands. -/
theorem undefined_trace {msg f : Str} (hr : (liftM (error line msg) >>= fun _ => liftM (note (.call f)) >>= fun _ =>
    push [] >>= fun _ => pure true : Run Bool) stk c = .ok (r, c')) : c'.trace = c.trace ++ [.call f] := by
  rw [Run.bind_apply, Run.lift_apply] at hr
  cases he : error line msg c with
  | error e =>
    rw [he] at hr
    cases hr
  | ok p =>
    rw [he] at hr
    have hc : { p.2 with trace := p.2.trace ++ [.call f] } = c' := congrArg Prod.snd (Except.ok.inj hr)
    rw [← hc, ← error_trace (show error line msg c = .ok (p.1, p.2) from he)]

section
variable {eval : Expr → Run Bool} {mean : Bool → Expr → Eff Var} (h : Nodes eval mean)
  {evalTop : Top → Run Bool} {meanTop : Bool → Top → Eff Unit}
  (hT : ∀ t, Sim finished (evalTop t) fun g => meanTop g t)
include h hT

omit hT in
theorem args_sim (hle : args.length ≤ 1) :
    Sim plainly (argsLoop eval (callChildren args)) fun g => meanArgs (mean g) (operands args) := by
  match args with
  | [] => exact Sim.pure []
  | [a] =>
    have hc : callChildren [a] = .inr a.1 :: a.2.flatMap fun a => [.inl a.1, .inr a.2] := by
      simp [callChildren]
    have ho : operands [a] = a.1 :: a.2.map Prod.snd := by
      simp [operands]
    rw [hc, ho]
    exact argsLoop_one h a.1 a.2

omit hT in
theorem undefined_sim (line : TextLine) (funcName : Str) (args : List (Expr × List (TextLine × Expr))) :
    Sim pushed (liftM (error line (undefinedFunction funcName)) >>= fun _ => liftM (note (.call funcName)) >>= fun _ =>
        push [] >>= fun _ => pure true)
      fun g => if g ∧ args ≠ [] then throw Halt.lost
        else meanArgs (mean g) (operands args) >>= fun _ => error line (undefinedFunction funcName) >>= fun _ =>
          note (.call funcName) >>= fun _ => pure [] := by
  have hs := Sim.eff (adds_error line (undefinedFunction funcName)) fun _ =>
    Sim.eff (Adds.note (.call funcName)) fun _ => Sim.value []
  cases args with
  | nil =>
    simpa only [operands, List.flatMap_nil, meanArgs, pure_bind, ne_eq, not_true_eq_false, and_false, if_false] using hs
  | cons a args =>
    have hne : a :: args ≠ [] := List.cons_ne_nil _ _
    have ha := (meanArgs_adds h (operands (a :: args))).bind fun _ => hs.adds
    apply Sim.guarded
    · rw [if_pos ⟨rfl, hne⟩]
    · simpa only [Bool.false_eq_true, false_and, if_false] using ha
    · exact hs.grows
    · intro stk c r c' hr
      right
      intro v d hm
      simp only [Bool.false_eq_true, false_and, if_false] at hm
      obtain ⟨ws, d₁, hw, hm'⟩ := Eff.of_bind hm
      have hcall : c.trace ++ [.call funcName] <+: c'.trace := by rw [undefined_trace hr]
      exact diverge_of_prefix (by simp) hcall ((meanArgs_starts h (e := a.1) hw).trans (hs.adds d₁ v d hm'))

theorem defined_sim (builtins : Builtins) (line : TextLine) (funcName : Str) (func : Func)
    (args : List (Expr × List (TextLine × Expr))) :
    Sim pushed (argsLoop eval (callChildren args) >>= fun argList => liftM (note (.call funcName)) >>= fun _ =>
        callFunc evalTop builtins line funcName argList func)
      fun g => if g ∧ 1 < args.length then throw Halt.lost
        else meanArgs (mean g) (operands args) >>= fun argList => note (.call funcName) >>= fun _ =>
          meanFunc (meanTop g) builtins line funcName argList func := by
  have hc (argList : List Var) := Sim.eff (Adds.note (.call funcName)) fun _ =>
    callFunc_sim hT builtins line funcName argList func
  by_cases hl : 1 < args.length
  · obtain ⟨n, hn⟩ := argsLoop_sim h (callChildren args)
    apply Sim.guarded
    · rw [if_pos ⟨rfl, hl⟩]
    · simpa only [Bool.false_eq_true, false_and, if_false] using (meanArgs_adds h _).bind fun vs => (hc vs).adds
    · exact (hn.bindRun hc).grows
    · intro stk c r c' hr
      obtain ⟨vs, stk', c₁, hr₁, hr₂⟩ := Run.of_bind hr
      obtain ⟨⟨a, ys, rfl⟩, hgrow⟩ := (callFunc_sim hT builtins line funcName vs func).grows
        (c := { c₁ with trace := c₁.trace ++ [.call funcName] }) hr₂
      by_cases hm : ∃ a d, meanArgs (mean false) (operands args) c = .ok (a, d)
      · obtain ⟨ws, d₁, hm₁⟩ := hm
        rcases args_diverge (l := c.env.line) h funcName _ _ (taken_ne hl) hr₁ hm₁ with ⟨x, xs, rfl⟩ | hd
        · left
          obtain ⟨y, zs, hy⟩ := more_below ys x xs stk
          exact ⟨a, y, zs, congrArg (pushed a) hy⟩
        · right
          intro v d hm
          simp only [Bool.false_eq_true, false_and, if_false] at hm
          obtain ⟨ws', d₂, hm₂, hm₃⟩ := Eff.of_bind hm
          have he := Except.ok.inj (hm₁.symm.trans hm₂)
          have hd₁ : d₁ = d₂ := congrArg Prod.snd he
          subst hd₁
          exact hd.extend hgrow ((callFunc_sim hT builtins line funcName ws' func).adds
            { d₁ with trace := d₁.trace ++ [.call funcName] } v d hm₃)
      · right
        intro v d hm'
        simp only [Bool.false_eq_true, false_and, if_false] at hm'
        obtain ⟨ws, d₁, hm₁, -⟩ := Eff.of_bind hm'
        exact absurd ⟨ws, d₁, hm₁⟩ hm
  · simp only [hl, and_false, if_false]
    exact (args_sim h (Nat.le_of_not_lt hl)).bindRun hc

theorem callExpr_sim (builtins : Builtins) (name : Expr) (args : List (Expr × List (TextLine × Expr))) :
    Sim pushed (callExpr eval evalTop builtins name args) fun g =>
      meanCall (mean g) (meanTop g) g builtins name args := by
  refine (h.sim name).operand fun ident => Sim.eff Adds.getEnv fun env => ?_
  cases env.funcMap (getS ident) with
  | none => exact undefined_sim h name.line (getS ident) args
  | some func => exact defined_sim h hT builtins name.line (getS ident) func args

end

theorem adds_print (s : Str) : Adds (print s) :=
  Adds.modifyEnv _

theorem adds_plain (text : Str) : Adds (plain text) := by
  cases text with
  | nil => exact Adds.pure ()
  | cons c t => exact adds_print _

theorem adds_messagePlace (var : Var) : Adds (messagePlace var) := by
  cases var with
  | nil => exact Adds.pure ()
  | cons e var =>
    unfold messagePlace
    simp only
    refine Adds.ite ((adds_print _).bind fun _ => ?_) ?_
    · cases e.i with
      | none => exact Adds.pure ()
      | some i => exact adds_print _
    · cases e.i with
      | none => exact Adds.pure ()
      | some i => exact adds_print _

theorem adds_beginMessage : Adds beginMessage :=
  Adds.getEnv.bind fun _ => (Adds.modifyEnv _).bind fun _ => (adds_print _).bind fun _ => Adds.pure _

theorem adds_endMessage (isError : Bool) (file : Str) : Adds (endMessage isError file) :=
  (adds_print _).bind fun _ => Adds.modifyEnv _

theorem adds_beginFunction (line : TextLine) : Adds (beginFunction line) :=
  Adds.getEnv.bind fun _ => ((Adds.stop _).bind fun _ => Adds.modifyEnv _).ite (Adds.modifyEnv _)

theorem adds_changeFile (name : Str) : Adds (changeFile name) :=
  (adds_print _).bind fun _ => Adds.modifyEnv _

section
variable {eval : Expr → Run Bool} {mean : Bool → Expr → Eff Var} (h : ∀ e, Sim pushed (eval e) fun g => mean g e)
  {evalTop : Top → Run Bool} {meanTop : Bool → Top → Eff Unit}
  (hT : ∀ t, Sim finished (evalTop t) fun g => meanTop g t)

/-- A command that only works on the context. -/
theorem Sim.act {m : Eff Unit} (hm : Adds m) : Sim finished (liftM m >>= fun _ => Pure.pure true) fun _ => m := by
  have hs := Sim.eff hm fun _ => Sim.done
  simpa only [bind_pure_unit] using hs

include h in
theorem condition_sim (cond : Expr) {k : Bool → Run Bool} {z : Run Bool} {n : Bool → Bool → Eff Unit}
    (hk : ∀ b, Sim finished (k b) (n b)) :
    Sim finished (condition eval cond k z) fun g => meanCondition (mean g) cond fun b => n b g :=
  (h cond).operand fun v => Sim.eff (adds_int v) fun _ => hk _

include h hT

theorem elifLoop_sim (els : Option Top) (elifs : List (Expr × Top)) :
    Sim finished (elifLoop eval evalTop els elifs) fun g => meanElifLoop (mean g) (meanTop g) els elifs := by
  induction elifs with
  | nil =>
    cases els with
    | none => exact Sim.done
    | some top => exact hT top
  | cons a elifs ih =>
    apply condition_sim h
    intro b
    cases b with
    | true => exact hT a.2
    | false => exact ih

theorem ifStmt_sim (cond : Expr) (body : Top) (elifs : List (Expr × Top)) (els : Option Top) :
    Sim finished (ifStmt eval evalTop cond body elifs els) fun g => meanCondition (mean g) cond fun c =>
      if c then meanTop g body else meanElifLoop (mean g) (meanTop g) els elifs := by
  apply condition_sim h
  intro b
  cases b with
  | true => exact hT body
  | false => exact elifLoop_sim h hT els elifs

omit h in
theorem foreachLoop_sim (name : Str) (body : Top) (list : Var) :
    Sim finished (foreachLoop evalTop name body true list) fun g => meanForeach (meanTop g) name body list := by
  induction list with
  | nil => exact Sim.done
  | cons e rest ih => exact Sim.eff (adds_setVar _ _) fun _ => (hT body).command ih

omit h in
theorem joineachLoop_sim (name delimitor : Str) (body : Top) (list : Var) :
    Sim finished (joineachLoop evalTop name delimitor body true list) fun g =>
      meanJoineach (meanTop g) name delimitor body list := by
  induction list with
  | nil => exact Sim.done
  | cons e rest ih =>
    apply Sim.eff (adds_setVar _ _)
    intro _
    apply (hT body).command
    by_cases hr : rest = []
    · simpa only [hr, ne_eq, not_true_eq_false, if_false, Bool.and_true] using ih
    · simpa only [hr, ne_eq, not_false_eq_true, if_true, Bool.and_true] using Sim.eff (adds_print delimitor) fun _ => ih

theorem whileLoop_sim (cond : Expr) (body : Top) (n : Nat) :
    Sim finished (whileLoop eval evalTop cond body n true) fun g => meanWhile (mean g) (meanTop g) cond body n := by
  induction n with
  | zero => exact Sim.halt .fuel
  | succ n ih =>
    apply condition_sim h
    intro b
    cases b with
    | true => exact (hT body).command ih
    | false => exact Sim.done

theorem joinwhileLoop_sim (cond delimitor : Expr) (body : Top) (n : Nat) (first : Bool) :
    Sim finished (joinwhileLoop eval evalTop cond delimitor body n first true) fun g =>
      meanJoinwhile (mean g) (meanTop g) cond delimitor body n first := by
  induction n generalizing first with
  | zero => exact Sim.halt .fuel
  | succ n ih =>
    unfold joinwhileLoop meanJoinwhile
    apply condition_sim h
    intro b
    cases b with
    | true =>
      cases first with
      | true => exact (hT body).command (ih false)
      | false => exact (h delimitor).operand fun delim => Sim.eff (adds_print _) fun _ => (hT body).command (ih false)
    | false => exact Sim.done

theorem joineachStmt_sim (name orderList delimitor : Expr) (body : Top) :
    Sim finished (joineachStmt eval evalTop name orderList delimitor body) fun g =>
      mean g name >>= fun ident => mean g orderList >>= fun list =>
        match list with
        | [] => pure ()
        | list => mean g delimitor >>= fun delim => meanJoineach (meanTop g) (getS ident) (getS delim) body list := by
  apply (h name).operand
  intro ident
  apply (h orderList).operand
  intro list
  cases list with
  | nil => exact Sim.done
  | cons e list => exact (h delimitor).operand fun delim => joineachLoop_sim hT _ _ body (e :: list)

omit hT in
theorem messageHead_sim (expr : Option Expr) :
    Sim plainly (messageHead eval expr) fun g => meanMessageHead (mean g) expr := by
  cases expr with
  | none => exact Sim.pure ()
  | some e => exact (h e).operand fun v => Sim.lift (adds_messagePlace v)

theorem messageStmt_sim (isError : Bool) (expr : Option Expr) (body : Top) :
    Sim finished (messageStmt eval evalTop isError expr body) fun g =>
      beginMessage >>= fun file => meanMessageHead (mean g) expr >>= fun _ =>
        print (if isError then " error: ".toList else " warning: ".toList) >>= fun _ =>
          meanTop g body >>= fun _ => endMessage isError file := by
  apply Sim.eff adds_beginMessage
  intro file
  apply (messageHead_sim h expr).bindRun
  intro _
  apply Sim.eff (adds_print _)
  intro _
  exact (hT body).command (Sim.act (adds_endMessage isError file))

/-- A command leaves the stack as it was. -/
theorem stmtStep_sim (fuel : Nat) (s : Stmt) :
    Sim finished (stmtStep eval evalTop fuel s) fun g => meanStmt (mean g) (meanTop g) fuel s := by
  apply Sim.eff (adds_setLine s.line)
  intro _
  cases s with
  | function line name body =>
    exact Sim.eff (adds_beginFunction line) fun _ => (h name).operand fun ident => Sim.act (Adds.modifyEnv _)
  | if_ line cond body elifs els => exact ifStmt_sim h hT cond body elifs els
  | «foreach» line name list body =>
    exact (h name).operand fun ident => (h list).operand fun l => foreachLoop_sim hT (getS ident) body l
  | joineach line name list delimitor body => exact joineachStmt_sim h hT name list delimitor body
  | while_ line cond body => exact whileLoop_sim h hT cond body fuel
  | joinwhile line cond delimitor body => exact joinwhileLoop_sim h hT cond delimitor body fuel true
  | message line isError expr body => exact messageStmt_sim h hT isError expr body
  | file line name => exact (h name).operand fun v => Sim.act (adds_changeFile _)
  | assignmentExpr line lhs rhs =>
    exact (h lhs).operand fun lhs => (h rhs).operand fun rhs => Sim.act (adds_setVar _ _)
  | expr line e => exact (h e).operand fun v => Sim.act (adds_print _)
  | plain line text => exact Sim.act (adds_plain text)

theorem topLoop_sim (fuel : Nat) (items : List (Str × Stmt)) :
    Sim finished (topLoop eval evalTop fuel true items) fun g => meanTopLoop (mean g) (meanTop g) fuel items := by
  induction items with
  | nil => exact Sim.done
  | cons a items ih => exact Sim.eff (adds_print _) fun _ => (stmtStep_sim h hT fuel a.2).command ih

theorem topStep_sim (fuel : Nat) (t : Top) :
    Sim finished (topStep eval evalTop fuel t) fun g => meanTopStep (mean g) (meanTop g) fuel t := by
  cases t with
  | mk line items => exact Sim.eff (adds_setLine line) fun _ => topLoop_sim h hT fuel items

end

section
variable {eval : Expr → Run Bool} {mean : Bool → Expr → Eff Var} (h : Nodes eval mean)
  {evalTop : Top → Run Bool} {meanTop : Bool → Top → Eff Unit}
  (hT : ∀ t, Sim finished (evalTop t) fun g => meanTop g t) (builtins : Builtins)
include h hT

/-- An expression leaves one value, that of its meaning. -/
theorem evalStep_body (e : Expr) : ∃ (m : Run Bool) (n : Bool → Eff Var),
    evalStep eval evalTop builtins e = (liftM (enter e) >>= fun _ => m) ∧
      (∀ g, meanStep (mean g) (meanTop g) g builtins e = (enter e >>= fun _ => n g)) ∧ Sim pushed m n := by
  refine ⟨_, _, rfl, fun _ => rfl, ?_⟩
  cases e with
  | expression line e => exact h.sim e
  | logicalOrExpr line lhs rest => exact logicalExpr_sim h.sim true lhs rest
  | logicalAndExpr line lhs rest => exact logicalExpr_sim h.sim false lhs rest
  | chainExpr level line lhs rest => exact chainExpr_sim h.sim level line lhs rest
  | unaryExpr line ops operand => exact unaryExpr_sim h.sim line ops operand
  | callExpr line name args => exact callExpr_sim h hT builtins name args
  | postfixExpr line e => exact (h.sim e).pass
  | primaryExpr line e => exact h.sim e
  | primaryLvalue line lvalue => exact primaryLvalue_sim h.sim lvalue
  | primaryParen line e => exact h.sim e
  | lvalueExpr line name subscript => exact lvalueExpr_sim h.sim name subscript
  | identifier line text => exact Sim.value _
  | constant line text => exact Sim.value _
  | stringLiteral line text => exact (Sim.lift (adds_stringValue text)).push
  | orderedList line items => exact orderedList_sim h.sim items
  | orderedSequence line first second last => exact orderedSequence_sim h.sim line first second last
  | orderedItem line lhs rest => exact orderedItem_sim h.sim lhs rest

theorem nodes_step : Nodes (evalStep eval evalTop builtins) fun g => meanStep (mean g) (meanTop g) g builtins where
  sim := by
    intro e
    obtain ⟨m, n, hm, hn, hs⟩ := evalStep_body h hT builtins e
    simp only [hm, hn]
    exact Sim.eff (adds_enter e) fun _ => hs
  starts := by
    intro e stk c r c' hr
    obtain ⟨m, n, hm, -, hs⟩ := evalStep_body h hT builtins e
    rw [hm] at hr
    exact (hs.grows (c := { c.at e.line with trace := c.trace ++ [.node e] }) hr).2
  meanStarts := by
    intro e c v c' hr
    obtain ⟨m, n, -, hn, hs⟩ := evalStep_body h hT builtins e
    rw [hn] at hr
    exact hs.adds { c.at e.line with trace := c.trace ++ [.node e] } v c' hr
  line l := rfl

end

theorem nodes_at (builtins : Builtins) (fuel : Nat) :
    Nodes (evalNodes builtins fuel).1 (fun g => (meanNodes g builtins fuel).1) ∧
      ∀ t, Sim finished ((evalNodes builtins fuel).2 t) fun g => (meanNodes g builtins fuel).2 t := by
  induction fuel with
  | zero =>
    constructor
    · exact {
        sim := fun e => Sim.halt .fuel
        starts := fun h => by cases h
        meanStarts := fun h => by cases h
        line := fun l => rfl }
    · intro t
      exact Sim.halt .fuel
  | succ fuel ih => exact ⟨nodes_step ih.1 ih.2 builtins, fun t => topStep_sim ih.1.sim ih.2 fuel t⟩

/-- The one value that is left is the meaning of the node, and the same is done for it in the same order: each operand is
evaluated once. -/
def Disciplined (builtins : Builtins) (fuel : Nat) (e : Expr) (stk : List Var) (c : Context) (stk' : List Var)
    (c' : Context) : Prop :=
  ∃ v, stk' = v :: stk ∧ meanNode false builtins fuel e c = .ok (v, c')

/-- Commands leave the stack as it was. -/
def DisciplinedTop (builtins : Builtins) (fuel : Nat) (t : Top) (stk : List Var) (c : Context) (stk' : List Var)
    (c' : Context) : Prop :=
  stk' = stk ∧ (meanNodes false builtins fuel).2 t c = .ok ((), c')

/-- A run that ended did what its meaning does, if and only if the guard does not stop that. -/
theorem Sim.exact {m : Run β} (hm : Sim clean m n) (hs : ∀ a x xs stk, (clean a (x :: (xs ++ stk))).2 ≠ (clean b stk).2)
    (hr : m stk c = .ok (r, c')) (hv : r.2 = (clean b stk).2) (hn : n false c = .ok (b, c')) :
    n true c ≠ .error .lost := by
  intro hl
  rcases hm.lost hl hr with ⟨a, x, xs, rfl⟩ | hd
  · exact hs a x xs stk hv
  · exact (hd b c' hn).ne rfl

theorem Sim.complete {m : Run β} (hm : Sim clean m n) (hr : m stk c = .ok (r, c')) (hl : n true c ≠ .error .lost) :
    ∃ a, r = clean a stk ∧ n false c = .ok (a, c') := by
  cases hn : n true c with
  | error h =>
    rw [hm.error hn (fun hh => hl (by rw [hn, hh]))] at hr
    cases hr
  | ok p =>
    obtain ⟨h1, h2⟩ := hm.ok stk hn
    have he := Except.ok.inj (hr.symm.trans h1)
    have hc : c' = p.2 := congrArg Prod.snd he
    exact ⟨p.1, congrArg Prod.fst he, hc ▸ h2⟩

/-- The discipline is kept where the meaning comes to no unary operator, to no call of an undefined function with operands,
and to no call with operands that a comma does not part. -/
theorem evalNodes_exact (builtins : Builtins) (fuel : Nat) :
    (∀ e stk c b stk' c', evalNode builtins fuel e stk c = .ok ((b, stk'), c') →
      (Disciplined builtins fuel e stk c stk' c' ↔ meanNode true builtins fuel e c ≠ .error .lost)) ∧
    (∀ t stk c b stk' c', (evalNodes builtins fuel).2 t stk c = .ok ((b, stk'), c') →
      (DisciplinedTop builtins fuel t stk c stk' c' ↔ (meanNodes true builtins fuel).2 t c ≠ .error .lost)) := by
  obtain ⟨he, ht⟩ := nodes_at builtins fuel
  constructor
  · intro e stk c b stk' c' hr
    constructor
    · rintro ⟨v, rfl, hn⟩
      apply (he.sim e).exact _ hr rfl hn
      intro a x xs stk heq
      have hlen := congrArg List.length heq
      simp only [pushed, List.length_cons, List.length_append] at hlen
      omega
    · intro hl
      obtain ⟨v, hv, hn⟩ := (he.sim e).complete hr hl
      exact ⟨v, congrArg Prod.snd hv, hn⟩
  · intro t stk c b stk' c' hr
    constructor
    · rintro ⟨rfl, hn⟩
      apply (ht t).exact _ hr rfl hn
      intro a x xs stk heq
      have hlen := congrArg List.length heq
      simp only [finished, List.length_cons, List.length_append] at hlen
      omega
    · intro hl
      obtain ⟨v, hv, hn⟩ := (ht t).complete hr hl
      exact ⟨congrArg Prod.snd hv, hn⟩

/-- A context as it is constructed, with no builtin functions added. -/
def Context.start : Context where
  env := {
    varMap := fun _ => []
    funcMap := fun _ => none
    line := ⟨[], 0⟩
    inFunction := false
    targetFile := []
    output := fun _ => []
    location := []
    programName := []
    errors := 0
    maxErrors := 100
    log := [] }
  trace := []

def noBuiltins : Builtins := fun _ _ _ env => .done env []

/-- `1 + 2` -/
def onePlusTwo : Expr :=
  .chainExpr .additive ⟨[], 1⟩ (.constant ⟨[], 1⟩ ['1']) [(['+'], .constant ⟨[], 1⟩ ['2'])]

/-- `-1` -/
def minusOne : Expr := .unaryExpr ⟨[], 1⟩ [(⟨[], 1⟩, ['-'])] (.constant ⟨[], 1⟩ ['1'])

theorem evalNodes_exact_sum :
    (∃ b stk' c', evalNode noBuiltins 2 onePlusTwo [] .start = .ok ((b, stk'), c') ∧
      (Disciplined noBuiltins 2 onePlusTwo [] .start stk' c' ↔ meanNode true noBuiltins 2 onePlusTwo .start ≠ .error .lost)) ∧
    (∃ b stk' c', (evalNodes noBuiltins 3).2 (.mk ⟨[], 1⟩ [([], .expr ⟨[], 1⟩ onePlusTwo)]) [] .start =
        .ok ((b, stk'), c') ∧
      (DisciplinedTop noBuiltins 3 (.mk ⟨[], 1⟩ [([], .expr ⟨[], 1⟩ onePlusTwo)]) [] .start stk' c' ↔
        (meanNodes true noBuiltins 3).2 (.mk ⟨[], 1⟩ [([], .expr ⟨[], 1⟩ onePlusTwo)]) .start ≠ .error .lost)) :=
  ⟨⟨_, _, _, rfl, (evalNodes_exact noBuiltins 2).1 onePlusTwo [] .start _ _ _ rfl⟩,
    ⟨_, _, _, rfl, (evalNodes_exact noBuiltins 3).2 _ [] .start _ _ _ rfl⟩⟩

/-- `-1` leaves the value 1 of its operand below its own. -/
theorem not_evalNodes_exact : ¬∀ builtins fuel e stk c b stk' c', evalNode builtins fuel e stk c = .ok ((b, stk'), c') →
    Disciplined builtins fuel e stk c stk' c' := by
  intro h
  obtain ⟨v, hv, -⟩ := h noBuiltins 2 minusOne [] .start true [[⟨some (-1), [], []⟩], [⟨some 1, [], ['1']⟩]] _ rfl
  cases hv

end AspKernel.Toppers.Macro
