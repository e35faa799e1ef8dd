import Mathlib.Logic.Function.Basic

/-! A binary semaphore that stands for a condition: it is free, or one task holds it, exactly when
the condition is met. -/

set_option autoImplicit true

/-- The condition `a`, the count `n`, the queue `q` and the holders `h` of a binary semaphore. -/
structure Token (a : Bool) (n : Nat) (q : List τ) (h : τ → Bool) : Prop where
  unmet : a = false → n = 0 ∧ ∀ t, h t = false
  met : a = true → n = 1 ∧ q = [] ∧ (∀ t, h t = false) ∨ n = 0 ∧ ∃ t, h t = true
  uniq : h t = true → h u = true → t = u

namespace Token
variable {a : Bool} {n : Nat} {q q' : List τ} {h : τ → Bool} {t : τ}

/-- Neither is the semaphore free nor does a task hold it. -/
structure Due (n : Nat) (h : τ → Bool) : Prop where
  cnt : n = 0
  held : ∀ t, h t = false

theorem le_one (k : Token a n q h) : n ≤ 1 := by
  cases a with
  | false =>
    have hn := (k.unmet rfl).1
    omega
  | true =>
    rcases k.met rfl with ⟨hn, -⟩ | ⟨hn, -⟩
    · omega
    · omega

theorem pos (k : Token a n q h) (hn : 0 < n) :
    a = true ∧ n = 1 ∧ q = [] ∧ ∀ t, h t = false := by
  cases a with
  | false => exact absurd (k.unmet rfl).1 (Nat.ne_of_gt hn)
  | true =>
    rcases k.met rfl with hf | hf
    · exact ⟨rfl, hf⟩
    · exact absurd hf.1 (Nat.ne_of_gt hn)

/-- Without a holder the semaphore is free exactly when the condition is met. -/
theorem idle (k : Token a n q h) (hh : ∀ t, h t = false) :
    (n = 1 ↔ a = true) ∧ (a = true → q = []) := by
  cases a with
  | false =>
    refine ⟨⟨fun hn => ?_, nofun⟩, nofun⟩
    exact absurd ((k.unmet rfl).1.symm.trans hn) Nat.zero_ne_one
  | true =>
    rcases k.met rfl with hf | ⟨-, t, ht⟩
    · exact ⟨⟨fun _ => rfl, fun _ => hf.1⟩, fun _ => hf.2.1⟩
    · exact absurd ((hh t).symm.trans ht) Bool.false_ne_true

theorem due (k : Token false n q h) : Due n h := ⟨(k.unmet rfl).1, (k.unmet rfl).2⟩

theorem held (k : Token a n q h) (ht : h t = true) : a = true ∧ n = 0 := by
  cases a with
  | false => exact absurd (((k.unmet rfl).2 t).symm.trans ht) Bool.false_ne_true
  | true =>
    rcases k.met rfl with hf | hf
    · exact absurd ((hf.2.2 t).symm.trans ht) Bool.false_ne_true
    · exact ⟨rfl, hf.1⟩

theorem enqueue (k : Token a 0 q h) (q' : List τ) : Token a 0 q' h := by
  refine ⟨k.unmet, fun ha => ?_, k.uniq⟩
  rcases k.met ha with hf | hf
  · exact absurd hf.1 Nat.zero_ne_one
  · exact .inr hf

theorem perm (k : Token a n q h) (hq : q = [] → q' = []) : Token a n q' h := by
  refine ⟨k.unmet, fun ha => ?_, k.uniq⟩
  rcases k.met ha with hf | hf
  · exact .inl ⟨hf.1, hq hf.2.1, hf.2.2⟩
  · exact .inr hf

theorem Due.unmet (k : Due n h) (q : List τ) : Token false n q h :=
  ⟨fun _ => ⟨k.cnt, k.held⟩, nofun,
    fun ht _ => absurd ((k.held _).symm.trans ht) Bool.false_ne_true⟩

theorem Due.free (k : Due n h) : Token true (n + 1) [] h :=
  ⟨nofun, fun _ => .inl ⟨congrArg (· + 1) k.cnt, rfl, k.held⟩,
    fun ht _ => absurd ((k.held _).symm.trans ht) Bool.false_ne_true⟩

section
variable [DecidableEq τ]

theorem drop (k : Token a n q h) (ht : h t = true) : Due n (Function.update h t false) := by
  refine ⟨(k.held ht).2, fun u => ?_⟩
  by_cases hu : u = t
  · subst hu
    exact Function.update_self ..
  · rw [Function.update_of_ne hu]
    cases hv : h u with
    | false => rfl
    | true => exact absurd (k.uniq hv ht) hu

theorem Due.take (k : Due n h) (q : List τ) (t : τ) :
    Token true n q (Function.update h t true) := by
  have hu : ∀ {u}, Function.update h t true u = true → u = t := by
    intro u hu
    by_contra hn
    rw [Function.update_of_ne hn, k.held] at hu
    exact Bool.false_ne_true hu
  exact ⟨nofun, fun _ => .inr ⟨k.cnt, t, Function.update_self ..⟩,
    fun h1 h2 => (hu h1).trans (hu h2).symm⟩

theorem take (k : Token a n q h) (hn : 0 < n) (t : τ) :
    Token a (n - 1) q (Function.update h t true) := by
  obtain ⟨rfl, rfl, -, hh⟩ := k.pos hn
  exact Due.take ⟨rfl, hh⟩ q t

end

end Token
