import AspKernel.MacroArith
import Mathlib.Tactic.Ring

/-! Values of the template language, and the lists it generates. -/

namespace AspKernel.Toppers.Macro
set_option autoImplicit true
open Itronx (Str TextLine showLong)

/-- One element of a variable. -/
structure Element where
  i : Option Int
  v : Str
  s : Str
  deriving DecidableEq, Repr

/-- Every variable is an ordered list. -/
abbrev Var := List Element

/-- What ends an evaluation before its end: an exception, or a step that C++ leaves undefined. -/
inductive Stop
  | fatal (line : TextLine) (msg : Str)
  | tooManyErrors
  | outOfRange
  | invalidArgument
  | undefined
  deriving DecidableEq, Repr

def getI (line : TextLine) (var : Var) : Except Stop Int :=
  match var.head?.bind Element.i with
  | some i => .ok i
  | none => .error (.fatal line "non-value is referred".toList)

def Element.text (e : Element) : Str :=
  if e.s ≠ [] then e.s
  else if e.v ≠ [] then e.v
  else match e.i with
    | some i => showLong i
    | none => []

def getS : Var → Str
  | [] => []
  | [e] => e.text
  | e :: var => e.text ++ ',' :: getS var

def illegalSequence : Str := "illegal arithmetic sequence".toList

/-- The loop of `ordered_sequence` until `i` is `t`; its counter may leave the range of its type before. -/
def sequenceLoop (d : Int) (hd : d ≠ 0) (t i : Int) (first : Var) : Option Var :=
  if i = t then some first
  else if h : Fits (i + d) then sequenceLoop d hd t (i + d) (first ++ [⟨some i, [], []⟩])
  else none
termination_by if 0 < d then (INT64_MAX - i).toNat else (i - INT64_MIN).toNat
decreasing_by
  unfold Fits at h
  split
  · omega
  · omega

/-- `first[ n ].s = s` -/
def setS (n : Nat) (s : Str) (first : Var) : Var := first.modify n fun e => { e with s := s }

/-- `ordered_sequence`, from the values of its three operands on. -/
def sequenceStep (first second last : Var) (a0 a1 an : Int) : Option (List Str × Var) := do
  let d ← signed (a1 - a0)
  let e ← signed (an - a0)
  let r ← modulo e d
  if r ≠ 0 then some ([illegalSequence], first)
  else if hd : d = 0 then none
  else
    let t ← signed (an + d)
    let list ← sequenceLoop d hd t a1 first
    match second, last with
    | e₁ :: _, en :: _ =>
      if 1 < list.length then some ([], setS (list.length - 1) en.s (setS 1 e₁.s list))
      -- `first[ 1 ]` is behind the end
      else none
    | _, _ => none

/-- The loop of `bf_range`; it leaves the range of its type where `arg2` is the greatest value. -/
def rangeLoop (arg1 arg2 : Int) (result : Var) : Option Var :=
  if arg1 ≤ arg2 then
    if Fits (arg1 + 1) then rangeLoop (arg1 + 1) arg2 (result ++ [⟨some arg1, [], []⟩]) else none
  else some result
termination_by (arg2 + 1 - arg1).toNat
decreasing_by omega

/-- `bf_range` with its two arguments. -/
def rangeStep (arg1 arg2 : Int) : Option Var := rangeLoop arg1 arg2 []

def constant (i : Int) (s : Str) : Var := [⟨some i, [], s⟩]

/-- The sequence leads from `a0` to `an` in `n` steps. -/
def Leads (a0 a1 an : Int) (n : Nat) : Prop := a1 ≠ a0 ∧ 0 < n ∧ an = a0 + n * (a1 - a0)

/-- A sequence that leads to its last value gives its values, any other is reported. -/
structure SequenceExact (out : Option (List Str × Var)) (a0 a1 an : Int) : Prop where
  list : ∀ n, Leads a0 a1 an n → ∃ var, out = some ([], var) ∧
    var.map Element.i = (List.range (n + 1)).map fun k : Nat => some (a0 + k * (a1 - a0))
  illegal : (∀ n, ¬Leads a0 a1 an n) → ∃ var, out = some ([illegalSequence], var)

def SequenceMeets (a0 a1 an : Int) : Prop :=
  a1 ≠ a0 ∧ Fits (a1 - a0) ∧ Fits (an - a0) ∧ ¬(an - a0 = INT64_MIN ∧ a1 - a0 = -1) ∧
    (¬(a1 - a0 ∣ an - a0) ∨ (∃ n, Leads a0 a1 an n) ∧ Fits (an + (a1 - a0)))

def RangeExact (out : Option Var) (a b : Int) : Prop :=
  ∃ var, out = some var ∧ var.map Element.i = (List.range (b + 1 - a).toNat).map fun k : Nat => some (a + k)

theorem setS_i (n : Nat) (s : Str) (l : Var) : (setS n s l).map Element.i = l.map Element.i := by
  induction l generalizing n with
  | nil => rw [setS, List.modify_nil]
  | cons e l ih =>
    cases n with
    | zero => rfl
    | succ n =>
      have h := ih n
      rw [setS] at h
      rw [setS, List.modify_succ_cons, List.map_cons, h, List.map_cons]

section
variable {d t i : Int}

/-- From `i` the counter comes to `i + k * d` where no value on the way overflows. -/
theorem sequenceLoop_reached (hd : d ≠ 0) (k : Nat) (hf : ∀ j : Nat, j ≤ k → Fits (i + j * d)) (first : Var) :
    sequenceLoop d hd (i + k * d) i first =
      some (first ++ (List.range k).map fun j : Nat => ⟨some (i + j * d), [], []⟩) := by
  induction k generalizing i first with
  | zero =>
    rw [sequenceLoop, if_pos (by simp)]
    simp
  | succ k ih =>
    have hne : i ≠ i + ↑(k + 1) * d := by
      intro he
      have hz : ((k + 1 : Nat) : Int) * d = 0 := by omega
      rcases Int.mul_eq_zero.1 hz with h | h
      · omega
      · exact hd h
    have hstep (j : Nat) : i + ↑(j + 1) * d = i + d + j * d := by
      push_cast
      ring
    have hone : Fits (i + d) := by
      have h := hf 1 (by omega)
      rwa [Nat.cast_one, Int.one_mul] at h
    rw [sequenceLoop, if_neg hne, dif_pos hone, hstep k, ih (fun j hj => hstep j ▸ hf (j + 1) (by omega)),
      List.range_succ_eq_map, List.map_cons, List.map_map, List.append_assoc]
    simp only [Nat.cast_zero, Int.zero_mul, Int.add_zero, List.singleton_append, Function.comp_def,
      Nat.succ_eq_add_one, hstep]

/-- A counter that never comes to `t` overflows. -/
theorem sequenceLoop_missed (hd : d ≠ 0) (h : ∀ k : Nat, i + k * d ≠ t) (first : Var) :
    sequenceLoop d hd t i first = none := by
  fun_induction sequenceLoop d hd t i first with
  | case1 first => exact absurd (by simp) (h 0)
  | case2 i first hne hf ih =>
    apply ih
    intro k he
    apply h (k + 1)
    rw [← he]
    push_cast
    ring
  | case3 => rfl

end

theorem not_sequenceExact_none : ¬SequenceExact none a0 a1 an := by
  intro h
  by_cases hex : ∃ n, Leads a0 a1 an n
  · obtain ⟨n, hn⟩ := hex
    obtain ⟨var, he, -⟩ := h.list n hn
    cases he
  · obtain ⟨var, he⟩ := h.illegal fun n hn => hex ⟨n, hn⟩
    cases he

theorem modulo_eq_some (he : Fits e) :
    modulo e d = some r ↔ d ≠ 0 ∧ ¬(e = INT64_MIN ∧ d = -1) ∧ r = e.tmod d := by
  rw [modulo]
  by_cases hd : d = 0
  · rw [divide, if_pos hd]
    exact iff_of_false (by simp) fun h => h.1 hd
  · rw [divide_eq he hd]
    by_cases h : e = INT64_MIN ∧ d = -1
    · rw [if_pos h]
      exact iff_of_false (by simp) fun h' => h'.2.1 h
    · rw [if_neg h, and_iff_right hd, and_iff_right h]
      exact ⟨fun h => (Option.some.inj h).symm, fun h => congrArg some h.symm⟩

theorem signed_eq_some : signed v = some r ↔ Fits v ∧ r = v := by
  rw [signed]
  split
  · next h => simp [h, eq_comm]
  · next h => simp [h]

section
variable {a0 a1 an : Int} {s0 s1 sn : Str}

/-- The operands for which `( an - a0 ) % d` has a value. -/
def SequenceDefined (a0 a1 an : Int) : Prop :=
  a1 ≠ a0 ∧ Fits (a1 - a0) ∧ Fits (an - a0) ∧ ¬(an - a0 = INT64_MIN ∧ a1 - a0 = -1)

theorem sequenceStep_undefined (h : ¬SequenceDefined a0 a1 an) (first second last : Var) :
    sequenceStep first second last a0 a1 an = none := by
  rw [Option.eq_none_iff_forall_ne_some]
  intro out ho
  simp only [sequenceStep, Option.bind_eq_bind, Option.bind_eq_some_iff] at ho
  obtain ⟨d, hd, e, he, r, hr, -⟩ := ho
  obtain ⟨hfd, rfl⟩ := signed_eq_some.1 hd
  obtain ⟨hfe, rfl⟩ := signed_eq_some.1 he
  obtain ⟨h0, hmin, -⟩ := (modulo_eq_some hfe).1 hr
  exact h ⟨by omega, hfd, hfe, hmin⟩

theorem sequenceStep_eq (h : SequenceDefined a0 a1 an) (hd : a1 - a0 ≠ 0) :
    sequenceStep (constant a0 s0) (constant a1 s1) (constant an sn) a0 a1 an =
      if (an - a0).tmod (a1 - a0) ≠ 0 then some ([illegalSequence], constant a0 s0)
      else (signed (an + (a1 - a0))).bind fun t =>
        (sequenceLoop (a1 - a0) hd t a1 (constant a0 s0)).bind fun list =>
          if 1 < list.length then some ([], setS (list.length - 1) sn (setS 1 s1 list)) else none := by
  obtain ⟨hne, hfd, hfe, hmin⟩ := h
  rw [sequenceStep, signed_pos hfd, signed_pos hfe]
  simp only [Option.bind_eq_bind, Option.bind_some]
  rw [(modulo_eq_some hfe).2 ⟨hd, hmin, rfl⟩, Option.bind_some, dif_neg hd]
  rfl

theorem Leads.unique (h : Leads a0 a1 an n) (h' : Leads a0 a1 an m) : n = m := by
  obtain ⟨hne, -, he⟩ := h
  obtain ⟨-, -, he'⟩ := h'
  have hmul : (n : Int) * (a1 - a0) = m * (a1 - a0) := by omega
  have hcast := Int.eq_of_mul_eq_mul_right (by omega) hmul
  omega

theorem leads_dvd (h : Leads a0 a1 an n) : a1 - a0 ∣ an - a0 :=
  ⟨n, by rw [h.2.2, Int.mul_comm]; omega⟩

/-- The values on the way lie between the first and the last one. -/
theorem Leads.fits (h : Leads a0 a1 an n) (h0 : Fits a0) (hn : Fits an) (hj : j ≤ n) :
    Fits (a0 + j * (a1 - a0)) := by
  obtain ⟨-, -, he⟩ := h
  have hmul : (j : Int) * (a1 - a0) + (n - j) * (a1 - a0) = n * (a1 - a0) := by ring
  have hj0 : (0 : Int) ≤ j := by omega
  have hnj : (0 : Int) ≤ n - j := by omega
  unfold Fits at *
  rcases Int.le_total 0 (a1 - a0) with hd | hd
  · have hle := Int.mul_nonneg hj0 hd
    have hle' := Int.mul_nonneg hnj hd
    omega
  · have hle := Int.mul_nonpos_of_nonneg_of_nonpos hj0 hd
    have hle' := Int.mul_nonpos_of_nonneg_of_nonpos hnj hd
    omega

theorem sequence_leads (h : SequenceDefined a0 a1 an) (h0 : Fits a0) (hn : Fits an)
    (hl : Leads a0 a1 an n) (hf : Fits (an + (a1 - a0))) : SequenceExact
      (sequenceStep (constant a0 s0) (constant a1 s1) (constant an sn) a0 a1 an) a0 a1 an := by
  have hd : a1 - a0 ≠ 0 := by
    have := h.1
    omega
  have hmod : (an - a0).tmod (a1 - a0) = 0 := Int.tmod_eq_zero_of_dvd (leads_dvd hl)
  have ht : an + (a1 - a0) = a1 + n * (a1 - a0) := by
    rw [hl.2.2]
    ring
  have hstep (j : Nat) : a1 + j * (a1 - a0) = a0 + ↑(j + 1) * (a1 - a0) := by
    push_cast
    ring
  have hfits (j : Nat) (hj : j ≤ n) : Fits (a1 + j * (a1 - a0)) := by
    rcases Nat.lt_or_eq_of_le hj with hj | rfl
    · rw [hstep]
      exact hl.fits h0 hn hj
    · rw [← ht]
      exact hf
  have hlen : 1 < (constant a0 s0 ++ (List.range n).map fun j : Nat =>
      (⟨some (a1 + j * (a1 - a0)), [], []⟩ : Element)).length := by
    rw [List.length_append, List.length_map, List.length_range]
    exact Nat.lt_add_of_pos_right hl.2.1
  rw [sequenceStep_eq h hd, if_neg (not_not.2 hmod), signed_pos hf, Option.bind_some, ht,
    sequenceLoop_reached hd n hfits, Option.bind_some, if_pos hlen]
  refine ⟨fun m hm => ⟨_, rfl, ?_⟩, fun hno => absurd hl (hno n)⟩
  rw [setS_i, setS_i, hm.unique hl, List.range_succ_eq_map, List.map_append, List.map_map, List.map_cons,
    List.map_map]
  simp only [constant, List.map_cons, List.map_nil, List.singleton_append, Function.comp_def, hstep,
    Nat.cast_zero, Int.zero_mul, Int.add_zero, Nat.succ_eq_add_one]

/-- A quotient that is not positive gives no list. -/
theorem sequence_astray (h : SequenceDefined a0 a1 an) (hdvd : a1 - a0 ∣ an - a0)
    (hno : ∀ n, ¬Leads a0 a1 an n) :
    sequenceStep (constant a0 s0) (constant a1 s1) (constant an sn) a0 a1 an = none := by
  have hd : a1 - a0 ≠ 0 := by
    have := h.1
    omega
  rw [sequenceStep_eq h hd, if_neg (not_not.2 (Int.tmod_eq_zero_of_dvd hdvd))]
  rw [Option.bind_eq_none_iff]
  intro t ht
  obtain ⟨-, rfl⟩ := signed_eq_some.1 ht
  by_cases hz : an = a0
  · rw [sequenceLoop, if_pos (by omega), Option.bind_some]
    exact if_neg (Nat.lt_irrefl 1)
  · rw [sequenceLoop_missed hd ?_, Option.bind_none]
    intro k hk
    cases k with
    | zero =>
      rw [Nat.cast_zero, Int.zero_mul] at hk
      omega
    | succ k =>
      refine hno (k + 1) ⟨by omega, Nat.succ_pos k, ?_⟩
      push_cast at hk ⊢
      rw [Int.add_mul, Int.one_mul] at hk ⊢
      omega

theorem sequence_exact (h0 : Fits a0) (hn : Fits an) : SequenceExact
    (sequenceStep (constant a0 s0) (constant a1 s1) (constant an sn) a0 a1 an) a0 a1 an ↔
      SequenceMeets a0 a1 an := by
  by_cases h : SequenceDefined a0 a1 an
  · have hd : a1 - a0 ≠ 0 := by
      have := h.1
      omega
    by_cases hdvd : a1 - a0 ∣ an - a0
    · by_cases hl : ∃ n, Leads a0 a1 an n
      · obtain ⟨n, hl⟩ := hl
        by_cases hf : Fits (an + (a1 - a0))
        · exact iff_of_true (sequence_leads h h0 hn hl hf)
            ⟨h.1, h.2.1, h.2.2.1, h.2.2.2, .inr ⟨⟨n, hl⟩, hf⟩⟩
        · have hnone : sequenceStep (constant a0 s0) (constant a1 s1) (constant an sn) a0 a1 an = none := by
            rw [sequenceStep_eq h hd, if_neg (not_not.2 (Int.tmod_eq_zero_of_dvd hdvd)), signed_neg hf,
              Option.bind_none]
          rw [hnone]
          exact iff_of_false not_sequenceExact_none fun hm =>
            hm.2.2.2.2.elim (fun h => h hdvd) fun h => hf h.2
      · rw [sequence_astray h hdvd fun n hn => hl ⟨n, hn⟩]
        exact iff_of_false not_sequenceExact_none fun hm =>
          hm.2.2.2.2.elim (fun h => h hdvd) fun h => hl h.1
    · have hmod : (an - a0).tmod (a1 - a0) ≠ 0 := fun h => hdvd (Int.dvd_of_tmod_eq_zero h)
      rw [sequenceStep_eq h hd, if_pos hmod]
      refine iff_of_true ⟨fun n hl => absurd (leads_dvd hl) hdvd, fun _ => ⟨_, rfl⟩⟩ ?_
      exact ⟨h.1, h.2.1, h.2.2.1, h.2.2.2, .inl hdvd⟩
  · rw [sequenceStep_undefined h]
    exact iff_of_false not_sequenceExact_none fun hm => h ⟨hm.1, hm.2.1, hm.2.2.1, hm.2.2.2.1⟩

end

section
variable {a b : Int}

theorem rangeLoop_eq (n : Nat) (hn : a + n = b + 1) (ha : Fits a) (hb : Fits (b + 1)) (result : Var) :
    rangeLoop a b result = some (result ++ (List.range n).map fun k : Nat => ⟨some (a + k), [], []⟩) := by
  induction n generalizing a result with
  | zero =>
    rw [rangeLoop, if_neg (by omega)]
    simp
  | succ n ih =>
    have hf : Fits (a + 1) := by
      unfold Fits at *
      omega
    have hstep (k : Nat) : a + 1 + k = a + ↑(k + 1) := by omega
    rw [rangeLoop, if_pos (by omega), if_pos hf, ih (by omega) hf, List.range_succ_eq_map, List.map_cons,
      List.map_map, List.append_assoc]
    simp only [Nat.cast_zero, Int.add_zero, List.singleton_append, Function.comp_def, Nat.succ_eq_add_one,
      hstep]

/-- The loop does not come to its end behind the greatest value. -/
theorem rangeLoop_max (n : Nat) (hn : a + n = INT64_MAX) (result : Var) :
    rangeLoop a INT64_MAX result = none := by
  induction n generalizing a result with
  | zero =>
    have ha : a = INT64_MAX := by omega
    subst ha
    rw [rangeLoop, if_pos (le_refl _), if_neg (by decide)]
  | succ n ih =>
    rw [rangeLoop, if_pos (by omega)]
    split
    · exact ih (by omega) _
    · rfl

theorem range_exact (ha : Fits a) (hb : Fits b) : RangeExact (rangeStep a b) a b ↔ b < a ∨ b < INT64_MAX := by
  rw [rangeStep]
  by_cases hlt : b < a
  · refine iff_of_true ⟨[], ?_, ?_⟩ (.inl hlt)
    · rw [rangeLoop, if_neg (by omega)]
    · rw [show (b + 1 - a).toNat = 0 by omega]
      rfl
  · by_cases hmax : b < INT64_MAX
    · have hf : Fits (b + 1) := by
        unfold Fits at *
        omega
      refine iff_of_true ⟨_, rangeLoop_eq (b + 1 - a).toNat (by omega) ha hf [], ?_⟩ (.inr hmax)
      rw [List.nil_append, List.map_map]
      rfl
    · have hb : b = INT64_MAX := by
        have := hb.2
        omega
      subst hb
      rw [rangeLoop_max (INT64_MAX - a).toNat (by omega)]
      refine iff_of_false ?_ fun h => h.elim hlt hmax
      rintro ⟨var, he, -⟩
      cases he

end

/-- The sequence and `RANGE` give their lists exactly in the given cases. -/
theorem lists_exact (h0 : Fits a0) (hn : Fits an) (s0 s1 sn : Str) :
    (SequenceExact (sequenceStep (constant a0 s0) (constant a1 s1) (constant an sn) a0 a1 an) a0 a1 an ↔
      SequenceMeets a0 a1 an) ∧
    (RangeExact (rangeStep a0 an) a0 an ↔ an < a0 ∨ an < INT64_MAX) :=
  ⟨sequence_exact h0 hn, range_exact h0 hn⟩

theorem lists_exact_ten :
    (SequenceExact (sequenceStep (constant 0 ['0']) (constant 2 ['2']) (constant 10 ['1', '0']) 0 2 10) 0 2 10 ↔
      SequenceMeets 0 2 10) ∧
    (RangeExact (rangeStep 0 10) 0 10 ↔ (10 : Int) < 0 ∨ (10 : Int) < INT64_MAX) :=
  lists_exact (by decide) (by decide) ['0'] ['2'] ['1', '0']

/-- A sequence without steps divides by zero, one with `an = a0` has no second element, one in the wrong
direction overflows, and `RANGE` does not end behind the greatest value. -/
theorem not_lists_exact : sequenceStep (constant 1 ['1']) (constant 1 ['1']) (constant 5 ['5']) 1 1 5 = none ∧
    sequenceStep (constant 1 ['1']) (constant 2 ['2']) (constant 1 ['1']) 1 2 1 = none ∧
    sequenceStep (constant 3 ['3']) (constant 4 ['4']) (constant 1 ['1']) 3 4 1 = none ∧
    rangeStep INT64_MAX INT64_MAX = none := by
  refine ⟨sequenceStep_undefined (fun h => h.1 rfl) _ _ _, ?_, ?_, rangeLoop_max 0 rfl []⟩
  · apply sequence_astray ⟨by decide, by decide, by decide, by decide⟩ (by decide)
    rintro n ⟨-, hpos, he⟩
    omega
  · apply sequence_astray ⟨by decide, by decide, by decide, by decide⟩ (by decide)
    rintro n ⟨-, hpos, he⟩
    omega

end AspKernel.Toppers.Macro
