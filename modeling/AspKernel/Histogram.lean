import AspKernel.Basic
import Mathlib.Data.List.Basic

namespace AspKernel
set_option autoImplicit true

/-- `INT_MAX`. -/
def INT_MAX : Nat := 2 ^ 31 - 1

structure HISTCB where
  beginTime : BitVec 32
  maxval : BitVec 32
  histarea : List (BitVec 32)
  «over» : BitVec 32
  under : BitVec 32

namespace HISTCB

/-- The loop of `init_hist`. It has no result where it writes outside the area, or where the steps are
used up. -/
def initLoop (maxval : BitVec 32) : Nat → BitVec 32 → List (BitVec 32) → Option (List (BitVec 32))
  | 0, _, _ => none
  | n + 1, i, histarea =>
    if i ≤ maxval then
      if i.toNat < histarea.length then initLoop maxval n (i + 1) (histarea.set i.toNat 0)
      else none
    else some histarea

/-- `init_hist` for the control block of an ID. -/
def initHist (s : HISTCB) (maxval : BitVec 32) (histarea : List (BitVec 32)) : Option HISTCB := do
  let histarea ← initLoop maxval (maxval.toNat + 2) 0 histarea
  some { s with maxval := maxval, histarea := histarea, «over» := 0, under := 0 }

def beginMeasure (s : HISTCB) (time : BitVec 32) : HISTCB := { s with beginTime := time }

/-- `p_histcb->histarea[val]++`. -/
def countUp (s : HISTCB) (val : BitVec 32) : Option HISTCB := do
  let n ← s.histarea[val.toNat]?
  some { s with histarea := s.histarea.set val.toNat (n + 1) }

def endMeasure (s : HISTCB) (endTime : BitVec 32) : Option HISTCB :=
  -- the overhead
  let val := endTime - s.beginTime - 3
  if val ≤ s.maxval then
    let val := val + 5
    let val := val / 10
    let val := val * 10
    s.countUp val
  else if val ≥ 10000 then
    let val := val + 500
    let val := val / 1000
    s.countUp val
  else if val ≤ BitVec.ofNat 32 INT_MAX then some { s with «over» := s.«over» + 1 }
  else some { s with under := s.under + 1 }

inductive Counter
  | hist (k : Nat)
  | «over»
  | under
  deriving DecidableEq

/-- The counters; `histarea` has those up to `maxval`. -/
def counter (s : HISTCB) : Counter → Option (BitVec 32)
  | .hist k => s.histarea[k]?
  | .«over» => some s.«over»
  | .under => some s.under

/-- Exactly one counter has been incremented. -/
def Counts (s s' : HISTCB) (c : Counter) : Prop :=
  (∃ n, s.counter c = some n ∧ s'.counter c = some (n + 1)) ∧
    ∀ d ≠ c, s'.counter d = s.counter d

/-- What is asked of a measurement. -/
def Accounted (s s' : HISTCB) (beginTime endTime : BitVec 32) : Prop :=
  (s.beginMeasure beginTime).endMeasure endTime = some s' ∧
    ∃ c, s.Counts s' c ∧ (INT_MAX < (endTime - beginTime).toNat → c = .under)

/-- All measurements, one after the other, are accounted. -/
def AllAccounted : HISTCB → List (BitVec 32 × BitVec 32) → Prop
  | _, [] => True
  | s, (b, e) :: l => ∃ s', s.Accounted s' b e ∧ s'.AllAccounted l

/-- The measured difference does not exceed `INT_MAX`, and the index that it is rounded to is one of the
area: a value near `maxval` is not rounded up above it, and a large one is less than a thousand times
`maxval`. -/
def Fits (maxval diff : Nat) : Prop :=
  diff ≤ INT_MAX ∧ (diff < 3 ∨
    (diff ≤ maxval + 3 → diff < maxval / 10 * 10 + 8) ∧
      (maxval + 3 < diff → 10003 ≤ diff → diff < maxval * 1000 + 503))

section
variable {s s' : HISTCB} {val beginTime endTime maxval : BitVec 32} {c : Counter}

theorem countUp_some (h : val.toNat < s.histarea.length) :
    ∃ s', s.countUp val = some s' ∧ s.Counts s' (.hist val.toNat) := by
  unfold countUp
  rw [List.getElem?_eq_getElem h]
  refine ⟨_, rfl, ⟨_, List.getElem?_eq_getElem h, List.getElem?_set_self h⟩, ?_⟩
  intro d hd
  cases d with
  | hist k =>
    apply List.getElem?_set_ne
    rintro rfl
    exact hd rfl
  | «over» | under => rfl

theorem countUp_lt (h : s.countUp val = some s') : val.toNat < s.histarea.length ∧
    s'.maxval = s.maxval ∧ s'.histarea.length = s.histarea.length ∧ s'.under = s.under := by
  unfold countUp at h
  obtain ⟨n, hn, h⟩ := Option.bind_eq_some_iff.1 h
  cases h
  exact ⟨(List.getElem?_eq_some_iff.1 hn).1, rfl, List.length_set, rfl⟩

/-- The counter that is chosen. -/
theorem endMeasure_eq (s : HISTCB) (beginTime endTime : BitVec 32) (v : BitVec 32)
    (hv : v = endTime - beginTime - 3) : (s.beginMeasure beginTime).endMeasure endTime =
      if v ≤ s.maxval then (s.beginMeasure beginTime).countUp ((v + 5) / 10 * 10)
      else if v ≥ 10000 then (s.beginMeasure beginTime).countUp ((v + 500) / 1000)
      else if v ≤ BitVec.ofNat 32 INT_MAX then
        some { s.beginMeasure beginTime with «over» := s.«over» + 1 }
      else some { s.beginMeasure beginTime with under := s.under + 1 } := by
  subst hv
  rfl

theorem endMeasure_keeps (h : (s.beginMeasure beginTime).endMeasure endTime = some s') :
    s'.maxval = s.maxval ∧ s'.histarea.length = s.histarea.length := by
  rw [endMeasure_eq s beginTime endTime _ rfl] at h
  split at h
  · obtain ⟨-, hm, hl, -⟩ := countUp_lt h
    exact ⟨hm, hl⟩
  · split at h
    · obtain ⟨-, hm, hl, -⟩ := countUp_lt h
      exact ⟨hm, hl⟩
    · split at h
      · cases h
        exact ⟨rfl, rfl⟩
      · cases h
        exact ⟨rfl, rfl⟩

/-- The corrected difference as a number, with the indices that it is rounded to. -/
structure Rounded (diff : Nat) (v : BitVec 32) : Prop where
  val : v.toNat = if diff < 3 then diff + (2 ^ 32 - 3) else diff - 3
  ten : diff ≤ INT_MAX → ((v + 5) / 10 * 10).toNat = (diff + 2) / 10 * 10
  thousand : diff ≤ INT_MAX → ((v + 500) / 1000).toNat = (diff + 497) / 1000

theorem rounded (d : BitVec 32) : Rounded d.toNat (d - 3) := by
  have hlt := d.isLt
  have hv : (d - 3).toNat = if d.toNat < 3 then d.toNat + (2 ^ 32 - 3) else d.toNat - 3 := by
    rw [BitVec.toNat_sub]
    change (2 ^ 32 - 3 + d.toNat) % 2 ^ 32 = _
    split
    · omega
    · omega
  refine ⟨hv, fun h => ?_, fun h => ?_⟩
  · rw [BitVec.toNat_mul, BitVec.toNat_udiv, BitVec.toNat_add, hv]
    change ((_ + 5) % 2 ^ 32 / 10 * 10) % 2 ^ 32 = _
    unfold INT_MAX at h
    split
    · omega
    · omega
  · rw [BitVec.toNat_udiv, BitVec.toNat_add, hv]
    change ((_ + 500) % 2 ^ 32 / 1000) = _
    unfold INT_MAX at h
    split
    · omega
    · omega

theorem counts_begin (h : (s.beginMeasure beginTime).Counts s' c) : s.Counts s' c := by
  have hc (d : Counter) : (s.beginMeasure beginTime).counter d = s.counter d := by
    cases d with
    | hist k | «over» | under => rfl
  unfold Counts at h
  simp only [hc] at h
  exact h

theorem Counts.under (h : s.Counts s' .under) : s'.under ≠ s.under := by
  obtain ⟨⟨n, hn, hn'⟩, -⟩ := h
  cases hn
  intro he
  have hadd := (Option.some.inj hn').symm.trans he
  have hone := BitVec.add_right_eq_self.1 hadd
  exact absurd hone (by decide)

/-- One measurement. -/
theorem accounted_iff (hlen : s.histarea.length = s.maxval.toNat + 1) :
    (∃ s', s.Accounted s' beginTime endTime) ↔
      Fits s.maxval.toNat (endTime - beginTime).toNat := by
  have hr := rounded (endTime - beginTime)
  have heq := endMeasure_eq s beginTime endTime _ rfl
  unfold Accounted Fits
  rw [heq]
  generalize endTime - beginTime - 3 = v at hr
  generalize (endTime - beginTime).toNat = diff at hr
  have hv := hr.val
  constructor
  · rintro ⟨s', he, c, hc, hunder⟩
    have hmax : diff ≤ INT_MAX := by
      by_contra hgt
      obtain rfl := hunder (by omega)
      have hne := hc.under
      unfold INT_MAX at hgt
      rw [if_neg (by omega)] at hv
      split at he
      · exact hne (countUp_lt he).2.2.2
      · split at he
        · exact hne (countUp_lt he).2.2.2
        · rename_i hlow
          have hlow : ¬ 10000 ≤ v.toNat := fun h => hlow (BitVec.le_def.2 h)
          omega
    refine ⟨hmax, ?_⟩
    by_cases h3 : diff < 3
    · exact .inl h3
    · rw [if_neg h3] at hv
      refine .inr ⟨fun hle => ?_, fun hgt hbig => ?_⟩
      · rw [if_pos (BitVec.le_def.2 (by omega))] at he
        have hlt := (countUp_lt he).1
        rw [hr.ten hmax] at hlt
        change _ < s.histarea.length at hlt
        omega
      · have h10000 : (10000 : BitVec 32).toNat = 10000 := rfl
        rw [if_neg fun h => absurd (BitVec.le_def.1 h) (by omega),
          if_pos (BitVec.le_def.2 (by omega))] at he
        have hlt := (countUp_lt he).1
        rw [hr.thousand hmax] at hlt
        change _ < s.histarea.length at hlt
        omega
  · rintro ⟨hmax, h⟩
    have hno (c : Counter) : INT_MAX < diff → c = .under := fun hgt => absurd hmax (by omega)
    split
    · rename_i hle
      have hle := BitVec.le_def.1 hle
      have hlt : ((v + 5) / 10 * 10).toNat < s.histarea.length := by
        rw [hr.ten hmax]
        split at hv
        · omega
        · omega
      obtain ⟨s', hs, hc⟩ := countUp_some (s := s.beginMeasure beginTime) hlt
      exact ⟨s', hs, _, counts_begin hc, hno _⟩
    · rename_i hgt
      have hgt : ¬ v.toNat ≤ s.maxval.toNat := fun h => hgt (BitVec.le_def.2 h)
      split
      · rename_i hbig
        have hbig : 10000 ≤ v.toNat := BitVec.le_def.1 hbig
        have hlt : ((v + 500) / 1000).toNat < s.histarea.length := by
          rw [hr.thousand hmax]
          split at hv
          · omega
          · omega
        obtain ⟨s', hs, hc⟩ := countUp_some (s := s.beginMeasure beginTime) hlt
        exact ⟨s', hs, _, counts_begin hc, hno _⟩
      · rename_i hlow
        have hlow : ¬ 10000 ≤ v.toNat := fun h => hlow (BitVec.le_def.2 h)
        have hmaxv : v ≤ BitVec.ofNat 32 INT_MAX := BitVec.le_def.2 (by
          change v.toNat ≤ 2 ^ 31 - 1
          omega)
        rw [if_pos hmaxv]
        refine ⟨_, rfl, .«over», ⟨⟨_, rfl, rfl⟩, fun d hd => ?_⟩, hno _⟩
        cases d with
        | «over» => exact absurd rfl hd
        | hist k => rfl
        | under => rfl

/-- All measurements are accounted exactly where all of them fit. -/
theorem allAccounted_iff {l : List (BitVec 32 × BitVec 32)}
    (hlen : s.histarea.length = s.maxval.toNat + 1) :
    s.AllAccounted l ↔ ∀ p ∈ l, Fits s.maxval.toNat (p.2 - p.1).toNat := by
  induction l generalizing s with
  | nil => exact ⟨fun _ => nofun, fun _ => trivial⟩
  | cons p l ih =>
    obtain ⟨b, e⟩ := p
    have hnext {s' : HISTCB} (h : s.Accounted s' b e) :
        s'.AllAccounted l ↔ ∀ p ∈ l, Fits s.maxval.toNat (p.2 - p.1).toNat := by
      obtain ⟨hm, hl⟩ := endMeasure_keeps h.1
      rw [← hm]
      apply ih
      rw [hl, hlen, hm]
    rw [List.forall_mem_cons, ← accounted_iff hlen]
    constructor
    · rintro ⟨s', h, hrest⟩
      exact ⟨⟨s', h⟩, (hnext h).1 hrest⟩
    · rintro ⟨⟨s', h⟩, hrest⟩
      exact ⟨s', h, (hnext h).2 hrest⟩

theorem initLoop_eq {maxval : BitVec 32} (hmax : maxval.toNat + 1 < 2 ^ 32) {i : BitVec 32}
    {histarea : List (BitVec 32)} (hlen : histarea.length = maxval.toNat + 1)
    (hi : i.toNat ≤ maxval.toNat + 1) (hn : maxval.toNat + 1 - i.toNat < n)
    (hz : ∀ j < i.toNat, histarea[j]? = some 0) :
    initLoop maxval n i histarea = some (List.replicate (maxval.toNat + 1) 0) := by
  induction n generalizing i histarea with
  | zero => omega
  | succ n ih =>
    rw [initLoop]
    split
    · rename_i hle
      have hle := BitVec.le_def.1 hle
      have hsucc : (i + 1).toNat = i.toNat + 1 := by
        rw [BitVec.toNat_add]
        exact Nat.mod_eq_of_lt (by change i.toNat + 1 < _; omega)
      rw [if_pos (by omega)]
      apply ih
      · rw [List.length_set, hlen]
      · omega
      · omega
      · intro j hj
        by_cases he : j = i.toNat
        · rw [he]
          exact List.getElem?_set_self (by omega)
        · rw [List.getElem?_set_ne (Ne.symm he)]
          exact hz j (by omega)
    · rename_i hgt
      have hgt : ¬ i.toNat ≤ maxval.toNat := fun h => hgt (BitVec.le_def.2 h)
      congr 1
      apply List.ext_getElem?
      intro j
      by_cases hj : j < maxval.toNat + 1
      · rw [hz j (by omega), List.getElem?_replicate_of_lt hj]
      · rw [List.getElem?_eq_none (by omega), List.getElem?_eq_none (by rw [List.length_replicate]; omega)]

/-- `init_hist` clears the area and the counters; its loop does not end for the greatest `maxval`. -/
theorem initHist_eq (s : HISTCB) {maxval : BitVec 32} (hmax : maxval.toNat + 1 < 2 ^ 32)
    {histarea : List (BitVec 32)} (hlen : histarea.length = maxval.toNat + 1) :
    s.initHist maxval histarea =
      some ⟨s.beginTime, maxval, List.replicate (maxval.toNat + 1) 0, 0, 0⟩ := by
  have h0 : (0 : BitVec 32).toNat = 0 := rfl
  have hloop := initLoop_eq (i := 0) (n := maxval.toNat + 2) hmax hlen (by omega) (by omega)
    fun j hj => absurd hj (by omega)
  unfold initHist
  rw [hloop]
  rfl

theorem initLoop_length {histarea histarea' : List (BitVec 32)} {n : Nat} {i : BitVec 32}
    (h : initLoop maxval n i histarea = some histarea') : histarea'.length = histarea.length := by
  induction n generalizing i histarea with
  | zero => cases h
  | succ n ih =>
    rw [initLoop] at h
    split at h
    · obtain ⟨-, h⟩ := Option.ite_none_right_eq_some.1 h
      rw [ih h, List.length_set]
    · cases h
      rfl

/-- After `init_hist` all measurements are accounted exactly where all of them fit. -/
theorem measures_accounted {histarea : List (BitVec 32)} (hs : s.initHist maxval histarea = some s')
    (hlen : histarea.length = maxval.toNat + 1) (l : List (BitVec 32 × BitVec 32)) :
    s'.AllAccounted l ↔ ∀ p ∈ l, Fits maxval.toNat (p.2 - p.1).toNat := by
  unfold initHist at hs
  obtain ⟨histarea', hloop, hs⟩ := Option.bind_eq_some_iff.1 hs
  cases hs
  exact allAccounted_iff ((initLoop_length hloop).trans hlen)

end

/-- The state after `init_hist` with room up to 100. -/
def hundred : HISTCB := ⟨0, 100, .replicate 101 0, 0, 0⟩

theorem measures_accounted_hundred :
    (⟨0, 0, [], 0, 0⟩ : HISTCB).initHist 100 (.replicate 101 7) = some hundred ∧
    hundred.AllAccounted [(0, 50), (0, 0xffffffff + 3), (0, 9000), (0, 100000)] := by
  have hs : (⟨0, 0, [], 0, 0⟩ : HISTCB).initHist 100 (.replicate 101 7) = some hundred :=
    initHist_eq ⟨0, 0, [], 0, 0⟩ (by decide) List.length_replicate
  refine ⟨hs, (measures_accounted hs List.length_replicate _).2 ?_⟩
  simp [Fits, INT_MAX]

/-- A long measurement is counted behind the end of the area, and one whose end precedes its start is not
counted in `under`. -/
theorem not_allAccounted_hundred :
    (⟨0, 0, [], 0, 0⟩ : HISTCB).initHist 100 (.replicate 101 7) = some hundred ∧
    (hundred.beginMeasure 0).endMeasure 200003 = none ∧ ¬ hundred.AllAccounted [(0, 200003)] ∧
    ¬ hundred.AllAccounted [(10, 0)] := by
  have hlen : hundred.histarea.length = hundred.maxval.toNat + 1 := List.length_replicate
  refine ⟨initHist_eq ⟨0, 0, [], 0, 0⟩ (by decide) List.length_replicate, by decide, ?_, ?_⟩
  · rw [allAccounted_iff hlen]
    simp [Fits, INT_MAX, hundred]
  · rw [allAccounted_iff hlen]
    simp [Fits, INT_MAX, hundred]

end HISTCB

end AspKernel
