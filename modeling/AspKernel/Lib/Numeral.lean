import Mathlib.Data.Nat.Digits.Defs
import Mathlib.Data.Nat.Digits.Lemmas

/-! Numbers as they are written: digits without a leading zero, a minus sign, and what fills the width. -/

namespace Numeral
set_option autoImplicit true

/-- The digits of a number, the lowest one first; zero has one digit. -/
def low (b n : Nat) : List Nat := if n = 0 then [0] else Nat.digits b n

/-- The digits of a number, the highest one first. -/
def write (b : Nat) (digit : Nat → Char) (n : Nat) : List Char := ((low b n).map digit).reverse

/-- The value of a digit in a base up to sixteen. -/
def digitVal (b : Nat) (c : Char) : Option Nat :=
  let d :=
    if '0' ≤ c ∧ c ≤ '9' then c.toNat - '0'.toNat
    else if 'a' ≤ c ∧ c ≤ 'f' then c.toNat - 'a'.toNat + 10
    else if 'A' ≤ c ∧ c ≤ 'F' then c.toNat - 'A'.toNat + 10
    else b
  if d < b then some d else none

def readFrom (b : Nat) (n : Nat) (l : List Char) : Option Nat :=
  l.foldlM (fun n c => (digitVal b c).map (n * b + ·)) n

/-- The number that is written in digits; leading zeros may be there. -/
def read (b : Nat) (l : List Char) : Option Nat := if l = [] then none else readFrom b 0 l

/-- The number that is written after blanks, with a minus sign where it is negative. -/
def readInt (b : Nat) (l : List Char) : Option Int :=
  match l.dropWhile (· = ' ') with
  | '-' :: l => (read b l).map fun n => -(n : Int)
  | l => (read b l).map fun n => (n : Int)

/-- Digits that are filled up to a width: the sign stands before zeros and behind blanks. -/
def place (minus padzero : Bool) (pad : Nat) (digits : List Char) : List Char :=
  if padzero then (if minus then ['-'] else []) ++ List.replicate pad '0' ++ digits
  else List.replicate pad ' ' ++ (if minus then ['-'] else []) ++ digits

section
variable {b n k : Nat} {digit : Nat → Char}

theorem low_eq (hb : 1 < b) (n : Nat) :
    low b n = n % b :: if n / b = 0 then [] else low b (n / b) := by
  unfold low
  by_cases hn : n = 0
  · subst hn
    simp only [if_true, Nat.zero_mod, Nat.zero_div]
  · rw [if_neg hn, Nat.digits_eq_cons_digits_div hb hn]
    split
    · rename_i h0
      rw [h0, Nat.digits_zero]
    · rfl

theorem low_ne_nil (b n : Nat) : low b n ≠ [] := by
  unfold low
  split
  · exact List.cons_ne_nil _ _
  · rename_i hn
    exact Nat.digits_ne_nil_iff_ne_zero.2 hn

theorem low_lt (hb : 1 < b) (hd : d ∈ low b n) : d < b := by
  unfold low at hd
  split at hd
  · cases List.mem_singleton.1 hd
    omega
  · exact Nat.digits_lt_base hb hd

theorem ofDigits_low (b n : Nat) : Nat.ofDigits b (low b n) = n := by
  unfold low
  split
  · rename_i hn
    rw [hn]
    exact Nat.ofDigits_singleton
  · exact Nat.ofDigits_digits b n

theorem low_length_le (hb : 1 < b) (hk : 0 < k) (hn : n < b ^ k) : (low b n).length ≤ k := by
  unfold low
  split
  · exact hk
  · exact Nat.digits_length_le_iff hb n |>.2 hn

theorem readFrom_append (b n : Nat) (l l' : List Char) :
    readFrom b n (l ++ l') = (readFrom b n l).bind fun m => readFrom b m l' :=
  List.foldlM_append

theorem readFrom_map (hdigit : ∀ d < b, digitVal b (digit d) = some d) {l : List Nat}
    (hl : ∀ d ∈ l, d < b) (n : Nat) :
    readFrom b n (l.map digit).reverse = some (n * b ^ l.length + Nat.ofDigits b l) := by
  induction l with
  | nil =>
    rw [List.length_nil, Nat.pow_zero, Nat.mul_one]
    rfl
  | cons d l ih =>
    have hd := hdigit d (hl d List.mem_cons_self)
    rw [List.map_cons, List.reverse_cons, readFrom_append,
      ih fun x hx => hl x (List.mem_cons_of_mem d hx), Option.bind_some]
    unfold readFrom
    rw [List.foldlM_cons, hd, List.length_cons, Nat.ofDigits_cons, Nat.pow_succ]
    change some ((n * b ^ l.length + Nat.ofDigits b l) * b + d) = _
    congr 1
    ring

theorem readFrom_zeros (hzero : digitVal b '0' = some 0) (k : Nat) :
    readFrom b 0 (List.replicate k '0') = some 0 := by
  induction k with
  | zero => rfl
  | succ k ih =>
    unfold readFrom at ih ⊢
    rw [List.replicate_succ, List.foldlM_cons, hzero]
    change List.foldlM _ (0 * b + 0) _ = _
    rw [Nat.zero_mul]
    exact ih

/-- What is written is read back, behind any zeros. -/
theorem readDigits_write (hb : 1 < b) (hdigit : ∀ d < b, digitVal b (digit d) = some d)
    (hzero : digitVal b '0' = some 0) (k n : Nat) :
    read b (List.replicate k '0' ++ write b digit n) = some n := by
  unfold read
  rw [if_neg, readFrom_append, readFrom_zeros hzero, Option.bind_some]
  · unfold write
    rw [readFrom_map hdigit fun d hd => low_lt hb hd, Nat.zero_mul, Nat.zero_add, ofDigits_low]
  · intro h
    have hnil := (List.append_eq_nil_iff.1 h).2
    exact low_ne_nil b n (List.map_eq_nil_iff.1 (List.reverse_eq_nil_iff.1 hnil))

/-- No digit is superfluous: only zero begins with the digit zero. -/
theorem write_head (hb : 1 < b) (hdigit : ∀ d < b, digitVal b (digit d) = some d) (n : Nat) :
    write b digit n = [digit 0] ∨ (write b digit n).head? ≠ some (digit 0) := by
  unfold write low
  split
  · exact .inl rfl
  · rename_i hn
    refine .inr fun h => ?_
    rw [List.head?_reverse, List.getLast?_map] at h
    obtain ⟨d, hd, he⟩ := Option.map_eq_some_iff.1 h
    have hne := (Nat.digits_ne_nil_iff_ne_zero (b := b)).2 hn
    rw [List.getLast?_eq_getLast_of_ne_nil hne] at hd
    have hlast := Nat.getLast_digit_ne_zero b hn
    have hlt := Nat.digits_lt_base hb (List.getLast_mem hne)
    have hv := hdigit _ hlt
    rw [Option.some.inj hd, he, hdigit 0 (by omega)] at hv
    exact hlast ((Option.some.inj hd).trans (Option.some.inj hv).symm)

theorem write_ne_nil (b : Nat) (digit : Nat → Char) (n : Nat) : write b digit n ≠ [] := by
  intro h
  exact low_ne_nil b n (List.map_eq_nil_iff.1 (List.reverse_eq_nil_iff.1 h))

theorem write_mem (hb : 1 < b) {c : Char} (hc : c ∈ write b digit n) : ∃ d < b, c = digit d := by
  obtain ⟨d, hd, rfl⟩ := List.mem_map.1 (List.mem_reverse.1 hc)
  exact ⟨d, low_lt hb hd, rfl⟩

theorem place_length (minus padzero : Bool) (pad : Nat) (digits : List Char) :
    (place minus padzero pad digits).length =
      pad + ((if minus then 1 else 0) + digits.length) := by
  have hsign : (if minus then ['-'] else []).length = if minus then 1 else 0 := by
    cases minus with
    | false => rfl
    | true => rfl
  unfold place
  split
  · rw [List.length_append, List.length_append, List.length_replicate, hsign]
    omega
  · rw [List.length_append, List.length_append, List.length_replicate, hsign]
    omega

/-- The decimal digits. -/
theorem digitVal_ten {c : Char} (h : digitVal 10 c = some d) :
    ('0' ≤ c ∧ c ≤ '9') ∧ c.toNat = '0'.toNat + d := by
  unfold digitVal at h
  obtain ⟨hlt, hd⟩ := Option.ite_none_right_eq_some.1 h
  by_cases hc : '0' ≤ c ∧ c ≤ '9'
  · have hle : '0'.toNat ≤ c.toNat := UInt32.le_iff_toNat_le.1 hc.1
    rw [if_pos hc] at hd
    cases hd
    exact ⟨hc, (Nat.add_sub_cancel' hle).symm⟩
  · rw [if_neg hc] at hlt
    split at hlt
    · omega
    · split at hlt
      · omega
      · omega

theorem digitVal_other (b : Nat) : digitVal b ' ' = none ∧ digitVal b '-' = none := by
  have h (c : Char) (h0 : ¬('0' ≤ c ∧ c ≤ '9')) (h1 : ¬('a' ≤ c ∧ c ≤ 'f'))
      (h2 : ¬('A' ≤ c ∧ c ≤ 'F')) : digitVal b c = none := by
    unfold digitVal
    rw [if_neg h0, if_neg h1, if_neg h2]
    exact if_neg (Nat.lt_irrefl b)
  exact ⟨h ' ' (by decide) (by decide) (by decide), h '-' (by decide) (by decide) (by decide)⟩

/-- A number that begins with a digit is not negative. -/
theorem readInt_digit {c : Char} {l : List Char} (hc : digitVal b c = some d) :
    readInt b (c :: l) = (read b (c :: l)).map fun n => (n : Int) := by
  have hblank : c ≠ ' ' := by
    rintro rfl
    cases (digitVal_other b).1.symm.trans hc
  have hminus : c ≠ '-' := by
    rintro rfl
    cases (digitVal_other b).2.symm.trans hc
  unfold readInt
  rw [List.dropWhile_cons_of_neg (by simpa using hblank)]
  split
  · rename_i h
    cases h
    exact absurd rfl hminus
  · rfl

theorem readInt_minus (b : Nat) (l : List Char) :
    readInt b ('-' :: l) = (read b l).map fun n => -(n : Int) := rfl

theorem readInt_blanks (b k : Nat) (l : List Char) :
    readInt b (List.replicate k ' ' ++ l) = readInt b l := by
  have hdrop : (List.replicate k ' ' ++ l).dropWhile (· = ' ') = l.dropWhile (· = ' ') := by
    induction k with
    | zero => rfl
    | succ k ih => exact ih
  unfold readInt
  rw [hdrop]

/-- What is placed is read back. -/
theorem readInt_place (hb : 1 < b) (hdigit : ∀ d < b, digitVal b (digit d) = some d)
    (hzero : digitVal b '0' = some 0) (minus padzero : Bool) (pad n : Nat) :
    readInt b (place minus padzero pad (write b digit n)) =
      some (if minus then -(n : Int) else n) := by
  have hread (k : Nat) := readDigits_write hb hdigit hzero k n
  -- zeros and digits are read as a number
  have hplain (k : Nat) : readInt b (List.replicate k '0' ++ write b digit n) = some (n : Int) := by
    cases hl : List.replicate k '0' ++ write b digit n with
    | nil => exact absurd (List.append_eq_nil_iff.1 hl).2 (write_ne_nil b digit n)
    | cons c l =>
      have hc : c ∈ List.replicate k '0' ++ write b digit n := hl ▸ List.mem_cons_self
      have hval : ∃ d, digitVal b c = some d := by
        rcases List.mem_append.1 hc with hc | hc
        · rw [List.eq_of_mem_replicate hc]
          exact ⟨0, hzero⟩
        · obtain ⟨d, hd, rfl⟩ := write_mem hb hc
          exact ⟨d, hdigit d hd⟩
      obtain ⟨d, hd⟩ := hval
      rw [readInt_digit hd, ← hl, hread]
      rfl
  unfold place
  cases padzero with
  | true =>
    cases minus with
    | true =>
      change readInt b ('-' :: (List.replicate pad '0' ++ write b digit n)) = _
      rw [readInt_minus, hread]
      rfl
    | false => exact hplain pad
  | false =>
    rw [if_neg Bool.false_ne_true, List.append_assoc, readInt_blanks]
    cases minus with
    | true =>
      change readInt b ('-' :: write b digit n) = _
      rw [readInt_minus]
      have h0 := hread 0
      rw [List.replicate_zero, List.nil_append] at h0
      rw [h0]
      rfl
    | false => exact hplain 0

end

end Numeral
