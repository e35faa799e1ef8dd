import AspKernel.LogBuffer
import AspKernel.Lib.Numeral

namespace AspKernel
set_option autoImplicit true

/-- The character that ends a string. -/
def nul : Char := Char.ofNat 0

/-- `*format++` where `format` is given by the characters before the end of the string. -/
def fetch : List Char → Char × List Char
  | [] => (nul, [])
  | c :: l => (c, l)

/-- `sizeof(uintptr_t) * CHAR_BIT` is 32. -/
def CONVERT_BUFLEN : Nat := (32 + 2) / 3

/-- The loop of `convert` that fills `buf`; a cell that has not been written holds nothing. It has no
result where it writes outside `buf`, or where the steps are used up. -/
def convertLoop (radix : BitVec 32) (radchar : List Char) :
    Nat → (Nat → Option Char) → Nat → BitVec 32 → Option ((Nat → Option Char) × Nat)
  | 0, _, _, _ => none
  | n + 1, buf, i, val => do
    let c ← radchar[(val % radix).toNat]?
    if i < CONVERT_BUFLEN then
      let buf := Function.update buf i (some c)
      let i := i + 1
      let val := val / radix
      if i < CONVERT_BUFLEN ∧ val ≠ 0 then convertLoop radix radchar n buf i val
      else some (buf, i)
    else none

/-- The last loop of `convert`. -/
def putBuf (buf : Nat → Option Char) : Nat → Option (List Char)
  | 0 => some []
  | i + 1 => do
    let c ← buf i
    let out ← putBuf buf i
    some (c :: out)

/-- The characters that `convert` puts. -/
def convert (val radix : BitVec 32) (radchar : List Char) (width : BitVec 32)
    (minus padzero : Bool) : Option (List Char) := do
  let (buf, i) ← convertLoop radix radchar CONVERT_BUFLEN (fun _ => none) 0 val
  let width := if minus && width > 0 then width - 1 else width
  let sign1 := if minus && padzero then ['-'] else []
  let pad := List.replicate (width.toNat - i) (if padzero then '0' else ' ')
  let sign2 := if minus && !padzero then ['-'] else []
  let digits ← putBuf buf i
  some (sign1 ++ pad ++ sign2 ++ digits)

def raddec : List Char := ['0', '1', '2', '3', '4', '5', '6', '7', '8', '9']
def radhex : List Char := raddec ++ ['a', 'b', 'c', 'd', 'e', 'f']
def radHEX : List Char := raddec ++ ['A', 'B', 'C', 'D', 'E', 'F']

/-- The loop for the width, with the character that has been read. -/
def widthLoop (width : BitVec 32) (c : Char) (format : List Char) : BitVec 32 × Char × List Char :=
  if '0' ≤ c ∧ c ≤ '9' then
    let width := width * 10 + BitVec.ofNat 32 c.toNat - BitVec.ofNat 32 '0'.toNat
    match format with
    | [] => (width, nul, [])
    | c :: format => widthLoop width c format
  else (width, c, format)

/-- What `syslog_printf` reads of a conversion behind its `%`. -/
structure Spec where
  padzero : Bool
  width : BitVec 32
  c : Char
  format : List Char

def readSpec (format : List Char) : Spec :=
  let p := fetch format
  let padzero := p.1 = '0'
  let p := if padzero then fetch p.2 else p
  let w := widthLoop 0 p.1 p.2
  let p := if w.2.1 = 'l' then fetch w.2.2 else w.2
  ⟨padzero, w.1, p.1, p.2⟩

/-- The conversions that take an argument. -/
def takesArg (c : Char) : Bool :=
  c = 'd' || c = 'u' || c = 'x' || c = 'p' || c = 'X' || c = 'c' || c = 's'

/-- What a conversion puts for its argument; `str` is the string at an address. -/
def putArg (str : Addr → List Char) (s : Spec) (val : IntPtr) : Option (List Char) :=
  if s.c = 'd' then
    if 0 ≤ val.toInt then convert val 10 raddec s.width false s.padzero
    -- `-val` wraps around at the most negative value
    else convert (-val) 10 raddec s.width true s.padzero
  else if s.c = 'u' then convert val 10 raddec s.width false s.padzero
  else if s.c = 'x' ∨ s.c = 'p' then convert val 16 radhex s.width false s.padzero
  else if s.c = 'X' then convert val 16 radHEX s.width false s.padzero
  else if s.c = 'c' then some [Char.ofNat (val.toNat % 2 ^ 8)]
  else some (str val)

def isDig (c : Char) : Bool := decide ('0' ≤ c ∧ c ≤ '9')

/-- The step of the width for a digit. -/
def widthStep (width : BitVec 32) (c : Char) : BitVec 32 :=
  width * 10 + BitVec.ofNat 32 c.toNat - BitVec.ofNat 32 '0'.toNat

theorem widthLoop_eq (width : BitVec 32) (l : List Char) :
    widthLoop width (fetch l).1 (fetch l).2 =
      ((l.takeWhile isDig).foldl widthStep width, fetch (l.dropWhile isDig)) := by
  induction l generalizing width with
  | nil => rfl
  | cons c l ih =>
    change widthLoop width c l = _
    rw [List.takeWhile_cons, List.dropWhile_cons]
    by_cases hc : '0' ≤ c ∧ c ≤ '9'
    · have hd : isDig c = true := decide_eq_true hc
      rw [widthLoop, if_pos hc, hd]
      cases l with
      | nil => rfl
      | cons d l => exact ih (widthStep width c)
    · have hd : isDig c = false := decide_eq_false hc
      rw [widthLoop, if_neg hc, hd]
      rfl

/-- The character behind the width, and what follows it; an `l` is passed over. -/
def skipL (l : List Char) : Char × List Char :=
  if (fetch l).1 = 'l' then fetch (fetch l).2 else fetch l

/-- A leading zero does not change the width. -/
theorem readWidth_eq (format : List Char) :
    widthLoop 0 (if (fetch format).1 = '0' then fetch (fetch format).2 else fetch format).1
        (if (fetch format).1 = '0' then fetch (fetch format).2 else fetch format).2 =
      ((format.takeWhile isDig).foldl widthStep 0, fetch (format.dropWhile isDig)) := by
  by_cases h0 : (fetch format).1 = '0'
  · rw [if_pos h0]
    cases format with
    | nil => exact absurd h0 (by decide)
    | cons c l =>
      obtain rfl : c = '0' := h0
      have hd : isDig '0' = true := by decide
      have hs : widthStep 0 '0' = 0 := by decide
      rw [List.takeWhile_cons_of_pos hd, List.dropWhile_cons_of_pos hd, List.foldl_cons, hs]
      exact widthLoop_eq 0 l
  · rw [if_neg h0]
    exact widthLoop_eq 0 format

theorem padzero_eq (format : List Char) :
    (fetch format).1 = '0' ↔ (format.takeWhile isDig).head? = some '0' := by
  cases format with
  | nil => decide
  | cons c l =>
    rw [List.takeWhile_cons]
    cases hd : isDig c with
    | true => exact Option.some_inj.symm
    | false =>
      constructor
      · rintro rfl
        exact absurd hd (by decide)
      · exact nofun

theorem readSpec_eq (format : List Char) : readSpec format =
    ⟨decide ((format.takeWhile isDig).head? = some '0'),
      (format.takeWhile isDig).foldl widthStep 0, (skipL (format.dropWhile isDig)).1,
      (skipL (format.dropWhile isDig)).2⟩ := by
  unfold readSpec
  simp only [readWidth_eq]
  simp only [padzero_eq]
  rfl

theorem skipL_length (l : List Char) : (skipL l).2.length ≤ l.length := by
  have hfetch (l : List Char) : (fetch l).2.length ≤ l.length := by
    cases l with
    | nil => exact Nat.le_refl _
    | cons c l => exact Nat.le_succ _
  unfold skipL
  split
  · exact (hfetch _).trans (hfetch l)
  · exact hfetch l

theorem readSpec_length (format : List Char) : (readSpec format).format.length ≤ format.length := by
  rw [readSpec_eq]
  exact (skipL_length _).trans (List.dropWhile_sublist _).length_le

/-- `p_args` points to element `k`; reading an element that is not there gives no result. -/
def syslogPrintf (str : Addr → List Char) (args : Nat → Option IntPtr) (k : Nat) :
    List Char → Option (List Char)
  | [] => some []
  | c :: format =>
    if c = nul then some []
    else if c ≠ '%' then (syslogPrintf str args k format).map (c :: ·)
    else
      let s := readSpec format
      if takesArg s.c then do
        let val ← args k
        let out ← putArg str s val
        (syslogPrintf str args (k + 1) s.format).map (out ++ ·)
      else if s.c = '%' then (syslogPrintf str args k s.format).map ('%' :: ·)
      -- `format--`
      else if s.c = nul then some []
      else syslogPrintf str args k s.format
termination_by format => format.length
decreasing_by
  · exact Nat.lt_succ_self _
  · exact Nat.lt_succ_of_le (readSpec_length _)
  · exact Nat.lt_succ_of_le (readSpec_length _)
  · exact Nat.lt_succ_of_le (readSpec_length _)

def LOG_TYPE_COMMENT : BitVec 32 := 0x01
def LOG_TYPE_ASSERT : BitVec 32 := 0x02

def syslogPrint (str : Addr → List Char) (p : SYSLOG) : Option (List Char) :=
  if p.logtype = LOG_TYPE_COMMENT then
    syslogPrintf str (fun k => p.loginfo[k]?) 1 (str p.loginfo[0])
  else if p.logtype = LOG_TYPE_ASSERT then
    syslogPrintf str (fun k => p.loginfo[k]?) 0 "%s:%u: Assertion `%s' failed.".toList
  else some []

section
variable {radix : BitVec 32} {radchar : List Char} {digit : Nat → Char} {val width : BitVec 32}
  {n : Nat}

/-- The loop puts the digits into `buf`, the lowest one first. -/
theorem convertLoop_eq (buf : Nat → Option Char) (i : Nat) (hr : 1 < radix.toNat)
    (hc : ∀ d < radix.toNat, radchar[d]? = some (digit d)) {ds : List Char}
    (hds : ds = (Numeral.low radix.toNat val.toNat).map digit)
    (hi : i + ds.length ≤ CONVERT_BUFLEN) (hn : ds.length ≤ n) :
    ∃ buf', convertLoop radix radchar n buf i val = some (buf', i + ds.length) ∧
      (∀ j < i, buf' j = buf j) ∧ ∀ j < ds.length, buf' (i + j) = ds[j]? := by
  induction n generalizing buf i val ds with
  | zero =>
    rw [hds, List.length_map] at hn
    exact absurd (List.length_eq_zero_iff.1 (Nat.le_zero.1 hn)) (Numeral.low_ne_nil _ _)
  | succ n ih =>
    have hmod : val.toNat % radix.toNat < radix.toNat := Nat.mod_lt _ (by omega)
    rw [Numeral.low_eq hr, List.map_cons] at hds
    have hilt : i < CONVERT_BUFLEN := by
      rw [hds, List.length_cons] at hi
      omega
    rw [convertLoop, BitVec.toNat_umod, hc _ hmod, Option.bind_eq_bind, Option.bind_some,
      if_pos hilt]
    have hz : val / radix = 0 ↔ val.toNat / radix.toNat = 0 := by
      rw [← BitVec.toNat_udiv, ← BitVec.toNat_inj]
      rfl
    by_cases h0 : val.toNat / radix.toNat = 0
    · rw [if_pos h0] at hds
      subst hds
      refine ⟨_, if_neg fun h => h.2 (hz.2 h0), fun j hj => ?_, fun j hj => ?_⟩
      · exact Function.update_of_ne (by omega) ..
      · obtain rfl : j = 0 := by
          simp only [List.map_nil, List.length_cons, List.length_nil] at hj
          omega
        exact Function.update_self ..
    · rw [if_neg h0, ← BitVec.toNat_udiv] at hds
      generalize hds' : (Numeral.low radix.toNat (val / radix).toNat).map digit = ds' at hds
      subst hds
      rw [List.length_cons] at hi hn ⊢
      have hpos : 0 < ds'.length := by
        rw [← hds', List.length_map]
        exact List.length_pos_iff.2 (Numeral.low_ne_nil _ _)
      obtain ⟨buf', hs, hlow, hhigh⟩ := ih
        (Function.update buf i (some (digit (val.toNat % radix.toNat)))) (i + 1) hds'.symm
        (by omega) (by omega)
      refine ⟨buf', ?_, fun j hj => ?_, fun j hj => ?_⟩
      · simp only
        rw [if_pos ⟨by omega, fun h => h0 (hz.1 h)⟩, hs]
        congr 2
        omega
      · rw [hlow j (by omega), Function.update_of_ne (by omega)]
      · cases j with
        | zero =>
          rw [Nat.add_zero, hlow i (by omega), Function.update_self]
          rfl
        | succ j =>
          rw [List.getElem?_cons_succ, ← hhigh j (by omega)]
          congr 1
          omega

theorem putBuf_eq {buf : Nat → Option Char} {ds : List Char} (h : ∀ j < ds.length, buf j = ds[j]?) :
    putBuf buf ds.length = some ds.reverse := by
  induction ds using List.reverseRecOn with
  | nil => rfl
  | append_singleton ds c ih =>
    rw [List.length_append, List.length_singleton] at h ⊢
    have hc := h ds.length (by omega)
    rw [List.getElem?_concat_length] at hc
    have hds := ih fun j hj => (h j (by omega)).trans (List.getElem?_append_left hj)
    rw [putBuf, hc, Option.bind_eq_bind, Option.bind_some, hds, Option.bind_eq_bind,
      Option.bind_some, List.reverse_append]
    rfl

/-- The sign takes one place of the width. -/
theorem width_eq (width : BitVec 32) (minus : Bool) :
    (if minus && width > 0 then width - 1 else width).toNat =
      width.toNat - (if minus then 1 else 0) := by
  cases minus with
  | false => rfl
  | true =>
    by_cases hw : width > 0
    · have hpos : 0 < width.toNat := BitVec.lt_def.1 hw
      have hone : (1 : BitVec 32).toNat = 1 := rfl
      rw [if_pos (by simpa using hw), BitVec.toNat_sub_of_le (BitVec.le_def.2 (hone.symm ▸ hpos))]
      rfl
    · have h0 : ¬ 0 < width.toNat := fun h => hw (BitVec.lt_def.2 h)
      rw [if_neg (by simpa using hw), if_pos rfl]
      omega

/-- What `convert` puts: nothing is cut off, and nothing is written outside `buf`. -/
theorem convert_eq (hr : 10 ≤ radix.toNat) (hc : ∀ d < radix.toNat, radchar[d]? = some (digit d))
    (minus padzero : Bool) :
    convert val radix radchar width minus padzero = some (Numeral.place minus padzero
      (width.toNat - (if minus then 1 else 0) -
        (Numeral.write radix.toNat digit val.toNat).length)
      (Numeral.write radix.toNat digit val.toNat)) := by
  have hone : 1 < radix.toNat := by omega
  have hval : val.toNat < radix.toNat ^ 10 :=
    calc val.toNat < 10 ^ 10 := val.isLt.trans (by decide)
      _ ≤ radix.toNat ^ 10 := Nat.pow_le_pow_left hr 10
  have hlen : (Numeral.low radix.toNat val.toNat).length ≤ 10 :=
    Numeral.low_length_le hone (by decide) hval
  have hbuf : CONVERT_BUFLEN = 11 := rfl
  generalize hds : (Numeral.low radix.toNat val.toNat).map digit = ds
  have hdslen : ds.length ≤ 10 := by rwa [← hds, List.length_map]
  obtain ⟨buf, hs, -, hbufs⟩ := convertLoop_eq (n := CONVERT_BUFLEN) (fun _ => none) 0 hone hc
    hds.symm (by omega) (by omega)
  have hput : putBuf buf (0 + ds.length) = some ds.reverse := by
    rw [Nat.zero_add]
    apply putBuf_eq
    intro j hj
    rw [← hbufs j hj, Nat.zero_add]
  have hwrite : Numeral.write radix.toNat digit val.toNat = ds.reverse := congrArg _ hds
  unfold convert
  rw [hs, Option.bind_eq_bind, Option.bind_some]
  simp only [hput, width_eq]
  rw [hwrite, List.length_reverse, Nat.zero_add]
  unfold Numeral.place
  cases padzero with
  | true =>
    cases minus with
    | true => simp
    | false => simp
  | false =>
    cases minus with
    | true => simp
    | false => simp

end

/-- The characters of `radchar` are the digits of the radix. -/
structure Radix (b : Nat) (radchar : List Char) : Prop where
  le : 10 ≤ b
  get : ∀ d < b, radchar[d]? = some (radchar.getD d '0')
  val : ∀ d < b, Numeral.digitVal b (radchar.getD d '0') = some d
  zero : radchar.getD 0 '0' = '0'

theorem radix_dec : Radix 10 raddec := ⟨by decide, by decide, by decide, by decide⟩
theorem radix_hex : Radix 16 radhex := ⟨by decide, by decide, by decide, by decide⟩
theorem radix_HEX : Radix 16 radHEX := ⟨by decide, by decide, by decide, by decide⟩

/-- The number that a conversion shows: its radix, its digits and its value. -/
def numberOf (c : Char) (val : IntPtr) : Option (Nat × List Char × Int) :=
  if c = 'd' then some (10, raddec, val.toInt)
  else if c = 'u' then some (10, raddec, val.toNat)
  else if c = 'x' ∨ c = 'p' then some (16, radhex, val.toNat)
  else if c = 'X' then some (16, radHEX, val.toNat)
  else none

/-- The digits of a number. -/
def numeral (b : Nat) (radchar : List Char) (value : Int) : List Char :=
  Numeral.write b (fun d => radchar.getD d '0') value.natAbs

/-- The place that the sign takes. -/
def signLen (value : Int) : Nat := if value < 0 then 1 else 0

section
variable {b : Nat} {radchar : List Char} {value : Int} {val : IntPtr} {s : Spec}

/-- `convert` for a number that is not negative, or for the absolute value of one that is. -/
theorem convert_numeral (hx : Radix b radchar) (hb : b < 2 ^ 32) (hv : val.toNat = value.natAbs)
    (width : BitVec 32) (padzero : Bool) :
    convert val (BitVec.ofNat 32 b) radchar width (decide (value < 0)) padzero =
      some (Numeral.place (decide (value < 0)) padzero
        (width.toNat - (signLen value + (numeral b radchar value).length))
        (numeral b radchar value)) := by
  have hn : (BitVec.ofNat 32 b).toNat = b := by
    rw [BitVec.toNat_ofNat, Nat.mod_eq_of_lt hb]
  have hc : ∀ d < (BitVec.ofNat 32 b).toNat, radchar[d]? = some (radchar.getD d '0') := by
    rw [hn]
    exact hx.get
  have hsign : (if decide (value < 0) = true then 1 else 0) = signLen value := by
    unfold signLen
    simp only [decide_eq_true_eq]
  rw [convert_eq (hn.symm ▸ hx.le) hc, hn, hv, hsign, Nat.sub_sub]
  rfl

theorem numberOf_cases (h : numberOf c val = some (b, radchar, value)) :
    Radix b radchar ∧ takesArg c = true ∧ isDig c = false ∧ c ≠ 'l' := by
  unfold numberOf at h
  split at h
  · rename_i hc
    cases h
    exact ⟨radix_dec, hc ▸ by decide⟩
  · split at h
    · rename_i hc
      cases h
      exact ⟨radix_dec, hc ▸ by decide⟩
    · split at h
      · rename_i hc
        cases h
        rcases hc with hc | hc
        · exact ⟨radix_hex, hc ▸ by decide⟩
        · exact ⟨radix_hex, hc ▸ by decide⟩
      · split at h
        · rename_i hc
          cases h
          exact ⟨radix_HEX, hc ▸ by decide⟩
        · cases h

theorem convert_unsigned (hx : Radix b radchar) (hb : b < 2 ^ 32) (val width : BitVec 32)
    (padzero : Bool) :
    convert val (BitVec.ofNat 32 b) radchar width false padzero =
      some (Numeral.place (decide ((val.toNat : Int) < 0)) padzero
        (width.toNat - (signLen val.toNat + (numeral b radchar val.toNat).length))
        (numeral b radchar val.toNat)) := by
  have hd : decide ((val.toNat : Int) < 0) = false := decide_eq_false (by omega)
  have hconv := convert_numeral hx hb (Int.natAbs_natCast val.toNat).symm width padzero
  rwa [hd] at hconv ⊢

/-- The most negative value has its absolute value as an unsigned number. -/
theorem convert_signed (hx : Radix b radchar) (hb : b < 2 ^ 32) (val width : BitVec 32)
    (padzero : Bool) :
    (if 0 ≤ val.toInt then convert val (BitVec.ofNat 32 b) radchar width false padzero
      else convert (-val) (BitVec.ofNat 32 b) radchar width true padzero) =
      some (Numeral.place (decide (val.toInt < 0)) padzero
        (width.toNat - (signLen val.toInt + (numeral b radchar val.toInt).length))
        (numeral b radchar val.toInt)) := by
  have hlt := val.isLt
  have hint := BitVec.toInt_eq_toNat_cond val
  split
  · rename_i hpos
    have hv : val.toNat = val.toInt.natAbs := by
      split at hint
      · omega
      · omega
    have hd : decide (val.toInt < 0) = false := decide_eq_false (Int.not_lt.2 hpos)
    have hconv := convert_numeral hx hb hv width padzero
    rwa [hd] at hconv ⊢
  · rename_i hneg
    have hv : (-val).toNat = val.toInt.natAbs := by
      rw [BitVec.toNat_neg]
      split at hint
      · omega
      · omega
    have hd : decide (val.toInt < 0) = true := decide_eq_true (Int.not_le.1 hneg)
    have hconv := convert_numeral hx hb hv width padzero
    rwa [hd] at hconv ⊢

/-- What is put for a number: its digits, and what fills the width. -/
theorem putArg_number (str : Addr → List Char) (h : numberOf s.c val = some (b, radchar, value)) :
    putArg str s val = some (Numeral.place (decide (value < 0)) s.padzero
      (s.width.toNat - (signLen value + (numeral b radchar value).length))
      (numeral b radchar value)) := by
  unfold numberOf at h
  unfold putArg
  split at h
  · rename_i hc
    cases h
    rw [if_pos hc]
    exact convert_signed radix_dec (by decide) ..
  · rename_i hd
    rw [if_neg hd]
    split at h
    · rename_i hc
      cases h
      rw [if_pos hc]
      exact convert_unsigned radix_dec (by decide) ..
    · rename_i hu
      rw [if_neg hu]
      split at h
      · rename_i hc
        cases h
        rw [if_pos hc]
        exact convert_unsigned radix_hex (by decide) ..
      · rename_i hx
        rw [if_neg hx]
        split at h
        · rename_i hc
          cases h
          rw [if_pos hc]
          exact convert_unsigned radix_HEX (by decide) ..
        · cases h

/-- The width that the digits of a conversion give is reduced to `uint_t`. -/
theorem width_of_digits {digits : List Char} {n w : Nat} (h : Numeral.readFrom 10 n digits = some w) :
    digits.foldl widthStep (BitVec.ofNat 32 n) = BitVec.ofNat 32 w ∧
      ∀ c ∈ digits, isDig c = true := by
  induction digits generalizing n with
  | nil =>
    cases h
    exact ⟨rfl, nofun⟩
  | cons c digits ih =>
    unfold Numeral.readFrom at h
    rw [List.foldlM_cons] at h
    obtain ⟨m, hm, h⟩ := Option.bind_eq_some_iff.1 h
    obtain ⟨d, hd, rfl⟩ := Option.map_eq_some_iff.1 hm
    obtain ⟨hfold, hall⟩ := ih h
    obtain ⟨hc, hcd⟩ := Numeral.digitVal_ten hd
    have hstep : widthStep (BitVec.ofNat 32 n) c = BitVec.ofNat 32 (n * 10 + d) := by
      unfold widthStep
      rw [hcd, BitVec.ofNat_add, BitVec.ofNat_add, BitVec.ofNat_mul, ← BitVec.add_assoc,
        add_right_comm, BitVec.add_sub_cancel]
      rfl
    refine ⟨?_, ?_⟩
    · rw [List.foldl_cons, hstep, hfold]
    · intro x hx
      rcases List.mem_cons.1 hx with rfl | hx
      · exact decide_eq_true hc
      · exact hall x hx

/-- What `syslog_printf` reads of a conversion: digits, an `l` and its character. -/
theorem readSpec_conv {digits format : List Char} (hd : ∀ x ∈ digits, isDig x = true)
    (hc : isDig c = false) (hl : c ≠ 'l') (l : Bool) :
    readSpec (digits ++ (if l then ['l'] else []) ++ c :: format) =
      ⟨decide (digits.head? = some '0'), digits.foldl widthStep 0, c, format⟩ := by
  have htail : (((if l then ['l'] else []) ++ c :: format).takeWhile isDig) = [] ∧
      (((if l then ['l'] else []) ++ c :: format).dropWhile isDig) =
        (if l then ['l'] else []) ++ c :: format := by
    cases l with
    | true => exact ⟨rfl, rfl⟩
    | false =>
      change (c :: format).takeWhile isDig = [] ∧ (c :: format).dropWhile isDig = c :: format
      rw [List.takeWhile_cons, List.dropWhile_cons, hc]
      exact ⟨rfl, rfl⟩
  have hskip : skipL ((if l then ['l'] else []) ++ c :: format) = (c, format) := by
    cases l with
    | true => rfl
    | false => exact if_neg hl
  rw [readSpec_eq, List.append_assoc, List.takeWhile_append_of_pos hd, htail.1, List.append_nil,
    List.dropWhile_append_of_pos hd, htail.2, hskip]

/-- The conversions of numbers: what is put reads back as the value, has no superfluous digit, fills the
width, and has its sign before zeros and behind blanks. -/
theorem syslogPrintf_number (str : Addr → List Char) (args : Nat → Option IntPtr) (k : Nat)
    {digits : List Char} {w : Nat} (hw : Numeral.readFrom 10 0 digits = some w) (hargs : args k = some val)
    (hnum : numberOf c val = some (b, radchar, value)) (l : Bool) (format : List Char) :
    ∃ out ds : List Char,
      syslogPrintf str args k ('%' :: (digits ++ (if l then ['l'] else []) ++ c :: format)) =
        (syslogPrintf str args (k + 1) format).map (out ++ ·) ∧
      out = Numeral.place (decide (value < 0)) (decide (digits.head? = some '0'))
        (w % 2 ^ 32 - (signLen value + ds.length)) ds ∧
      out.length = max (w % 2 ^ 32) (signLen value + ds.length) ∧
      Numeral.readInt b out = some value ∧ Numeral.read b ds = some value.natAbs ∧
      (ds = ['0'] ∨ ds.head? ≠ some '0') ∧ ∀ x ∈ ds, x ∈ radchar := by
  obtain ⟨hx, htakes, hdig, hl⟩ := numberOf_cases hnum
  obtain ⟨hwidth, hdigits⟩ := width_of_digits hw
  have hone : 1 < b := by
    have hle := hx.le
    omega
  have hzero : Numeral.digitVal b '0' = some 0 := hx.zero ▸ hx.val 0 (by omega)
  have hwn : (digits.foldl widthStep 0).toNat = w % 2 ^ 32 := by
    rw [show (0 : BitVec 32) = BitVec.ofNat 32 0 from rfl, hwidth, BitVec.toNat_ofNat]
  refine ⟨_, numeral b radchar value, ?_, rfl, ?_, ?_, ?_, ?_, ?_⟩
  · rw [syslogPrintf, if_neg (by decide), if_neg (by decide), readSpec_conv hdigits hdig hl]
    simp only [htakes, if_true, hargs, Option.bind_eq_bind, Option.bind_some]
    rw [putArg_number str hnum, Option.bind_some]
    simp only [hwn]
  · rw [Numeral.place_length]
    unfold signLen
    simp only [decide_eq_true_eq]
    omega
  · have hread := Numeral.readInt_place hone hx.val hzero (decide (value < 0))
      (decide (digits.head? = some '0'))
      (w % 2 ^ 32 - (signLen value + (numeral b radchar value).length)) value.natAbs
    refine hread.trans (congrArg some ?_)
    simp only [decide_eq_true_eq]
    omega
  · exact Numeral.readDigits_write hone hx.val hzero 0 value.natAbs
  · have hhead := Numeral.write_head hone hx.val value.natAbs
    rw [hx.zero] at hhead
    exact hhead
  · intro x hm
    obtain ⟨d, hd, rfl⟩ := Numeral.write_mem hone hm
    exact List.mem_of_getElem? (hx.get d hd)

/-- The most negative value in a field that is filled with zeros. -/
theorem syslogPrintf_number_min : Numeral.readFrom 10 0 ['0', '1', '2'] = some 12 ∧
    ∃ out ds : List Char,
      syslogPrintf (fun _ => []) (fun _ => some 0x80000000) 0 ['%', '0', '1', '2', 'l', 'd'] =
        (syslogPrintf (fun _ => []) (fun _ => some 0x80000000) 1 []).map (out ++ ·) ∧
      out = Numeral.place true true (12 - (1 + ds.length)) ds ∧
      out.length = max 12 (1 + ds.length) ∧ Numeral.readInt 10 out = some (-2147483648) := by
  have h : Numeral.readFrom 10 0 ['0', '1', '2'] = some 12 := by decide
  obtain ⟨out, ds, hs, hout, hlen, hread, -⟩ := syslogPrintf_number (c := 'd') (fun _ => [])
    (fun _ => some 0x80000000) 0 h rfl rfl true []
  exact ⟨h, out, ds, hs, hout, hlen, hread⟩

end

end AspKernel
