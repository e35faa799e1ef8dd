import AspKernel.StaticApi
import Mathlib.Data.List.DropRight

/-! A line of an S-record file. -/

namespace AspKernel.Toppers.SRecord
set_option autoImplicit true
open Itronx (Str isSpace)

/-- `format_error`, the error of a vector that is to be too long, and a position that the string does not have. -/
inductive Err
  | formatError
  | lengthError
  | outside
  deriving DecidableEq, Repr

/-- `s_record::record` -/
structure Record where
  type : Char
  length : Int
  address : BitVec 64
  data : List (BitVec 8)
  checksum : Int
  deriving DecidableEq, Repr

/-- `buf[i]` -/
def get (buf : Str) (i : Nat) : Except Err Char :=
  match buf[i]? with
  | none => .error .outside
  | some c => .ok c

/-- `std::strchr`: the null character at the end of a string is found too. -/
def strchr (s : Str) (c : Char) : Option Nat := (s ++ ['\x00']).idxOf? c

def xdigitToInt (ch : Char) : BitVec 32 :=
  match strchr "0123456789abcdef".toList ch.toLower with
  | none => -1
  | some i => BitVec.ofNat 32 i

/-- Two digits as they are put together. -/
def pair (hi lo : Char) : BitVec 32 := xdigitToInt hi <<< 4 ||| xdigitToInt lo

/-- The first loop of `read_record`, of a line from its end on. -/
def trim : Str → Except Err Str
  | [] => .error .outside
  | c :: l => if isSpace c then trim l else .ok (c :: l).reverse

def addressLength (ch : Char) : Except Err Nat :=
  if ch = '1' ∨ ch = '9' then .ok 4
  else if ch = '2' ∨ ch = '8' then .ok 6
  else if ch = '3' ∨ ch = '7' then .ok 8
  else if !ch.isDigit then .error .formatError
  else .ok 4

def readAddress (buf : Str) : Nat → Nat → BitVec 64 → Except Err (BitVec 64)
  | _, 0, address => .ok address
  | base, n + 1, address => do
    let c ← get buf base
    readAddress buf (base + 1) n (address <<< 4 ||| (xdigitToInt c).signExtend 64)

def readData (buf : Str) : Nat → Nat → List (BitVec 8) → Except Err (List (BitVec 8))
  | _, 0, data => .ok data
  | base, n + 1, data => do
    let hi ← get buf base
    let lo ← get buf (base + 1)
    readData buf (base + 2) n (data ++ [(pair hi lo).setWidth 8])

/-- `std::vector::reserve` of an `int` -/
def reserve (length : BitVec 32) : Except Err Unit :=
  if length.toInt < 0 then .error .lengthError else .ok ()

/-- `read_record` behind its checks. -/
def readFields (buf : Str) (ch : Char) (addressLength : Nat) (length : BitVec 32) : Except Err Record := do
  let length := length - BitVec.ofNat 32 (addressLength / 2 + 1)
  let address ← readAddress buf 4 addressLength 0
  reserve length
  let data ← readData buf (4 + addressLength) length.toNat []
  let hi ← get buf (buf.length - 2)
  let lo ← get buf (buf.length - 1)
  return ⟨ch, length.toInt, address, data, (pair hi lo).toInt⟩

def readTrimmed (buf : Str) : Except Err Record :=
  if buf.length < 10 ∨ buf[0]? ≠ some 'S' then .error .formatError
  else do
    let ch ← get buf 1
    let addressLength ← addressLength ch
    let hi ← get buf 2
    let lo ← get buf 3
    let length := pair hi lo
    if (length * 2 + 4).toNat ≠ buf.length then .error .formatError
    else readFields buf ch addressLength length

def readRecord (recBuf : Str) : Except Err Record := do
  let buf ← trim recBuf.reverse
  readTrimmed buf

/-- The bytes of an address. -/
def addressBytes (ch : Char) : Nat :=
  if ch = '2' ∨ ch = '8' then 3 else if ch = '3' ∨ ch = '7' then 4 else 2

/-- The parts of a well-formed line. -/
structure Fields (buf : Str) (ch : Char) (digits : Str) (count : Nat) : Prop where
  line : buf = 'S' :: ch :: digits
  type : ch.isDigit
  hex : ∀ c ∈ digits, (Numeral.digitVal 16 c).isSome
  length : digits.length = 2 * (1 + count)
  enough : addressBytes ch + 1 ≤ count
  read : Numeral.read 16 (digits.take 2) = some count

def WellFormed (buf : Str) : Prop := ∃ ch digits count, Fields buf ch digits count

/-- What a record has of the digits it is read from. -/
structure Values (r : Record) (ch : Char) (digits : Str) (count : Nat) : Prop where
  type : r.type = ch
  length : r.length = r.data.length
  size : r.data.length = count - addressBytes ch - 1
  address : Numeral.read 16 ((digits.drop 2).take (2 * addressBytes ch)) = some r.address.toNat
  data : ∀ i (h : i < r.data.length),
    Numeral.read 16 ((digits.drop (2 + 2 * addressBytes ch + 2 * i)).take 2) = some r.data[i].toNat

/-- A line without its trailing white space. -/
def trimmed (recBuf : Str) : Str := recBuf.rdropWhile isSpace

/-- The lines that the checks let pass. -/
structure Checked (ch hi lo : Char) (rest : Str) : Prop where
  type : ch.isDigit
  long : 6 ≤ rest.length
  count : (pair hi lo * 2 + 4).toNat = rest.length + 4

theorem trim_reverse (s : Str) :
    trim s.reverse = if trimmed s = [] then .error .outside else .ok (trimmed s) := by
  unfold trimmed List.rdropWhile
  induction s.reverse with
  | nil => rfl
  | cons c l ih =>
    unfold trim
    by_cases hc : isSpace c = true
    · rw [if_pos hc, ih]
      simp only [List.dropWhile_cons_of_pos hc]
    · rw [if_neg hc]
      simp [List.dropWhile_cons_of_neg hc]

theorem addressLength_eq (h : ch.isDigit = true) : addressLength ch = .ok (2 * addressBytes ch) := by
  unfold addressLength addressBytes
  split
  · rename_i h1
    rcases h1 with rfl | rfl
    · rfl
    · rfl
  · split
    · rfl
    · split
      · rfl
      · rw [h]
        rfl

theorem addressLength_error (h : ch.isDigit = false) : addressLength ch = .error .formatError := by
  have hne (c : Char) (hc : c.isDigit = true) : ch ≠ c := by
    rintro rfl
    cases h.symm.trans hc
  unfold addressLength
  rw [if_neg fun hd => hd.elim (hne '1' rfl) (hne '9' rfl), if_neg fun hd => hd.elim (hne '2' rfl) (hne '8' rfl),
    if_neg fun hd => hd.elim (hne '3' rfl) (hne '7' rfl), h]
  rfl

theorem shift_or (w m k : Nat) (hd : d < 2 ^ k) :
    BitVec.ofNat w m <<< k ||| BitVec.ofNat w d = BitVec.ofNat w (m * 2 ^ k + d) := by
  have hbit (i : Nat) (hi : ¬i < k) : d.testBit i = false := by
    apply Nat.testBit_lt_two_pow
    calc d < 2 ^ k := hd
      _ ≤ 2 ^ i := Nat.pow_le_pow_right (by decide) (Nat.not_lt.1 hi)
  have hand : BitVec.ofNat w m <<< k &&& BitVec.ofNat w d = 0#w := by
    apply BitVec.eq_of_getLsbD_eq
    intro i hw
    rw [BitVec.getLsbD_and, BitVec.getLsbD_shiftLeft, BitVec.getLsbD_ofNat w d, BitVec.getLsbD_zero]
    by_cases hi : i < k
    · simp [hi]
    · simp [hbit i hi]
  rw [← BitVec.add_eq_or_of_and_eq_zero _ _ hand]
  apply BitVec.eq_of_toNat_eq
  rw [BitVec.toNat_add, BitVec.toNat_shiftLeft, BitVec.toNat_ofNat, BitVec.toNat_ofNat, BitVec.toNat_ofNat,
    Nat.shiftLeft_eq, Nat.mod_mul_mod, ← Nat.add_mod]

/-- A run of digits in the order of their characters. -/
theorem xdigitToInt_run (hall : ∀ i < n, xdigitToInt (Char.ofNat (a.toNat + i)) = BitVec.ofNat 32 (i + v))
    (ha : a ≤ c) (hb : c ≤ b) (hn : b.toNat < a.toNat + n) :
    xdigitToInt c = BitVec.ofNat 32 (c.toNat - a.toNat + v) := by
  have hle : a.toNat ≤ c.toNat := UInt32.le_iff_toNat_le.1 ha
  have hge : c.toNat ≤ b.toNat := UInt32.le_iff_toNat_le.1 hb
  have hc := hall (c.toNat - a.toNat) (by omega)
  rwa [Nat.add_sub_cancel' hle, Char.ofNat_toNat] at hc

/-- A digit of either case has its value. -/
theorem xdigitToInt_eq (h : Numeral.digitVal 16 c = some d) : d < 16 ∧ xdigitToInt c = BitVec.ofNat 32 d := by
  unfold Numeral.digitVal at h
  obtain ⟨hlt, hd⟩ := Option.ite_none_right_eq_some.1 h
  cases hd
  apply And.intro hlt
  by_cases h1 : '0' ≤ c ∧ c ≤ '9'
  · rw [if_pos h1]
    exact xdigitToInt_run (n := 10) (v := 0) (by decide) h1.1 h1.2 (by decide)
  · rw [if_neg h1]
    by_cases h2 : 'a' ≤ c ∧ c ≤ 'f'
    · rw [if_pos h2]
      exact xdigitToInt_run (n := 6) (by decide) h2.1 h2.2 (by decide)
    · rw [if_neg h2]
      by_cases h3 : 'A' ≤ c ∧ c ≤ 'F'
      · rw [if_pos h3]
        exact xdigitToInt_run (n := 6) (by decide) h3.1 h3.2 (by decide)
      · rw [if_neg h1, if_neg h2, if_neg h3] at hlt
        exact absurd hlt (Nat.lt_irrefl 16)

theorem readFrom_cons (h : Numeral.readFrom 16 m (c :: l) = some v) :
    ∃ d, Numeral.digitVal 16 c = some d ∧ Numeral.readFrom 16 (m * 16 + d) l = some v := by
  unfold Numeral.readFrom at h
  rw [List.foldlM_cons] at h
  obtain ⟨n, hn, hl⟩ := Option.bind_eq_some_iff.1 h
  obtain ⟨d, hd, rfl⟩ := Option.map_eq_some_iff.1 hn
  exact ⟨d, hd, hl⟩

theorem read_two (hi lo : Char) (hh : (Numeral.digitVal 16 hi).isSome) (hl : (Numeral.digitVal 16 lo).isSome) :
    ∃ n < 256, Numeral.read 16 [hi, lo] = some n ∧ pair hi lo = BitVec.ofNat 32 n := by
  obtain ⟨h, hh⟩ := Option.isSome_iff_exists.1 hh
  obtain ⟨l, hl⟩ := Option.isSome_iff_exists.1 hl
  obtain ⟨hlt, hx⟩ := xdigitToInt_eq hh
  obtain ⟨llt, lx⟩ := xdigitToInt_eq hl
  refine ⟨h * 16 + l, by omega, ?_, ?_⟩
  · unfold Numeral.read Numeral.readFrom
    simp [hh, hl]
  · unfold pair
    exact hx ▸ lx ▸ shift_or 32 h 4 llt

/-- A count is not too large for the check of the length. -/
theorem pair_toNat (hpair : pair hi lo = BitVec.ofNat 32 n) (h : n < 256) :
    (pair hi lo).toNat = n ∧ (pair hi lo * 2 + 4).toNat = n * 2 + 4 := by
  have hn : (pair hi lo).toNat = n := by
    rw [hpair, BitVec.toNat_ofNat]
    omega
  apply And.intro hn
  rw [BitVec.toNat_add, BitVec.toNat_mul, hn]
  simp
  omega

theorem addressBytes_bounds (ch : Char) : 2 ≤ addressBytes ch ∧ addressBytes ch ≤ 4 := by
  unfold addressBytes
  split
  · decide
  · split
    · decide
    · decide

section
variable {buf l rest : Str}

theorem ok_bind (a : α) (f : α → Except Err β) : (Except.ok a >>= f) = f a := rfl

theorem get_eq (h : buf.drop i = c :: l) : get buf i = .ok c ∧ buf.drop (i + 1) = l := by
  have hi : buf[i]? = some c := by
    rw [← List.head?_drop, h]
    rfl
  constructor
  · unfold get
    rw [hi]
  · rw [← List.drop_drop, h]
    rfl

theorem readAddress_eq (h : buf.drop base = l ++ rest) (hv : Numeral.readFrom 16 m l = some v) :
    readAddress buf base l.length (BitVec.ofNat 64 m) = .ok (BitVec.ofNat 64 v) := by
  induction l generalizing base m with
  | nil =>
    cases hv
    rfl
  | cons c l ih =>
    obtain ⟨d, hd, hv⟩ := readFrom_cons hv
    obtain ⟨hget, hdrop⟩ := get_eq h
    obtain ⟨hlt, hx⟩ := xdigitToInt_eq hd
    have hsign : (xdigitToInt c).signExtend 64 = BitVec.ofNat 64 d := by
      rw [hx]
      have hall : ∀ d < 16, (BitVec.ofNat 32 d).signExtend 64 = BitVec.ofNat 64 d := by decide
      exact hall d hlt
    change readAddress buf base (l.length + 1) _ = _
    unfold readAddress
    rw [hget, ok_bind, hsign, shift_or 64 m 4 hlt]
    exact ih hdrop hv

theorem readData_eq (h : buf.drop base = l ++ rest) (hl : l.length = 2 * n)
    (hhex : ∀ c ∈ l, (Numeral.digitVal 16 c).isSome) (acc : List (BitVec 8)) :
    ∃ data, readData buf base n acc = .ok (acc ++ data) ∧ data.length = n ∧
      ∀ i (h : i < data.length), Numeral.read 16 ((l.drop (2 * i)).take 2) = some data[i].toNat := by
  induction n generalizing base l acc with
  | zero => exact ⟨[], by rw [List.append_nil]; rfl, rfl, fun i hi => absurd hi (Nat.not_lt_zero i)⟩
  | succ n ih =>
    match l, hl with
    | hi :: lo :: l, hl =>
      obtain ⟨hhi, hdrop⟩ := get_eq h
      obtain ⟨hlo, hdrop⟩ := get_eq hdrop
      obtain ⟨v, hv, hread, hpair⟩ := read_two hi lo (hhex _ List.mem_cons_self)
        (hhex _ (List.mem_cons_of_mem _ List.mem_cons_self))
      have hlen : l.length = 2 * n := by
        simp only [List.length_cons] at hl
        omega
      obtain ⟨data, hdata, hsize, hval⟩ := ih hdrop hlen
        (fun c hc => hhex c (List.mem_cons_of_mem _ (List.mem_cons_of_mem _ hc)))
        (acc ++ [(pair hi lo).setWidth 8])
      refine ⟨(pair hi lo).setWidth 8 :: data, ?_, congrArg (· + 1) hsize, ?_⟩
      · unfold readData
        rw [hhi, ok_bind, hlo, ok_bind, hdata, List.append_assoc]
        rfl
      · intro i hlt
        cases i with
        | zero =>
          have hval : ((pair hi lo).setWidth 8).toNat = v := by
            rw [hpair, BitVec.toNat_setWidth, BitVec.toNat_ofNat]
            omega
          exact hread.trans (congrArg some hval.symm)
        | succ i => exact hval i (Nat.lt_of_succ_lt_succ hlt)

end

theorem Fields.checked (h : Fields buf ch digits count) :
    ∃ hi lo rest, digits = hi :: lo :: rest ∧ pair hi lo = BitVec.ofNat 32 count ∧ count < 256 ∧
      Checked ch hi lo rest := by
  have hlen := h.length
  have henough := h.enough
  have hbytes := addressBytes_bounds ch
  match digits, h with
  | [], h => cases h.read
  | [c], h =>
    rw [List.length_singleton] at hlen
    omega
  | hi :: lo :: rest, h =>
    obtain ⟨n, hn, hread, hpair⟩ := read_two hi lo (h.hex _ List.mem_cons_self)
      (h.hex _ (List.mem_cons_of_mem _ List.mem_cons_self))
    cases Option.some.inj (hread.symm.trans h.read)
    simp only [List.length_cons] at hlen
    exact ⟨hi, lo, rest, rfl, hpair, hn, h.type, by omega, by rw [(pair_toNat hpair hn).2]; omega⟩

theorem readFrom_isSome (h : ∀ c ∈ l, (Numeral.digitVal 16 c).isSome) (m : Nat) :
    ∃ v, Numeral.readFrom 16 m l = some v ∧ v < (m + 1) * 16 ^ l.length := by
  induction l generalizing m with
  | nil => exact ⟨m, rfl, by simp⟩
  | cons c l ih =>
    obtain ⟨d, hd⟩ := Option.isSome_iff_exists.1 (h c List.mem_cons_self)
    obtain ⟨v, hv, hlt⟩ := ih (fun c hc => h c (List.mem_cons_of_mem _ hc)) (m * 16 + d)
    refine ⟨v, ?_, ?_⟩
    · unfold Numeral.readFrom at hv ⊢
      rw [List.foldlM_cons, hd]
      exact hv
    · have hle : m * 16 + d + 1 ≤ (m + 1) * 16 := by
        have := (xdigitToInt_eq hd).1
        omega
      calc v < (m * 16 + d + 1) * 16 ^ l.length := hlt
        _ ≤ (m + 1) * 16 * 16 ^ l.length := Nat.mul_le_mul_right _ hle
        _ = (m + 1) * 16 ^ (c :: l).length := by rw [List.length_cons, Nat.pow_succ]; ring

/-- What is read of a well-formed line. -/
theorem Fields.readFields_eq (h : Fields buf ch digits count) :
    ∃ r, readFields buf ch (2 * addressBytes ch) (BitVec.ofNat 32 count) = .ok r ∧ Values r ch digits count := by
  obtain ⟨hi, lo, rest, rfl, hpair, hlt, hch⟩ := h.checked
  have hlen := h.length
  have henough := h.enough
  simp only [List.length_cons] at hlen
  have hdrop : buf.drop 4 = rest := by
    rw [h.line]
    rfl
  have hhex : ∀ c ∈ rest, (Numeral.digitVal 16 c).isSome := fun c hc =>
    h.hex c (List.mem_cons_of_mem _ (List.mem_cons_of_mem _ hc))
  have hbytes := addressBytes_bounds ch
  -- the address, the data and the checksum
  obtain ⟨v, hv, hvlt⟩ := readFrom_isSome (fun c hc => hhex c (List.mem_of_mem_take hc)) 0
    (l := rest.take (2 * addressBytes ch))
  have htake : (rest.take (2 * addressBytes ch)).length = 2 * addressBytes ch := by
    rw [List.length_take]
    omega
  have haddr := readAddress_eq (hdrop.trans (List.take_append_drop _ _).symm) hv
  rw [htake] at haddr
  have hnarrow : (BitVec.ofNat 32 count - BitVec.ofNat 32 (2 * addressBytes ch / 2 + 1)) =
      BitVec.ofNat 32 (count - addressBytes ch - 1) := by
    apply BitVec.eq_of_toNat_eq
    rw [BitVec.toNat_sub, BitVec.toNat_ofNat, BitVec.toNat_ofNat, BitVec.toNat_ofNat]
    omega
  have hsplit : buf.drop (4 + 2 * addressBytes ch) =
      (rest.drop (2 * addressBytes ch)).take (2 * (count - addressBytes ch - 1)) ++
        (rest.drop (2 * addressBytes ch)).drop (2 * (count - addressBytes ch - 1)) := by
    rw [List.take_append_drop, ← hdrop, List.drop_drop]
  have hlong : ((rest.drop (2 * addressBytes ch)).take (2 * (count - addressBytes ch - 1))).length =
      2 * (count - addressBytes ch - 1) := by
    rw [List.length_take, List.length_drop]
    omega
  have hdata := readData_eq hsplit hlong
    (fun c hc => hhex c (List.mem_of_mem_drop (List.mem_of_mem_take hc))) []
  obtain ⟨data, hdata, hsize, hval⟩ := hdata
  have hn : (BitVec.ofNat 32 (count - addressBytes ch - 1)).toNat = count - addressBytes ch - 1 := by
    rw [BitVec.toNat_ofNat]
    omega
  have hint : (BitVec.ofNat 32 (count - addressBytes ch - 1)).toInt = (count - addressBytes ch - 1 : Nat) := by
    rw [BitVec.toInt_eq_toNat_of_lt (by omega), hn]
  have hsum (i : Nat) (hi : i < buf.length) : ∃ c, get buf i = .ok c :=
    ⟨buf[i], (get_eq (List.drop_eq_getElem_cons hi)).1⟩
  have hbuf : buf.length = count * 2 + 4 := by
    rw [h.line]
    simp only [List.length_cons]
    omega
  obtain ⟨c1, hc1⟩ := hsum (buf.length - 2) (by omega)
  obtain ⟨c2, hc2⟩ := hsum (buf.length - 1) (by omega)
  refine ⟨⟨ch, ((count - addressBytes ch - 1 : Nat) : Int), BitVec.ofNat 64 v, data, (pair c1 c2).toInt⟩, ?_, ?_⟩
  · unfold readFields
    dsimp only
    rw [hnarrow]
    change (readAddress buf 4 _ (BitVec.ofNat 64 0) >>= _) = _
    rw [haddr, ok_bind]
    unfold reserve
    rw [if_neg (by rw [hint]; omega), ok_bind, hn, hdata, ok_bind, hc1, ok_bind, hc2, ok_bind, hint]
    rfl
  · constructor
    · rfl
    · exact congrArg Nat.cast hsize.symm
    · exact hsize
    · have hne : rest.take (2 * addressBytes ch) ≠ [] := by
        intro h0
        rw [h0] at htake
        simp only [List.length_nil] at htake
        omega
      have hfit : v < 2 ^ 64 := by
        calc v < (0 + 1) * 16 ^ (2 * addressBytes ch) := htake ▸ hvlt
          _ ≤ 1 * 16 ^ 8 := Nat.mul_le_mul_left _ (Nat.pow_le_pow_right (by decide) (by omega))
          _ ≤ 2 ^ 64 := by decide
      change (if rest.take (2 * addressBytes ch) = [] then none
        else Numeral.readFrom 16 0 (rest.take (2 * addressBytes ch))) = _
      rw [if_neg hne, hv, BitVec.toNat_ofNat, Nat.mod_eq_of_lt hfit]
    · intro i hi
      have hread := hval i hi
      change i < data.length at hi
      rw [List.drop_take, List.take_take, List.drop_drop, Nat.min_eq_left (by omega)] at hread
      rw [Nat.add_assoc, ← List.drop_drop]
      exact hread

theorem Checked.readTrimmed_eq (h : Checked ch hi lo rest) :
    readTrimmed ('S' :: ch :: hi :: lo :: rest) =
      readFields ('S' :: ch :: hi :: lo :: rest) ch (2 * addressBytes ch) (pair hi lo) := by
  have hlong := h.long
  unfold readTrimmed
  rw [if_neg]
  · change (do
      let addressLength ← addressLength ch
      if (pair hi lo * 2 + 4).toNat ≠ rest.length + 4 then Except.error .formatError
      else readFields ('S' :: ch :: hi :: lo :: rest) ch addressLength (pair hi lo)) = _
    rw [addressLength_eq h.type, ok_bind, if_neg (not_not_intro h.count)]
  · intro hor
    rcases hor with hor | hor
    · simp only [List.length_cons] at hor
      omega
    · exact hor rfl

/-- A line that passes the checks is read if the count and the digits are as they have to be. -/
theorem Checked.readFields_ok (h : Checked ch hi lo rest)
    (hhex : ∀ c ∈ hi :: lo :: rest, (Numeral.digitVal 16 c).isSome)
    (henough : addressBytes ch + 1 ≤ (pair hi lo).toNat) :
    ∃ r, readFields ('S' :: ch :: hi :: lo :: rest) ch (2 * addressBytes ch) (pair hi lo) = .ok r ∧
      ∃ count, Fields ('S' :: ch :: hi :: lo :: rest) ch (hi :: lo :: rest) count ∧
        Values r ch (hi :: lo :: rest) count := by
  obtain ⟨count, hlt, hread, hpair⟩ := read_two hi lo (hhex _ List.mem_cons_self)
    (hhex _ (List.mem_cons_of_mem _ List.mem_cons_self))
  obtain ⟨hn, hcount⟩ := pair_toNat hpair hlt
  have hlen := h.count
  have hf : Fields ('S' :: ch :: hi :: lo :: rest) ch (hi :: lo :: rest) count := {
    line := rfl
    type := h.type
    hex := hhex
    length := by
      simp only [List.length_cons]
      omega
    enough := hn ▸ henough
    read := hread }
  obtain ⟨r, hr, hval⟩ := hf.readFields_eq
  rw [← hpair] at hr
  exact ⟨r, hr, count, hf, hval⟩

/-- A well-formed line is read. -/
theorem Fields.readRecord_eq (h : Fields (trimmed recBuf) ch digits count) :
    ∃ r, readRecord recBuf = .ok r ∧ Values r ch digits count := by
  obtain ⟨hi, lo, rest, rfl, hpair, -, hch⟩ := h.checked
  obtain ⟨r, hr, hval⟩ := h.readFields_eq
  refine ⟨r, ?_, hval⟩
  have hne : trimmed recBuf ≠ [] := by
    rw [h.line]
    exact List.cons_ne_nil _ _
  unfold readRecord
  rw [trim_reverse, if_neg hne, ok_bind]
  rw [h.line] at hr ⊢
  rw [hch.readTrimmed_eq, hpair, hr]

/-- A line that the checks do not let pass is refused. -/
theorem readTrimmed_unchecked
    (h : ∀ ch hi lo rest, buf = 'S' :: ch :: hi :: lo :: rest → ¬Checked ch hi lo rest) :
    readTrimmed buf = .error .formatError := by
  unfold readTrimmed
  split
  · rfl
  · rename_i hor
    obtain ⟨hlong, hS⟩ := not_or.1 hor
    match buf, hlong, hS with
    | [], hlong, _ => exact absurd (by decide) hlong
    | [_], hlong, _ => exact absurd (Nat.succ_lt_succ (Nat.zero_lt_succ 8)) hlong
    | [_, _], hlong, _ => exact absurd (Nat.succ_lt_succ (Nat.succ_lt_succ (Nat.zero_lt_succ 7))) hlong
    | [_, _, _], hlong, _ =>
      exact absurd (Nat.succ_lt_succ (Nat.succ_lt_succ (Nat.succ_lt_succ (Nat.zero_lt_succ 6)))) hlong
    | c :: ch :: hi :: lo :: rest, hlong, hS =>
      cases Option.some.inj (not_not.1 hS)
      change (do
        let addressLength ← addressLength ch
        if (pair hi lo * 2 + 4).toNat ≠ rest.length + 4 then Except.error .formatError
        else readFields ('S' :: ch :: hi :: lo :: rest) ch addressLength (pair hi lo)) = _
      cases hd : ch.isDigit with
      | false =>
        rw [addressLength_error hd]
        rfl
      | true =>
        rw [addressLength_eq hd, ok_bind, if_pos]
        intro hcount
        simp only [List.length_cons] at hlong
        exact h ch hi lo rest rfl ⟨hd, by omega, hcount⟩

/-- Behind the checks no line is refused for its form. -/
theorem bind_ne_formatError {x : Except Err α} {f : α → Except Err β} (hx : x ≠ .error .formatError)
    (hf : ∀ a, f a ≠ .error .formatError) : x >>= f ≠ .error .formatError := by
  cases x with
  | error e =>
    intro h
    exact hx (congrArg Except.error (Except.error.inj h))
  | ok a => exact hf a

theorem get_ne_formatError : get buf i ≠ .error .formatError := by
  unfold get
  split
  · intro h
    cases h
  · intro h
    cases h

theorem readAddress_ne_formatError : readAddress buf base n address ≠ .error .formatError := by
  induction n generalizing base address with
  | zero =>
    intro h
    cases h
  | succ n ih =>
    unfold readAddress
    apply bind_ne_formatError get_ne_formatError
    intro c
    exact ih

theorem readData_ne_formatError : readData buf base n data ≠ .error .formatError := by
  induction n generalizing base data with
  | zero =>
    intro h
    cases h
  | succ n ih =>
    unfold readData
    apply bind_ne_formatError get_ne_formatError
    intro hi
    apply bind_ne_formatError get_ne_formatError
    intro lo
    exact ih

theorem reserve_ne_formatError : reserve length ≠ .error .formatError := by
  unfold reserve
  split
  · intro h
    cases h
  · intro h
    cases h

theorem readFields_ne_formatError : readFields buf ch n length ≠ .error .formatError := by
  unfold readFields
  apply bind_ne_formatError readAddress_ne_formatError
  intro address
  apply bind_ne_formatError reserve_ne_formatError
  intro _
  apply bind_ne_formatError readData_ne_formatError
  intro data
  apply bind_ne_formatError get_ne_formatError
  intro hi
  apply bind_ne_formatError get_ne_formatError
  intro lo h
  cases h

/-- A line is refused where it is not well formed, and else read by its digits. -/
def ReadExactly (recBuf : Str) : Prop :=
  match readRecord recBuf with
  | .error .formatError => ¬WellFormed (trimmed recBuf)
  | .error _ => False
  | .ok r => ∃ ch digits count, Fields (trimmed recBuf) ch digits count ∧ Values r ch digits count

/-- A line is read as it should be unless it is all white space, or passes the checks with a count that is too small
or with characters that are no digits. -/
theorem readRecord_exact (s : Str) : ReadExactly s ↔ trimmed s ≠ [] ∧
    ∀ ch hi lo rest, trimmed s = 'S' :: ch :: hi :: lo :: rest → Checked ch hi lo rest →
      (∀ c ∈ hi :: lo :: rest, (Numeral.digitVal 16 c).isSome) ∧ addressBytes ch + 1 ≤ (pair hi lo).toNat := by
  unfold ReadExactly readRecord
  rw [trim_reverse]
  by_cases hnil : trimmed s = []
  · rw [if_pos hnil]
    exact iff_of_false id fun h => h.1 hnil
  rw [if_neg hnil, ok_bind]
  by_cases hcheck : ∃ ch hi lo rest, trimmed s = 'S' :: ch :: hi :: lo :: rest ∧ Checked ch hi lo rest
  · obtain ⟨ch, hi, lo, rest, hline, hch⟩ := hcheck
    rw [hline, hch.readTrimmed_eq]
    constructor
    · intro h
      refine ⟨List.cons_ne_nil _ _, fun ch' hi' lo' rest' hline' hch' => ?_⟩
      cases hline'
      cases hr : readFields ('S' :: ch :: hi :: lo :: rest) ch (2 * addressBytes ch) (pair hi lo) with
      | error e =>
        rw [hr] at h
        cases e with
        | formatError => exact absurd hr readFields_ne_formatError
        | lengthError => exact h.elim
        | outside => exact h.elim
      | ok r =>
        rw [hr] at h
        obtain ⟨ch', digits, count, hf, -⟩ := h
        obtain ⟨hi', lo', rest', rfl, hpair, hlt, -⟩ := hf.checked
        cases hf.line
        apply And.intro hf.hex
        rw [(pair_toNat hpair hlt).1]
        exact hf.enough
    · intro h
      obtain ⟨hhex, henough⟩ := h.2 ch hi lo rest rfl hch
      obtain ⟨r, hr, count, hf, hval⟩ := hch.readFields_ok hhex henough
      rw [hr]
      exact ⟨ch, _, count, hf, hval⟩
  · have hno : ∀ ch hi lo rest, trimmed s = 'S' :: ch :: hi :: lo :: rest → ¬Checked ch hi lo rest :=
      fun ch hi lo rest hline hch => hcheck ⟨ch, hi, lo, rest, hline, hch⟩
    rw [readTrimmed_unchecked hno]
    apply iff_of_true
    · rintro ⟨ch, digits, count, hf⟩
      obtain ⟨hi, lo, rest, rfl, -, -, hch⟩ := hf.checked
      exact hno ch hi lo rest hf.line hch
    · exact ⟨hnil, fun ch hi lo rest hline hch => absurd hch (hno ch hi lo rest hline)⟩

/-- An empty line with a carriage return, counts that are smaller than the address, and a digit that is none. -/
theorem not_readRecord : readRecord ['\r'] = .error .outside ∧ ¬ReadExactly ['\r'] ∧
    readRecord "S303000000".toList = .error .outside ∧ ¬ReadExactly "S303000000".toList ∧
    readRecord "S203000000".toList = .error .lengthError ∧ ¬ReadExactly "S203000000".toList ∧
    readRecord "S104000G00FB".toList = .ok ⟨'1', 1, 0xffffffffffffffff#64, [0], 251⟩ ∧
    ¬ReadExactly "S104000G00FB".toList := by
  have hread : readRecord "S104000G00FB".toList = .ok ⟨'1', 1, 0xffffffffffffffff#64, [0], 251⟩ := by decide
  refine ⟨by decide, id, by decide, id, by decide, id, hread, fun h => ?_⟩
  unfold ReadExactly at h
  rw [hread] at h
  obtain ⟨ch, digits, count, hf, -⟩ := h
  have hline : 'S' :: '1' :: "04000G00FB".toList = 'S' :: ch :: digits := hf.line
  cases hline
  exact absurd (hf.hex 'G' (by decide)) (by decide)

end AspKernel.Toppers.SRecord
