import AspKernel.MacroSeq
import Mathlib.Data.List.Forall2
import Mathlib.Logic.Function.Basic

/-! Integers from the compiled `cfg1_out`. -/

namespace AspKernel.Itronx.Cfg1Out
set_option autoImplicit true
open Toppers.Macro (Element Var)

/-- The image by address; it ends somewhere. -/
structure SRecord where
  byte : Nat → Option Nat
  bound : Nat
  byte_none : ∀ a, bound ≤ a → byte a = none

inductive DataError
  | dataError
  deriving DecidableEq, Repr

/-- The loop of `s_record::get_value`: `j` bytes are left, the next one is at `addr (j - 1)`. -/
def getLoop (srec : SRecord) (addr : Nat → Nat) : Nat → Nat → Except DataError Nat
  | 0, value => .ok value
  | j + 1, value =>
    match srec.byte (addr j) with
    | none => .error .dataError
    | some t => getLoop srec addr j (((value <<< 8) ||| (t % 256)) % 2 ^ 64)

def getValue (srec : SRecord) (base size : Nat) (littleEndian : Bool) : Except DataError Nat :=
  getLoop srec (fun j => if littleEndian then base + j else base + (size - 1 - j)) size 0

/-- A string up to its null character, of which at most the given number of bytes are in the image. -/
def readString (srec : SRecord) (littleEndian : Bool) : Nat → Nat → Except DataError (List Nat)
  | 0, _ => .error .dataError
  | n + 1, address => do
    let c ← getValue srec address 1 littleEndian
    if c = 0 then return []
    else return c :: (← readString srec littleEndian n (address + 1))

/-- What is read of the compiled file. -/
structure Loaded where
  srec : SRecord
  symbolMap : Str → Option Nat
  littleEndian : Bool

/-- `nm_symbol::find`: some compilers put `_` before every identifier. -/
def Loaded.find (out : Loaded) (symbol : Str) : Option Nat :=
  match out.symbolMap symbol with
  | some address => some address
  | none => out.symbolMap ('_' :: symbol)

def Loaded.getValue (out : Loaded) (address size : Nat) : Except DataError Nat :=
  Cfg1Out.getValue out.srec address size out.littleEndian

/-- The address of a symbol that is not found is zero. -/
def Loaded.address (out : Loaded) (symbol : Str) : Nat := (out.find symbol).getD 0

/-- `make_signed`; the result is that of two's complement throughout. -/
def makeSigned (value : BitVec 32) : BitVec 32 :=
  if value >>> 31 ≠ 0 then -((value ^^^ 0xffffffff#32) + 1) else value

/-- `make_signed( static_cast< uint32_t >( value ) )` -/
def narrow (value : Int) : Int := (makeSigned (BitVec.ofInt 32 value)).toInt

/-- An unsigned 64-bit value as a signed one. -/
def toSigned (value : Nat) : Int := (value : Int).bmod (2 ^ 64)

def sizeofSigned : Str := "TOPPERS_cfg_sizeof_signed_t".toList

def sizeofPointer : Str := "TOPPERS_cfg_sizeof_pointer".toList

/-- A parameter of a static API; the specifications name every one. -/
structure Parameter where
  symbol : Str
  value : Option Int
  string : List Nat
  order : Int
  name_ne : symbol.tail ≠ []
  deriving DecidableEq, Repr

/-- The name of a parameter without `?` and, in a list, with its number for `...`. -/
def Parameter.name (p : Parameter) : Str :=
  let name := p.symbol.tail
  let name := if name.getLast? = some '?' then name.dropLast else name
  if 3 < name.length ∧ name.drop (name.length - 3) = "...".toList then
    name.take (name.length - 3) ++ showLong p.order
  else name

def Parameter.valueSymbol (p : Parameter) (serial : Nat) : Str :=
  "TOPPERS_cfg_valueof_".toList ++ p.name ++ "_".toList ++ showLong serial

def apiSymbol (serial : Nat) : Str := "TOPPERS_cfg_static_api_".toList ++ showLong serial

/-- The inner loop of `do_assign_params` at one parameter. -/
def assignParam (out : Loaded) (size serial : Nat) (p : Parameter) : Except DataError Parameter :=
  if p.symbol.head? = some '.' ∨ p.symbol.head? = some '+' ∨ p.symbol.head? = some '*' then
    match out.find (p.valueSymbol serial) with
    | none => .ok p
    | some address => do
      let value := toSigned (← out.getValue address size)
      return { p with value := some (if p.symbol.head? = some '+' then narrow value else value) }
  else if p.symbol.head? = some '$' then
    match out.find (p.valueSymbol serial) with
    | none => .ok p
    | some address => do
      let string ← readString out.srec out.littleEndian (out.srec.bound - address) address
      return { p with string }
  else .ok p

/-- `do_assign_params`: what is not compiled is dropped. -/
def doAssignParams (out : Loaded) : Nat → List (List Parameter) → Except DataError (List (List Parameter))
  | _, [] => .ok []
  | serial, api :: apis =>
    match out.find (apiSymbol serial) with
    | none => doAssignParams out (serial + 1) apis
    | some _ => do
      let size ← out.getValue (out.address sizeofSigned) 4
      let api ← api.mapM (assignParam out size serial)
      return api :: (← doAssignParams out (serial + 1) apis)

/-- An entry of the definition table. -/
structure Cfg1Def where
  isSigned : Bool
  name : Str
  expression : Str
  deriving DecidableEq, Repr

def limitDefs : List Cfg1Def :=
  [⟨false, "TOPPERS_cfg_CHAR_BIT".toList, "CHAR_BIT".toList⟩,
   ⟨false, "TOPPERS_cfg_CHAR_MAX".toList, "CHAR_MAX".toList⟩,
   ⟨true, "TOPPERS_cfg_CHAR_MIN".toList, "CHAR_MIN".toList⟩,
   ⟨false, "TOPPERS_cfg_SCHAR_MAX".toList, "SCHAR_MAX".toList⟩,
   ⟨false, "TOPPERS_cfg_SHRT_MAX".toList, "SHRT_MAX".toList⟩,
   ⟨false, "TOPPERS_cfg_INT_MAX".toList, "INT_MAX".toList⟩,
   ⟨false, "TOPPERS_cfg_LONG_MAX".toList, "LONG_MAX".toList⟩]

abbrev Vars := Str → Option Var

def setVar (vars : Vars) (name : Str) (e : Element) : Vars := Function.update vars name (some [e])

/-- `make_signed` where `signed_t` is narrow. -/
def narrowIf (size : Nat) (isSigned : Bool) (value : Int) : Int :=
  if size < 8 ∧ isSigned then narrow value else value

/-- The value of a limit constant is computed, but not put into the element. -/
def limitStep (out : Loaded) (size : Nat) (vars : Vars) (d : Cfg1Def) : Except DataError Vars := do
  let value ← out.getValue (out.address d.name) size
  let _value := narrowIf size d.isSigned (toSigned value)
  return setVar vars d.expression ⟨none, [], d.expression⟩

def defSymbol (name : Str) : Str := "TOPPERS_cfg_".toList ++ name

def Cfg1Def.symbol (d : Cfg1Def) : Str := defSymbol d.name

/-- The value behind an address expression, always of eight bytes. -/
def indirect (out : Loaded) (size sizeofPointer : Nat) (isSigned : Bool) (address : Nat) : Except DataError Int := do
  let value := narrowIf size isSigned (toSigned (← out.getValue address sizeofPointer))
  return narrowIf size isSigned (toSigned (← out.getValue (value % 2 ^ 64).toNat 8))

def defStep (out : Loaded) (size sizeofPointer : Nat) (vars : Vars) (d : Cfg1Def) : Except DataError Vars :=
  match out.find d.symbol with
  | none => .ok vars
  | some address => do
    if d.expression.head? = some '@' then
      let value ← indirect out size sizeofPointer d.isSigned address
      return setVar vars d.name ⟨some value, [], d.expression.tail⟩
    else
      let value := narrowIf size d.isSigned (toSigned (← out.getValue address size))
      return setVar vars d.name ⟨some value, [], d.expression⟩

def byteOrder (out : Loaded) (vars : Vars) : Vars :=
  let vars := setVar vars "LITTLE_ENDIAN".toList ⟨some out.littleEndian.toNat, [], []⟩
  setVar vars "BIG_ENDIAN".toList ⟨some (!out.littleEndian).toNat, [], []⟩

def setPlatformVars (out : Loaded) (defTable : List Cfg1Def) (vars : Vars) : Except DataError Vars := do
  let size ← out.getValue (out.address sizeofSigned) 4
  let pointer ← out.getValue (out.address sizeofPointer) 4
  let vars ← limitDefs.foldlM (limitStep out size) vars
  let vars ← defTable.foldlM (defStep out size pointer) vars
  return byteOrder out vars

theorem makeSigned_eq (value : BitVec 32) : makeSigned value = value := by
  unfold makeSigned
  split
  · have h : value ^^^ 0xffffffff#32 = ~~~value := BitVec.xor_allOnes
    have hn : ~~~value + 1 = -value := (BitVec.neg_eq_not_add value).symm
    rw [h, hn, BitVec.neg_neg]
  · rfl

theorem narrow_eq (value : Int) : narrow value = value.bmod (2 ^ 32) := by
  rw [narrow, makeSigned_eq, BitVec.toInt_ofInt]

/-- A byte joins the value that the bytes before it make. -/
theorem shift_or (h : u < 2 ^ 64) (k : Nat) :
    ((u / 256 ^ (k + 1)) <<< 8 ||| (u / 256 ^ k % 256 % 256)) % 2 ^ 64 = u / 256 ^ k := by
  have hb : u / 256 ^ k % 256 < 2 ^ 8 := Nat.mod_lt _ (by decide)
  have hd : u / 256 ^ (k + 1) = u / 256 ^ k / 256 := by
    rw [Nat.div_div_eq_div_mul, pow_succ]
  have hle : u / 256 ^ k ≤ u := Nat.div_le_self _ _
  rw [Nat.mod_mod, ← Nat.shiftLeft_add_eq_or_of_lt hb, hd, Nat.shiftLeft_eq, Nat.div_add_mod' (u / 256 ^ k) 256]
  exact Nat.mod_eq_of_lt (by omega)

theorem getLoop_stored (hu : u < 2 ^ 64) (h : ∀ j < k, srec.byte (addr j) = some (u / 256 ^ j % 256)) :
    getLoop srec addr k (u / 256 ^ k) = .ok u := by
  induction k with
  | zero => simp [getLoop]
  | succ k ih =>
    rw [getLoop, h k (Nat.lt_succ_self k)]
    simp only [shift_or hu]
    exact ih fun j hj => h j (Nat.lt_succ_of_lt hj)

/-- The bytes of a value at an address. -/
def Stored (out : Loaded) (address size u : Nat) : Prop :=
  u < 256 ^ size ∧ ∀ j < size,
    out.srec.byte (if out.littleEndian then address + j else address + (size - 1 - j)) = some (u / 256 ^ j % 256)

instance : Decidable (Stored out address size u) := inferInstanceAs (Decidable (_ ∧ _))

theorem Stored.getValue (h : Stored out address size u) (hs : size ≤ 8) : out.getValue address size = .ok u := by
  have h8 : 256 ^ size ≤ 256 ^ 8 := Nat.pow_le_pow_right (by decide) hs
  have hu : u < 2 ^ 64 := by
    have := h.1
    omega
  have h0 : u / 256 ^ size = 0 := Nat.div_eq_of_lt h.1
  have hl := getLoop_stored hu h.2
  rw [h0] at hl
  exact hl

theorem getValue_byte {srec : SRecord} (h : srec.byte a = some t) : getValue srec a 1 le = .ok (t % 256) := by
  have ht : t % 256 < 18446744073709551616 := by omega
  cases le <;> simp [getValue, getLoop, h, Nat.mod_eq_of_lt ht]

/-- A string that ends within the image can be read. -/
theorem readString_ok (le : Bool) {srec : SRecord} (h0 : srec.byte (a + n) = some 0) (h : ∀ j < n, (srec.byte (a + j)).isSome)
    (hm : n < m) : ∃ l, readString srec le m a = .ok l := by
  induction n generalizing a m with
  | zero =>
    obtain ⟨m, rfl⟩ := Nat.exists_eq_succ_of_ne_zero hm.ne'
    exact ⟨[], by simp [readString, getValue_byte (a := a) h0, bind, Except.bind, pure, Except.pure]⟩
  | succ n ih =>
    obtain ⟨m, rfl⟩ := Nat.exists_eq_succ_of_ne_zero (Nat.ne_of_gt (Nat.zero_lt_of_lt hm))
    obtain ⟨t, ht⟩ := Option.isSome_iff_exists.1 (h 0 (Nat.zero_lt_succ n))
    have h0' : srec.byte (a + 1 + n) = some 0 := by
      rw [← h0]
      congr 1
      omega
    have h' : ∀ j < n, (srec.byte (a + 1 + j)).isSome := by
      intro j hj
      have hs := h (j + 1) (Nat.succ_lt_succ hj)
      rwa [Nat.add_comm j 1, ← Nat.add_assoc] at hs
    obtain ⟨l, hl⟩ := ih h0' h' (Nat.lt_of_succ_lt_succ hm)
    rw [readString, getValue_byte (a := a) ht]
    simp only [bind, Except.bind, hl]
    split
    · exact ⟨[], rfl⟩
    · exact ⟨_, rfl⟩

/-- A constant of the compiled file: a `signed_t` or `unsigned_t`, a string, an address, a `uint32_t`. -/
inductive Const
  | int (isSigned : Bool) (value : Int)
  | str
  | address
  | word
  deriving DecidableEq, Repr

def InRange (size : Nat) : Bool → Int → Prop
  | true, v => -2 ^ (8 * size - 1) ≤ v ∧ v < 2 ^ (8 * size - 1)
  | false, v => 0 ≤ v ∧ v < 2 ^ (8 * size)

instance : Decidable (InRange size g v) :=
  match g with
  | true => inferInstanceAs (Decidable (_ ∧ _))
  | false => inferInstanceAs (Decidable (_ ∧ _))

/-- What the compiler makes of `cfg1_out.c`: the sizes of `signed_t` and of a pointer, and the constants. -/
structure Compiled where
  size : Nat
  pointer : Nat
  const : Str → Option Const
  size_eq : size = 4 ∨ size = 8
  fits : const s = some (.int g v) → InRange size g v

/-- An integer parameter; its type goes by its mark. -/
def Parameter.isInteger (p : Parameter) : Prop := p.symbol.head? = some '.' ∨ p.symbol.head? = some '+'

/-- The constants are those that `cfg1_out.c` defines, and the image and the symbols are read exactly. -/
structure Exact (t : Compiled) (out : Loaded) (apis : List (List Parameter)) (defTable : List Cfg1Def) : Prop where
  size : ∃ a, out.find sizeofSigned = some a ∧ Stored out a 4 t.size
  pointer : ∃ a, out.find sizeofPointer = some a ∧ Stored out a 4 t.pointer
  int : t.const s = some (.int g v) → ∃ a, out.find s = some a ∧ Stored out a t.size (v % 256 ^ t.size).toNat
  str : t.const s = some .str → ∃ a n, out.find s = some a ∧ out.srec.byte (a + n) = some 0 ∧
    ∀ j < n, (out.srec.byte (a + j)).isSome
  unknown : t.const s = none → out.find s = none
  param : (api, serial) ∈ apis.zipIdx → t.const (apiSymbol serial) ≠ none → ∀ p ∈ api,
    match p.symbol.head? with
    | some '.' => ∃ v, t.const (p.valueSymbol serial) = some (.int false v)
    | some '+' => ∃ v, t.const (p.valueSymbol serial) = some (.int true v)
    | some '$' => t.const (p.valueSymbol serial) = some .str
    | _ => t.const (p.valueSymbol serial) = none
  limit : ∀ d ∈ limitDefs, ∃ v, t.const d.name = some (.int false v)
  defs : ∀ d ∈ defTable,
    if d.expression.head? = some '@' then
      t.const d.symbol = some .address ∧
        ∃ a v, out.find d.symbol = some a ∧ indirect out t.size t.pointer d.isSigned a = .ok v
    else ∃ v, t.const d.symbol = some (.int d.isSigned v)

theorem cast_read (v : Int) (size : Nat) : ((v % 256 ^ size).toNat : Int) = v % 256 ^ size :=
  Int.toNat_of_nonneg (Int.emod_nonneg _ (by positivity))

theorem pow_four : (256 : Int) ^ 4 = ((2 ^ 32 : Nat) : Int) := by
  norm_num

theorem pow_eight : (256 : Int) ^ 8 = ((2 ^ 64 : Nat) : Int) := by
  norm_num

theorem emod_bmod_of_eq (v : Int) {n : Nat} (h : m = (n : Int)) : (v % m).bmod n = v.bmod n := by
  rw [h, Int.emod_bmod]

theorem toSigned_eight (v : Int) : toSigned (v % 256 ^ 8).toNat = v.bmod (2 ^ 64) := by
  unfold toSigned
  rw [cast_read]
  exact emod_bmod_of_eq v pow_eight

/-- An unsigned constant is read as it is. -/
theorem toSigned_unsigned {t : Compiled} (h : InRange t.size false v) :
    toSigned (v % 256 ^ t.size).toNat = v.bmod (2 ^ 64) := by
  rcases t.size_eq with hs | hs
  · rw [hs] at h ⊢
    have hv : v % 256 ^ 4 = v := by
      apply Int.emod_eq_of_lt h.1
      rw [pow_four]
      exact h.2
    unfold toSigned
    rw [cast_read, hv]
  · rw [hs]
    exact toSigned_eight v

/-- `make_signed` keeps the lower half of a constant. -/
theorem narrow_toSigned (t : Compiled) (v : Int) :
    narrow (toSigned (v % 256 ^ t.size).toNat) = v.bmod (2 ^ 32) := by
  have hd : (2 : Nat) ^ 32 ∣ 2 ^ 64 := ⟨2 ^ 32, rfl⟩
  unfold toSigned
  rw [narrow_eq, cast_read, Int.bmod_bmod_of_dvd hd]
  rcases t.size_eq with hs | hs
  · rw [hs]
    exact emod_bmod_of_eq v pow_four
  · rw [hs, ← Int.bmod_bmod_of_dvd hd, emod_bmod_of_eq v pow_eight, Int.bmod_bmod_of_dvd hd]

/-- Where `signed_t` is narrow only, `make_signed` gives the sign back. -/
theorem narrowIf_toSigned {t : Compiled} (h : InRange t.size g v) :
    narrowIf t.size g (toSigned (v % 256 ^ t.size).toNat) = v.bmod (2 ^ 64) := by
  cases g with
  | false =>
    rw [narrowIf, if_neg (by simp)]
    exact toSigned_unsigned h
  | true =>
    rcases t.size_eq with hs | hs
    · rw [narrowIf, if_pos (by simp [hs]), narrow_toSigned]
      rw [hs] at h
      rw [Int.bmod_eq_of_le h.1 h.2, Int.bmod_eq_of_le]
      · have := h.1
        omega
      · have := h.2
        omega
    · rw [narrowIf, if_neg (by simp [hs]), hs]
      exact toSigned_eight v

/-- What `make_signed` keeps of a signed constant is all of it within 32 bits. -/
theorem bmod_eq_iff {t : Compiled} (h : InRange t.size true v) :
    v.bmod (2 ^ 32) = v.bmod (2 ^ 64) ↔ -2 ^ 31 ≤ v ∧ v < 2 ^ 31 := by
  have h64 : v.bmod (2 ^ 64) = v := by
    rcases t.size_eq with hs | hs
    · rw [hs] at h
      have h1 := h.1
      have h2 := h.2
      exact Int.bmod_eq_of_le (by omega) (by omega)
    · rw [hs] at h
      exact Int.bmod_eq_of_le h.1 h.2
  rw [h64, Int.bmod_eq_iff (by decide)]
  constructor
  · rintro ⟨h1, h2, -⟩
    exact ⟨h1, h2⟩
  · rintro ⟨h1, h2⟩
    exact ⟨h1, h2, by simp⟩

/-- The value that the template sees is that of the expression, if it is unsigned or within 32 bits, and not otherwise. -/
def Survives (t : Compiled) (serial : Nat) (p p' : Parameter) : Prop :=
  ∀ g v, p.isInteger → t.const (p.valueSymbol serial) = some (.int g v) →
    (p'.value = some (v.bmod (2 ^ 64)) ↔ (p.symbol.head? = some '+' → -2 ^ 31 ≤ v ∧ v < 2 ^ 31))

theorem Exact.getValue (x : Exact t out apis defTable) (h : t.const s = some (.int g v)) :
    ∃ a, out.find s = some a ∧ out.getValue a t.size = .ok (v % 256 ^ t.size).toNat := by
  obtain ⟨a, ha, hs⟩ := x.int h
  have h8 : t.size ≤ 8 := by
    have := t.size_eq
    omega
  exact ⟨a, ha, hs.getValue h8⟩

theorem assignParam_exact (x : Exact t out apis defTable) (ha : (api, serial) ∈ apis.zipIdx)
    (hc : t.const (apiSymbol serial) ≠ none) (hp : p ∈ api) :
    ∃ p', assignParam out t.size serial p = .ok p' ∧ Survives t serial p p' := by
  have hk := x.param ha hc p hp
  by_cases hdot : p.symbol.head? = some '.'
  · rw [hdot] at hk
    obtain ⟨v, hv⟩ := hk
    obtain ⟨a, hf, hg⟩ := x.getValue hv
    have hr := toSigned_unsigned (t.fits hv)
    refine ⟨_, by simp [assignParam, hdot, hf, hg, hr, bind, Except.bind, pure, Except.pure]; rfl, ?_⟩
    intro g w _ hw
    rw [hv] at hw
    cases hw
    simp [hdot]
  by_cases hplus : p.symbol.head? = some '+'
  · rw [hplus] at hk
    obtain ⟨v, hv⟩ := hk
    obtain ⟨a, hf, hg⟩ := x.getValue hv
    have hr := narrow_toSigned t v
    refine ⟨_, by simp [assignParam, hplus, hf, hg, hr, bind, Except.bind, pure, Except.pure]; rfl, ?_⟩
    intro g w _ hw
    rw [hv] at hw
    cases hw
    simpa [hplus] using bmod_eq_iff (t.fits hv)
  have hni : ∀ p', Survives t serial p p' := by
    intro p' g v hi
    rcases hi with hi | hi
    · exact absurd hi hdot
    · exact absurd hi hplus
  by_cases hstr : p.symbol.head? = some '$'
  · rw [hstr] at hk
    obtain ⟨a, n, hf, h0, hn⟩ := x.str hk
    have hb : n < out.srec.bound - a := by
      by_contra hle
      have := out.srec.byte_none (a + n) (by omega)
      rw [h0] at this
      cases this
    obtain ⟨l, hl⟩ := readString_ok out.littleEndian h0 hn hb
    refine ⟨_, by simp [assignParam, hstr, hf, hl, bind, Except.bind, pure, Except.pure]; rfl, hni _⟩
  · have hnone : t.const (p.valueSymbol serial) = none := by
      split at hk <;> simp_all
    have hf := x.unknown hnone
    refine ⟨p, ?_, hni p⟩
    simp [assignParam, hf, hstr]

theorem mapM_exists {f : α → Except ε β} {R : α → β → Prop} (h : ∀ a ∈ l, ∃ b, f a = .ok b ∧ R a b) :
    ∃ l', l.mapM f = .ok l' ∧ List.Forall₂ R l l' := by
  induction l with
  | nil => exact ⟨[], rfl, .nil⟩
  | cons a l ih =>
    rw [List.forall_mem_cons] at h
    obtain ⟨b, hb, hr⟩ := h.1
    obtain ⟨l', hl, hr'⟩ := ih h.2
    refine ⟨b :: l', ?_, .cons hr hr'⟩
    simp [List.mapM_cons, hb, hl, bind, Except.bind, pure, Except.pure]

/-- The static APIs that are compiled, with their serial numbers. -/
def compiled (out : Loaded) (apis : List (List Parameter)) (serial : Nat) : List (List Parameter × Nat) :=
  (apis.zipIdx serial).filter fun a => (out.find (apiSymbol a.2)).isSome

theorem doAssignParams_exact (x : Exact t out apis defTable) (h : apis'.zipIdx serial ⊆ apis.zipIdx) :
    ∃ l, doAssignParams out serial apis' = .ok l ∧
      List.Forall₂ (fun a api => List.Forall₂ (Survives t a.2) a.1 api) (compiled out apis' serial) l := by
  induction apis' generalizing serial with
  | nil => exact ⟨[], rfl, .nil⟩
  | cons api apis' ih =>
    rw [List.zipIdx_cons] at h
    obtain ⟨ha, h'⟩ := List.cons_subset.1 h
    obtain ⟨l, hl, hr⟩ := ih h'
    unfold compiled
    rw [doAssignParams, List.zipIdx_cons]
    cases hf : out.find (apiSymbol serial) with
    | none =>
      rw [List.filter_cons_of_neg (by simp [hf])]
      exact ⟨l, hl, hr⟩
    | some a =>
      have hc : t.const (apiSymbol serial) ≠ none := by
        intro hn
        rw [x.unknown hn] at hf
        cases hf
      obtain ⟨b, hb, hs⟩ := x.size
      have hg : out.getValue (out.address sizeofSigned) 4 = .ok t.size := by
        rw [Loaded.address, hb]
        exact hs.getValue (by decide)
      obtain ⟨api', hm, hr'⟩ := mapM_exists fun p hp => assignParam_exact x ha hc hp
      rw [List.filter_cons_of_pos (by simp [hf])]
      refine ⟨api' :: l, ?_, .cons hr' hr⟩
      simp [hg, hm, hl, bind, Except.bind, pure, Except.pure]

/-- The integer of a variable, as a template sees it. -/
def intOf (vars : Vars) (name : Str) : Option Int :=
  (vars name).bind fun var => var.head?.bind Element.i

@[simp] theorem intOf_setVar_self (vars : Vars) (name : Str) (e : Element) :
    intOf (setVar vars name e) name = e.i := by
  simp [intOf, setVar]

theorem intOf_setVar_of_ne (h : name ≠ name') (vars : Vars) (e : Element) :
    intOf (setVar vars name' e) name = intOf vars name := by
  simp [intOf, setVar, h]

theorem limits_exact (x : Exact t out apis defTable) (h : l ⊆ limitDefs) (vars : Vars) :
    ∃ vars', l.foldlM (limitStep out t.size) vars = .ok vars' ∧
      ∀ name, name ∈ l.map Cfg1Def.expression ∨ intOf vars name = none → intOf vars' name = none := by
  induction l generalizing vars with
  | nil => exact ⟨vars, rfl, fun name hn => hn.resolve_left List.not_mem_nil⟩
  | cons d l ih =>
    obtain ⟨hd, hl⟩ := List.cons_subset.1 h
    obtain ⟨v, hv⟩ := x.limit d hd
    obtain ⟨a, hf, hg⟩ := x.getValue hv
    have hs : limitStep out t.size vars d = .ok (setVar vars d.expression ⟨none, [], d.expression⟩) := by
      simp [limitStep, Loaded.address, hf, hg, bind, Except.bind, pure, Except.pure]
    obtain ⟨vars', hr, hn⟩ := ih hl (setVar vars d.expression ⟨none, [], d.expression⟩)
    refine ⟨vars', by rw [List.foldlM_cons, hs]; exact hr, ?_⟩
    intro name hname
    apply hn
    by_cases he : name = d.expression
    · right
      rw [he, intOf_setVar_self]
    · rcases hname with hm | hm
      · exact .inl ((List.mem_cons.1 hm).resolve_left he)
      · right
        rw [intOf_setVar_of_ne he, hm]

/-- An entry of the table sets its own variable only, to the value of its expression. -/
theorem defStep_exact (x : Exact t out apis defTable) (hd : d ∈ defTable) (vars : Vars) :
    ∃ vars', defStep out t.size t.pointer vars d = .ok vars' ∧
      ∀ name g v, t.const (defSymbol name) = some (.int g v) →
        intOf vars' name = if name = d.name then some (v.bmod (2 ^ 64)) else intOf vars name := by
  have hx := x.defs d hd
  split at hx
  · rename_i he
    obtain ⟨hc, a, v, hf, hi⟩ := hx
    refine ⟨setVar vars d.name ⟨some v, [], d.expression.tail⟩, ?_, ?_⟩
    · simp [defStep, hf, he, hi, bind, Except.bind, pure, Except.pure]
    · intro name g w hw
      have hne : name ≠ d.name := by
        intro hn
        rw [Cfg1Def.symbol, ← hn, hw] at hc
        exact Const.noConfusion (Option.some.inj hc)
      rw [if_neg hne, intOf_setVar_of_ne hne]
  · rename_i he
    obtain ⟨v, hv⟩ := hx
    obtain ⟨a, hf, hg⟩ := x.getValue hv
    have hr := narrowIf_toSigned (t.fits hv)
    refine ⟨setVar vars d.name ⟨some (v.bmod (2 ^ 64)), [], d.expression⟩, ?_, ?_⟩
    · simp [defStep, hf, he, hg, hr, bind, Except.bind, pure, Except.pure]
    · intro name g w hw
      by_cases hne : name = d.name
      · subst hne
        rw [Cfg1Def.symbol, hw] at hv
        rw [if_pos rfl, intOf_setVar_self, (Const.int.inj (Option.some.inj hv)).2]
      · rw [if_neg hne, intOf_setVar_of_ne hne]

theorem defs_exact (x : Exact t out apis defTable) (h : l ⊆ defTable) (vars : Vars) :
    ∃ vars', l.foldlM (defStep out t.size t.pointer) vars = .ok vars' ∧
      ∀ name g v, t.const (defSymbol name) = some (.int g v) →
        intOf vars' name =
          if name ∈ l.map Cfg1Def.name then some (v.bmod (2 ^ 64)) else intOf vars name := by
  induction l generalizing vars with
  | nil => exact ⟨vars, rfl, fun name g v _ => by simp⟩
  | cons d l ih =>
    obtain ⟨hd, hl⟩ := List.cons_subset.1 h
    obtain ⟨vars₁, h1, hn1⟩ := defStep_exact x hd vars
    obtain ⟨vars', h2, hn2⟩ := ih hl vars₁
    refine ⟨vars', by rw [List.foldlM_cons, h1]; exact h2, ?_⟩
    intro name g v hv
    rw [hn2 name g v hv, hn1 name g v hv, List.map_cons]
    by_cases he : name = d.name <;> by_cases hm : name ∈ l.map Cfg1Def.name <;> simp [he, hm]

theorem intOf_byteOrder (out : Loaded) (vars : Vars) (name : Str) : intOf (byteOrder out vars) name =
    if name = "LITTLE_ENDIAN".toList then some (out.littleEndian.toNat : Int)
    else if name = "BIG_ENDIAN".toList then some ((!out.littleEndian).toNat : Int) else intOf vars name := by
  have hne : "LITTLE_ENDIAN".toList ≠ "BIG_ENDIAN".toList := by decide
  unfold byteOrder
  split
  · rename_i h
    rw [h, intOf_setVar_of_ne hne, intOf_setVar_self]
  · rename_i h
    split
    · rename_i h'
      rw [h', intOf_setVar_self]
    · rename_i h'
      rw [intOf_setVar_of_ne h', intOf_setVar_of_ne h]

/-- The name of a limit constant is no name that `set_platform_vars` sets again by itself. -/
theorem limitDefs_names (hd : d ∈ limitDefs) : d.name = defSymbol d.expression ∧
    d.expression ≠ "LITTLE_ENDIAN".toList ∧ d.expression ≠ "BIG_ENDIAN".toList := by
  simp only [limitDefs, List.mem_cons, List.not_mem_nil, or_false] at hd
  rcases hd with rfl | rfl | rfl | rfl | rfl | rfl | rfl <;> exact ⟨rfl, by decide, by decide⟩

theorem setPlatformVars_exact (x : Exact t out apis defTable) (vars : Vars) :
    ∃ vars', setPlatformVars out defTable vars = .ok vars' ∧
      (∀ d ∈ defTable, ∀ g v, t.const d.symbol = some (.int g v) →
        (intOf vars' d.name = some (v.bmod (2 ^ 64)) ↔
          (d.name = "LITTLE_ENDIAN".toList → v.bmod (2 ^ 64) = out.littleEndian.toNat) ∧
          (d.name = "BIG_ENDIAN".toList → v.bmod (2 ^ 64) = (!out.littleEndian).toNat))) ∧
      ∀ d ∈ limitDefs, ∀ g v, t.const d.name = some (.int g v) →
        (intOf vars' d.expression = some (v.bmod (2 ^ 64)) ↔ ∃ d' ∈ defTable, d'.name = d.expression) := by
  obtain ⟨a, ha, hsize⟩ := x.size
  obtain ⟨b, hb, hpointer⟩ := x.pointer
  obtain ⟨vars₁, h1, hn1⟩ := limits_exact x (List.Subset.refl limitDefs) vars
  obtain ⟨vars₂, h2, hn2⟩ := defs_exact x (List.Subset.refl defTable) vars₁
  have hs : out.getValue (out.address sizeofSigned) 4 = .ok t.size := by
    rw [Loaded.address, ha]
    exact hsize.getValue (by decide)
  have hp : out.getValue (out.address sizeofPointer) 4 = .ok t.pointer := by
    rw [Loaded.address, hb]
    exact hpointer.getValue (by decide)
  refine ⟨byteOrder out vars₂, ?_, ?_, ?_⟩
  · simp [setPlatformVars, hs, hp, h1, h2, bind, Except.bind, pure, Except.pure]
  · intro d hd g v hv
    have hm : d.name ∈ defTable.map Cfg1Def.name := List.mem_map.2 ⟨d, hd, rfl⟩
    have hne : "LITTLE_ENDIAN".toList ≠ "BIG_ENDIAN".toList := by decide
    rw [intOf_byteOrder, hn2 d.name g v hv, if_pos hm]
    by_cases hle : d.name = "LITTLE_ENDIAN".toList
    · have hbe : d.name ≠ "BIG_ENDIAN".toList := hle ▸ hne
      rw [if_pos hle, Option.some_inj]
      exact ⟨fun h => ⟨fun _ => h.symm, fun h' => absurd h' hbe⟩, fun h => (h.1 hle).symm⟩
    · rw [if_neg hle]
      by_cases hbe : d.name = "BIG_ENDIAN".toList
      · rw [if_pos hbe, Option.some_inj]
        exact ⟨fun h => ⟨fun h' => absurd h' hle, fun _ => h.symm⟩, fun h => (h.2 hbe).symm⟩
      · rw [if_neg hbe]
        exact ⟨fun _ => ⟨fun h' => absurd h' hle, fun h' => absurd h' hbe⟩, fun _ => rfl⟩
  · intro d hd g v hv
    obtain ⟨he, hle, hbe⟩ := limitDefs_names hd
    rw [he] at hv
    rw [intOf_byteOrder, if_neg hle, if_neg hbe, hn2 d.expression g v hv,
      hn1 d.expression (.inl (List.mem_map.2 ⟨d, hd, rfl⟩))]
    simp

/-- Of the integers that the template sees, those of unsigned parameters and of the table are right, those of signed
parameters within 32 bits, and those of the limit constants not at all. -/
theorem values_exact (x : Exact t out apis defTable) (vars : Vars) :
    (∃ l, doAssignParams out 0 apis = .ok l ∧
      List.Forall₂ (fun a api => List.Forall₂ (Survives t a.2) a.1 api) (compiled out apis 0) l) ∧
    ∃ vars', setPlatformVars out defTable vars = .ok vars' ∧
      (∀ d ∈ defTable, ∀ g v, t.const d.symbol = some (.int g v) →
        (intOf vars' d.name = some (v.bmod (2 ^ 64)) ↔
          (d.name = "LITTLE_ENDIAN".toList → v.bmod (2 ^ 64) = out.littleEndian.toNat) ∧
          (d.name = "BIG_ENDIAN".toList → v.bmod (2 ^ 64) = (!out.littleEndian).toNat))) ∧
      ∀ d ∈ limitDefs, ∀ g v, t.const d.name = some (.int g v) →
        (intOf vars' d.expression = some (v.bmod (2 ^ 64)) ↔ ∃ d' ∈ defTable, d'.name = d.expression) :=
  ⟨doAssignParams_exact x (List.Subset.refl _), setPlatformVars_exact x vars⟩

/-- The constants of a file with one static API, each with its address. -/
def sampleConsts : List (Str × Const × Nat) :=
  [(sizeofSigned, .word, 0),
   (sizeofPointer, .word, 4),
   ("TOPPERS_cfg_CHAR_BIT".toList, .int false 8, 8),
   ("TOPPERS_cfg_CHAR_MAX".toList, .int false 255, 16),
   ("TOPPERS_cfg_CHAR_MIN".toList, .int false 0, 24),
   ("TOPPERS_cfg_SCHAR_MAX".toList, .int false 127, 32),
   ("TOPPERS_cfg_SHRT_MAX".toList, .int false 32767, 40),
   ("TOPPERS_cfg_INT_MAX".toList, .int false 2147483647, 48),
   ("TOPPERS_cfg_LONG_MAX".toList, .int false 2147483647, 56),
   ("TOPPERS_cfg_TMAX_TPRI".toList, .int true 16, 64),
   ("TOPPERS_cfg_static_api_0".toList, .int false 0, 72),
   ("TOPPERS_cfg_valueof_exinf_0".toList, .int true 4294967296, 80)]

def bytes (size u : Nat) : List Nat :=
  (List.range size).map fun j => u / 256 ^ j % 256

def sampleBytes : List Nat :=
  bytes 4 8 ++ bytes 4 4 ++
    [8, 255, 0, 127, 32767, 2147483647, 2147483647, 16, 0, 4294967296].flatMap (bytes 8)

def sampleFind (s : Str) : Option (Const × Nat) :=
  (sampleConsts.find? fun e => e.1 = s).map Prod.snd

def sampleOut : Loaded where
  srec := ⟨fun a => sampleBytes[a]?, sampleBytes.length, fun _ h => List.getElem?_eq_none h⟩
  symbolMap s := (sampleFind s).map Prod.snd
  littleEndian := true

theorem mem_sampleConsts (h : sampleFind s = some c) : (s, c) ∈ sampleConsts := by
  obtain ⟨e, he, hc⟩ := Option.map_eq_some_iff.1 h
  have hs : e.1 = s := by simpa using List.find?_some he
  rw [← hs, ← hc]
  exact List.mem_of_find?_eq_some he

theorem sampleConsts_int (h : (s, .int g v, a) ∈ sampleConsts) :
    InRange 8 g v ∧ ∀ j < 8, sampleBytes[a + j]? = some ((v % 256 ^ 8).toNat / 256 ^ j % 256) := by
  have hall : ∀ e ∈ sampleConsts, match e.2.1 with
      | .int g v => InRange 8 g v ∧ ∀ j < 8, sampleBytes[e.2.2 + j]? = some ((v % 256 ^ 8).toNat / 256 ^ j % 256)
      | _ => True := by
    intro e he
    simp only [sampleConsts, List.mem_cons, List.not_mem_nil, or_false] at he
    rcases he with rfl | rfl | rfl | rfl | rfl | rfl | rfl | rfl | rfl | rfl | rfl | rfl
    · trivial
    · trivial
    all_goals decide
  exact hall _ h

def sampleTarget : Compiled where
  size := 8
  pointer := 4
  const s := (sampleFind s).map Prod.fst
  size_eq := .inr rfl
  fits h := by
    obtain ⟨c, hc, he⟩ := Option.map_eq_some_iff.1 h
    have hm := mem_sampleConsts hc
    obtain ⟨k, a⟩ := c
    cases he
    exact (sampleConsts_int hm).1

def sampleParam : Parameter := ⟨"+exinf".toList, none, [], 0, by decide⟩

def sampleApis : List (List Parameter) := [[sampleParam]]

def sampleDefs : List Cfg1Def :=
  [⟨true, "TMAX_TPRI".toList, "TMAX_TPRI".toList⟩]

theorem showLong_zero : showLong ((0 : Nat) : Int) = ['0'] := by
  rw [showLong, if_neg (by decide), Numeral.write, Numeral.low]
  rfl

theorem sampleParam_symbol : sampleParam.valueSymbol 0 = "TOPPERS_cfg_valueof_exinf_0".toList := by
  have hn : sampleParam.name = "exinf".toList := by decide
  unfold Parameter.valueSymbol
  rw [hn, showLong_zero]
  decide

theorem sampleApi_symbol : apiSymbol 0 = "TOPPERS_cfg_static_api_0".toList := by
  unfold apiSymbol
  rw [showLong_zero]
  decide

theorem sampleFind_underscore (s : Str) : sampleFind ('_' :: s) = none := by
  rw [sampleFind, Option.map_eq_none_iff, List.find?_eq_none]
  intro e he
  have hall : ∀ e ∈ sampleConsts, e.1.head? = some 'T' := by decide
  intro hs
  have ht := hall e he
  rw [of_decide_eq_true hs] at ht
  cases ht

theorem sampleFind_ne_str (s : Str) (a : Nat) : sampleFind s ≠ some (.str, a) := by
  intro h
  have hall : ∀ e ∈ sampleConsts, e.2.1 ≠ .str := by decide
  exact hall _ (mem_sampleConsts h) rfl

theorem sample_exact : Exact sampleTarget sampleOut sampleApis sampleDefs where
  size := ⟨0, by decide, by decide⟩
  pointer := ⟨4, by decide, by decide⟩
  int h := by
    obtain ⟨⟨k, a⟩, hc, he⟩ := Option.map_eq_some_iff.1 h
    cases he
    obtain ⟨-, hb⟩ := sampleConsts_int (mem_sampleConsts hc)
    refine ⟨a, by simp [Loaded.find, sampleOut, hc], ?_, hb⟩
    exact (Int.toNat_lt (Int.emod_nonneg _ (by decide))).2 (Int.emod_lt_of_pos _ (by decide))
  str h := by
    obtain ⟨⟨k, a⟩, hc, he⟩ := Option.map_eq_some_iff.1 h
    cases he
    exact absurd hc (sampleFind_ne_str _ a)
  unknown h := by
    have hn := Option.map_eq_none_iff.1 h
    simp [Loaded.find, sampleOut, hn, sampleFind_underscore]
  param h _ p hp := by
    obtain ⟨rfl, rfl⟩ := Prod.mk.inj (List.mem_singleton.1 h)
    rw [List.mem_singleton.1 hp]
    exact ⟨4294967296, sampleParam_symbol ▸ rfl⟩
  limit d hd := by
    simp only [limitDefs, List.mem_cons, List.not_mem_nil, or_false] at hd
    rcases hd with rfl | rfl | rfl | rfl | rfl | rfl | rfl <;> exact ⟨_, rfl⟩
  defs d hd := by
    rw [List.mem_singleton.1 hd]
    exact ⟨16, rfl⟩

theorem values_exact_sample : (∃ l, doAssignParams sampleOut 0 sampleApis = .ok l ∧
      List.Forall₂ (fun a api => List.Forall₂ (Survives sampleTarget a.2) a.1 api) (compiled sampleOut sampleApis 0) l) ∧
    ∃ vars, setPlatformVars sampleOut sampleDefs (fun _ => none) = .ok vars ∧
      intOf vars "TMAX_TPRI".toList = some 16 := by
  obtain ⟨h1, vars, h2, h3, -⟩ := values_exact sample_exact fun _ => none
  refine ⟨h1, vars, h2, ?_⟩
  have hd := h3 _ List.mem_cons_self true 16 rfl
  exact hd.2 ⟨fun h => absurd h (by decide), fun h => absurd h (by decide)⟩

theorem sample_compiled : compiled sampleOut sampleApis 0 = [([sampleParam], 0)] := by
  have hf : (sampleOut.find (apiSymbol 0)).isSome = true := by
    rw [sampleApi_symbol]
    decide
  exact List.filter_cons_of_pos hf

/-- A signed parameter of eight bytes comes back without its upper half, and a limit constant not at all. -/
theorem not_values_exact : ∃ t out p p' defTable vars, Exact t out [[p]] defTable ∧
    (p.symbol = "+exinf".toList ∧ t.const (p.valueSymbol 0) = some (.int true 4294967296) ∧
      doAssignParams out 0 [[p]] = .ok [[p']] ∧ p'.value ≠ some 4294967296) ∧
    setPlatformVars out defTable (fun _ => none) = .ok vars ∧
      t.const "TOPPERS_cfg_CHAR_BIT".toList = some (.int false 8) ∧ intOf vars "CHAR_BIT".toList ≠ some 8 := by
  have hc : sampleTarget.const (sampleParam.valueSymbol 0) = some (.int true 4294967296) := by
    rw [sampleParam_symbol]
    decide
  obtain ⟨l, hl, hr⟩ := doAssignParams_exact sample_exact (List.Subset.refl _)
  rw [sample_compiled] at hr
  obtain ⟨api, l, hp, hnil, rfl⟩ := List.forall₂_cons_left_iff.1 hr
  obtain ⟨p', api', hs, hnil', rfl⟩ := List.forall₂_cons_left_iff.1 hp
  rw [List.forall₂_nil_left_iff] at hnil hnil'
  obtain ⟨vars, hv, -, hlim⟩ := setPlatformVars_exact sample_exact fun _ => none
  refine ⟨sampleTarget, sampleOut, sampleParam, p', sampleDefs, vars, sample_exact, ⟨rfl, hc, ?_, ?_⟩, hv, by decide, ?_⟩
  · rw [hnil, hnil'] at hl
    exact hl
  · intro hw
    have h32 := (hs true 4294967296 (.inr rfl) hc).1 hw rfl
    exact absurd h32.2 (by decide)
  · intro hw
    obtain ⟨d, hd, hn⟩ := (hlim _ List.mem_cons_self false 8 (by decide)).1 hw
    rw [List.mem_singleton.1 hd] at hn
    exact absurd hn (by decide)

end AspKernel.Itronx.Cfg1Out
