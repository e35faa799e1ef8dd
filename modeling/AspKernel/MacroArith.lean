import AspKernel.StaticApi
import Mathlib.Algebra.Order.Ring.Int
import Mathlib.Tactic.Linarith
import Mathlib.Tactic.Positivity

/-! Integers of the template language. -/

namespace AspKernel.Toppers.Macro
set_option autoImplicit true
open Itronx (Str showLong)

def INT64_MAX : Int := 9223372036854775807

def INT64_MIN : Int := -9223372036854775808

/-- The values of `std::tr1::int64_t`. -/
def Fits (v : Int) : Prop := INT64_MIN ≤ v ∧ v ≤ INT64_MAX

instance : DecidablePred Fits := fun _ => inferInstanceAs (Decidable (_ ∧ _))

/-- The result of a signed operation; an overflow has none. -/
def signed (v : Int) : Option Int := if Fits v then some v else none

def divide (x y : Int) : Option Int := if y = 0 then none else signed (x.tdiv y)

/-- `x % y` has a result where `x / y` has one. -/
def modulo (x y : Int) : Option Int := (divide x y).map fun _ => x.tmod y

/-- A shift has a result for the counts of its type. -/
def counted (shift : Int) : Option Nat := if 0 ≤ shift ∧ shift < 64 then some shift.toNat else none

/-- What an operator reports, and the value it leaves; nothing where the code does what C++ leaves undefined. -/
abbrev Out := Option (List Str × Option Int)

inductive ShiftOp
  | shl
  | shr
  deriving DecidableEq, Repr

inductive AddOp
  | add
  | sub
  deriving DecidableEq, Repr

inductive MulOp
  | mul
  | div
  | mod
  deriving DecidableEq, Repr

def shiftNegative (shift : Int) : Str := "shift with nagative value `".toList ++ showLong shift ++ "'".toList

def shiftTooLarge (shift : Int) : Str := "shift with too large value `".toList ++ showLong shift ++ "'".toList

def negativeShift (value : Int) : Str := "negative value `".toList ++ showLong value ++ "' is shift".toList

def overflowAt (text : Str) : Str := "overflow at `".toList ++ text ++ "'".toList

def devideByZero : Str := "devide by zero".toList

/-- What `shift_expr` reports about a count. -/
def shiftMessages (shift : Int) : List Str :=
  (if shift < 0 then [shiftNegative shift] else []) ++ if shift > 64 then [shiftTooLarge shift] else []

/-- What it reports about the value of a left shift. -/
def shlMessages (value shift : Int) : Option (List Str) :=
  if value < 0 then some [negativeShift value]
  else if shift ≠ 0 then
    (counted (63 - shift)).map fun n =>
      if (BitVec.ofNat 64 1 <<< n).toInt ≤ value then [shiftTooLarge shift] else []
  else some []

/-- The loop body of `shift_expr`. -/
def shiftStep (op : ShiftOp) (value shift : Int) : Out :=
  match op with
  | .shl => do
    let msgs ← shlMessages value shift
    let n ← counted shift
    some (shiftMessages shift ++ msgs, some (BitVec.ofInt 64 value <<< n).toInt)
  | .shr => do
    let n ← counted shift
    if value < 0 then
      -- to have an arithmetic shift in any case
      some (shiftMessages shift, some (BitVec.ofInt 64 value >>> n ||| BitVec.allOnes 64 <<< n).toInt)
    else
      some (shiftMessages shift, some (value / 2 ^ n))

/-- The loop body of `additive_expr`, with the texts of its operands. -/
def additiveStep (op : AddOp) (x y : Int) (lhs rhs : Str) : Out :=
  match op with
  | .add =>
    if y > 0 ∧ INT64_MAX - y < x ∨ y < 0 ∧ INT64_MIN - y > x then
      some ([overflowAt (lhs ++ "+".toList ++ rhs)], none)
    else do
      let value ← signed (x + y)
      some ([], some value)
  | .sub =>
    if y < 0 ∧ INT64_MAX + y < x ∨ y > 0 ∧ INT64_MIN + y > x then
      some ([overflowAt (lhs ++ "-".toList ++ rhs)], none)
    else do
      let value ← signed (x - y)
      some ([], some value)

/-- The test for an overflow of `x * y`; the quotient is taken only where its side of the test is reached. -/
def mulOver (x y : Int) : Option Bool :=
  if (x < 0 ↔ y < 0) then (divide INT64_MAX y).map fun q => decide (q < x)
  else (divide INT64_MIN y).map fun q => decide (q > x)

/-- The loop body of `multiplicative_expr`. -/
def multiplicativeStep (op : MulOp) (x y : Int) (lhs rhs : Str) : Out :=
  match op with
  | .mul =>
    if x = 0 ∨ y = 0 then some ([], some 0)
    else do
      let exceeds ← mulOver x y
      if exceeds then some ([overflowAt (lhs ++ "*".toList ++ rhs)], none)
      else do
        let value ← signed (x * y)
        some ([], some value)
  | .div =>
    if y = 0 then some ([devideByZero], none)
    else do
      let value ← divide x y
      some ([], some value)
  | .mod =>
    if y = 0 then some ([devideByZero], none)
    else do
      let value ← modulo x y
      some ([], some value)

/-- The case `-` of `unary_expr`: where no value was set, it is read all the same. -/
def negateStep (value : Int) : Out :=
  if value = INT64_MIN then none
  else some ([], some (-value))

theorem signed_pos (h : Fits v) : signed v = some v := if_pos h

theorem signed_neg (h : ¬Fits v) : signed v = none := if_neg h

theorem Fits.toInt (hx : Fits x) : (BitVec.ofInt 64 x).toInt = x := by
  unfold Fits INT64_MIN INT64_MAX at hx
  apply BitVec.toInt_ofInt_eq_self (by decide)
  · simp only [Nat.add_one_sub_one]
    omega
  · simp only [Nat.add_one_sub_one]
    omega

theorem tdiv_fits (hx : Fits x) : Fits (x.tdiv y) ↔ ¬(x = INT64_MIN ∧ y = -1) := by
  unfold Fits INT64_MIN INT64_MAX at *
  by_cases hneg : y = -1
  · subst hneg
    rw [Int.tdiv_neg, Int.tdiv_one]
    omega
  · refine iff_of_true ?_ fun h => hneg h.2
    by_cases hone : y = 1
    · rw [hone, Int.tdiv_one]
      exact hx
    · have hle : (x.tdiv y).natAbs ≤ 2 ^ 62 := by
        rw [Int.natAbs_tdiv]
        by_cases h0 : y = 0
        · rw [h0, Int.natAbs_zero]
          exact (Nat.div_zero _).trans_le (Nat.zero_le _)
        · refine le_trans (Nat.div_le_div_left (show 2 ≤ y.natAbs by omega) (by decide)) ?_
          omega
      omega

theorem divide_eq (hx : Fits x) (hy : y ≠ 0) :
    divide x y = if x = INT64_MIN ∧ y = -1 then none else some (x.tdiv y) := by
  rw [divide, if_neg hy, signed]
  by_cases h : x = INT64_MIN ∧ y = -1
  · rw [if_neg fun hf => (tdiv_fits hx).1 hf h, if_pos h]
  · rw [if_pos ((tdiv_fits hx).2 h), if_neg h]

end AspKernel.Toppers.Macro
