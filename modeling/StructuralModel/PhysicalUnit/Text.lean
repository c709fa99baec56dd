import StructuralModel.PhysicalUnit.Basic
import StructuralModel.Text.Blank
import StructuralModel.Text.Letter
import StructuralModel.Text.Split
import StructuralModel.Decimal.Reading

/-! Units as they are written: `kg`, `m/s`, `kg*m/s^2`, `1/s`. Everything after the first `/` is in
the denominator. -/

namespace StructuralModel

inductive UnitError
  | empty
  | invalidSymbol (text : String)
  | invalidExponent (text : String)
deriving Repr, DecidableEq

def UnitError.message : UnitError → String
  | .empty => "empty unit expression"
  | .invalidSymbol text => "invalid unit symbol `" ++ text ++ "`"
  | .invalidExponent text => "invalid exponent `" ++ text ++ "`"

namespace PhysicalUnit

open Text

def isSymbolChar (c : Char) : Bool :=
  isLetter c || c = '_' || c = '°' || c = '%'

def isSymbol (name : List Char) : Bool :=
  !name.isEmpty && name.all isSymbolChar

/-- An optionally signed decimal number in the range of exponents. -/
def readExponent? (text : List Char) : Option Int :=
  (Decimal.readInt? text).filter fun n => decide (FitsExponent n)

/-- A symbol and its exponent, which is one where none is written. -/
def readTerm (term : List Char) : Except UnitError (List Char × Int) :=
  match splitFirst '^' term with
  | none => .ok (term, 1)
  | some (name, exponent) =>
    match readExponent? (trim exponent) with
    | some n => .ok (trim name, n)
    | none => .error (.invalidExponent (String.ofList exponent))

/-- Multiplies by a term on the given side of the fraction. The term `1` leaves the unit as it is,
so that `1/s` is a pure denominator. -/
def multiplyTerm (inDenominator : Bool) (u : PhysicalUnit) (term : List Char) :
    Except UnitError PhysicalUnit := do
  let term := trim term
  let (name, n) ← readTerm term
  if name = ['1'] ∧ n = 1 then return u
  if !isSymbol name then throw (.invalidSymbol (String.ofList name))
  let signed := if inDenominator then -n else n
  if ¬FitsExponent signed then throw (.invalidExponent (String.ofList term))
  match u.times? (String.ofList name) signed with
  | some product => return product
  | none => throw (.invalidExponent (String.ofList term))

def multiplyGroup (inDenominator : Bool) (u : PhysicalUnit) (group : List Char) :
    Except UnitError PhysicalUnit :=
  (splitAt '*' group).foldlM (multiplyTerm inDenominator) u

def readChars (text : List Char) : Except UnitError PhysicalUnit := do
  let text := trim text
  if text.isEmpty then throw .empty
  match splitAt '/' text with
  | [] => return dimensionless
  | numerator :: denominators =>
    let u ← multiplyGroup false dimensionless numerator
    denominators.foldlM (multiplyGroup true) u

def read (text : String) : Except UnitError PhysicalUnit :=
  readChars text.toList

def termText (name : String) (n : Nat) : String :=
  if n = 1 then name else name ++ "^" ++ toString n

/-- The numerator, or `1`, and after `/` the denominator, if any. -/
def text (u : PhysicalUnit) : String :=
  let terms (factors : List Factor) := "*".intercalate (factors.map fun factor => termText factor.1 factor.2.natAbs)
  let numerator := u.factors.filter fun factor => 0 < factor.2
  let denominator := u.factors.filter fun factor => factor.2 < 0
  (if numerator.isEmpty then "1" else terms numerator) ++
    (if denominator.isEmpty then "" else "/" ++ terms denominator)

end PhysicalUnit
end StructuralModel
