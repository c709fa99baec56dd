import StructuralModel.Evaluation.Error
import StructuralModel.Value
import StructuralModel.PhysicalUnit.ConversionTable

/-! What the operators do with values. Quantities whose units are compatible can be added,
subtracted and compared, and the result has the unit of the left operand. Products and quotients
combine units; where the units cancel, a plain number is left. -/

namespace StructuralModel.Operators

def unary : UnaryOp → Value → Evaluated Value
  | .neg, .scalar x => .ok (.scalar (-x))
  | .neg, .quantity x unit => .ok (.quantity (-x) unit)
  | .not, .boolean b => .ok (.boolean !b)
  | op, operand => .error (.invalidOperand op.symbol operand.kindName)

def typeMismatch (op : BinaryOp) (lhs rhs : Value) : EvaluationError :=
  .typeMismatch op lhs.kindName rhs.kindName

/-- A number of the second unit expressed in the first. -/
def convert (op : BinaryOp) (target : PhysicalUnit) (x : Float) (unit : PhysicalUnit)
    (table : ConversionTable) : Evaluated Float :=
  match table.factor? unit target with
  | some factor => .ok (x * factor)
  | none => .error (.unitMismatch op target unit)

/-- How two numbers compare; a non-number compares with nothing. -/
def compare? (x y : Float) : Option Ordering :=
  if x < y then some .lt else if x > y then some .gt else if x == y then some .eq else none

/-- Equality up to the rounding that unit conversion introduces. -/
def nearlyEqual (x y : Float) : Bool :=
  x == y || (x - y).abs <= 4 * 2.220446049250313e-16 * (if x.abs < y.abs then y.abs else x.abs)

/-- Orders two numbers of one dimension or two texts; none if a non-number takes part. -/
def order (op : BinaryOp) (lhs rhs : Value) (table : ConversionTable) :
    Evaluated (Option Ordering) :=
  match lhs, rhs with
  | .scalar x, .scalar y => .ok (compare? x y)
  | .quantity x xUnit, .quantity y yUnit => do
    return compare? x (← convert op xUnit y yUnit table)
  | .text a, .text b => .ok (some (compare a b))
  | .scalar _, .quantity .. | .quantity .., .scalar _ => .error (.unitMismatch op lhs.unit rhs.unit)
  | _, _ => .error (typeMismatch op lhs rhs)

def equals (lhs rhs : Value) (table : ConversionTable) : Evaluated Bool :=
  match lhs, rhs with
  | .scalar x, .scalar y => .ok (x == y)
  | .quantity x xUnit, .quantity y yUnit => do
    return nearlyEqual x (← convert .eq xUnit y yUnit table)
  | .boolean a, .boolean b => .ok (a == b)
  | .text a, .text b => .ok (a == b)
  | .literal a _, .literal b _ => .ok (a == b)
  | .composite a _, .composite b _ => .ok (a == b)
  | .absent, .absent => .ok true
  | .scalar _, .quantity .. | .quantity .., .scalar _ => .error (.unitMismatch .eq lhs.unit rhs.unit)
  | _, _ => .error (typeMismatch .eq lhs rhs)

/-- Which comparison results an ordering operator accepts. -/
def accepts : BinaryOp → Ordering → Bool
  | .lt, result => result == .lt
  | .le, result => result != .gt
  | .gt, result => result == .gt
  | _, result => result != .lt

def logical (op : BinaryOp) (lhs rhs : Value) : Evaluated Value :=
  match lhs, rhs with
  | .boolean a, .boolean b =>
    .ok (.boolean (match op with
      | .and => a && b
      | .or => a || b
      | _ => a != b))
  | _, _ => .error (typeMismatch op lhs rhs)

def numbers (op : BinaryOp) (x y : Float) : Evaluated Float :=
  match op with
  | .add => .ok (x + y)
  | .sub => .ok (x - y)
  | .mul => .ok (x * y)
  | .div => if y == 0 then .error .divisionByZero else .ok (x / y)
  | .rem => if y == 0 then .error .divisionByZero else .ok (remainder x y)
  | .pow => .ok (x.pow y)
  | _ => .error (.typeMismatch op "scalar" "scalar")

/-- A product or quotient; it becomes a scalar when the units cancel in base symbols (`kW / W`). -/
def collapse (op : BinaryOp) (x : Float) (unit : PhysicalUnit) (table : ConversionTable) :
    Evaluated Value :=
  match table.normalize? unit with
  | none => .error (.unitOverflow op unit)
  | some (scale, base) =>
    if base.isDimensionless then .ok (.scalar (x * scale)) else .ok (.quantity x unit)

/-- The integer that a quantity can be raised to: it fits an exponent and is not the lowest one. -/
def integralExponent? (x : Float) : Option Int :=
  (toInteger? x).filter fun n => decide (n.natAbs < 2147483648)

def quantities (op : BinaryOp) (x : Float) (xUnit : PhysicalUnit) (y : Float) (yUnit : PhysicalUnit)
    (table : ConversionTable) : Evaluated Value :=
  match op with
  | .add | .sub | .rem => do
    let converted ← convert op xUnit y yUnit table
    return .quantity (← numbers op x converted) xUnit
  | .mul =>
    match xUnit.mul? yUnit with
    | some unit => collapse op (x * y) unit table
    | none => .error (.unitOverflow op xUnit)
  | .div => do
    let quotient ← numbers op x y
    match xUnit.div? yUnit with
    | some unit => collapse op quotient unit table
    | none => .error (.unitOverflow op xUnit)
  | _ => .error (.typeMismatch op "quantity" "quantity")

def quantityWithScalar (op : BinaryOp) (x : Float) (unit : PhysicalUnit) (y : Float) :
    Evaluated Value :=
  match op with
  | .mul | .div => do return .quantity (← numbers op x y) unit
  | .pow =>
    match integralExponent? y with
    | none => .error (.typeMismatch op "quantity" "non-integral scalar")
    | some n =>
      match unit.pow? n with
      | some power => .ok (.measured (powInt x n) power)
      | none => .error (.unitOverflow op unit)
  | _ => .error (.unitMismatch op unit .dimensionless)

def scalarWithQuantity (op : BinaryOp) (x y : Float) (unit : PhysicalUnit) : Evaluated Value :=
  match op with
  | .mul => .ok (.quantity (x * y) unit)
  | .div =>
    match unit.pow? (-1) with
    | some inverse => do return .measured (← numbers op x y) inverse
    | none => .error (.unitOverflow op unit)
  | .pow => .error (.typeMismatch op "scalar" "quantity")
  | _ => .error (.unitMismatch op .dimensionless unit)

def arithmetic (op : BinaryOp) (lhs rhs : Value) (table : ConversionTable) : Evaluated Value :=
  match lhs, rhs with
  | .scalar x, .scalar y => do return .scalar (← numbers op x y)
  | .text a, .text b => if op = .add then .ok (.text (a ++ b)) else .error (typeMismatch op lhs rhs)
  | .quantity x xUnit, .quantity y yUnit => quantities op x xUnit y yUnit table
  | .quantity x unit, .scalar y => quantityWithScalar op x unit y
  | .scalar x, .quantity y unit => scalarWithQuantity op x y unit
  | _, _ => .error (typeMismatch op lhs rhs)

def binary (op : BinaryOp) (lhs rhs : Value) (table : ConversionTable) : Evaluated Value :=
  match op with
  | .and | .or | .xor => logical op lhs rhs
  | .eq => do return .boolean (← equals lhs rhs table)
  | .ne => do return .boolean (!(← equals lhs rhs table))
  | .lt | .le | .gt | .ge => do return .boolean ((← order op lhs rhs table).any (accepts op))
  | .add | .sub | .mul | .div | .rem | .pow => arithmetic op lhs rhs table

/-- A left operand of `and` or `or` that decides the result by itself. -/
def decides (op : BinaryOp) (lhs : Value) : Bool :=
  match op, lhs with
  | .and, .boolean false => true
  | .or, .boolean true => true
  | _, _ => false

end StructuralModel.Operators
