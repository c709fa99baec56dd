import StructuralModel.Decimal.Shortest
import StructuralModel.PhysicalUnit.Text
import StructuralModel.Source.Reader

/-! The grammar of expressions. From the loosest to the tightest: conditionals, `or`, `xor`, `and`,
equality, order, sums, products, prefix operators, powers, members. Binary operators group to the
left, powers to the right. -/

namespace StructuralModel

/-- Operators that bind equally tight. -/
inductive OperatorLevel
  | product
  | sum
  | order
  | equality
  | conjunction
  | exclusion
  | disjunction
deriving Repr, DecidableEq

namespace OperatorLevel

def operator? : OperatorLevel → Token → Option BinaryOp
  | product, .mark .star => some .mul
  | product, .mark .slash => some .div
  | product, .mark .percent => some .rem
  | sum, .mark .plus => some .add
  | sum, .mark .minus => some .sub
  | order, .mark .less => some .lt
  | order, .mark .lessEqual => some .le
  | order, .mark .greater => some .gt
  | order, .mark .greaterEqual => some .ge
  | equality, .mark .equal => some .eq
  | equality, .mark .notEqual => some .ne
  | conjunction, .keyword .and => some .and
  | exclusion, .keyword .xor => some .xor
  | disjunction, .keyword .or => some .or
  | _, _ => none

/-- The tightest first. -/
def all : List OperatorLevel :=
  [product, sum, order, equality, conjunction, exclusion, disjunction]

end OperatorLevel

namespace Reader

def unaryOp? : Token → Option UnaryOp
  | .mark .minus => some .neg
  | .keyword .not => some .not
  | _ => none

/-- The tokens that a unit can be written with. -/
def unitPiece? : Token → Option String
  | .identifier symbol => some symbol
  | .number value => some (Decimal.text value)
  | .mark .star => some "*"
  | .mark .slash => some "/"
  | .mark .caret => some "^"
  | .mark .minus => some "-"
  | .mark .percent => some "%"
  | _ => none

/-- The longest run of such tokens, which has to form a unit. -/
def unit : Reader PhysicalUnit := expecting .unit fun tokens => do
  let (pieces, rest) ← oneOrMore (token unitPiece?) tokens
  match PhysicalUnit.read (String.join (pieces.map (·.value))) with
  | .ok unit => .ok (unit, rest)
  | .error _ => .error (.stopped tokens)

/-- A number, such as `500`, or a quantity, such as `500 [kg]`. -/
def numberOrQuantity : Reader Expr := do
  let value ← number
  match ← optional (mark .leftBracket) with
  | none => return .literal (.number value.value)
  | some _ => .quantity value.value <$> committed (unit <* mark .rightBracket)

def parenthesized (expression : Reader Expr) : Reader Expr :=
  mark .leftParen *> committed (expression <* mark .rightParen)

def call (expression : Reader Expr) : Reader Expr := do
  let function ← identifier <* mark .leftParen
  committed do
    let arguments ← optional (separated (mark .comma) expression) <* mark .rightParen
    return .call function.value (arguments.getD [])

def primary (expression : Reader Expr) : Reader Expr :=
  firstOf [
    numberOrQuantity,
    (fun value => .literal (.text value.value)) <$> text,
    (fun _ => .literal (.boolean true)) <$> keyword .yes,
    (fun _ => .literal (.boolean false)) <$> keyword .no,
    parenthesized expression,
    call expression,
    (fun name => .reference name.value) <$> qualifiedName]

/-- Members of composite values, such as `engine.power`. -/
def members (expression : Reader Expr) : Reader Expr := do
  let target ← primary expression
  let names ← many (mark .dot *> committed identifier)
  return names.foldl (fun target name => .member target name.value) target

/-- A base with an optional exponent, which may have a prefix operator or be a power itself. -/
def power (expression operand : Reader Expr) : Reader Expr := do
  let base ← members expression
  match ← optional (either (mark .power) (mark .caret)) with
  | none => return base
  | some _ => .binary .pow base <$> committed operand

def negated (operand : Reader Expr) : Reader Expr := do
  let op ← token unaryOp?
  .unary op.value <$> committed operand

/-- Operands joined by operators of one level. -/
def chain (level : OperatorLevel) (operand : Reader Expr) : Reader Expr := do
  let first ← operand
  let more ← many do
    let op ← token level.operator?
    (op.value, ·) <$> committed operand
  return more.foldl (fun lhs (op, rhs) => .binary op lhs rhs) first

/-- Operands joined by binary operators of all levels. -/
def operation (operand : Reader Expr) : Reader Expr :=
  OperatorLevel.all.foldl (fun tighter level => chain level tighter) operand

/-- A conditional, such as `if loaded ? 2 else 1`. -/
def conditional (expression operand : Reader Expr) : Reader Expr := do
  let _ ← keyword .ifThen
  committed do
    let condition ← operation operand <* mark .question
    let whenTrue ← expression <* keyword .otherwise
    return .conditional condition whenTrue (← expression)

mutual

def operandWithin : Nat → Reader Expr
  | 0 => fail
  | depth + 1 =>
    either (negated (operandWithin depth))
      (power (expressionWithin depth) (operandWithin depth))

def expressionWithin : Nat → Reader Expr
  | 0 => fail
  | depth + 1 => expecting .expression <|
    either (conditional (expressionWithin depth) (operandWithin depth))
      (operation (operandWithin depth))

end

/-- An expression. Every level of nesting takes a token, and passes through an expression and an
operand at most. -/
def expression : Reader Expr := fun tokens =>
  expressionWithin (2 * tokens.length + 2) tokens

end Reader
end StructuralModel
