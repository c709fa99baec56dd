import StructuralModel.Source.ExpressionGrammar
import StructuralModel.Proofs.TokenReading

/-! Expressions as tokens, with parentheses only where the outermost construct binds looser than its place asks for. -/

namespace StructuralModel

/-- The outermost construct of an expression. -/
inductive Binding
  | conditional
  | chained (level : OperatorLevel)
  | prefixed
  | power
  | member
  | primary
deriving Repr, DecidableEq

namespace OperatorLevel

def rank : OperatorLevel → Nat
  | disjunction => 1
  | exclusion => 2
  | conjunction => 3
  | equality => 4
  | order => 5
  | sum => 6
  | product => 7

/-- What the operands on the right have to bind as. -/
def tighter : OperatorLevel → Binding
  | disjunction => .chained exclusion
  | exclusion => .chained conjunction
  | conjunction => .chained equality
  | equality => .chained order
  | order => .chained sum
  | sum => .chained product
  | product => .prefixed

end OperatorLevel

namespace Binding

/-- A construct that binds tighter has a higher rank. -/
def rank : Binding → Nat
  | conditional => 0
  | chained level => level.rank
  | prefixed => 8
  | power => 9
  | member => 10
  | primary => 11

end Binding

def UnaryOp.token : UnaryOp → Token
  | .neg => .mark .minus
  | .not => .keyword .not

namespace BinaryOp

def token : BinaryOp → Token
  | add => .mark .plus
  | sub => .mark .minus
  | mul => .mark .star
  | div => .mark .slash
  | rem => .mark .percent
  | pow => .mark .power
  | eq => .mark .equal
  | ne => .mark .notEqual
  | lt => .mark .less
  | le => .mark .lessEqual
  | gt => .mark .greater
  | ge => .mark .greaterEqual
  | and => .keyword .and
  | or => .keyword .or
  | xor => .keyword .xor

/-- The level of operators that group to the left. -/
def level? : BinaryOp → Option OperatorLevel
  | mul | div | rem => some .product
  | add | sub => some .sum
  | lt | le | gt | ge => some .order
  | eq | ne => some .equality
  | and => some .conjunction
  | xor => some .exclusion
  | or => some .disjunction
  | pow => none

def binding (op : BinaryOp) : Binding :=
  match op.level? with
  | some level => .chained level
  | none => .power

/-- What the left operand has to bind as. -/
def leftPlace (op : BinaryOp) : Binding :=
  match op.level? with
  | some level => .chained level
  | none => .member

/-- What the right operand has to bind as. -/
def rightPlace (op : BinaryOp) : Binding :=
  match op.level? with
  | some level => level.tighter
  | none => .prefixed

end BinaryOp

def Literal.token : Literal → Token
  | .number value => .number value
  | .boolean true => .keyword .yes
  | .boolean false => .keyword .no
  | .text value => .text value

namespace PhysicalUnit

def termTokens (factor : Factor) : List Token :=
  if factor.2.natAbs = 1 then [.identifier factor.1]
  else [.identifier factor.1, .mark .caret, .number (Float.ofNat factor.2.natAbs)]

def termsTokens (factors : List Factor) : List Token :=
  [.mark .star].intercalate (factors.map termTokens)

/-- The numerator, or `1`, and after `/` the denominator, if any. -/
def tokens (u : PhysicalUnit) : List Token :=
  let numerator := u.factors.filter fun factor => 0 < factor.2
  let denominator := u.factors.filter fun factor => factor.2 < 0
  (if numerator.isEmpty then [.number (Float.ofNat 1)] else termsTokens numerator) ++
    (if denominator.isEmpty then [] else .mark .slash :: termsTokens denominator)

end PhysicalUnit

namespace Expr

def binding : Expr → Binding
  | literal _ | quantity _ _ | reference _ | call _ _ => .primary
  | member _ _ => .member
  | unary _ _ => .prefixed
  | binary op _ _ => op.binding
  | conditional _ _ _ => .conditional

def parenthesized (tokens : List Token) : List Token :=
  .mark .leftParen :: tokens ++ [.mark .rightParen]

/-- Tokens of an expression at a place, in parentheses if it binds looser than the place asks for. -/
def placed (place : Binding) (binding : Binding) (tokens : List Token) : List Token :=
  if place.rank ≤ binding.rank then tokens else parenthesized tokens

mutual

def tokens : Expr → List Token
  | literal value => [value.token]
  | quantity value unit => .number value :: .mark .leftBracket :: (unit.tokens ++ [.mark .rightBracket])
  | reference path => path.tokens
  | member target name => placed .member target.binding target.tokens ++ [.mark .dot, .identifier name]
  | unary op operand => op.token :: placed .prefixed operand.binding operand.tokens
  | binary op lhs rhs =>
    placed op.leftPlace lhs.binding lhs.tokens ++ op.token :: placed op.rightPlace rhs.binding rhs.tokens
  | conditional condition whenTrue whenFalse =>
    .keyword .ifThen :: (placed (.chained .disjunction) condition.binding condition.tokens ++
      .mark .question :: (whenTrue.tokens ++ .keyword .otherwise :: whenFalse.tokens))
  | call function arguments =>
    .identifier function :: .mark .leftParen ::
      ([.mark .comma].intercalate (listTokens arguments) ++ [.mark .rightParen])

def listTokens : List Expr → List (List Token)
  | [] => []
  | expr :: rest => expr.tokens :: listTokens rest

end

/-- The tokens of an expression at a place. -/
def tokensAt (expr : Expr) (place : Binding) : List Token :=
  placed place expr.binding expr.tokens

mutual

/-- The units that occur in an expression. -/
def units : Expr → List PhysicalUnit
  | quantity _ unit => [unit]
  | literal _ | reference _ => []
  | member target _ => target.units
  | unary _ operand => operand.units
  | binary _ lhs rhs => lhs.units ++ rhs.units
  | conditional condition whenTrue whenFalse => condition.units ++ whenTrue.units ++ whenFalse.units
  | call _ arguments => listUnits arguments

def listUnits : List Expr → List PhysicalUnit
  | [] => []
  | expr :: rest => expr.units ++ listUnits rest

end

end Expr
end StructuralModel
