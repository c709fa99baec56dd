import StructuralModel.PhysicalUnit.Basic

/-! Expressions that define the values of features. Names stay unresolved: what a reference denotes
is decided by the scope in which the expression is evaluated. -/

namespace StructuralModel

inductive Literal
  | number (value : Float)
  | boolean (value : Bool)
  | text (value : String)

inductive UnaryOp
  | neg
  | not
deriving Repr, DecidableEq

inductive BinaryOp
  | add | sub | mul | div | rem | pow
  | eq | ne | lt | le | gt | ge
  | and | or | xor
deriving Repr, DecidableEq

/-- A name as written: one segment, or several for a qualified name. -/
structure Path where
  first : String
  rest : List String
deriving Repr, DecidableEq

namespace Path

def simple (name : String) : Path := ⟨name, []⟩

def segments (path : Path) : List String :=
  path.first :: path.rest

def isSimple (path : Path) : Bool :=
  path.rest.isEmpty

end Path

inductive Expr
  | literal (value : Literal)
  /-- A number with a unit, such as `500 [kg]`. -/
  | quantity (value : Float) (unit : PhysicalUnit)
  | reference (path : Path)
  /-- A feature of a composite value, such as `engine.power`. -/
  | member (target : Expr) (name : String)
  | unary (op : UnaryOp) (operand : Expr)
  | binary (op : BinaryOp) (lhs rhs : Expr)
  | conditional (condition whenTrue whenFalse : Expr)
  | call (function : String) (arguments : List Expr)

instance : Inhabited Expr := ⟨.literal (.boolean false)⟩

namespace UnaryOp

def symbol : UnaryOp → String
  | .neg => "-"
  | .not => "not"

end UnaryOp

namespace BinaryOp

def symbol : BinaryOp → String
  | .add => "+"
  | .sub => "-"
  | .mul => "*"
  | .div => "/"
  | .rem => "%"
  | .pow => "**"
  | .eq => "=="
  | .ne => "!="
  | .lt => "<"
  | .le => "<="
  | .gt => ">"
  | .ge => ">="
  | .and => "and"
  | .or => "or"
  | .xor => "xor"

def all : List BinaryOp :=
  [.add, .sub, .mul, .div, .rem, .pow, .eq, .ne, .lt, .le, .gt, .ge, .and, .or, .xor]

def ofSymbol? (symbol : String) : Option BinaryOp :=
  all.find? fun op => op.symbol == symbol

def isComparison (op : BinaryOp) : Bool :=
  op matches .eq | .ne | .lt | .le | .gt | .ge

def isLogical (op : BinaryOp) : Bool :=
  op matches .and | .or | .xor

end BinaryOp
end StructuralModel
