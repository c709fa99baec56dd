import StructuralModel.Expr.Basic
import StructuralModel.QualifiedName
import StructuralModel.PhysicalUnit.Text
import StructuralModel.Decimal.Shortest
import StructuralModel.Text.Quoted

/-! Expressions written out with parentheses around every binary operation. -/

namespace StructuralModel

def Path.text (path : Path) : String :=
  QualifiedName.joinAll path.segments

def Literal.printed : Literal → String
  | .number value => Decimal.text value
  | .boolean value => if value then "true" else "false"
  | .text value => Text.quoted value

def UnaryOp.leading : UnaryOp → String
  | .neg => "-"
  | .not => "not "

mutual

def Expr.text : Expr → String
  | .literal value => value.printed
  | .quantity value unit => Decimal.text value ++ " [" ++ unit.text ++ "]"
  | .reference path => path.text
  | .member target name => target.text ++ "." ++ name
  | .unary op operand => op.leading ++ operand.text
  | .binary op lhs rhs => "(" ++ lhs.text ++ " " ++ op.symbol ++ " " ++ rhs.text ++ ")"
  | .conditional condition whenTrue whenFalse =>
    "if " ++ condition.text ++ " ? " ++ whenTrue.text ++ " else " ++ whenFalse.text
  | .call function arguments => function ++ "(" ++ ", ".intercalate (Expr.texts arguments) ++ ")"

def Expr.texts : List Expr → List String
  | [] => []
  | expr :: rest => expr.text :: Expr.texts rest

end

end StructuralModel
