import StructuralModel.Resolution
import StructuralModel.Expr.Printer

/-! Why an expression has no value. Every error ends the evaluation that raised it. -/

namespace StructuralModel

/-- What is wrong with an argument of a built-in function. -/
inductive ArgumentProblem
  | noParts (type scope : String)
  | noFeature (part feature : String)
  | notATypeName (argument : String)
  | notAType (name : String) (kind : ElementKind)
  | notAFeatureName (argument : String)
  | notANumber (valueKind : String)
  | negative (value : String)
  | noSquareRoot (unit : PhysicalUnit)

def ArgumentProblem.message : ArgumentProblem → String
  | .noParts type scope => "no parts of type `" ++ type ++ "` in `" ++ scope ++ "`"
  | .noFeature part feature => "`" ++ part ++ "` has no feature `" ++ feature ++ "`"
  | .notATypeName argument => "expected a type name, got `" ++ argument ++ "`"
  | .notAType name kind => "`" ++ name ++ "` is a " ++ kind.name ++ ", not a type"
  | .notAFeatureName argument => "expected a feature name, got `" ++ argument ++ "`"
  | .notANumber valueKind => "expected a number, got " ++ valueKind
  | .negative value => "negative argument " ++ value
  | .noSquareRoot unit => "unit [" ++ unit.text ++ "] has no square root"

inductive EvaluationError
  | resolution (error : ResolutionError)
  | typeMismatch (op : BinaryOp) (lhs rhs : String)
  | invalidOperand (op operand : String)
  | unitMismatch (op : BinaryOp) (lhs rhs : PhysicalUnit)
  | divisionByZero
  | unitOverflow (op : BinaryOp) (unit : PhysicalUnit)
  | unknownFunction (name : String)
  | arityMismatch (function : String) (expected found : Nat)
  | invalidArgument (function : String) (problem : ArgumentProblem)
  | unresolvedReference (name scope : String)
  | notAValue (name : String) (kind : ElementKind)
  | cyclicReference (feature scope : String)
  | depthLimitExceeded (limit : Nat)

def EvaluationError.message : EvaluationError → String
  | .resolution error => error.message
  | .typeMismatch op lhs rhs => "cannot apply `" ++ op.symbol ++ "` to " ++ lhs ++ " and " ++ rhs
  | .invalidOperand op operand => "cannot apply `" ++ op ++ "` to " ++ operand
  | .unitMismatch op lhs rhs =>
    "incompatible units in `" ++ op.symbol ++ "`: [" ++ lhs.text ++ "] and [" ++ rhs.text ++ "]"
  | .divisionByZero => "division by zero"
  | .unitOverflow op unit =>
    "unit exponent out of range in `" ++ op.symbol ++ "` on [" ++ unit.text ++ "]"
  | .unknownFunction name => "unknown function `" ++ name ++ "`"
  | .arityMismatch function expected found =>
    "`" ++ function ++ "` expects " ++ toString expected ++ " argument(s), got " ++ toString found
  | .invalidArgument function problem =>
    "invalid argument to `" ++ function ++ "`: " ++ problem.message
  | .unresolvedReference name scope =>
    "cannot resolve `" ++ name ++ "` in scope `" ++ scope ++ "`"
  | .notAValue name kind => "`" ++ name ++ "` is a " ++ kind.name ++ " and has no value"
  | .cyclicReference feature scope =>
    "`" ++ feature ++ "` depends on itself in scope `" ++ scope ++ "`"
  | .depthLimitExceeded limit => "evaluation nested deeper than " ++ toString limit ++ " levels"

/-- A value, or the reason why there is none. -/
abbrev Evaluated (α : Type) := Except EvaluationError α

end StructuralModel
