import StructuralModel.Source.Span

/-! What is wrong with a source text, and where. -/

namespace StructuralModel

inductive Severity
  | error
  | warning
deriving Repr, DecidableEq

namespace Severity

def name : Severity → String
  | .error => "error"
  | .warning => "warning"

end Severity

/-- The kinds of problems: those of single tokens, of the grammar, and of names. -/
inductive DiagnosticCode
  | unterminatedText
  | unexpectedCharacter
  | unterminatedComment
  | unexpectedToken
  | incompleteInput
  | undefinedType
  | undefinedRedefinition
  | notInherited
  | duplicateMember
  | generalizationCycle
  | invalidMultiplicity
  | undefinedAnnotationTarget
  | shadowedFeature
  | invalidGeneralType
deriving Repr, DecidableEq

namespace DiagnosticCode

def number : DiagnosticCode → String
  | .unterminatedText => "E001"
  | .unexpectedCharacter => "E002"
  | .unterminatedComment => "E003"
  | .unexpectedToken => "E100"
  | .incompleteInput => "E101"
  | .undefinedType => "E200"
  | .undefinedRedefinition => "E201"
  | .notInherited => "E202"
  | .duplicateMember => "E203"
  | .generalizationCycle => "E204"
  | .invalidMultiplicity => "E205"
  | .undefinedAnnotationTarget => "E206"
  | .shadowedFeature => "E207"
  | .invalidGeneralType => "E208"

def description : DiagnosticCode → String
  | .unterminatedText => "unterminated string literal"
  | .unexpectedCharacter => "unexpected character"
  | .unterminatedComment => "unterminated block comment"
  | .unexpectedToken => "unexpected token"
  | .incompleteInput => "incomplete input"
  | .undefinedType => "undefined type"
  | .undefinedRedefinition => "undefined redefined feature"
  | .notInherited => "redefined feature is not inherited"
  | .duplicateMember => "duplicate member name"
  | .generalizationCycle => "generalization cycle"
  | .invalidMultiplicity => "invalid multiplicity"
  | .undefinedAnnotationTarget => "undefined annotation target"
  | .shadowedFeature => "shadowed inherited feature"
  | .invalidGeneralType => "invalid general type"

def all : List DiagnosticCode :=
  [.unterminatedText, .unexpectedCharacter, .unterminatedComment, .unexpectedToken,
   .incompleteInput, .undefinedType, .undefinedRedefinition, .notInherited, .duplicateMember,
   .generalizationCycle, .invalidMultiplicity, .undefinedAnnotationTarget, .shadowedFeature,
   .invalidGeneralType]

def ofNumber? (number : String) : Option DiagnosticCode :=
  all.find? fun code => code.number == number

end DiagnosticCode

/-- A remark on a place in the source. The primary ones mark where the problem is. -/
structure Label where
  span : Span
  message : String
  isPrimary : Bool
deriving Repr, DecidableEq

structure Diagnostic where
  severity : Severity
  code? : Option DiagnosticCode
  message : String
  labels : List Label
  help? : Option String
deriving Repr, DecidableEq

namespace Diagnostic

/-- The problem on one line: severity, code and message. -/
def text (d : Diagnostic) : String :=
  let code := match d.code? with
    | some code => "[" ++ code.number ++ "]"
    | none => ""
  d.severity.name ++ code ++ ": " ++ d.message

def isError (d : Diagnostic) : Bool :=
  d.severity = .error

/-- The first problem and how many there are besides. -/
def summary : List Diagnostic → String
  | [] => ""
  | [d] => d.text
  | d :: more => d.text ++ " (+" ++ toString more.length ++ " more)"

end Diagnostic
end StructuralModel
