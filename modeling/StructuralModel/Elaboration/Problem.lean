import StructuralModel.Decimal.Shortest
import StructuralModel.Expr.Printer
import StructuralModel.Model.Element
import StructuralModel.Source.Diagnostic

/-! What can be wrong with declarations that follow the grammar. -/

namespace StructuralModel

/-- An element by its path and the place of its declaration. -/
structure DeclaredElement where
  path : String
  span : Span

inductive DeclarationProblem
  /-- The owner's path is missing for the root of the model. -/
  | duplicate (name : Spanned String) (owner? : Option String) (first : Span)
  | invalidMultiplicity (count : Spanned Float)
  | invalidGeneralType (name : Spanned Path) (kind : ElementKind) (declared : Span)
  | undefinedType (name : Spanned Path)
  /-- Nothing in the model has the name of the redefined feature. -/
  | undefinedRedefinition (name : Spanned String) (owner? : Option String)
  /-- A feature with the name exists, but the owner does not inherit it. -/
  | notInherited (name : Spanned String) (owner? : Option String) (declared : Span)
  | undefinedAnnotationTarget (name : Spanned Path)
  | generalizationCycle (first : DeclaredElement) (more : List DeclaredElement)
  | shadowedFeature (name : String) (feature hidden : DeclaredElement)

namespace DeclarationProblem

/-- A path or name set off from the text around it. -/
def marked (name : String) : String :=
  "`" ++ name ++ "`"

def severity : DeclarationProblem → Severity
  | .shadowedFeature .. => .warning
  | _ => .error

def code : DeclarationProblem → DiagnosticCode
  | .duplicate .. => .duplicateMember
  | .invalidMultiplicity .. => .invalidMultiplicity
  | .invalidGeneralType .. => .invalidGeneralType
  | .undefinedType .. => .undefinedType
  | .undefinedRedefinition .. => .undefinedRedefinition
  | .notInherited .. => .notInherited
  | .undefinedAnnotationTarget .. => .undefinedAnnotationTarget
  | .generalizationCycle .. => .generalizationCycle
  | .shadowedFeature .. => .shadowedFeature

/-- The owner of a redefinition in a message. -/
def heir : Option String → String
  | none => "a top-level declaration"
  | some owner => marked owner

def message : DeclarationProblem → String
  | .duplicate name owner? _ =>
    let owner := match owner? with
      | none => "the model root"
      | some owner => marked owner
    marked name.value ++ " is declared multiple times in " ++ owner
  | .invalidMultiplicity count => "invalid multiplicity " ++ marked (Decimal.text count.value)
  | .invalidGeneralType name kind _ =>
    marked name.value.text ++ " is a " ++ kind.name ++ " and cannot be used as a type"
  | .undefinedType name => "undefined type " ++ marked name.value.text
  | .undefinedRedefinition name owner? =>
    heir owner? ++ " has no inherited feature " ++ marked name.value ++ " to redefine"
  | .notInherited name owner? _ =>
    heir owner? ++ " does not inherit the feature " ++ marked name.value ++ " it redefines"
  | .undefinedAnnotationTarget name =>
    "comment refers to undefined element " ++ marked name.value.text
  | .generalizationCycle first more =>
    "generalization cycle between " ++ ", ".intercalate ((first :: more).map (marked ·.path))
  | .shadowedFeature _ feature hidden =>
    marked feature.path ++ " shadows inherited feature " ++ marked hidden.path ++
      " without redefining it"

def labels : DeclarationProblem → List Label
  | .duplicate name _ first =>
    [⟨name.span, "duplicate declaration", true⟩, ⟨first, "first declared here", false⟩]
  | .invalidMultiplicity count => [⟨count.span, "not a non-negative integer", true⟩]
  | .invalidGeneralType name _ declared =>
    [⟨name.span, "not a type", true⟩, ⟨declared, "declared here", false⟩]
  | .undefinedType name => [⟨name.span, "not found in this scope", true⟩]
  | .undefinedRedefinition name _ => [⟨name.span, "not found in general types", true⟩]
  | .notInherited name _ declared =>
    [⟨name.span, "not inherited", true⟩, ⟨declared, "declared here", false⟩]
  | .undefinedAnnotationTarget name => [⟨name.span, "not found in this scope", true⟩]
  | .generalizationCycle first more =>
    ⟨first.span, "part of a cycle", true⟩ ::
      more.map fun element => ⟨element.span, "part of a cycle", false⟩
  | .shadowedFeature _ feature hidden =>
    [⟨feature.span, "shadows an inherited feature", true⟩,
      ⟨hidden.span, "inherited feature", false⟩]

def help? : DeclarationProblem → Option String
  | .duplicate .. =>
    some "rename one of them, or use `redefines` to override an inherited feature"
  | .invalidMultiplicity .. => some "write the number of instances, for example `[9]`"
  | .invalidGeneralType .. => none
  | .undefinedType .. => some "declare it, or check the spelling and the enclosing package"
  | .undefinedRedefinition .. =>
    some "check the spelling, or declare the feature instead of redefining it"
  | .notInherited .. => some "add a specialization or typing that brings the feature into scope"
  | .undefinedAnnotationTarget .. => none
  | .generalizationCycle .. =>
    some "an element cannot specialize itself, directly or indirectly"
  | .shadowedFeature name .. => some ("write `redefines " ++ name ++ "` to override it")

def diagnostic (problem : DeclarationProblem) : Diagnostic where
  severity := problem.severity
  code? := some problem.code
  message := problem.message
  labels := problem.labels
  help? := problem.help?

end DeclarationProblem
end StructuralModel
