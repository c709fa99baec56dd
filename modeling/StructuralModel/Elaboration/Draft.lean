import StructuralModel.Decimal.Dyadic
import StructuralModel.Elaboration.Problem
import StructuralModel.Model.Edit
import StructuralModel.Model.Lookup
import StructuralModel.Source.Declaration

/-! The elements that declarations declare, before the names in them are resolved. All elements
exist before the first name is, so declarations can refer to later ones. -/

namespace StructuralModel

/-- A name that a declaration uses, to be found by its element. -/
structure PendingName (α : Type) where
  element : ElementId
  name : Spanned α

structure PendingRedefinition extends PendingName String where
  /-- The feature takes the kind of what it redefines. -/
  takesKind : Bool

structure Draft where
  model : Model
  spans : Array Span
  problems : List DeclarationProblem
  generals : List (PendingName Path)
  redefinitions : List PendingRedefinition
  abouts : List (PendingName Path)

/-- The number of instances that a multiplicity stands for: a whole number of 32 bits. -/
def instanceCount? (count : Float) : Option Nat :=
  match toInteger? count with
  | some (.ofNat count) => if count < 4294967296 then some count else none
  | _ => none

namespace DefinitionKind

def elementKind : DefinitionKind → ElementKind
  | .part => .partDefinition
  | .attribute => .attributeDefinition
  | .enumeration => .enumerationDefinition

end DefinitionKind

namespace UsageKind

/-- The kind of the declared element, as long as nothing is known of what it redefines. -/
def elementKind : UsageKind → ElementKind
  | .part => .partUsage
  | .attribute | .shorthand => .feature

end UsageKind

namespace UsageHeader

/-- A usage without a name of its own has the name of what it redefines. -/
def declaredName? (header : UsageHeader) : Option (Spanned String) :=
  header.name? <|> header.redefines?

end UsageHeader

namespace Draft

def empty : Draft := ⟨.empty, #[], [], [], [], []⟩

def spanOf (d : Draft) (id : ElementId) : Span :=
  d.spans.getD id .atStart

def report (d : Draft) (problem : DeclarationProblem) : Draft :=
  { d with problems := d.problems ++ [problem] }

def add (d : Draft) (owner? : Option ElementId) (kind : ElementKind) (name? : Option String)
    (span : Span) : Draft :=
  { d with model := d.model.add owner? kind name?, spans := d.spans.push span }

def edit (d : Draft) (f : Model → Model) : Draft :=
  { d with model := f d.model }

def duplicate? (d : Draft) (owner? : Option ElementId) (name : Spanned String) :
    Option DeclarationProblem :=
  (d.model.child? owner? name.value).map fun first =>
    .duplicate name (owner?.map d.model.path) (d.spanOf first)

/-- Declares an element and what belongs to it. A name that its owner has already is reported, and
nothing of the declaration is kept. -/
def addNamed (d : Draft) (owner? : Option ElementId) (kind : ElementKind) (name : Spanned String)
    (content : Draft → ElementId → Draft) : Draft :=
  match d.duplicate? owner? name with
  | some problem => d.report problem
  | none => content (d.add owner? kind (some name.value) name.span) d.model.size

def addGenerals (d : Draft) (id : ElementId) (names : List (Spanned Path)) : Draft :=
  { d with generals := d.generals ++ names.map (⟨id, ·⟩) }

def setMultiplicity (d : Draft) (id : ElementId) (count? : Option (Spanned Float)) : Draft :=
  match count? with
  | none => d
  | some count =>
    match instanceCount? count.value with
    | some instances => d.edit (·.setMultiplicity id instances)
    | none => d.report (.invalidMultiplicity count)

def setValue (d : Draft) (id : ElementId) (value? : Option (Spanned Expr)) : Draft :=
  match value? with
  | none => d
  | some value => d.edit (·.setValue id value.value)

def addRedefinition (d : Draft) (id : ElementId) (kind : UsageKind)
    (name? : Option (Spanned String)) : Draft :=
  match name? with
  | none => d
  | some name =>
    { d with redefinitions := d.redefinitions ++ [⟨⟨id, name⟩, kind = .shorthand⟩] }

def addHeader (d : Draft) (id : ElementId) (kind : UsageKind) (header : UsageHeader) : Draft :=
  (((d.setMultiplicity id header.multiplicity?).setValue id header.value?).addGenerals id
    (header.types ++ header.subsets)).addRedefinition id kind header.redefines?

def addComment (d : Draft) (id : ElementId) (about : List (Spanned Path)) (body : Spanned String) :
    Draft :=
  { d.edit (·.setBody id body.value) with abouts := d.abouts ++ about.map (⟨id, ·⟩) }

def setLocale (d : Draft) (id : ElementId) (locale? : Option (Spanned String)) : Draft :=
  match locale? with
  | none => d
  | some locale => d.edit (·.setLocale id locale.value)

mutual

/-- Declares an element with all its members. -/
def declare (d : Draft) (owner? : Option ElementId) : Declaration → Draft
  | .package name members =>
    d.addNamed owner? .package name fun d id => d.declareAll (some id) members
  | .definition kind name generals members =>
    d.addNamed owner? kind.elementKind name fun d id =>
      (d.addGenerals id generals).declareAll (some id) members
  | .usage kind header members =>
    match header.declaredName? with
    | none => d
    | some name =>
      d.addNamed owner? kind.elementKind name fun d id =>
        (d.addHeader id kind header).declareAll (some id) members
  | .enumerationLiteral name => d.addNamed owner? .enumerationLiteral name fun d _ => d
  | .comment none about body =>
    (d.add owner? .comment none body.span).addComment d.model.size about body
  | .comment (some name) about body =>
    d.addNamed owner? .comment name fun d id => d.addComment id about body
  | .documentation locale? body =>
    ((d.add owner? .documentation none body.span).edit (·.setBody d.model.size body.value)).setLocale
      d.model.size locale?
  | .importing _ => d

def declareAll (d : Draft) (owner? : Option ElementId) : List Declaration → Draft
  | [] => d
  | declaration :: rest => (d.declare owner? declaration).declareAll owner? rest

end

def ofDeclarations (declarations : List Declaration) : Draft :=
  empty.declareAll none declarations

end Draft
end StructuralModel
