import StructuralModel.Expr.Basic

/-! The elements of a model and the edges that leave them. -/

namespace StructuralModel

abbrev ElementId := Nat

inductive ElementKind
  | package
  | partDefinition
  | partUsage
  | attributeDefinition
  | enumerationDefinition
  | enumerationLiteral
  /-- An attribute usage; carries a defining expression. -/
  | feature
  | comment
  | documentation
deriving Repr, DecidableEq

namespace ElementKind

def name : ElementKind → String
  | .package => "Package"
  | .partDefinition => "PartDefinition"
  | .partUsage => "PartUsage"
  | .attributeDefinition => "AttributeDefinition"
  | .enumerationDefinition => "EnumerationDefinition"
  | .enumerationLiteral => "EnumerationLiteral"
  | .feature => "Feature"
  | .comment => "Comment"
  | .documentation => "Documentation"

def all : List ElementKind :=
  [.package, .partDefinition, .partUsage, .attributeDefinition, .enumerationDefinition,
   .enumerationLiteral, .feature, .comment, .documentation]

def ofName? (name : String) : Option ElementKind :=
  all.find? fun kind => kind.name == name

/-- Kinds that can be looked up as features of a scope and redefined. -/
def isFeature (kind : ElementKind) : Bool :=
  kind matches .feature | .partUsage

def isPart (kind : ElementKind) : Bool :=
  kind matches .partDefinition | .partUsage

def isDefinition (kind : ElementKind) : Bool :=
  kind matches .partDefinition | .attributeDefinition | .enumerationDefinition

def annotates (kind : ElementKind) : Bool :=
  kind matches .comment | .documentation

/-- Kinds that can be specialized or used as the type of a usage. -/
def isType (kind : ElementKind) : Bool :=
  kind.isDefinition || kind.isFeature

end ElementKind

structure Element where
  kind : ElementKind
  name? : Option String
  path : String
  owner? : Option ElementId
  /-- The owned elements in declaration order. -/
  members : List ElementId := []
  /-- Specializations of a definition and typings of a usage, in declaration order. -/
  general : List ElementId := []
  redefines? : Option ElementId := none
  value? : Option Expr := none
  multiplicity? : Option Nat := none
  body? : Option String := none
  locale? : Option String := none
  about : List ElementId := []
  annotatedBy : List ElementId := []

instance : Inhabited Element := ⟨{ kind := .package, name? := none, path := "", owner? := none }⟩

namespace Element

/-- The number of instances of a part usage, one unless declared. -/
def multiplicity (e : Element) : Nat :=
  e.multiplicity?.getD 1

/-- Specializations and typings, then the redefined feature. -/
def generalTypes (e : Element) : List ElementId :=
  e.general ++ e.redefines?.toList

end Element
end StructuralModel
