import StructuralModel.Model.Closure
import StructuralModel.Model.Traversal

/-! Finding elements by the names written in a model. -/

namespace StructuralModel.Model

/-- The members of an element; without an element, the roots. -/
def namespaceMembers (m : Model) : Option ElementId → List ElementId
  | none => m.roots
  | some id => m.members id

def child? (m : Model) (owner? : Option ElementId) (name : String) : Option ElementId :=
  (m.namespaceMembers owner?).find? fun id => m.name? id == some name

/-- The feature with the name that an element owns itself. -/
def ownFeature? (m : Model) (name : String) (id : ElementId) : Option ElementId :=
  (m.ownedFeatures id).find? fun feature => m.name? feature == some name

/-- The first feature with the name in the scope's closure, nearest first. -/
def feature? (m : Model) (scope : ElementId) (name : String) : Option ElementId :=
  (m.generalClosure scope).findSome? fun ancestor => m.ownFeature? name ancestor.element

/-- The nearest feature with the name that an element inherits. -/
def inheritedFeature? (m : Model) (owner : ElementId) (name : String) : Option ElementId :=
  (m.generalClosure owner).tail.findSome? fun ancestor => m.ownFeature? name ancestor.element

/-- The namespaces in which a name is looked up, from the inside out and ending at the root. -/
def namespaces (m : Model) : Option ElementId → List (Option ElementId)
  | none => [none]
  | some id => (m.enclosing id).map some ++ [none]

/-- A step down: a direct member before an inherited feature. -/
def descend? (m : Model) (id : ElementId) (name : String) : Option ElementId :=
  m.child? (some id) name <|> m.feature? id name

/-- The element that a name denotes where it is written. The first segment is searched from the
inside out, the others lead down from there. -/
def resolvePath? (m : Model) (start? : Option ElementId) : List String → Option ElementId
  | [] => none
  | first :: rest => do
    let start ← (m.namespaces start?).findSome? fun space => m.child? space first
    rest.foldlM m.descend? start

end StructuralModel.Model
