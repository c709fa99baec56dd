import StructuralModel.Model.Element
import StructuralModel.QualifiedName

/-! The element graph. Elements are added top-down, so an owner is older than its members; edges
join elements that the model has. -/

namespace StructuralModel

structure Model where
  elements : Array Element
  /-- The top-level elements in declaration order. -/
  roots : List ElementId
  members_younger : ∀ (id : Nat) (known : id < elements.size),
    ∀ member : Nat, member ∈ elements[id].members → id < member ∧ member < elements.size
  owner_older : ∀ (id : Nat) (known : id < elements.size),
    ∀ owner : Nat, elements[id].owner? = some owner → owner < id
  general_known : ∀ (id : Nat) (known : id < elements.size),
    ∀ general : Nat, general ∈ elements[id].generalTypes → general < elements.size

namespace Model

def empty : Model where
  elements := #[]
  roots := []
  members_younger := by simp
  owner_older := by simp
  general_known := by simp

instance : Inhabited Model := ⟨empty⟩

def size (m : Model) : Nat :=
  m.elements.size

def isEmpty (m : Model) : Bool :=
  m.elements.isEmpty

/-- The element at a position. Positions that the model does not have read as an unnamed element
without edges. -/
def element (m : Model) (id : ElementId) : Element :=
  m.elements.getD id default

theorem element_eq {m : Model} {id : Nat} (known : id < m.elements.size) :
    m.element id = m.elements[id] := by
  simp [element, Array.getD, known]

theorem element_eq_default {m : Model} {id : Nat} (unknown : m.size ≤ id) :
    m.element id = default := by
  simp [element, Array.getD, Nat.not_lt.mpr (show m.elements.size ≤ id from unknown)]

theorem lt_of_mem_members {m : Model} {id member : Nat}
    (owned : member ∈ (m.element id).members) : id < member ∧ member < m.size := by
  by_cases known : id < m.elements.size
  · rw [element_eq known] at owned
    exact m.members_younger id known member owned
  · rw [element_eq_default (Nat.le_of_not_lt known)] at owned
    simp [default] at owned

theorem owner_lt {m : Model} {id owner : Nat} (owned : (m.element id).owner? = some owner) :
    owner < id := by
  by_cases known : id < m.elements.size
  · rw [element_eq known] at owned
    exact m.owner_older id known owner owned
  · rw [element_eq_default (Nat.le_of_not_lt known)] at owned
    simp [default] at owned

theorem lt_of_mem_generalTypes {m : Model} {id general : Nat}
    (edge : general ∈ (m.element id).generalTypes) : general < m.size := by
  by_cases known : id < m.elements.size
  · rw [element_eq known] at edge
    exact m.general_known id known general edge
  · rw [element_eq_default (Nat.le_of_not_lt known)] at edge
    simp [default, Element.generalTypes] at edge

def kind (m : Model) (id : ElementId) : ElementKind :=
  (m.element id).kind

def name? (m : Model) (id : ElementId) : Option String :=
  (m.element id).name?

def path (m : Model) (id : ElementId) : String :=
  (m.element id).path

def owner? (m : Model) (id : ElementId) : Option ElementId :=
  (m.element id).owner?

def members (m : Model) (id : ElementId) : List ElementId :=
  (m.element id).members

/-- Specializations and typings, then the redefined feature. -/
def generalTypes (m : Model) (id : ElementId) : List ElementId :=
  (m.element id).generalTypes

def redefines? (m : Model) (id : ElementId) : Option ElementId :=
  (m.element id).redefines?

def value? (m : Model) (id : ElementId) : Option Expr :=
  (m.element id).value?

def isFeature (m : Model) (id : ElementId) : Bool :=
  (m.kind id).isFeature

/-- The owned features and part usages, in declaration order. -/
def ownedFeatures (m : Model) (id : ElementId) : List ElementId :=
  (m.members id).filter m.isFeature

theorem mem_generalTypes_of_redefines {m : Model} {id target : Nat}
    (edge : m.redefines? id = some target) : target ∈ m.generalTypes id := by
  simp only [redefines?] at edge
  simp [generalTypes, Element.generalTypes, edge]

end Model
end StructuralModel
