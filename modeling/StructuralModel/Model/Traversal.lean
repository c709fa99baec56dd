import StructuralModel.Model.Basic

/-! Walks along the ownership tree: down to all elements, and outward to the root. -/

namespace StructuralModel.Model

/-- An element and everything it owns, directly or not: each owner stands before the complete
subtrees of its members. Members are younger than their owner, so the walk ends. -/
def subtree (m : Model) (id : Nat) : List ElementId :=
  id :: (m.members id).attach.flatMap fun ⟨member, _⟩ => m.subtree member
termination_by m.size - id
decreasing_by
  have bounds := lt_of_mem_members (show member ∈ (m.element id).members from ‹_›)
  omega

theorem subtree_eq {m : Model} {id : Nat} : m.subtree id = id :: (m.members id).flatMap m.subtree := by
  rw [subtree]
  simp

/-- What a depth-first walk visits when some elements are on its stack. A visited element leaves its
members on top of the stack, the first of them uppermost. -/
def visit (m : Model) : List ElementId → List ElementId
  | [] => []
  | id :: stack => id :: m.visit (m.members id ++ stack)
termination_by stack => (stack.flatMap m.subtree).length
decreasing_by
  rw [List.flatMap_cons, subtree_eq, List.flatMap_append]
  simp

/-- All elements in depth-first order. -/
def traversal (m : Model) : List ElementId :=
  m.visit m.roots

/-- An element and its owners, from the inside out. -/
def enclosing (m : Model) (id : Nat) : List ElementId :=
  id :: match _owned : m.owner? id with
    | none => []
    | some owner => m.enclosing owner
termination_by id
decreasing_by exact owner_lt _owned

/-- The first element with the name in traversal order. -/
def findNamed? (m : Model) (name : String) : Option ElementId :=
  m.traversal.find? fun id => m.name? id == some name

/-- The first element with the path in traversal order. -/
def findPath? (m : Model) (path : String) : Option ElementId :=
  m.traversal.find? fun id => m.path id == path

/-- The elements of some kinds in traversal order. -/
def ofKinds (m : Model) (kinds : List ElementKind) : List ElementId :=
  m.traversal.filter fun id => kinds.contains (m.kind id)

/-- The comments and documentation that an element owns and that refer to nothing else, then those
that refer to it. -/
def annotations (m : Model) (id : ElementId) : List ElementId :=
  (m.members id).filter (fun member => (m.kind member).annotates && (m.element member).about.isEmpty) ++
    (m.element id).annotatedBy

end StructuralModel.Model
