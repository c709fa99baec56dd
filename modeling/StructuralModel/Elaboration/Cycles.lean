import StructuralModel.Model.Closure
import StructuralModel.Model.Traversal

/-! Elements that specialize each other. -/

namespace StructuralModel.Model

/-- Whether an edge from the element leads back to it. -/
def isCyclic (m : Model) (id : ElementId) : Bool :=
  (m.generalTypes id).any fun general => m.specializes general id

def sharesCycle (m : Model) (a b : ElementId) : Bool :=
  m.specializes a b && m.specializes b a

/-- The elements that specialize the element and that it specializes, by position. -/
def cycleOf (m : Model) (id : ElementId) : List ElementId :=
  (List.range m.size).filter (m.sharesCycle id)

inductive Step
  | enter (id : ElementId)
  | leave (id : ElementId)

/-- The elements in the order in which a depth-first walk leaves them: each after everything that
was first met from it. The last of an element's general types is walked first. -/
def departures (m : Model) (met : List ElementId) : List Step → List ElementId
  | [] => []
  | .leave id :: steps => id :: m.departures met steps
  | .enter id :: steps =>
    if id < m.size ∧ id ∉ met then
      m.departures (id :: met) ((m.generalTypes id).reverse.map .enter ++ .leave id :: steps)
    else m.departures met steps
termination_by steps => (m.unmet met, steps.length)
decreasing_by
  · exact Prod.Lex.right _ (by simp)
  next unknown =>
    exact Prod.Lex.left _ _ (unmet_lt unknown.1 unknown.2 (by simp +contextual) (by simp))
  · exact Prod.Lex.right _ (by simp)

/-- Of the elements that share a cycle, the last. -/
def lastOfCycles (m : Model) : List ElementId → List ElementId
  | [] => []
  | id :: rest =>
    if rest.any (m.sharesCycle id) then m.lastOfCycles rest else id :: m.lastOfCycles rest

/-- The cycles, each with its elements by position. A cycle stands before those from which it is
reached. -/
def cycles (m : Model) : List (List ElementId) :=
  let left := m.departures [] (m.traversal.map .enter)
  (m.lastOfCycles (left.filter m.isCyclic)).map m.cycleOf

end StructuralModel.Model
