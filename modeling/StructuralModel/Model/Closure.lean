import StructuralModel.Model.Basic

/-! What an element inherits from: the closure of its general types in breadth-first order, and
the chain of features that a feature redefines. Both end on every graph, cyclic or not, because
each step meets an element for the first time. -/

namespace StructuralModel

/-- An element of a closure with the number of edges on a shortest path to it. -/
structure Ancestor where
  element : ElementId
  depth : Nat
deriving Repr, DecidableEq

namespace Model

/-- The elements not met before, each at its first occurrence. -/
def fresh (met : List ElementId) : List ElementId → List ElementId
  | [] => []
  | id :: rest => if id ∈ met then fresh met rest else id :: fresh (id :: met) rest

/-- How many elements of the model are still to be met. -/
def unmet (m : Model) (met : List ElementId) : Nat :=
  (List.range m.size).countP fun id => decide (id ∉ met)

theorem mem_of_mem_fresh {met ids : List ElementId} {id : ElementId} (new : id ∈ fresh met ids) :
    id ∈ ids ∧ id ∉ met := by
  induction ids generalizing met with
  | nil => simp [fresh] at new
  | cons head rest ih =>
    rw [fresh] at new
    split at new
    · exact ⟨List.mem_cons_of_mem _ (ih new).1, (ih new).2⟩
    next unmet =>
      rcases List.mem_cons.mp new with rfl | new
      · exact ⟨by simp, unmet⟩
      · have old := ih new
        exact ⟨List.mem_cons_of_mem _ old.1, fun member => old.2 (List.mem_cons_of_mem _ member)⟩

theorem unmet_lt {m : Model} {met more : List ElementId} {id : Nat} (known : id < m.size)
    (new : id ∉ met) (kept : ∀ other ∈ met, other ∈ more) (added : id ∈ more) :
    m.unmet more < m.unmet met := by
  have fewer : ∀ ids : List Nat, ids.countP (fun other => decide (other ∉ more)) ≤
      ids.countP (fun other => decide (other ∉ met)) := by
    intro ids
    apply List.countP_mono_left
    simp only [decide_eq_true_eq]
    exact fun other _ absent member => absent (kept other member)
  obtain ⟨before, after, split⟩ := List.append_of_mem (List.mem_range.mpr known)
  have first := fewer before
  have second := fewer after
  simp only [unmet, split, List.countP_append, List.countP_cons]
  simp only [added, new, not_true, not_false_eq_true, decide_false, decide_true, if_true]
  simp only [Bool.false_eq_true, if_false]
  omega

/-- The elements that wait in the queue, each followed by its general types that were not met
before. -/
def walk (m : Model) (met : List ElementId) (waiting : List Ancestor) : List Ancestor :=
  match waiting with
  | [] => []
  | ancestor :: waiting =>
    let new := fresh met (m.generalTypes ancestor.element)
    ancestor :: m.walk (met ++ new) (waiting ++ new.map fun id => ⟨id, ancestor.depth + 1⟩)
termination_by (m.unmet met, waiting.length)
decreasing_by
  cases news : fresh met (m.generalTypes ancestor.element) with
  | nil => simp [Prod.lex_def]
  | cons id rest =>
    have new : id ∈ fresh met (m.generalTypes ancestor.element) := by simp [news]
    refine Prod.Lex.left _ _ (unmet_lt (lt_of_mem_generalTypes (mem_of_mem_fresh new).1)
      (mem_of_mem_fresh new).2 (by simp +contextual) (by simp))

/-- The scope, then everything it specializes, breadth-first: nearer elements come first, and
equally near ones in the order of the edges that lead to them. -/
def generalClosure (m : Model) (scope : ElementId) : List Ancestor :=
  m.walk [scope] [⟨scope, 0⟩]

/-- Whether `general` is the element itself or one of its general types, direct or not. -/
def specializes (m : Model) (id general : ElementId) : Bool :=
  id = general || (m.generalClosure id).any fun ancestor => ancestor.element = general

/-- The features reached by following `redefines` edges from a feature, up to the first that was
met before. -/
def redefined (m : Model) (met : List ElementId) (id : ElementId) : List ElementId :=
  match _edge : m.redefines? id with
  | none => []
  | some next => if next ∈ met then [] else next :: m.redefined (next :: met) next
termination_by m.unmet met
decreasing_by
  exact unmet_lt (lt_of_mem_generalTypes (mem_generalTypes_of_redefines _edge)) ‹_›
    (by simp +contextual) (by simp)

/-- Whether following `redefines` edges from a feature leads to `target`. On an acyclic chain a
feature does not redefine itself. -/
def redefines (m : Model) (id target : ElementId) : Bool :=
  (m.redefined [] id).contains target

/-- Whether the element or one of its general types owns features. -/
def hasNestedFeatures (m : Model) (id : ElementId) : Bool :=
  (m.generalClosure id).any fun ancestor => !(m.ownedFeatures ancestor.element).isEmpty

end Model
end StructuralModel
