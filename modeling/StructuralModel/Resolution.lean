import StructuralModel.Model.Closure

/-! The effective feature of a feature in a scope. Redefinition edges decide, never names: a feature
that merely has the name of an inherited one does not override it. -/

namespace StructuralModel

inductive ResolutionError
  | notReachable (feature scope : String)
  | ambiguous (feature scope : String) (candidates : List String)
deriving Repr, DecidableEq

def ResolutionError.message : ResolutionError → String
  | .notReachable feature scope =>
    "feature `" ++ feature ++ "` is not reachable from scope `" ++ scope ++ "`"
  | .ambiguous feature scope candidates =>
    "feature `" ++ feature ++ "` is redefined ambiguously in scope `" ++ scope ++ "`: " ++
      ", ".intercalate candidates

/-- An end of a redefinition chain: its distance from the scope, and the position of its owner in the closure of this. -/
structure ChainEnd where
  feature : ElementId
  depth : Nat
  order : Nat
deriving Repr, DecidableEq

namespace ChainEnd

def isBefore (first second : ChainEnd) : Bool :=
  first.depth < second.depth || first.depth = second.depth && first.order < second.order

/-- The first of the ends that no other is before. -/
def nearest? : List ChainEnd → Option ChainEnd
  | [] => none
  | first :: rest =>
    match nearest? rest with
    | none => some first
    | some other => if other.isBefore first then some other else some first

end ChainEnd

namespace Model

def isReachable (m : Model) (feature : ElementId) (closure : List Ancestor) : Bool :=
  match m.owner? feature with
  | none => false
  | some owner => closure.any fun ancestor => ancestor.element = owner

/-- The features of an owner that are the given one or redefine it. -/
def candidatesIn (m : Model) (feature owner : ElementId) : List ElementId :=
  (m.ownedFeatures owner).filter fun candidate => candidate = feature || m.redefines candidate feature

def candidates (m : Model) (feature : ElementId) (closure : List Ancestor) : List ElementId :=
  closure.flatMap fun ancestor => m.candidatesIn feature ancestor.element

/-- The candidates of an owner that no other candidate redefines: the ends of the redefinition
chains. -/
def endsIn (m : Model) (feature : ElementId) (closure : List Ancestor) (owner : ElementId) :
    List ElementId :=
  (m.candidatesIn feature owner).filter fun candidate =>
    !(m.candidates feature closure).any fun other => m.redefines other candidate

/-- All ends in the closure, with the places of their owners. -/
def chainEnds (m : Model) (feature : ElementId) (closure : List Ancestor) : List ChainEnd :=
  closure.zipIdx.flatMap fun (ancestor, order) =>
    (m.endsIn feature closure ancestor.element).map fun candidate => ⟨candidate, ancestor.depth, order⟩

/-- The ends that stand where the nearest one does. They have one owner. -/
def nearestEnds (m : Model) (feature : ElementId) (closure : List Ancestor) : List ElementId :=
  let ends := m.chainEnds feature closure
  match ChainEnd.nearest? ends with
  | none => []
  | some best =>
    (ends.filter fun other => other.depth = best.depth && other.order = best.order).map ChainEnd.feature

/-- Whether a feature says by itself what it is worth. -/
def isExpressive (m : Model) (feature : ElementId) : Bool :=
  (m.value? feature).isSome || !(m.ownedFeatures feature).isEmpty

def redefinitionChain (m : Model) (feature : ElementId) : List ElementId :=
  feature :: m.redefined [feature] feature

/-- The first feature on the redefinition chain that has an expression or features of its own, or
the last one. -/
def expressive (m : Model) (feature : ElementId) : ElementId :=
  ((m.redefinitionChain feature).find? m.isExpressive).getD
    ((m.redefinitionChain feature).getLastD feature)

/-- The feature whose expression is evaluated when a feature is accessed in a scope: the nearest end
of a redefinition chain that starts at the feature. It is ambiguous when one element owns two. -/
def resolve (m : Model) (feature scope : ElementId) : Except ResolutionError ElementId :=
  let closure := m.generalClosure scope
  if !m.isReachable feature closure then .error (.notReachable (m.path feature) (m.path scope))
  else
    match m.nearestEnds feature closure with
    | [] => .ok (m.expressive feature)
    | [chosen] => .ok (m.expressive chosen)
    | chosen => .error (.ambiguous (m.path feature) (m.path scope) (chosen.map m.path))

/-- Leaves out every feature whose name has been seen; unnamed features stay. -/
def unseen (m : Model) (names : List String) : List ElementId → List ElementId
  | [] => []
  | feature :: rest =>
    match m.name? feature with
    | none => feature :: m.unseen names rest
    | some name =>
      if name ∈ names then m.unseen names rest else feature :: m.unseen (name :: names) rest

/-- The features visible in a scope, one for each name and nearest first. -/
def visibleFeatures (m : Model) (scope : ElementId) : List ElementId :=
  m.unseen [] ((m.generalClosure scope).flatMap fun ancestor => m.ownedFeatures ancestor.element)

theorem mem_of_mem_unseen {m : Model} {names : List String} {features : List ElementId}
    {feature : ElementId} (member : feature ∈ m.unseen names features) : feature ∈ features := by
  induction features generalizing names with
  | nil => simp [unseen] at member
  | cons head rest ih =>
    rw [unseen] at member
    split at member
    · rcases List.mem_cons.mp member with rfl | member
      · simp
      · exact List.mem_cons_of_mem _ (ih member)
    · split at member
      · exact List.mem_cons_of_mem _ (ih member)
      · rcases List.mem_cons.mp member with rfl | member
        · simp
        · exact List.mem_cons_of_mem _ (ih member)

theorem lt_of_mem_visibleFeatures {m : Model} {scope feature : Nat}
    (visible : feature ∈ m.visibleFeatures scope) : feature < m.size := by
  obtain ⟨ancestor, _, owned⟩ := List.mem_flatMap.mp (mem_of_mem_unseen visible)
  exact (lt_of_mem_members (List.mem_filter.mp owned).1).2

end Model
end StructuralModel
