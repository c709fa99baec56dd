import Mathlib
import StructuralModel.Proofs.Linking

/-! Lookup in a model whose elements have other positions. It finds the same element wherever the edges that
it follows are the same: those of the elements that are passed over on the way to the name. -/

namespace StructuralModel

def Ancestor.rename (σ : Equiv.Perm Nat) (ancestor : Ancestor) : Ancestor :=
  ⟨σ ancestor.element, ancestor.depth⟩

namespace Model

/-- Models with the same elements and names at other positions, whatever their edges. -/
structure SameShape (σ : Equiv.Perm Nat) (m other : Model) : Prop where
  name : ∀ id, other.name? (σ id) = m.name? id
  owner : ∀ id, other.owner? (σ id) = (m.owner? id).map σ
  members : ∀ id, other.members (σ id) = (m.members id).map σ
  feature : ∀ id, other.isFeature (σ id) = m.isFeature id
  root : ∀ name, other.child? none name = (m.child? none name).map σ

/-- An element has the same general types in both models. -/
def SameEdges (σ : Equiv.Perm Nat) (m other : Model) (id : ElementId) : Prop :=
  other.generalTypes (σ id) = (m.generalTypes id).map σ

section consulted

variable (m : Model) (name : String)

/-- The elements that a search for a feature goes through before it finds one with the name. -/
def passedOver (closure : List Ancestor) : List ElementId :=
  (closure.takeWhile fun ancestor => (m.ownFeature? name ancestor.element).isNone).map (·.element)

/-- The elements whose general types decide on a step down. Members are found without them. -/
def consulted (id : ElementId) : List ElementId :=
  if (m.child? (some id) name).isSome then [] else m.passedOver name (m.generalClosure id)

/-- The elements whose general types decide what an element inherits. -/
def consultedAbove (owner : ElementId) : List ElementId :=
  owner :: m.passedOver name (m.generalClosure owner).tail

end consulted

def consultedBelow (m : Model) (id : ElementId) : List String → List ElementId
  | [] => []
  | name :: rest =>
    m.consulted name id ++
      match m.descend? id name with
      | none => []
      | some next => m.consultedBelow next rest

/-- The elements whose general types decide on what a name denotes. -/
def consultedFor (m : Model) (start? : Option ElementId) : List String → List ElementId
  | [] => []
  | first :: rest =>
    match (m.namespaces start?).findSome? fun space => m.child? space first with
    | none => []
    | some start => m.consultedBelow start rest

namespace SameShape

variable {σ : Equiv.Perm Nat} {m other : Model}

/-- Passes that add edges keep the shape. -/
theorem between {m' other' : Model} (shape : SameShape σ m other) (more : MoreEdges m m')
    (others : MoreEdges other other') :
    SameShape σ m' other' where
  name id := by rw [others.name, more.name, shape.name]
  owner id := by rw [others.owner, more.owner, shape.owner]
  members id := by rw [others.members, more.members, shape.members]
  feature id := by rw [others.feature, more.feature, shape.feature]
  root name := by
    have first : m'.child? none name = m.child? none name := by
      simp only [child?, namespaceMembers, more.roots, more.name]
    have second : other'.child? none name = other.child? none name := by
      simp only [child?, namespaceMembers, others.roots, others.name]
    rw [first, second, shape.root]

theorem refl (m : Model) : SameShape 1 m m where
  name _ := rfl
  owner id := by cases owned : m.owner? id <;> simp [owned]
  members id := by simp
  feature _ := rfl
  root name := by cases m.child? none name <;> simp

theorem symm (shape : SameShape σ m other) : SameShape σ.symm other m where
  name id := by simpa using (shape.name (σ.symm id)).symm
  owner id := by
    have same := shape.owner (σ.symm id)
    rw [Equiv.apply_symm_apply] at same
    rw [same, Option.map_map]
    cases m.owner? (σ.symm id) <;> simp
  members id := by
    have same := shape.members (σ.symm id)
    rw [Equiv.apply_symm_apply] at same
    rw [same, List.map_map]
    simp
  feature id := by simpa using (shape.feature (σ.symm id)).symm
  root name := by
    rw [shape.root, Option.map_map]
    cases m.child? none name <;> simp

variable (shape : SameShape σ m other)

include shape

theorem child (space? : Option ElementId) (name : String) :
    other.child? (space?.map σ) name = (m.child? space? name).map σ := by
  cases space? with
  | none => exact shape.root name
  | some id =>
    rw [Option.map_some, child?, child?, namespaceMembers, namespaceMembers, shape.members, List.find?_map]
    simp only [Function.comp_def, shape.name]

theorem ownedFeatures (id : ElementId) : other.ownedFeatures (σ id) = (m.ownedFeatures id).map σ := by
  rw [Model.ownedFeatures, Model.ownedFeatures, shape.members, List.filter_map]
  simp only [Function.comp_def, shape.feature]

theorem ownFeature (name : String) (id : ElementId) :
    other.ownFeature? name (σ id) = (m.ownFeature? name id).map σ := by
  rw [ownFeature?, ownFeature?, shape.ownedFeatures, List.find?_map]
  simp only [Function.comp_def, shape.name]

theorem enclosing (id : Nat) : other.enclosing (σ id) = (m.enclosing id).map σ := by
  induction id using Nat.strong_induction_on with
  | _ id ih =>
    have owner := shape.owner id
    cases owned : m.owner? id with
    | none =>
      rw [owned] at owner
      rw [enclosing_of_none owned, enclosing_of_none owner, List.map_singleton]
    | some outer =>
      rw [owned] at owner
      rw [enclosing_of_some owned, enclosing_of_some owner, ih outer (owner_lt owned), List.map_cons]

theorem namespaces (start? : Option ElementId) :
    other.namespaces (start?.map σ) = (m.namespaces start?).map (Option.map σ) := by
  cases start? with
  | none => rfl
  | some id =>
    simp only [Option.map_some, Model.namespaces, shape.enclosing]
    simp

/-- Where the first segment of a name leads does not depend on any edge. -/
theorem start (start? : Option ElementId) (first : String) :
    ((other.namespaces (start?.map σ)).findSome? fun space => other.child? space first) =
      ((m.namespaces start?).findSome? fun space => m.child? space first).map σ := by
  rw [shape.namespaces]
  induction m.namespaces start? with
  | nil => rfl
  | cons space rest ih =>
    rw [List.map_cons, List.findSome?_cons, List.findSome?_cons, shape.child]
    cases m.child? space first with
    | none => exact ih
    | some found => rfl

end SameShape

theorem fresh_map (σ : Equiv.Perm Nat) (met ids : List ElementId) :
    fresh (met.map σ) (ids.map σ) = (fresh met ids).map σ := by
  induction ids generalizing met with
  | nil => rfl
  | cons id rest ih =>
    have same : σ id ∈ met.map σ ↔ id ∈ met := List.mem_map_of_injective σ.injective
    rw [List.map_cons, fresh, fresh]
    by_cases old : id ∈ met
    · rw [if_pos old, if_pos (same.mpr old), ih]
    · rw [if_neg old, if_neg (fun moved => old (same.mp moved)), List.map_cons, ← ih (id :: met), List.map_cons]

section search

variable {σ : Equiv.Perm Nat} {m other : Model} {name : String}

/-- The edges of an element count only as long as the name has not been found. -/
theorem findSome_walk (shape : SameShape σ m other) (met : List ElementId) (waiting : List Ancestor)
    (agree : ∀ id ∈ m.passedOver name (m.walk met waiting), SameEdges σ m other id) :
    ((other.walk (met.map σ) (waiting.map (Ancestor.rename σ))).findSome? fun ancestor =>
        other.ownFeature? name ancestor.element) =
      ((m.walk met waiting).findSome? fun ancestor => m.ownFeature? name ancestor.element).map σ := by
  induction met, waiting using walk.induct m with
  | case1 met => simp [walk]
  | case2 met ancestor waiting new ih =>
    rw [walk] at agree ⊢
    rw [List.map_cons, walk, List.findSome?_cons, List.findSome?_cons, Ancestor.rename, shape.ownFeature]
    cases found : m.ownFeature? name ancestor.element with
    | some feature => rfl
    | none =>
      have passed : (m.ownFeature? name ancestor.element).isNone = true := by rw [found]; rfl
      simp only [passedOver, List.takeWhile_cons, passed, if_true, List.map_cons, List.forall_mem_cons] at agree
      obtain ⟨here, rest⟩ := agree
      have edges : other.generalTypes (σ ancestor.element) = (m.generalTypes ancestor.element).map σ := here
      rw [Option.map_none]
      simp only [edges, fresh_map]
      have later := ih rest
      simp only [List.map_append, List.map_map] at later ⊢
      exact later

theorem SameShape.feature_eq (shape : SameShape σ m other) (scope : ElementId)
    (agree : ∀ id ∈ m.passedOver name (m.generalClosure scope), SameEdges σ m other id) :
    other.feature? (σ scope) name = (m.feature? scope name).map σ :=
  findSome_walk shape [scope] [⟨scope, 0⟩] agree

theorem SameShape.inheritedFeature_eq (shape : SameShape σ m other) (owner : ElementId)
    (agree : ∀ id ∈ m.consultedAbove name owner, SameEdges σ m other id) :
    other.inheritedFeature? (σ owner) name = (m.inheritedFeature? owner name).map σ := by
  obtain ⟨own, above⟩ := List.forall_mem_cons.mp agree
  have edges : other.generalTypes (σ owner) = (m.generalTypes owner).map σ := own
  rw [generalClosure, walk, List.tail_cons] at above
  rw [inheritedFeature?, inheritedFeature?, generalClosure, generalClosure, walk, walk, List.tail_cons, List.tail_cons]
  have fresh : fresh [σ owner] (other.generalTypes (σ owner)) = (Model.fresh [owner] (m.generalTypes owner)).map σ := by
    rw [edges]
    exact fresh_map σ [owner] _
  have found := findSome_walk shape _ _ above
  simp only [fresh]
  simp only [List.map_append, List.map_map, List.nil_append, List.map_cons, List.map_nil] at found ⊢
  exact found

theorem SameShape.descend_eq (shape : SameShape σ m other) (id : ElementId)
    (agree : ∀ above ∈ m.consulted name id, SameEdges σ m other above) :
    other.descend? (σ id) name = (m.descend? id name).map σ := by
  have child := shape.child (some id) name
  rw [Option.map_some] at child
  rw [descend?, descend?, child]
  cases found : m.child? (some id) name with
  | some member => rfl
  | none =>
    have unowned : (m.child? (some id) name).isSome = false := by rw [found]; rfl
    simp only [consulted, unowned, Bool.false_eq_true, if_false] at agree
    exact shape.feature_eq id agree

theorem SameShape.foldl_descend_eq (shape : SameShape σ m other) (rest : List String) (id : ElementId)
    (agree : ∀ above ∈ m.consultedBelow id rest, SameEdges σ m other above) :
    rest.foldlM other.descend? (σ id) = (rest.foldlM m.descend? id).map σ := by
  induction rest generalizing id with
  | nil => rfl
  | cons name rest ih =>
    rw [consultedBelow] at agree
    obtain ⟨here, below⟩ := List.forall_mem_append.mp agree
    rw [List.foldlM_cons, List.foldlM_cons, shape.descend_eq id here]
    cases found : m.descend? id name with
    | none => rfl
    | some next =>
      rw [found] at below
      exact ih next below

/-- A name denotes the same element in both models if the elements that decide on it have the same edges. -/
theorem SameShape.resolvePath_eq (shape : SameShape σ m other) (start? : Option ElementId) (segments : List String)
    (agree : ∀ id ∈ m.consultedFor start? segments, SameEdges σ m other id) :
    other.resolvePath? (start?.map σ) segments = (m.resolvePath? start? segments).map σ := by
  cases segments with
  | nil => rfl
  | cons first rest =>
    rw [resolvePath?, resolvePath?, shape.start]
    rw [consultedFor] at agree
    cases found : (m.namespaces start?).findSome? fun space => m.child? space first with
    | none => rfl
    | some start =>
      rw [found] at agree
      exact shape.foldl_descend_eq rest start agree

end search

end Model
end StructuralModel
