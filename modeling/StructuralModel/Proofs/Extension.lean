import StructuralModel.Evaluation.Instances
import StructuralModel.Proofs.KeptResolution
import StructuralModel.Proofs.TraversalOrder
import StructuralModel.Proofs.UnitDiscipline

/-! A model that goes on where another ends. The elements of the first look the same in both: what they inherit,
what they redefine and what names lead to, as long as a name does not start with that of a new root. -/

namespace StructuralModel

/-- What an element says of itself, apart from the comments that refer to it. -/
def Element.unannotated (e : Element) : Element :=
  { e with annotatedBy := [] }

namespace Model

/-- The other model has more elements behind those of this one, and more roots with some names. The elements that
both have differ at most in the comments that refer to them. -/
structure Continues (names : List String) (m other : Model) : Prop where
  size : m.size ≤ other.size
  element : ∀ id : Nat, id < m.size → (other.element id).unannotated = (m.element id).unannotated
  rooted : ∀ root ∈ m.roots, (root : Nat) < m.size
  roots : ∃ added, other.roots = m.roots ++ added ∧
    ∀ root ∈ added, ∀ name, other.name? root = some name → name ∈ names

variable {m : Model}

theorem lt_of_mem_instancesBelow {type : ElementId} {path : List ElementId} {scope : ElementId} {weight : Float}
    {found : Instance} (member : found ∈ m.instancesBelow type path scope weight) : (found.part : Nat) < m.size := by
  induction path, scope, weight using instancesBelow.induct m with
  | case1 path scope weight ih =>
    rw [instancesBelow_eq] at member
    obtain ⟨part, visible, listed⟩ := List.mem_flatMap.mp member
    split at listed
    · cases listed
    next new =>
      split at listed
      · cases listed
      · rcases List.mem_append.mp listed with own | below
        · split at own
          · rw [List.mem_singleton.mp own]
            exact lt_of_mem_visibleFeatures visible
          · cases own
        · exact ih part visible new below

theorem lt_of_mem_namespaces {start? : Option ElementId} {space : Nat}
    (known : ∀ start : Nat, start? = some start → start < m.size) (listed : some space ∈ m.namespaces start?) :
    space < m.size := by
  cases start? with
  | none => simp [namespaces] at listed
  | some start =>
    have around : space ∈ m.enclosing start := by simpa [namespaces] using listed
    exact Nat.lt_of_le_of_lt (le_of_mem_enclosing around) (known start rfl)

namespace Continues

variable {names : List String} {m other : Model} (continues : Continues names m other)

include continues

section fields

variable {id : Nat} (known : id < m.size)

include known

/-- What does not depend on comments that refer to the element is the same. -/
theorem read {α : Type} (f : Element → α) (blind : ∀ e : Element, f e.unannotated = f e) :
    f (other.element id) = f (m.element id) := by
  rw [← blind (other.element id), continues.element id known, blind]

theorem kind : other.kind id = m.kind id :=
  continues.read known Element.kind fun _ => rfl

theorem name : other.name? id = m.name? id :=
  continues.read known Element.name? fun _ => rfl

theorem path : other.path id = m.path id :=
  continues.read known Element.path fun _ => rfl

theorem owner : other.owner? id = m.owner? id :=
  continues.read known Element.owner? fun _ => rfl

theorem members : other.members id = m.members id :=
  continues.read known Element.members fun _ => rfl

theorem generalTypes : other.generalTypes id = m.generalTypes id :=
  continues.read known Element.generalTypes fun _ => rfl

theorem redefines? : other.redefines? id = m.redefines? id :=
  continues.read known Element.redefines? fun _ => rfl

theorem value : other.value? id = m.value? id :=
  continues.read known Element.value? fun _ => rfl

theorem multiplicity : (other.element id).multiplicity = (m.element id).multiplicity :=
  continues.read known Element.multiplicity fun _ => rfl

theorem isFeature : other.isFeature id = m.isFeature id := by
  rw [Model.isFeature, Model.isFeature, continues.kind known]

theorem ownedFeatures : other.ownedFeatures id = m.ownedFeatures id := by
  rw [Model.ownedFeatures, Model.ownedFeatures, continues.members known]
  exact List.filter_congr fun member listed => continues.isFeature (lt_of_mem_members listed).2

end fields

section inheritance

theorem keepsEdges : KeepsEdges m other where
  generalTypes _ known := continues.generalTypes known
  redefines? _ known := continues.redefines? known

variable {scope : Nat} (inside : scope < m.size)

include inside

theorem generalClosure : other.generalClosure scope = m.generalClosure scope :=
  continues.keepsEdges.generalClosure inside

theorem specializes (general : ElementId) : other.specializes scope general = m.specializes scope general :=
  continues.keepsEdges.specializes inside general

theorem hasNestedFeatures : other.hasNestedFeatures scope = m.hasNestedFeatures scope := by
  rw [Model.hasNestedFeatures, Model.hasNestedFeatures, continues.generalClosure inside, Bool.eq_iff_iff, List.any_eq_true,
    List.any_eq_true]
  refine exists_congr fun ancestor => and_congr_right fun member => ?_
  rw [continues.ownedFeatures (lt_of_mem_generalClosure inside member)]

theorem ownFeature? (name : String) : other.ownFeature? name scope = m.ownFeature? name scope := by
  rw [Model.ownFeature?, Model.ownFeature?, continues.ownedFeatures inside]
  refine List.find?_congr fun feature owned => ?_
  rw [continues.name (lt_of_mem_members (List.mem_filter.mp owned).1).2]

theorem feature? (name : String) : other.feature? scope name = m.feature? scope name := by
  rw [Model.feature?, Model.feature?, continues.generalClosure inside]
  exact findSome_congr fun ancestor member => continues.ownFeature? (lt_of_mem_generalClosure inside member) name

theorem inheritedFeature? (name : String) : other.inheritedFeature? scope name = m.inheritedFeature? scope name := by
  rw [Model.inheritedFeature?, Model.inheritedFeature?, continues.generalClosure inside]
  exact findSome_congr fun ancestor member =>
    continues.ownFeature? (lt_of_mem_generalClosure inside (List.mem_of_mem_tail member)) name

end inheritance

section lookup

theorem enclosing (id : Nat) (known : id < m.size) : other.enclosing id = m.enclosing id := by
  induction id using Nat.strong_induction_on with
  | _ id ih =>
    cases owned : m.owner? id with
    | none => rw [enclosing_of_none owned, enclosing_of_none ((continues.owner known).trans owned)]
    | some owner =>
      rw [enclosing_of_some owned, enclosing_of_some ((continues.owner known).trans owned),
        ih owner (owner_lt owned) (Nat.lt_trans (owner_lt owned) known)]

theorem child_some {owner : Nat} (known : owner < m.size) (name : String) :
    other.child? (some owner) name = m.child? (some owner) name := by
  rw [child?, child?, namespaceMembers, namespaceMembers, continues.members known]
  refine List.find?_congr fun member owned => ?_
  rw [continues.name (lt_of_mem_members owned).2]

/-- At the top level a name is found that none of the new roots has. -/
theorem child_none {name : String} (apart : name ∉ names) : other.child? none name = m.child? none name := by
  obtain ⟨added, roots, named⟩ := continues.roots
  have missing : added.find? (fun id => other.name? id == some name) = none := by
    refine List.find?_eq_none.mpr fun root member same => apart ?_
    exact named root member name (beq_iff_eq.mp same)
  rw [child?, child?, namespaceMembers, namespaceMembers, roots, List.find?_append, missing, Option.or_none]
  refine List.find?_congr fun root member => ?_
  rw [continues.name (continues.rooted root member)]

theorem descend {id : Nat} (known : id < m.size) (name : String) : other.descend? id name = m.descend? id name := by
  rw [descend?, descend?, continues.child_some known, continues.feature? known]

theorem foldlM_descend (segments : List String) {id : Nat} (known : id < m.size) :
    segments.foldlM other.descend? id = segments.foldlM m.descend? id := by
  induction segments generalizing id with
  | nil => rfl
  | cons name rest ih =>
    rw [List.foldlM_cons, List.foldlM_cons, continues.descend known]
    cases down : m.descend? id name with
    | none => rfl
    | some next => exact ih (lt_of_descend continues.rooted down)

/-- The first segment decides where a name leads, and there the models differ in the new roots only. -/
theorem resolvePath {start? : Option ElementId} (known : ∀ start : Nat, start? = some start → start < m.size)
    {path : Path} (apart : path.first ∉ names) :
    other.resolvePath? start? path.segments = m.resolvePath? start? path.segments := by
  have spaces : other.namespaces start? = m.namespaces start? := by
    cases start? with
    | none => rfl
    | some start => rw [namespaces, namespaces, continues.enclosing start (known start rfl)]
  have start : ((other.namespaces start?).findSome? fun space => other.child? space path.first) =
      (m.namespaces start?).findSome? fun space => m.child? space path.first := by
    rw [spaces]
    refine findSome_congr fun space? listed => ?_
    cases space? with
    | none => exact continues.child_none apart
    | some space => exact continues.child_some (lt_of_mem_namespaces known listed) path.first
  rw [Path.segments, resolvePath?, resolvePath?, start]
  cases found : (m.namespaces start?).findSome? fun space => m.child? space path.first with
  | none => rfl
  | some id =>
    obtain ⟨space?, _, child⟩ := List.exists_of_findSome?_eq_some found
    exact continues.foldlM_descend path.rest (lt_of_child continues.rooted child)

end lookup

section resolution

theorem isExpressive {feature : Nat} (known : feature < m.size) : other.isExpressive feature = m.isExpressive feature := by
  rw [Model.isExpressive, Model.isExpressive, continues.value known, continues.ownedFeatures known]

theorem candidatesIn {owner : Nat} (held : owner < m.size) (feature : Nat) :
    other.candidatesIn feature owner = m.candidatesIn feature owner := by
  rw [Model.candidatesIn, Model.candidatesIn, continues.ownedFeatures held]
  refine List.filter_congr fun candidate owned => ?_
  rw [continues.keepsEdges.redefines (lt_of_mem_members (List.mem_filter.mp owned).1).2]

theorem keepsResolution : KeepsResolution m other where
  toKeepsEdges := continues.keepsEdges
  path _ known := continues.path known
  owner _ known := continues.owner known
  candidatesIn feature _ _ held := continues.candidatesIn held feature
  expressive _ known := continues.keepsEdges.expressive known fun _ member =>
    continues.isExpressive (lt_of_mem_redefinitionChain known member)

theorem resolve {feature scope : Nat} (inside : scope < m.size) (known : feature < m.size) :
    other.resolve feature scope = m.resolve feature scope :=
  continues.keepsResolution.resolve known inside

end resolution

section instances

theorem unseen (seen : List String) (features : List ElementId) (known : ∀ feature ∈ features, (feature : Nat) < m.size) :
    other.unseen seen features = m.unseen seen features := by
  induction features generalizing seen with
  | nil => rfl
  | cons feature rest ih =>
    obtain ⟨here, others⟩ := List.forall_mem_cons.mp known
    simp only [Model.unseen, continues.name here, ih _ others]

variable {scope : Nat} (inside : scope < m.size)

include inside

theorem visibleFeatures : other.visibleFeatures scope = m.visibleFeatures scope := by
  have owned : (m.generalClosure scope).flatMap (fun ancestor => other.ownedFeatures ancestor.element) =
      (m.generalClosure scope).flatMap fun ancestor => m.ownedFeatures ancestor.element :=
    List.flatMap_congr fun ancestor member => continues.ownedFeatures (lt_of_mem_generalClosure inside member)
  rw [Model.visibleFeatures, Model.visibleFeatures, continues.generalClosure inside, owned]
  refine continues.unseen _ _ fun feature listed => ?_
  obtain ⟨ancestor, _, listed⟩ := List.mem_flatMap.mp listed
  exact (lt_of_mem_members (List.mem_filter.mp listed).1).2

theorem instancesBelow (type : ElementId) (path : List ElementId) (weight : Float) :
    other.instancesBelow type path scope weight = m.instancesBelow type path scope weight := by
  induction path, scope, weight using instancesBelow.induct m with
  | case1 path scope weight ih =>
    rw [instancesBelow_eq, instancesBelow_eq, continues.visibleFeatures inside]
    refine List.flatMap_congr fun part visible => ?_
    have known := lt_of_mem_visibleFeatures visible
    rw [continues.kind known, continues.specializes known, continues.multiplicity known]
    split
    · rfl
    next new => rw [ih part visible new known]

theorem instances (type : ElementId) : other.instances type scope = m.instances type scope :=
  continues.instancesBelow inside type [scope] 1

end instances

end Continues
end Model
end StructuralModel
