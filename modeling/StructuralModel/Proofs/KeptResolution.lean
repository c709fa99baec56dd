import Mathlib.Data.List.Basic
import Mathlib.Data.List.Find
import StructuralModel.Proofs.FeatureDependence

/-! What decides on effective features. Where the elements of a model keep their edges, they inherit and redefine the
same in another one; where they keep their candidates and expressions too, they are resolved to the same features. -/

namespace StructuralModel.Model

variable {m : Model}

/-- Searches through one list for the same find the same. -/
theorem findSome_congr {α β : Type} {list : List α} {first second : α → Option β}
    (same : ∀ item ∈ list, first item = second item) : list.findSome? first = list.findSome? second := by
  induction list with
  | nil => rfl
  | cons item rest ih =>
    obtain ⟨here, others⟩ := List.forall_mem_cons.mp same
    rw [List.findSome?_cons, List.findSome?_cons, here, ih others]

theorem lt_of_mem_generalClosure {scope : Nat} (inside : scope < m.size) {ancestor : Ancestor}
    (member : ancestor ∈ m.generalClosure scope) : (ancestor.element : Nat) < m.size := by
  rcases Relation.ReflTransGen.cases_tail (reaches_of_mem_generalClosure member) with same | ⟨_, _, edge⟩
  · exact same ▸ inside
  · exact edge.known.2

/-- The elements of the model have the same general types in the other one, and redefine the same features. -/
structure KeepsEdges (m other : Model) : Prop where
  generalTypes : ∀ id : Nat, id < m.size → other.generalTypes id = m.generalTypes id
  redefines? : ∀ id : Nat, id < m.size → other.redefines? id = m.redefines? id

namespace KeepsEdges

variable {m other : Model} (keeps : KeepsEdges m other)

include keeps

theorem walk (met : List ElementId) (waiting : List Ancestor)
    (known : ∀ ancestor ∈ waiting, (ancestor.element : Nat) < m.size) : other.walk met waiting = m.walk met waiting := by
  induction met, waiting using walk.induct m with
  | case1 met => simp [Model.walk]
  | case2 met ancestor waiting new ih =>
    obtain ⟨here, rest⟩ := List.forall_mem_cons.mp known
    rw [Model.walk, Model.walk, keeps.generalTypes _ here]
    refine congrArg _ (ih fun next member => ?_)
    rcases List.mem_append.mp member with old | added
    · exact rest next old
    · obtain ⟨general, listed, rfl⟩ := List.mem_map.mp added
      exact lt_of_mem_generalTypes (mem_of_mem_fresh listed).1

theorem redefined (met : List ElementId) (id : Nat) (known : id < m.size) :
    other.redefined met id = m.redefined met id := by
  induction met, id using redefined.induct m with
  | case1 met id last => rw [redefined_of_none last, redefined_of_none ((keeps.redefines? id known).trans last)]
  | case2 met id next edge old =>
    have same : other.RedefinesEdge id next := (keeps.redefines? id known).trans edge
    rw [redefined_of_some edge, redefined_of_some same, if_pos old, if_pos old]
  | case3 met id next edge new ih =>
    have same : other.RedefinesEdge id next := (keeps.redefines? id known).trans edge
    rw [redefined_of_some edge, redefined_of_some same, if_neg new, if_neg new,
      ih (lt_of_mem_generalTypes (mem_generalTypes_of_redefines edge))]

variable {id : Nat} (known : id < m.size)

include known

theorem generalClosure : other.generalClosure id = m.generalClosure id :=
  keeps.walk _ _ (by simpa using known)

theorem specializes (general : ElementId) : other.specializes id general = m.specializes id general := by
  rw [Model.specializes, Model.specializes, keeps.generalClosure known]

theorem redefines (target : ElementId) : other.redefines id target = m.redefines id target := by
  rw [Model.redefines, Model.redefines, keeps.redefined _ _ known]

theorem redefinitionChain : other.redefinitionChain id = m.redefinitionChain id := by
  rw [Model.redefinitionChain, Model.redefinitionChain, keeps.redefined _ _ known]

/-- What a chain comes to depends on which of its features say by themselves what they are worth. -/
theorem expressive (same : ∀ target ∈ m.redefinitionChain id, other.isExpressive target = m.isExpressive target) :
    other.expressive id = m.expressive id := by
  have first : (m.redefinitionChain id).find? other.isExpressive = (m.redefinitionChain id).find? m.isExpressive :=
    List.find?_congr same
  rw [Model.expressive, Model.expressive, keeps.redefinitionChain known, first]

end KeepsEdges

/-- Besides, they are accessed under the same paths, have the same candidates for what is accessed, and fall back on
the same features. -/
structure KeepsResolution (m other : Model) : Prop extends KeepsEdges m other where
  path : ∀ id : Nat, id < m.size → other.path id = m.path id
  owner : ∀ id : Nat, id < m.size → other.owner? id = m.owner? id
  candidatesIn : ∀ feature owner : Nat, feature < m.size → owner < m.size →
    other.candidatesIn feature owner = m.candidatesIn feature owner
  expressive : ∀ feature : Nat, feature < m.size → other.expressive feature = m.expressive feature

namespace KeepsResolution

variable {m other : Model} (keeps : KeepsResolution m other) {feature scope : Nat} (known : feature < m.size)
  (inside : scope < m.size)

include keeps known inside

theorem candidates :
    other.candidates feature (m.generalClosure scope) = m.candidates feature (m.generalClosure scope) :=
  List.flatMap_congr fun _ member => keeps.candidatesIn feature _ known (lt_of_mem_generalClosure inside member)

theorem endsIn {owner : Nat} (held : owner < m.size) :
    other.endsIn feature (m.generalClosure scope) owner = m.endsIn feature (m.generalClosure scope) owner := by
  rw [Model.endsIn, Model.endsIn, keeps.candidatesIn feature owner known held, keeps.candidates known inside]
  refine List.filter_congr fun candidate _ => congrArg _ ?_
  rw [Bool.eq_iff_iff, List.any_eq_true, List.any_eq_true]
  refine exists_congr fun redefining => and_congr_right fun member => ?_
  obtain ⟨ancestor, _, listed⟩ := List.mem_flatMap.mp member
  have owned := (List.mem_filter.mp (List.mem_filter.mp listed).1).1
  rw [keeps.redefines (lt_of_mem_members owned).2]

theorem chainEnds : other.chainEnds feature (m.generalClosure scope) = m.chainEnds feature (m.generalClosure scope) := by
  refine List.flatMap_congr fun ⟨ancestor, order⟩ member => ?_
  have listed : ancestor ∈ m.generalClosure scope := List.fst_mem_of_mem_zipIdx member
  simp only [keeps.endsIn known inside (lt_of_mem_generalClosure inside listed)]

theorem nearestEnds : other.nearestEnds feature (m.generalClosure scope) =
    m.nearestEnds feature (m.generalClosure scope) := by
  rw [Model.nearestEnds, Model.nearestEnds, keeps.chainEnds known inside]

/-- Elements that both models have are resolved in one another to the same features, or with the same errors. -/
theorem resolve : other.resolve feature scope = m.resolve feature scope := by
  have reachable : other.isReachable feature (m.generalClosure scope) = m.isReachable feature (m.generalClosure scope) := by
    rw [Model.isReachable, Model.isReachable, keeps.owner feature known]
  have ends : ∀ chosen ∈ m.nearestEnds feature (m.generalClosure scope), (chosen : Nat) < m.size :=
    fun chosen member => lt_of_mem_nearestEnds member
  simp only [Model.resolve, keeps.generalClosure inside, reachable, keeps.nearestEnds known inside,
    keeps.path feature known, keeps.path scope inside]
  split
  · rfl
  · split
    · rw [keeps.expressive feature known]
    next only => rw [keeps.expressive _ (ends _ (by simp [only]))]
    · refine congrArg _ (congrArg _ (List.map_congr_left fun chosen member => keeps.path chosen (ends chosen member)))

end KeepsResolution
end StructuralModel.Model
