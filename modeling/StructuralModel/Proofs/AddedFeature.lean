import Mathlib
import StructuralModel.Model.Lookup
import StructuralModel.Proofs.KeptResolution

/-! Shadowing by name is not overriding. A new feature that redefines nothing may change what names find below its
owner, but it is no candidate for any feature that was there before, so all of these are resolved as they were. -/

namespace StructuralModel

/-- What an element says of itself, apart from what it owns. -/
def Element.bare (e : Element) : Element :=
  { e with members := [] }

namespace Model
open Relation

/-- The step says more about one element, without making it redefine anything. -/
def Edit.Describes (id : ElementId) : Edit → Prop
  | .setKind element _ | .addGeneral element _ | .setValue element _ | .setMultiplicity element _
  | .setBody element _ | .setLocale element _ => element = id
  | .add .. | .setRedefines .. | .addAbout .. => False

namespace Edit.Describes

variable {m : Model} {id : ElementId} {edit : Edit} (describes : edit.Describes id)

include describes

theorem element {other : Nat} (apart : other ≠ id) : (m.apply edit).element other = m.element other := by
  cases edit with
  | add | setRedefines | addAbout => exact describes.elim
  | addGeneral element | setKind element | setValue element | setMultiplicity element | setBody element
  | setLocale element =>
    obtain rfl : element = id := describes
    simp only [apply, element_addGeneral, element_setKind, element_setValue, element_setMultiplicity, element_setBody,
      element_setLocale, Ne.symm apart, false_and, if_false]

theorem redefines : (m.apply edit).redefines? id = m.redefines? id := by
  cases edit with
  | add | setRedefines | addAbout => exact describes.elim
  | addGeneral | setKind | setValue | setMultiplicity | setBody | setLocale =>
    simp only [apply, redefines?, element_addGeneral, element_setKind, element_setValue, element_setMultiplicity,
      element_setBody, element_setLocale]
    split <;> rfl

end Edit.Describes

/-- However much is said about an element, nothing else changes and it goes on to redefine the same. -/
theorem foldl_describes {id : ElementId} {details : List Edit} (describe : ∀ edit ∈ details, edit.Describes id)
    (m : Model) : (∀ other : Nat, other ≠ id → (details.foldl apply m).element other = m.element other) ∧
      (details.foldl apply m).redefines? id = m.redefines? id := by
  induction details generalizing m with
  | nil => exact ⟨fun _ _ => rfl, rfl⟩
  | cons edit rest ih =>
    obtain ⟨here, further⟩ := List.forall_mem_cons.mp describe
    obtain ⟨elsewhere, still⟩ := ih further (m.apply edit)
    exact ⟨fun other apart => (elsewhere other apart).trans (here.element apart), still.trans here.redefines⟩

/-- The other model has one element more, which redefines nothing and comes last among the members of its owner. -/
structure Gains (owner : ElementId) (m other : Model) : Prop where
  bare : ∀ id : Nat, id < m.size → (other.element id).bare = (m.element id).bare
  members : ∀ id : Nat, id < m.size → other.members id = m.members id ++ if id = owner then [m.size] else []
  redefines_new : other.redefines? m.size = none

theorem gains_add (m : Model) (owner : ElementId) (kind : ElementKind) (name? : Option String) {details : List Edit}
    (describe : ∀ edit ∈ details, edit.Describes m.size) :
    Gains owner m (details.foldl apply (m.add (some owner) kind name?)) := by
  obtain ⟨elsewhere, still⟩ := foldl_describes describe (m.add (some owner) kind name?)
  refine ⟨fun id known => ?_, fun id known => ?_, ?_⟩
  · rw [elsewhere id (Nat.ne_of_lt known), element_add_of_ne (Nat.ne_of_lt known)]
    split <;> rfl
  · have owns : m.known? (some owner) = some id ↔ id = owner := by
      rw [known_eq_some, Option.some.injEq]
      exact ⟨fun same => same.1.symm, fun same => ⟨same.symm, known⟩⟩
    rw [Model.members, elsewhere id (Nat.ne_of_lt known)]
    exact (members_add id).trans (by simp only [owns])
  · rw [still, redefines?, element_add_last]

/-- Redefinition is between features. -/
def RedefinesFeatures (m : Model) : Prop :=
  ∀ id target, m.RedefinesEdge id target → m.isFeature id = true ∧ m.isFeature target = true

theorem expressive_of_last {m : Model} {feature : ElementId} (last : m.redefines? feature = none) :
    m.expressive feature = feature := by
  rw [Model.expressive, redefinitionChain, redefined_of_none last, List.find?_cons]
  split <;> rfl

namespace Gains

variable {owner : ElementId} {m other : Model} (gains : Gains owner m other)

include gains

/-- What does not depend on the members of an element is the same. -/
theorem read {α : Type} {id : Nat} (known : id < m.size) (f : Element → α) (blind : ∀ e : Element, f e.bare = f e) :
    f (other.element id) = f (m.element id) := by
  rw [← blind (other.element id), gains.bare id known, blind]

theorem keepsEdges : KeepsEdges m other where
  generalTypes _ known := gains.read known Element.generalTypes fun _ => rfl
  redefines? _ known := gains.read known Element.redefines? fun _ => rfl

theorem isFeature {id : Nat} (known : id < m.size) : other.isFeature id = m.isFeature id :=
  gains.read known (fun e => e.kind.isFeature) fun _ => rfl

theorem isExpressive {feature : Nat} (known : feature < m.size) (apart : feature ≠ owner) :
    other.isExpressive feature = m.isExpressive feature := by
  have value : other.value? feature = m.value? feature := gains.read known Element.value? fun _ => rfl
  have owned : other.ownedFeatures feature = m.ownedFeatures feature := by
    rw [ownedFeatures, ownedFeatures, gains.members feature known, if_neg apart, List.append_nil]
    exact List.filter_congr fun member listed => gains.isFeature (lt_of_mem_members listed).2
  rw [Model.isExpressive, Model.isExpressive, value, owned]

theorem candidatesIn {feature id : Nat} (known : feature < m.size) (held : id < m.size) :
    other.candidatesIn feature id = m.candidatesIn feature id := by
  -- The new element is not the feature, and no redefinition leads from it anywhere.
  have unrelated : (decide (m.size = feature) || other.redefines m.size feature) = false := by
    simp [Nat.ne_of_gt known, Model.redefines, redefined_of_none gains.redefines_new]
  have added : (if id = owner then [m.size] else []).filter (fun candidate =>
      (decide (candidate = feature) || other.redefines candidate feature) && other.isFeature candidate) = [] := by
    refine List.filter_eq_nil_iff.mpr fun candidate new => ?_
    split at new
    · simp [List.mem_singleton.mp new, unrelated]
    · cases new
  rw [Model.candidatesIn, Model.candidatesIn, ownedFeatures, ownedFeatures, List.filter_filter, List.filter_filter,
    gains.members id held, List.filter_append, added, List.append_nil]
  refine List.filter_congr fun candidate listed => ?_
  have old := (lt_of_mem_members listed).2
  rw [gains.isFeature old, gains.keepsEdges.redefines old]

/-- Chains run through features, so an owner that is none stands on no chain but its own, of nothing else. -/
theorem expressive (features : m.RedefinesFeatures) (plain : m.isFeature owner = false) {feature : Nat}
    (known : feature < m.size) : other.expressive feature = m.expressive feature := by
  by_cases kind : m.isFeature feature = true
  · refine gains.keepsEdges.expressive known fun target member => ?_
    have through : m.isFeature target = true := by
      rcases List.mem_cons.mp member with rfl | member
      · exact kind
      · obtain ⟨last, _, edge⟩ := TransGen.tail'_iff.mp (redefined_reached _ _ _ member)
        exact (features last target edge).2
    refine gains.isExpressive (lt_of_mem_redefinitionChain known member) ?_
    rintro rfl
    exact absurd through (by simp [plain])
  · have last : m.redefines? feature = none := by
      cases edge : m.redefines? feature with
      | none => rfl
      | some target => exact absurd (features feature target edge).1 kind
    rw [expressive_of_last last, expressive_of_last ((gains.keepsEdges.redefines? feature known).trans last)]

theorem keepsResolution (features : m.RedefinesFeatures) (plain : m.isFeature owner = false) :
    KeepsResolution m other where
  toKeepsEdges := gains.keepsEdges
  path _ known := gains.read known Element.path fun _ => rfl
  owner _ known := gains.read known Element.owner? fun _ => rfl
  candidatesIn _ _ known held := gains.candidatesIn known held
  expressive _ known := gains.expressive features plain known

end Gains

/-- A feature that redefines nothing takes no part in the resolution of the features that were there before. -/
theorem resolve_shadowed (edits : List Edit) (features : (ofEdits edits).RedefinesFeatures) {owner : ElementId}
    (plain : (ofEdits edits).isFeature owner = false) (kind : ElementKind) (name? : Option String) {details : List Edit}
    (describe : ∀ edit ∈ details, edit.Describes (ofEdits edits).size) {feature scope : Nat}
    (known : feature < (ofEdits edits).size) (inside : scope < (ofEdits edits).size) :
    (ofEdits (edits ++ .add (some owner) kind name? :: details)).resolve feature scope =
      (ofEdits edits).resolve feature scope := by
  have gains := gains_add (ofEdits edits) owner kind name? describe
  have extended : ofEdits (edits ++ .add (some owner) kind name? :: details) =
      details.foldl apply ((ofEdits edits).add (some owner) kind name?) := by
    rw [ofEdits, List.foldl_append, List.foldl_cons]
    rfl
  rw [extended]
  exact (gains.keepsResolution features plain).resolve known inside

/-- `LittleRudolph` inherits the redefinition of the reindeers' weight by `Rudolph`. -/
def reindeers : List Edit := [
  .add none .partDefinition (some "Reindeer"), .add (some 0) .feature (some "weight"),
  .setValue 1 (.literal (.number 500)), .add none .partDefinition (some "Rudolph"), .addGeneral 2 0,
  .add (some 2) .feature (some "weight"), .setRedefines 3 1, .setValue 3 (.literal (.number 520)),
  .add none .partDefinition (some "LittleRudolph"), .addGeneral 4 2]

/-- A weight of its own that redefines nothing. -/
def ownWeight : List Edit := [
  .add (some 4) .feature (some "weight"), .setValue 5 (.literal (.number 480))]

theorem resolve_shadowed_ownWeight : (ofEdits reindeers).RedefinesFeatures ∧ (ofEdits reindeers).isFeature 4 = false ∧
    (Edit.setValue 5 (.literal (.number 480))).Describes (ofEdits reindeers).size ∧
    1 < (ofEdits reindeers).size ∧ 4 < (ofEdits reindeers).size ∧
    (ofEdits (reindeers ++ ownWeight)).feature? 4 "weight" = some 5 ∧
    (ofEdits (reindeers ++ ownWeight)).resolve 1 4 = (ofEdits reindeers).resolve 1 4 ∧
    (ofEdits reindeers).resolve 1 4 = .ok 3 := by
  have size : (ofEdits reindeers).size = 5 := by cbv
  have between : (List.range 5).all (fun id => ((ofEdits reindeers).redefines? id).all fun target =>
      (ofEdits reindeers).isFeature id && (ofEdits reindeers).isFeature target) = true := by cbv
  have features : (ofEdits reindeers).RedefinesFeatures := by
    intro id target edge
    have joined := List.all_eq_true.mp between id (List.mem_range.mpr (size ▸ edge.general.known.1))
    rw [show (ofEdits reindeers).redefines? id = some target from edge] at joined
    simpa using joined
  have plain : (ofEdits reindeers).isFeature 4 = false := by cbv
  have describe : (Edit.setValue 5 (.literal (.number 480))).Describes (ofEdits reindeers).size := size.symm
  have known : 1 < (ofEdits reindeers).size := by omega
  have inside : 4 < (ofEdits reindeers).size := by omega
  exact ⟨features, plain, describe, known, inside, by cbv,
    resolve_shadowed reindeers features plain .feature (some "weight") (by simpa using describe) known inside, by cbv⟩

end Model
end StructuralModel
