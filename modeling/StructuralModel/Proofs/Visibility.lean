import StructuralModel.Composite
import StructuralModel.Proofs.Inheritance

/-! Which features a scope lists: of all with one name, the one that the name finds. Redefinition plays no part
in it, so a redefinition hides what it redefines only where it has the same name and stands nearer. -/

namespace StructuralModel

namespace Model
open Relation

variable {m : Model} {feature scope : ElementId} {name : String}

theorem mem_unseen_of_unnamed {names : List String} {features : List ElementId} (unnamed : m.name? feature = none) :
    feature ∈ m.unseen names features ↔ feature ∈ features := by
  induction features generalizing names with
  | nil => rfl
  | cons head rest ih =>
    rw [unseen, List.mem_cons]
    split
    next => rw [List.mem_cons, ih]
    next other named =>
      have apart : feature ≠ head := fun same => by simp [same, named] at unnamed
      split
      · simp only [ih, apart, false_or]
      · simp only [List.mem_cons, ih, apart, false_or]

/-- Of the features with a name the first is left, and none if the name was seen before. -/
theorem filter_unseen (name : String) (names : List String) (features : List ElementId) :
    (m.unseen names features).filter (fun feature => m.name? feature == some name) =
      if name ∈ names then [] else (features.find? fun feature => m.name? feature == some name).toList := by
  induction features generalizing names with
  | nil => simp [unseen]
  | cons head rest ih =>
    rw [unseen]
    split
    next unnamed =>
      rw [List.filter_cons_of_neg (by simp [unnamed]), List.find?_cons_of_neg (by simp [unnamed])]
      exact ih names
    next other named =>
      by_cases same : other = name
      · subst same
        rw [List.find?_cons_of_pos (by simp [named])]
        split
        next seen => rw [ih, if_pos seen]
        next new =>
          rw [List.filter_cons_of_pos (by simp [named]), ih, if_pos List.mem_cons_self]
          rfl
      · rw [List.find?_cons_of_neg (by simp [named, same])]
        split
        next => exact ih names
        next =>
          rw [List.filter_cons_of_neg (by simp [named, same]), ih]
          simp only [List.mem_cons, Ne.symm same, false_or]

/-- Under a name the scope lists what the name finds. -/
theorem filter_visibleFeatures (scope : ElementId) (name : String) :
    (m.visibleFeatures scope).filter (fun feature => m.name? feature == some name) = (m.feature? scope name).toList := by
  rw [visibleFeatures, filter_unseen, if_neg List.not_mem_nil, List.find?_flatMap]
  rfl

theorem mem_visibleFeatures_of_named (named : m.name? feature = some name) :
    feature ∈ m.visibleFeatures scope ↔ m.feature? scope name = some feature := by
  rw [← Option.mem_toList.trans Option.mem_def, ← filter_visibleFeatures, List.mem_filter, named]
  simp

theorem mem_visibleFeatures_of_unnamed (forest : Forest m) (unnamed : m.name? feature = none) :
    feature ∈ m.visibleFeatures scope ↔ m.isFeature feature = true ∧ m.Inherited feature scope := by
  rw [visibleFeatures, mem_unseen_of_unnamed unnamed, List.mem_flatMap]
  simp only [mem_ownedFeatures forest]
  constructor
  · rintro ⟨ancestor, member, kind, owned⟩
    exact ⟨kind, ancestor.element, owned, reaches_of_mem_generalClosure member⟩
  · rintro ⟨kind, owner, owned, reached⟩
    obtain ⟨ancestor, member, rfl⟩ := List.mem_map.mp (mem_lineage.mpr reached)
    exact ⟨ancestor, member, kind, owned⟩

theorem unseen_sublist (names : List String) (features : List ElementId) :
    (m.unseen names features).Sublist features := by
  induction features generalizing names with
  | nil => exact .slnil
  | cons head rest ih =>
    rw [unseen]
    split
    · exact (ih names).cons_cons head
    · split
      · exact (ih names).cons head
      · exact (ih _).cons_cons head

/-- No feature is listed twice, because it is owned by one element and the closure has every element once. -/
theorem nodup_visibleFeatures (forest : Forest m) (scope : ElementId) : (m.visibleFeatures scope).Nodup := by
  refine List.Nodup.sublist (unseen_sublist _ _) (List.nodup_flatMap.mpr ⟨fun ancestor _ => ?_, ?_⟩)
  · exact (List.Pairwise.imp Nat.ne_of_lt (forest.members_ascend ancestor.element)).filter _
  · refine (List.pairwise_map.mp (nodup_lineage scope)).imp fun apart => ?_
    intro feature owned other
    rw [mem_ownedFeatures forest] at owned other
    exact apart (Option.some.inj (owned.2.symm.trans other.2))

/-- A feature hides another one of the same name that is owned by an element farther from the scope. -/
structure Hides (m : Model) (scope other feature : ElementId) : Prop where
  kind : m.isFeature other = true
  named : ∃ name, m.name? feature = some name ∧ m.name? other = some name
  nearer : ∃ owner near, m.owner? feature = some owner ∧ m.owner? other = some near ∧ m.Precedes scope near owner

theorem mem_visibleFeatures_iff (forest : Forest m) (distinct : m.DistinctNames) (kind : m.isFeature feature = true)
    (inside : m.Inherited feature scope) :
    feature ∈ m.visibleFeatures scope ↔ ∀ other, ¬ m.Hides scope other feature := by
  cases named : m.name? feature with
  | none =>
    refine iff_of_true ((mem_visibleFeatures_of_unnamed forest named).mpr ⟨kind, inside⟩) ?_
    rintro other ⟨_, ⟨name, same, _⟩, _⟩
    simp [named] at same
  | some name =>
    rw [mem_visibleFeatures_of_named named, feature?_eq_some_iff forest distinct]
    constructor
    · rintro nearest other ⟨kind', ⟨name', same, named'⟩, owner, near, owned, above, before⟩
      obtain rfl := Option.some.inj (named.symm.trans same)
      exact nearest.first other owner near kind' named' owned above before
    · intro unhidden
      refine ⟨kind, named, inside, fun other owner near kind' named' owned above before => ?_⟩
      exact unhidden other ⟨kind', ⟨name, named, named'⟩, owner, near, owned, above, before⟩

/-- A redefinition by the scope itself stands before everything that the scope inherits. -/
theorem RedefinesByChain.hides (valid : WellFormed m) {redefining : ElementId}
    (chain : m.RedefinesByChain redefining feature) (owned : m.owner? redefining = some scope)
    (named : m.name? feature = some name) (same : m.name? redefining = some name) :
    m.Hides scope redefining feature := by
  obtain ⟨owner, general, owned', above, climbed⟩ := chain.climbs valid.toEdgesValid
  obtain rfl := Option.some.inj (owned.symm.trans owned')
  refine ⟨(chain.isFeature valid.toEdgesValid).1, ⟨name, named, same⟩, general, scope, above, owned, ?_⟩
  rcases precedes_total (.refl : m.Reaches scope scope) climbed.to_reflTransGen with rfl | before | after
  · exact absurd climbed (valid.acyclic scope)
  · exact before
  · exact absurd after (not_precedes_scope general)

/-- No name is listed twice, because it finds one feature at most. -/
theorem nodup_effectiveNames (c : Composite) : (c.effectiveNames m).Nodup := by
  refine List.nodup_iff_count_le_one.mpr fun name => ?_
  rw [Composite.effectiveNames, List.count_filterMap, List.countP_eq_length_filter, filter_visibleFeatures]
  cases m.feature? c.element name <;> simp

end Model

namespace LoadedModel
open Model

/-- What a redefinition of the scope redefines is listed exactly as long as nothing of its name stands nearer.
A redefinition that keeps the name hides it if the scope owns the redefinition. -/
theorem visible_redefined {source : String} {loaded : LoadedModel} (loads : ofSource source = .ok loaded)
    {scope redefining redefined : ElementId} (inside : loaded.model.Inherited redefining scope)
    (chain : loaded.model.RedefinesByChain redefining redefined) :
    (redefined ∈ loaded.model.visibleFeatures scope ↔ ∀ other, ¬ loaded.model.Hides scope other redefined) ∧
      (∀ name, loaded.model.name? redefined = some name → loaded.model.name? redefining = some name →
        loaded.model.owner? redefining = some scope → redefined ∉ loaded.model.visibleFeatures scope) ∧
      ∀ origin, (Composite.effectiveNames loaded.model ⟨scope, origin⟩).Nodup := by
  obtain ⟨valid, forest⟩ := valid_of_ofSource loads
  have kind := (chain.isFeature valid.toEdgesValid).2
  have listed : redefined ∈ loaded.model.visibleFeatures scope ↔
      ∀ other, ¬ loaded.model.Hides scope other redefined :=
    mem_visibleFeatures_iff forest valid.distinct kind (chain.inherited valid.toEdgesValid inside)
  refine ⟨listed, fun name named same owned visible => ?_, fun origin => nodup_effectiveNames _⟩
  exact listed.mp visible redefining (chain.hides valid owned named same)

/-- `B` redefines a feature of `A` under another name. -/
def renamed : String :=
  "part def A \x7b attribute weight; \x7d part def B :> A \x7b attribute mass redefines weight; \x7d"

theorem renamed_loads : ∃ loaded, ofSource renamed = .ok loaded ∧ loaded.model.owner? 3 = some 2 ∧
    loaded.model.RedefinesEdge 3 1 ∧ loaded.model.visibleFeatures 2 = [3, 1] := by
  have facts : ((ofSource renamed).map fun loaded => (loaded.model.owner? 3, loaded.model.redefines? 3,
      loaded.model.visibleFeatures 2)) = .ok (some 2, some 1, [3, 1]) := by cbv
  obtain ⟨loaded, loads, same⟩ := exists_of_map_ofSource facts
  simp only [Prod.mk.injEq] at same
  exact ⟨loaded, loads, same⟩

theorem visible_renamed : ∃ loaded, ofSource renamed = .ok loaded ∧ loaded.model.Inherited 3 2 ∧
    loaded.model.RedefinesByChain 3 1 ∧ ∀ other, ¬ loaded.model.Hides 2 other 1 := by
  obtain ⟨loaded, loads, owned, edge, visible⟩ := renamed_loads
  have inside : loaded.model.Inherited 3 2 := ⟨2, owned, .refl⟩
  have listed := (visible_redefined loads inside (.single edge)).1
  exact ⟨loaded, loads, inside, .single edge, listed.mp (by simp [visible])⟩

/-- Redefinition alone does not hide anything. -/
theorem not_hidden_renamed : ¬ ∀ source loaded, ofSource source = .ok loaded →
    ∀ scope redefining redefined : ElementId, loaded.model.Inherited redefining scope →
      loaded.model.RedefinesByChain redefining redefined → redefined ∉ loaded.model.visibleFeatures scope := by
  intro hidden
  obtain ⟨loaded, loads, owned, edge, visible⟩ := renamed_loads
  exact hidden renamed loaded loads 2 3 1 ⟨2, owned, .refl⟩ (.single edge) (by simp [visible])

end LoadedModel
end StructuralModel
