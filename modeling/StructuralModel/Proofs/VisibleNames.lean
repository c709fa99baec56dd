import StructuralModel.Proofs.Visibility

/-! Listing the features of a scope and looking them up by name. Both pass through the closure of the scope in the same
order, so what is listed under a name is what the name finds, however the model was built. -/

namespace StructuralModel.Model

variable {m : Model} {scope : ElementId}

/-- Of two features, the owner of the first comes earlier in the closure of a scope, or one element owns both and declares
the first before the second. -/
def PassedBefore (m : Model) (scope first second : ElementId) : Prop :=
  ∃ near owner, m.owner? first = some near ∧ m.owner? second = some owner ∧
    (m.Precedes scope near owner ∨ near = owner ∧ [first, second].Sublist (m.members owner))

/-- A list of what can be looked up in a scope: the features that are found by their names, and those without a name. -/
structure Listing (m : Model) (scope : ElementId) (features : List ElementId) : Prop where
  once : features.Nodup
  owned : ∀ feature ∈ features, ∃ owner ∈ m.lineage scope, feature ∈ m.ownedFeatures owner
  named : ∀ name, features.filter (fun feature => m.name? feature == some name) = (m.feature? scope name).toList
  unnamed : ∀ owner ∈ m.lineage scope, ∀ feature ∈ m.ownedFeatures owner, m.name? feature = none → feature ∈ features
  ordered : features.Pairwise (m.PassedBefore scope)

theorem visibleFeatures_eq (scope : ElementId) :
    m.visibleFeatures scope = m.unseen [] ((m.lineage scope).flatMap m.ownedFeatures) := by
  rw [visibleFeatures, lineage, List.flatMap_map]

theorem pairwise_precedes (scope : ElementId) : (m.lineage scope).Pairwise (m.Precedes scope) := by
  rw [List.pairwise_iff_forall_sublist]
  intro first second both
  obtain ⟨nearer, rest, split, member, later⟩ := List.cons_sublist_iff.mp both
  obtain ⟨between, farther, rfl⟩ := List.append_of_mem (List.singleton_sublist.mp later)
  exact ⟨nearer ++ between, farther, by rw [split, List.append_assoc], List.mem_append_left _ member⟩

/-- A feature that is left out does not change the order of the others. -/
theorem ordered_visibleFeatures (forest : Forest m) (scope : ElementId) :
    (m.visibleFeatures scope).Pairwise (m.PassedBefore scope) := by
  have owner : ∀ {feature owner}, feature ∈ m.ownedFeatures owner → m.owner? feature = some owner :=
    fun member => ((mem_ownedFeatures forest).mp member).2
  rw [visibleFeatures_eq]
  refine List.Pairwise.sublist (unseen_sublist _ _) (List.pairwise_flatMap.mpr ⟨fun own _ => ?_, ?_⟩)
  · refine List.pairwise_iff_forall_sublist.mpr fun {first second} both => ?_
    have declared := both.trans List.filter_sublist
    exact ⟨own, own, owner (both.subset (by simp)), owner (both.subset (by simp)), .inr ⟨rfl, declared⟩⟩
  · refine (pairwise_precedes scope).imp fun {near far} before first nearer second farther => ?_
    exact ⟨near, far, owner nearer, owner farther, .inl before⟩

/-- Whatever steps a model is built by, listing the features of a scope and looking them up by name select the same. -/
theorem listing_visibleFeatures (edits : List Edit) (scope : ElementId) :
    (ofEdits edits).Listing scope ((ofEdits edits).visibleFeatures scope) := by
  have forest := Forest.ofEdits edits
  constructor
  · exact nodup_visibleFeatures forest scope
  · intro feature visible
    rw [visibleFeatures_eq] at visible
    exact List.mem_flatMap.mp (mem_of_mem_unseen visible)
  · exact filter_visibleFeatures scope
  · intro owner inside feature owned unnamed
    rw [visibleFeatures_eq, mem_unseen_of_unnamed unnamed]
    exact List.mem_flatMap.mpr ⟨owner, inside, owned⟩
  · exact ordered_visibleFeatures forest scope

/-- Two siblings of one name and one without, and a nearer feature of that name on one side of a diamond. -/
example : let m := ofEdits [.add none .partDefinition (some "A"), .add (some 0) .feature (some "x"),
      .add (some 0) .feature (some "x"), .add (some 0) .feature none, .add none .partDefinition (some "B"),
      .add none .partDefinition (some "C"), .add (some 5) .feature (some "x"), .add none .partDefinition (some "D"),
      .addGeneral 4 0, .addGeneral 5 0, .addGeneral 7 4, .addGeneral 7 5]
    m.visibleFeatures 7 = [6, 3] ∧ m.feature? 7 "x" = some 6 ∧ m.feature? 4 "x" = some 1 := by
  cbv

end StructuralModel.Model
