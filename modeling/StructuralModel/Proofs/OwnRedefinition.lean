import StructuralModel.Proofs.EffectiveFeature
import StructuralModel.Proofs.WellFormed

/-! A feature that a scope owns is never overridden from outside. Redefinitions climb along general types
and these have no cycles, so nothing that the scope inherits redefines what it owns. -/

namespace StructuralModel

namespace Model
open Relation

/-- The scope owns the feature `own`, which is the given one or redefines it. -/
structure Restates (m : Model) (feature scope own : ElementId) : Prop where
  kind : m.isFeature own = true
  owned : m.owner? own = some scope
  related : own = feature ∨ m.RedefinesByChain own feature

variable {m : Model} {feature scope own : ElementId}

/-- Along a chain of redefinitions the owners become more and more general. -/
theorem RedefinesByChain.climbs (valid : EdgesValid m) {id target : ElementId} (chain : m.RedefinesByChain id target) :
    ∃ owner general, m.owner? id = some owner ∧ m.owner? target = some general ∧ TransGen m.GeneralEdge owner general := by
  have step : ∀ id target, m.RedefinesEdge id target → ∃ owner general,
      m.owner? id = some owner ∧ m.owner? target = some general ∧ TransGen m.GeneralEdge owner general := by
    intro id target edge
    obtain ⟨owner, general, owned, above, apart, reached⟩ := (valid.overrides id target edge).inherits
    exact ⟨owner, general, owned, above, (reflTransGen_iff_eq_or_transGen.mp reached).resolve_left apart⟩
  induction chain with
  | single edge => exact step _ _ edge
  | tail _ edge ih =>
    obtain ⟨owner, middle, owned, between, first⟩ := ih
    obtain ⟨middle', general, between', above, last⟩ := step _ _ edge
    obtain rfl := Option.some.inj (between.symm.trans between')
    exact ⟨owner, general, owned, above, first.trans last⟩

namespace Restates

theorem inherited (valid : EdgesValid m) (restates : m.Restates feature scope own) : m.Inherited feature scope := by
  rcases restates.related with rfl | chain
  · exact ⟨scope, restates.owned, .refl⟩
  · obtain ⟨owner, general, owned, above, reached⟩ := chain.climbs valid
    obtain rfl := Option.some.inj (owned.symm.trans restates.owned)
    exact ⟨general, above, reached.to_reflTransGen⟩

/-- A candidate that redefined the scope's own feature would be owned by an element that the scope
specializes and that specializes the scope. -/
theorem mostSpecific (valid : WellFormed m) (restates : m.Restates feature scope own) :
    m.MostSpecific feature scope own := by
  refine ⟨⟨restates.kind, ⟨scope, restates.owned, .refl⟩, restates.related⟩, ?_⟩
  intro other candidate chain
  obtain ⟨owner, inside, reached⟩ := candidate.inherited
  obtain ⟨owner', general, inside', above, back⟩ := chain.climbs valid.toEdgesValid
  obtain rfl := Option.some.inj (inside.symm.trans inside')
  obtain rfl := Option.some.inj (above.symm.trans restates.owned)
  exact valid.acyclic _ (TransGen.trans_right reached back)

theorem nearestOwner (valid : WellFormed m) (restates : m.Restates feature scope own) :
    m.NearestOwner feature scope scope where
  owns := ⟨own, restates.mostSpecific valid, restates.owned⟩
  first := ⟨[], _, lineage_eq_cons scope, fun _ _ _ member => by cases member⟩

end Restates

/-- What the scope itself restates is most specific there, and nothing else that it owns is. -/
theorem mostSpecificIn_scope (valid : WellFormed m) (forest : Forest m) :
    m.mostSpecificIn feature scope scope = m.candidatesIn feature scope := by
  simp only [mostSpecificIn, candidatesIn, ownedFeatures, List.filter_filter]
  apply List.filter_congr
  intro own member
  have owned := (forest.member_iff scope own).mp member
  rw [Bool.eq_iff_iff]
  simp only [decide_eq_true_eq, Bool.and_eq_true, Bool.or_eq_true, redefines_iff]
  constructor
  · intro specific
    exact ⟨specific.qualifies.related, specific.qualifies.kind⟩
  · rintro ⟨related, kind⟩
    exact Restates.mostSpecific valid ⟨kind, owned, related⟩

theorem restates_iff (forest : Forest m) : m.Restates feature scope own ↔ own ∈ m.candidatesIn feature scope := by
  rw [mem_candidatesIn forest]
  constructor
  · rintro ⟨kind, owned, related⟩
    exact ⟨⟨kind, owned⟩, related⟩
  · rintro ⟨⟨kind, owned⟩, related⟩
    exact ⟨kind, owned, related⟩

/-- A member is listed once, so one of two candidates is another than the given one. -/
theorem exists_other_candidate (forest : Forest m) (several : 2 ≤ (m.candidatesIn feature scope).length)
    (own : ElementId) : ∃ other ∈ m.candidatesIn feature scope, other ≠ own := by
  have ascend : (m.candidatesIn feature scope).Pairwise (· < ·) :=
    ((forest.members_ascend scope).filter m.isFeature).filter _
  match list : m.candidatesIn feature scope with
  | [] => simp [list] at several
  | [single] => simp [list] at several
  | first :: second :: rest =>
    rw [list, List.pairwise_cons] at ascend
    by_cases same : first = own
    · exact ⟨second, by simp, fun again => Nat.ne_of_lt (ascend.1 second (by simp)) (same.trans again.symm)⟩
    · exact ⟨first, by simp, same⟩

theorem Expresses.eq_of_value {found : ElementId} (expressed : m.Expresses own found)
    (value : (m.value? own).isSome = true) : found = own := by
  cases expressed with
  | own | last => rfl
  | inherited silent => exact absurd (.inl value) silent

/-- In the scope that owns a restatement the restatements alone decide. -/
theorem Restates.resolve (valid : WellFormed m) (forest : Forest m) (kind : m.isFeature feature = true)
    (restates : m.Restates feature scope own) :
    ((∀ other, m.Restates feature scope other → other = own) ∧
      ∃ found, m.Expresses own found ∧ m.resolve feature scope = .ok found) ∨
    ((∃ other, other ≠ own ∧ m.Restates feature scope other) ∧
      m.resolve feature scope =
        .error (.ambiguous (m.path feature) (m.path scope) ((m.candidatesIn feature scope).map m.path))) := by
  have described : m.Resolves feature scope (m.resolve feature scope) :=
    resolves_resolve forest valid.acyclic_redefines kind
  have nearest := restates.nearestOwner valid
  generalize m.resolve feature scope = result at described
  cases described with
  | notReachable outside => exact absurd (restates.inherited valid.toEdgesValid) outside
  | ambiguous _ nearest' several =>
    obtain rfl := nearest'.unique nearest
    rw [mostSpecificIn_scope valid forest] at several ⊢
    obtain ⟨other, member, apart⟩ := exists_other_candidate forest several own
    exact .inr ⟨⟨other, apart, (restates_iff forest).mpr member⟩, rfl⟩
  | chosen _ nearest' only expressed =>
    obtain rfl := nearest'.unique nearest
    rw [mostSpecificIn_scope valid forest] at only
    have single : ∀ other, m.Restates feature _ other → other = _ := fun other also =>
      List.mem_singleton.mp (only ▸ (restates_iff forest).mp also)
    obtain rfl := single own restates
    exact .inl ⟨single, _, expressed, rfl⟩

end Model

namespace LoadedModel
open Model

/-- In the scope that owns it, a feature or its redefinition gives the result: the only one by what it
expresses, and several by being ambiguous. -/
theorem resolve_restatement {source : String} {loaded : LoadedModel} (loads : ofSource source = .ok loaded)
    {feature own scope : ElementId} (kind : loaded.model.isFeature feature = true)
    (restates : loaded.model.Restates feature scope own) :
    (∀ path inside, loaded.model.resolve feature scope ≠ .error (.notReachable path inside)) ∧
      ((∀ other, loaded.model.Restates feature scope other → other = own) →
        ∃ found, loaded.model.Expresses own found ∧ loaded.model.resolve feature scope = .ok found ∧
          ((loaded.model.value? own).isSome = true → found = own)) ∧
      ((∃ other, other ≠ own ∧ loaded.model.Restates feature scope other) →
        loaded.model.resolve feature scope = .error (.ambiguous (loaded.model.path feature) (loaded.model.path scope)
          ((loaded.model.candidatesIn feature scope).map loaded.model.path))) := by
  obtain ⟨declarations, _, declared⟩ := declarations_of_ofSource loads
  rcases restates.resolve (wellFormed_of_ofDeclarations declared) (forest_of_ofDeclarations declared) kind with
    ⟨single, found, expressed, resolved⟩ | ⟨⟨other, apart, also⟩, ambiguous⟩
  · refine ⟨fun path inside failed => ?_, fun _ => ?_, fun ⟨other, apart, also⟩ => absurd (single other also) apart⟩
    · simp [resolved] at failed
    · exact ⟨found, expressed, resolved, expressed.eq_of_value⟩
  · refine ⟨fun path inside failed => ?_, fun single => absurd (single other also) apart, fun _ => ambiguous⟩
    simp [ambiguous] at failed

theorem resolve_overriding : ∃ loaded, ofSource overriding = .ok loaded ∧ loaded.model.isFeature 1 = true ∧
    loaded.model.Restates 1 2 3 ∧ loaded.model.resolve 1 2 = .ok 3 := by
  obtain ⟨loaded, loads, kind, owns, edge, value⟩ := overriding_loads
  obtain ⟨declarations, _, declared⟩ := declarations_of_ofSource loads
  have owned : ∀ own, loaded.model.isFeature own = true ∧ loaded.model.owner? own = some 2 ↔ own = 3 := fun own => by
    rw [← mem_ownedFeatures (forest_of_ofDeclarations declared), owns, List.mem_singleton]
  have restates : loaded.model.Restates 1 2 3 :=
    ⟨((owned 3).mpr rfl).1, ((owned 3).mpr rfl).2, .inr (.single edge)⟩
  obtain ⟨_, single, _⟩ := resolve_restatement loads kind restates
  obtain ⟨found, _, resolved, own⟩ := single fun other also => (owned other).mp ⟨also.kind, also.owned⟩
  exact ⟨loaded, loads, kind, restates, own value ▸ resolved⟩

end LoadedModel
end StructuralModel
