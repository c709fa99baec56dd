import StructuralModel.Proofs.LateBinding

/-! A part that redefines an inherited one without a value. With features of its own it stands in its scope as
itself, so all that its types offer can be reached. Without any it has nothing to say, and what it redefines
stands there instead, with the types of that. -/

namespace StructuralModel

namespace Model
open Relation

variable {m : Model} {env : Environment} {feature scope own : ElementId}

/-- The only redefinition that a scope owns is what the feature is resolved to, or has nothing to say. -/
theorem resolve_redefining (valid : WellFormed m) (forest : Forest m) (chain : m.RedefinesByChain own feature)
    (owned : m.owner? own = some scope)
    (only : ∀ other, m.owner? other = some scope → m.RedefinesByChain other feature → other = own) :
    ∃ found, m.Expresses own found ∧ m.resolve feature scope = .ok found := by
  obtain ⟨kind, redefined⟩ := chain.isFeature valid.toEdgesValid
  have restates : m.Restates feature scope own := ⟨kind, owned, .inr chain⟩
  rcases restates.resolve valid forest redefined with ⟨_, resolved⟩ | ⟨⟨other, apart, also⟩, _⟩
  · exact resolved
  · rcases also.related with rfl | chain'
    · -- The scope would own both ends of the chain, which climbs.
      obtain ⟨owner, general, owned', above, climbed⟩ := chain.climbs valid.toEdgesValid
      obtain rfl := Option.some.inj (owned.symm.trans owned')
      obtain rfl := Option.some.inj (above.symm.trans also.owned)
      exact absurd climbed (valid.acyclic _)
    · exact absurd (only other also.owned chain') apart

theorem evaluateFeature_unexpressed {found : ElementId} (deep : 0 < env.maxDepth) (kind : m.isFeature feature = true)
    (resolved : m.resolve feature scope = .ok found) (empty : m.value? found = none) :
    m.evaluateFeature env feature scope = .ok (m.unexpressedValue found scope) := by
  obtain ⟨owner, owned, _⟩ := inherited_of_resolve resolved
  obtain ⟨room, same⟩ := Nat.exists_eq_succ_of_ne_zero (Nat.ne_of_gt deep)
  rw [evaluateFeature, if_pos kind, same, featureValue_eq, effective_of_resolve owned resolved, ok_bind,
    if_neg List.not_mem_nil]
  simp only [expressedValue, empty]

/-- Member access on an element finds a feature with the name. -/
def Offers (m : Model) (element : ElementId) (name : String) : Prop :=
  ∃ reached, m.Nearest element name reached ∧ ∀ env featureValue frame expr origin,
    m.evaluateWith env featureValue frame expr = .ok (.composite element origin) →
      m.evaluateWith env featureValue frame (.member expr name) = m.elementValue featureValue reached element

theorem offers_of_inherited (forest : Forest m) {element nested : ElementId} {name : String}
    (kind : m.isFeature nested = true) (inside : m.Inherited nested element) (named : m.name? nested = some name) :
    m.Offers element name := by
  obtain ⟨reached, found⟩ := exists_feature? forest kind inside named
  refine ⟨reached, nearest_of_feature? forest found, ?_⟩
  intro env featureValue frame expr origin evaluated
  rw [evaluateWith_member, evaluated, ok_bind]
  simp only [memberValue, found]

end Model

namespace LoadedModel
open Model

/-- A redefining part with features of its own keeps the types that it is declared with. One without any is
passed over for what the part that it redefines expresses. -/
theorem evaluateFeature_restatedPart {source : String} {loaded : LoadedModel} (loads : ofSource source = .ok loaded)
    {env : Environment} (deep : 0 < env.maxDepth) {feature scope own : ElementId}
    (part : loaded.model.kind own = .partUsage) (empty : loaded.model.value? own = none)
    (owned : loaded.model.owner? own = some scope) (chain : loaded.model.RedefinesByChain own feature)
    (only : ∀ other, loaded.model.owner? other = some scope → loaded.model.RedefinesByChain other feature →
      other = own) :
    ((∃ nested, loaded.model.isFeature nested = true ∧ loaded.model.owner? nested = some own) →
      loaded.model.evaluateFeature env feature scope = .ok (.composite own scope) ∧
      ∀ type, loaded.model.GeneralEdge own type → loaded.model.specializes own type = true ∧
        ∀ nested name, loaded.model.isFeature nested = true → loaded.model.Inherited nested type →
          loaded.model.name? nested = some name → loaded.model.Offers own name) ∧
    ((¬ ∃ nested, loaded.model.isFeature nested = true ∧ loaded.model.owner? nested = some own) →
      ∃ next found, loaded.model.RedefinesEdge own next ∧ loaded.model.Expresses next found ∧
        loaded.model.resolve feature scope = .ok found ∧
        (loaded.model.value? found = none →
          loaded.model.evaluateFeature env feature scope = .ok (loaded.model.unexpressedValue found scope))) := by
  obtain ⟨valid, forest⟩ := valid_of_ofSource loads
  have kind := (chain.isFeature valid.toEdgesValid).2
  obtain ⟨found, expressed, resolved⟩ := resolve_redefining valid forest chain owned only
  constructor
  · intro body
    obtain rfl := expressed.unique (.own (.inr body))
    constructor
    · rw [evaluateFeature_unexpressed deep kind resolved empty]
      simp [unexpressedValue, part, ElementKind.isPart]
    · intro type edge
      refine ⟨specializes_iff.mpr (.single edge), fun nested name kind inside named => ?_⟩
      exact offers_of_inherited forest kind (inside.of_reaches (.single edge)) named
  · intro bare
    have silent : ¬ loaded.model.Expressive own := by
      rintro (value | body)
      · simp [empty] at value
      · exact bare body
    cases expressed with
    | own expressive => exact absurd expressive silent
    | last _ ends =>
      obtain ⟨next, edge, _⟩ := Relation.TransGen.head'_iff.mp chain
      exact absurd (ends.symm.trans edge) (by simp)
    | inherited _ edge rest =>
      exact ⟨_, found, edge, rest, resolved, evaluateFeature_unexpressed deep kind resolved⟩

/-- `S` redefines a part of `A` by one of type `T` that has a feature of its own. -/
def retyped : String :=
  "part def T \x7b attribute x; \x7d part def A \x7b part r; \x7d " ++
    "part def S :> A \x7b part redefines r : T \x7b attribute y; \x7d \x7d"

/-- The same without a feature in the redefining part. -/
def retypedBare : String :=
  "part def T \x7b attribute x; \x7d part def A \x7b part r; \x7d part def S :> A \x7b part redefines r : T; \x7d"

/-- The part `5` of the scope `4` has type `0` and redefines the feature `3`. -/
structure Retyped (m : Model) : Prop where
  part : m.kind 5 = .partUsage
  empty : m.value? 5 = none
  owns : m.ownedFeatures 4 = [5]
  redefines : m.RedefinesEdge 5 3
  typed : m.generalTypes 5 = [0, 3]

theorem Retyped.owned {m : Model} (retyped : Retyped m) (forest : Forest m) (other : ElementId) :
    m.isFeature other = true ∧ m.owner? other = some 4 ↔ other = 5 := by
  rw [← mem_ownedFeatures forest, retyped.owns, List.mem_singleton]

theorem Retyped.only {m : Model} (retyped : Retyped m) (forest : Forest m) (valid : EdgesValid m)
    (other : ElementId) (owned : m.owner? other = some 4) (chain : m.RedefinesByChain other 3) : other = 5 :=
  (retyped.owned forest other).mp ⟨(chain.isFeature valid).1, owned⟩

theorem retyped_loads : ∃ loaded, ofSource retyped = .ok loaded ∧ Retyped loaded.model ∧
    loaded.model.ownedFeatures 5 = [6] ∧ loaded.model.ownedFeatures 0 = [1] ∧ loaded.model.name? 1 = some "x" := by
  have facts : ((ofSource retyped).map fun loaded => (loaded.model.kind 5, loaded.model.value? 5,
      loaded.model.ownedFeatures 4, loaded.model.redefines? 5, loaded.model.generalTypes 5,
      loaded.model.ownedFeatures 5, loaded.model.ownedFeatures 0, loaded.model.name? 1)) =
      .ok (.partUsage, none, [5], some 3, [0, 3], [6], [1], some "x") := by cbv
  obtain ⟨loaded, loads, same⟩ := exists_of_map_ofSource facts
  simp only [Prod.mk.injEq] at same
  obtain ⟨part, empty, owns, redefines, typed, rest⟩ := same
  exact ⟨loaded, loads, ⟨part, empty, owns, redefines, typed⟩, rest⟩

theorem retypedBare_loads : ∃ loaded, ofSource retypedBare = .ok loaded ∧ Retyped loaded.model ∧
    loaded.model.evaluateFeature sixteenDeep 3 4 = .ok (.composite 3 4) ∧ loaded.model.specializes 3 0 = false := by
  have facts : ((ofSource retypedBare).map fun loaded => (loaded.model.kind 5, loaded.model.value? 5,
      loaded.model.ownedFeatures 4, loaded.model.redefines? 5, loaded.model.generalTypes 5,
      loaded.model.evaluateFeature sixteenDeep 3 4, loaded.model.specializes 3 0)) =
      .ok (.partUsage, none, [5], some 3, [0, 3], .ok (.composite 3 4), false) := by cbv
  obtain ⟨loaded, loads, same⟩ := exists_of_map_ofSource facts
  simp only [Prod.mk.injEq] at same
  obtain ⟨part, empty, owns, redefines, typed, rest⟩ := same
  exact ⟨loaded, loads, ⟨part, empty, owns, redefines, typed⟩, rest⟩

theorem evaluateFeature_retyped : ∃ loaded, ofSource retyped = .ok loaded ∧ 0 < sixteenDeep.maxDepth ∧
    Retyped loaded.model ∧ loaded.model.evaluateFeature sixteenDeep 3 4 = .ok (.composite 5 4) ∧
    loaded.model.specializes 5 0 = true ∧ loaded.model.Offers 5 "x" := by
  obtain ⟨loaded, loads, retyped, body, own, named⟩ := retyped_loads
  obtain ⟨valid, forest⟩ := valid_of_ofSource loads
  have deep : 0 < sixteenDeep.maxDepth := by decide
  have nested := (mem_ownedFeatures forest).mp (body ▸ List.mem_singleton_self 6)
  obtain ⟨kind, owned⟩ := (mem_ownedFeatures forest).mp (own ▸ List.mem_singleton_self 1)
  obtain ⟨value, kept⟩ := (evaluateFeature_restatedPart loads deep retyped.part retyped.empty
    ((retyped.owned forest 5).mpr rfl).2 (.single retyped.redefines) (retyped.only forest valid.toEdgesValid)).1 ⟨6, nested⟩
  obtain ⟨specializes, offers⟩ := kept 0 (by simp [GeneralEdge, retyped.typed])
  exact ⟨loaded, loads, deep, retyped, value, specializes, offers 1 "x" kind ⟨0, owned, .refl⟩ named⟩

/-- Without a body the part may lose the type. -/
theorem not_kept_retypedBare : ¬ ∀ source loaded, ofSource source = .ok loaded → ∀ env : Environment,
    0 < env.maxDepth → ∀ feature scope own : ElementId, loaded.model.kind own = .partUsage →
      loaded.model.value? own = none → loaded.model.owner? own = some scope →
      loaded.model.RedefinesByChain own feature →
      (∀ other, loaded.model.owner? other = some scope → loaded.model.RedefinesByChain other feature →
        other = own) →
      ∃ element origin, loaded.model.evaluateFeature env feature scope = .ok (.composite element origin) ∧
        ∀ type, loaded.model.GeneralEdge own type → loaded.model.specializes element type = true := by
  intro kept
  obtain ⟨loaded, loads, retyped, value, lost⟩ := retypedBare_loads
  obtain ⟨valid, forest⟩ := valid_of_ofSource loads
  obtain ⟨element, origin, found, typed⟩ := kept retypedBare loaded loads sixteenDeep (by decide) 3 4 5 retyped.part
    retyped.empty ((retyped.owned forest 5).mpr rfl).2 (.single retyped.redefines) (retyped.only forest valid.toEdgesValid)
  rw [value] at found
  obtain ⟨rfl, rfl⟩ := Value.composite.inj (Except.ok.inj found)
  have special := typed 0 (by simp [GeneralEdge, retyped.typed])
  rw [lost] at special
  cases special

end LoadedModel
end StructuralModel
