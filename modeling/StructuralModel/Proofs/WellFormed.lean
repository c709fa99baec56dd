import Mathlib
import StructuralModel.Elaboration.LoadedModel
import StructuralModel.Proofs.CycleSearch
import StructuralModel.Proofs.Linking

/-! What every model that loads satisfies, whatever its source text is. -/

namespace StructuralModel
open Relation

namespace Model

/-- A model that expressions can be evaluated in. -/
structure WellFormed (m : Model) : Prop extends EdgesValid m where
  acyclic : ∀ id, ¬ TransGen m.GeneralEdge id id
  distinct : m.DistinctNames
  ordered : m.traversal = List.range m.size

variable {m : Model}

theorem WellFormed.acyclic_redefines (valid : WellFormed m) (id : ElementId) : ¬ m.RedefinesByChain id id :=
  fun chain => valid.acyclic id chain.general

end Model

namespace LoadedModel
open Model

/-- A model loads with the edges of its draft, and without any error. -/
theorem ofDeclarations_ok {declarations : List Declaration} {loaded : LoadedModel}
    (loads : ofDeclarations declarations = .ok loaded) :
    loaded.model = (Draft.ofDeclarations declarations).linked.1 ∧
      ∀ problem ∈ (Draft.ofDeclarations declarations).problems ++ (Draft.ofDeclarations declarations).linked.2 ++
        (Draft.ofDeclarations declarations).edgeProblems loaded.model, problem.severity ≠ .error := by
  simp only [ofDeclarations] at loads
  split at loads
  next => cases loads
  next harmless =>
    obtain rfl := Except.ok.inj loads
    refine ⟨rfl, fun problem member error => harmless ?_⟩
    refine List.any_eq_true.mpr ⟨problem.diagnostic, List.mem_map_of_mem member, ?_⟩
    simp [Diagnostic.isError, DeclarationProblem.diagnostic, error]

/-- Every cycle is an error. -/
theorem cycles_eq_nil {d : Draft} {m : Model} (harmless : ∀ problem ∈ d.edgeProblems m, problem.severity ≠ .error) :
    m.cycles = [] := by
  cases found : m.cycles with
  | nil => rfl
  | cons cycle rest =>
    have nonempty : cycle ≠ [] := ne_nil_of_mem_cycles (found ▸ List.mem_cons_self)
    obtain ⟨first, more, rfl⟩ := List.exists_cons_of_ne_nil nonempty
    have reported : .generalizationCycle (d.declared m first) (more.map (d.declared m)) ∈ d.edgeProblems m := by
      rw [Draft.edgeProblems, found]
      exact List.mem_filterMap.mpr ⟨first :: more, List.mem_cons_self, rfl⟩
    exact absurd rfl (harmless _ reported)

theorem forest_of_ofDeclarations {declarations : List Declaration} {loaded : LoadedModel}
    (loads : ofDeclarations declarations = .ok loaded) : loaded.model.Forest := by
  have ready := Draft.ready_ofDeclarations declarations
  rw [(ofDeclarations_ok loads).1]
  exact (Draft.linking_linked ready).more.forest ready.forest

theorem wellFormed_of_ofDeclarations {declarations : List Declaration} {loaded : LoadedModel}
    (loads : ofDeclarations declarations = .ok loaded) : loaded.model.WellFormed := by
  have ready := Draft.ready_ofDeclarations declarations
  obtain ⟨same, harmless⟩ := ofDeclarations_ok loads
  have forest := forest_of_ofDeclarations loads
  have linking : (Draft.ofDeclarations declarations).Linking loaded.model := same ▸ Draft.linking_linked ready
  have acyclic := (cycles_eq_nil_iff forest).mp (cycles_eq_nil fun problem member =>
    harmless problem (List.mem_append_right _ member))
  exact ⟨linking.edges, acyclic, linking.more.distinctNames ready.distinct,
    (linking.more.nested ready.nested).traversal_eq forest⟩

theorem declarations_of_ofSource {source : String} {loaded : LoadedModel} (loads : ofSource source = .ok loaded) :
    ∃ declarations, Declaration.ofSource source = .ok declarations ∧ ofDeclarations declarations = .ok loaded := by
  rw [ofSource] at loads
  cases read : Declaration.ofSource source with
  | error diagnostics => simp [read, bind, Except.bind] at loads
  | ok declarations => exact ⟨declarations, rfl, by simpa [read, bind, Except.bind] using loads⟩

theorem valid_of_ofSource {source : String} {loaded : LoadedModel} (loads : ofSource source = .ok loaded) :
    loaded.model.WellFormed ∧ loaded.model.Forest := by
  obtain ⟨declarations, _, declared⟩ := declarations_of_ofSource loads
  exact ⟨wellFormed_of_ofDeclarations declared, forest_of_ofDeclarations declared⟩

/-- Every model that loads is well-formed. -/
theorem wellFormed_of_ofSource {source : String} {loaded : LoadedModel} (loads : ofSource source = .ok loaded) :
    loaded.model.WellFormed := by
  obtain ⟨declarations, _, loads⟩ := declarations_of_ofSource loads
  exact wellFormed_of_ofDeclarations loads

theorem exists_of_map_ofSource {α : Type} {source : String} {read : LoadedModel → α} {facts : α}
    (same : (ofSource source).map read = .ok facts) :
    ∃ loaded, ofSource source = .ok loaded ∧ read loaded = facts := by
  cases loads : ofSource source with
  | error diagnostics => simp [loads, Except.map] at same
  | ok loaded =>
    rw [loads] at same
    exact ⟨loaded, rfl, Except.ok.inj same⟩

/-- `B` specializes `A` and redefines its feature `w` by a value. -/
def overriding : String :=
  "part def A \x7b attribute w; \x7d part def B :> A \x7b :>> w = true; \x7d"

theorem overriding_loads : ∃ loaded, ofSource overriding = .ok loaded ∧ loaded.model.isFeature 1 = true ∧
    loaded.model.ownedFeatures 2 = [3] ∧ loaded.model.RedefinesEdge 3 1 ∧ (loaded.model.value? 3).isSome = true := by
  have facts : ((ofSource overriding).map fun loaded => (loaded.model.isFeature 1, loaded.model.ownedFeatures 2,
      loaded.model.redefines? 3, (loaded.model.value? 3).isSome)) = .ok (true, [3], some 1, true) := by cbv
  obtain ⟨loaded, loads, same⟩ := exists_of_map_ofSource facts
  simp only [Prod.mk.injEq] at same
  exact ⟨loaded, loads, same⟩

theorem wellFormed_overriding : ∃ loaded, ofSource overriding = .ok loaded ∧ loaded.model.WellFormed := by
  obtain ⟨loaded, loads, _⟩ := overriding_loads
  exact ⟨loaded, loads, wellFormed_of_ofSource loads⟩

end LoadedModel
end StructuralModel
