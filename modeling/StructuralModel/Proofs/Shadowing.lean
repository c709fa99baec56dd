import StructuralModel.Proofs.DeclarationOrder

/-! What the warnings of a model that loads say. They are about features that shadow an inherited feature of their name
and redefine nothing; what a feature redefines is not compared with what it shadows. -/

namespace StructuralModel

namespace Model

variable {m other : Model} {feature hidden : ElementId}

/-- The feature has the name of one that its owner inherits, the nearest of that name. -/
def Shadows (m : Model) (feature hidden : ElementId) : Prop :=
  m.isFeature feature = true ∧ (m.name? feature).bind (m.redefinedBy? feature) = some hidden

theorem SameGraph.redefinedBy (same : SameGraph m other) (id : ElementId) (name : String) :
    other.redefinedBy? id name = m.redefinedBy? id name := by
  have shape := (SameShape.refl m).between (.refl m) (.of_sameGraph same)
  have equal := redefinedBy_eq shape id name fun _ _ above _ => same.sameEdges above
  simpa using equal

theorem name_of_redefinedBy {name : String} (found : m.redefinedBy? feature name = some hidden) :
    m.name? hidden = some name := by
  obtain ⟨owner, _, inherited⟩ := Option.bind_eq_some_iff.mp found
  obtain ⟨ancestor, _, own⟩ := List.exists_of_findSome?_eq_some inherited
  exact beq_iff_eq.mp (List.find?_some (p := fun id => m.name? id == some name) own)

end Model

namespace Draft
open Model

variable {d : Draft} {m : Model}

/-- The warning that a feature shadows an inherited one without redefining it. -/
def shadowWarning (d : Draft) (m : Model) (feature hidden : ElementId) : Diagnostic :=
  (DeclarationProblem.shadowedFeature ((m.name? feature).getD "") (d.declared m feature)
    (d.declared m hidden)).diagnostic

theorem shadowing_iff {feature : ElementId} {warning : Diagnostic} :
    (d.shadowing? m feature).map (·.diagnostic) = some warning ↔
      m.redefines? feature = none ∧ ∃ hidden, m.Shadows feature hidden ∧ warning = d.shadowWarning m feature hidden := by
  constructor
  · intro warned
    obtain ⟨problem, found, rfl⟩ := Option.map_eq_some_iff.mp warned
    rw [shadowing?] at found
    split at found
    next candidate =>
      obtain ⟨kind, silent⟩ := Bool.and_eq_true_iff.mp candidate
      obtain ⟨name, named, found⟩ := Option.bind_eq_some_iff.mp found
      obtain ⟨owner, owned, found⟩ := Option.bind_eq_some_iff.mp found
      obtain ⟨hidden, inherited, found⟩ := Option.bind_eq_some_iff.mp found
      obtain rfl := Option.some.inj found
      refine ⟨Option.isNone_iff_eq_none.mp silent, hidden, ⟨kind, ?_⟩, ?_⟩
      · rw [named, Option.bind_some, redefinedBy?, owned, Option.bind_some, inherited]
      · rw [shadowWarning, named, Option.getD_some]
    next => cases found
  · rintro ⟨silent, hidden, ⟨kind, found⟩, rfl⟩
    obtain ⟨name, named, found⟩ := Option.bind_eq_some_iff.mp found
    obtain ⟨owner, owned, inherited⟩ := Option.bind_eq_some_iff.mp found
    simp [shadowing?, shadowWarning, kind, silent, named, owned, inherited]

/-- In a draft that is linked in order a feature redefines the nearest inherited feature of the redefined name. -/
theorem Linked.nearest (linked : Linked d) {feature redefined : ElementId}
    (edge : d.completed.redefines? feature = some redefined) :
    ∃ name, d.completed.name? redefined = some name ∧ d.completed.redefinedBy? feature name = some redefined := by
  cases awaited : (d.awaited feature).redefinitions with
  | nil =>
    rw [linked.redefined.others feature awaited] at edge
    cases edge
  | cons pending rest =>
    obtain ⟨target, redefines⟩ := linked.redefined.resolved feature pending.1 pending.2 (by simp [awaited])
    obtain rfl := Option.some.inj (redefines.edge.symm.trans edge)
    exact ⟨pending.1, name_of_redefinedBy redefines.denoted, redefines.denoted⟩

end Draft

namespace LoadedModel
open Model

variable {declarations : List Declaration} {loaded : LoadedModel}

theorem warnings_eq (loads : ofDeclarations declarations = .ok loaded) :
    loaded.warnings = loaded.model.traversal.filterMap fun feature =>
      ((Draft.ofDeclarations declarations).shadowing? loaded.model feature).map (·.diagnostic) := by
  obtain ⟨declared, linked, acyclic⟩ := (loads_iff declarations).mp ⟨loaded, loads⟩
  simp only [ofDeclarations, declared, linked, List.nil_append, Draft.edgeProblems, acyclic] at loads
  split at loads
  next => cases loads
  next =>
    obtain rfl := Except.ok.inj loads
    rw [List.map_filterMap]

theorem mem_warnings_iff (loads : ofDeclarations declarations = .ok loaded) {warning : Diagnostic} :
    warning ∈ loaded.warnings ↔ ∃ feature hidden, loaded.model.Shadows feature hidden ∧
      loaded.model.redefines? feature = none ∧
      warning = (Draft.ofDeclarations declarations).shadowWarning loaded.model feature hidden := by
  rw [warnings_eq loads, List.mem_filterMap, (wellFormed_of_ofDeclarations loads).ordered]
  constructor
  · rintro ⟨feature, _, warned⟩
    obtain ⟨silent, hidden, shadows, same⟩ := Draft.shadowing_iff.mp warned
    exact ⟨feature, hidden, shadows, silent, same⟩
  · rintro ⟨feature, hidden, shadows, silent, same⟩
    exact ⟨feature, List.mem_range.mpr (lt_of_isFeature shadows.1), Draft.shadowing_iff.mpr ⟨silent, hidden, shadows, same⟩⟩

/-- The warnings of a model that loads are about exactly the features that shadow an inherited one and redefine nothing.
Where there are none, what shadows an inherited feature redefines an inherited one, which is the same if it has the same
name and every name is resolved after the edges that it is looked up through. -/
theorem warns_of_shadowing {source : String} (loads : ofSource source = .ok loaded) :
    ∃ declarations, Declaration.ofSource source = .ok declarations ∧
      (∀ warning, warning ∈ loaded.warnings ↔ ∃ feature hidden, loaded.model.Shadows feature hidden ∧
        loaded.model.redefines? feature = none ∧
        warning = (Draft.ofDeclarations declarations).shadowWarning loaded.model feature hidden) ∧
      (loaded.warnings = [] → ∀ feature hidden, loaded.model.Shadows feature hidden →
        ∃ redefined, loaded.model.redefines? feature = some redefined ∧ loaded.model.Overrides feature redefined ∧
          ((Draft.ofDeclarations declarations).InOrder → loaded.model.name? redefined = loaded.model.name? feature →
            redefined = hidden)) := by
  obtain ⟨declarations, read, declared⟩ := declarations_of_ofSource loads
  refine ⟨declarations, read, fun warning => mem_warnings_iff declared, fun quiet feature hidden shadows => ?_⟩
  cases edge : loaded.model.redefines? feature with
  | none =>
    have warned := (mem_warnings_iff declared).mpr ⟨feature, hidden, shadows, edge, rfl⟩
    rw [quiet] at warned
    cases warned
  | some redefined =>
    refine ⟨redefined, rfl, (wellFormed_of_ofDeclarations declared).overrides _ _ edge, fun ordered same => ?_⟩
    have graph := (Draft.linked_spec (Draft.ofDeclarations declarations)).1
    rw [← (ofDeclarations_ok declared).1] at graph
    have linked := Draft.linked_of_clean (Draft.ready_ofDeclarations declarations)
      (Draft.laysOut_ofDeclarations declarations).bounded ordered ((loads_iff declarations).mp ⟨loaded, declared⟩).2.1
    obtain ⟨name, named, nearest⟩ := linked.nearest (graph.redefines feature ▸ edge)
    rw [← graph.name, same] at named
    have found := shadows.2
    rw [named, Option.bind_some, graph.redefinedBy, nearest] at found
    exact Option.some.inj found

/-- `B` has a feature `w` beside the one that it inherits from `A`. -/
def repeating : String :=
  "part def A \x7b attribute w; \x7d part def B :> A \x7b attribute w; \x7d"

theorem warns_of_shadowing_repeating : ∃ loaded, ofSource repeating = .ok loaded ∧ loaded.model.Shadows 3 1 ∧
    ∃ warning ∈ loaded.warnings, warning.code? = some .shadowedFeature := by
  have facts : ((Declaration.ofSource repeating).map fun declarations =>
      let model := (Draft.ofDeclarations declarations).linked.1
      (decide (Loads declarations), model.isFeature 3, (model.name? 3).bind (model.redefinedBy? 3),
        model.redefines? 3)) = .ok (true, true, some 1, none) := by cbv
  cases read : Declaration.ofSource repeating with
  | error diagnostics =>
    rw [read] at facts
    cases facts
  | ok declarations =>
    rw [read] at facts
    simp only [Except.map, Except.ok.injEq, Prod.mk.injEq, decide_eq_true_eq] at facts
    obtain ⟨⟨loaded, declared⟩, kind, found, silent⟩ := facts
    rw [← (ofDeclarations_ok declared).1] at kind found silent
    have loads : ofSource repeating = .ok loaded := by
      rw [ofSource, read]
      exact declared
    obtain ⟨_, _, warned, _⟩ := warns_of_shadowing loads
    exact ⟨loaded, loads, ⟨kind, found⟩, _, (warned _).mpr ⟨3, 1, ⟨kind, found⟩, silent, rfl⟩, rfl⟩

/-- `B` has a feature `weight` that redefines `mass` and shadows the `weight` of `A`. -/
def crossing : String :=
  "part def A \x7b attribute mass; attribute weight; \x7d part def B :> A \x7b attribute weight redefines mass; \x7d"

/-- A model without warnings can shadow an inherited feature that nothing redefines. -/
theorem shadowed_without_warning : ¬ ∀ source loaded, ofSource source = .ok loaded → loaded.warnings = [] →
    ∀ feature hidden, loaded.model.Shadows feature hidden → loaded.model.redefines feature hidden = true := by
  intro unrelated
  have facts : ((ofSource crossing).map fun loaded => (loaded.warnings.isEmpty, loaded.model.isFeature 4,
      (loaded.model.name? 4).bind (loaded.model.redefinedBy? 4), loaded.model.redefines 4 2)) =
      .ok (true, true, some 2, false) := by cbv
  obtain ⟨loaded, loads, same⟩ := exists_of_map_ofSource facts
  simp only [Prod.mk.injEq, List.isEmpty_iff] at same
  obtain ⟨quiet, kind, found, apart⟩ := same
  rw [unrelated crossing loaded loads quiet 4 2 ⟨kind, found⟩] at apart
  cases apart

end LoadedModel
end StructuralModel
