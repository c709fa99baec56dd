import StructuralModel.Proofs.ContinuedLinking
import StructuralModel.Proofs.ContinuedReading
import StructuralModel.Proofs.DeclarationOrder
import StructuralModel.Proofs.DeclaredNames

/-! One more declaration at the end of a document. What it declares stands behind all other elements, and of the top
level it takes one name at most; so a document that does not use this name means what it meant before. -/

namespace StructuralModel
open Model

/-- What stands further on declares the same name. -/
theorem Declaration.name_moved (distance : Nat) (declaration : Declaration) :
    (declaration.moved distance).name? = declaration.name? := by
  cases declaration with
  | package | definition | enumerationLiteral | documentation | importing =>
    rw [moved]
    rfl
  | usage kind header members =>
    rw [moved, name?, name?, UsageHeader.declaredName?, UsageHeader.declaredName?, UsageHeader.moved]
    cases header.name? with
    | some => rfl
    | none => cases header.redefines? <;> rfl
  | comment own? about body =>
    rw [moved]
    cases own? <;> rfl

namespace Draft

variable {d : Draft}

theorem declareAll_append (owner? : Option ElementId) (first second : List Declaration) (d : Draft) :
    d.declareAll owner? (first ++ second) = (d.declareAll owner? first).declareAll owner? second := by
  induction first generalizing d with
  | nil =>
    rw [declareAll]
    rfl
  | cons declaration rest ih =>
    rw [List.cons_append, declareAll, declareAll]
    exact ih _

theorem ofDeclarations_append (declarations : List Declaration) (declaration : Declaration) :
    ofDeclarations (declarations ++ [declaration]) = (ofDeclarations declarations).declare none declaration := by
  rw [ofDeclarations, declareAll_append, declareAll, declareAll]
  rfl

/-- The top level gets the element that is declared, if it gets one. -/
theorem roots_declare (ready : Ready d) (declaration : Declaration) :
    ∃ added, (d.declare none declaration).model.roots = d.model.roots ++ added ∧
      ∀ root ∈ added, (d.declare none declaration).model.name? root = declaration.name? := by
  by_cases free : ∀ name, declaration.name? = some name → d.model.child? none name = none
  · rcases root_declare ready declaration free with ⟨same, _⟩ | ⟨roots, named, _⟩
    · exact ⟨[], by simp [same], by simp⟩
    · exact ⟨[d.model.size], roots, List.forall_mem_singleton.mpr named⟩
  · push Not at free
    obtain ⟨name, named, taken⟩ := free
    obtain ⟨first, found⟩ := Option.ne_none_iff_exists'.mp taken
    obtain ⟨problem, _, reported⟩ := declare_taken declaration named found
    exact ⟨[], by simp [reported, report], by simp⟩

theorem prolongs_declare (ready : Ready d) (declaration : Declaration) :
    Prolongs declaration.name?.toList d (d.declare none declaration) := by
  have writes : Writes d.model.size declaration.paths d (d.declare none declaration) :=
    writes_declare none nofun declaration d (Nat.le_refl _) fun _ listed => listed
  obtain ⟨generals, sameGenerals, newGenerals⟩ := writes.generals
  obtain ⟨abouts, sameAbouts, newAbouts⟩ := writes.abouts
  obtain ⟨added, roots, named⟩ := roots_declare ready declaration
  constructor
  · refine ⟨writes.larger, fun id known => congrArg _ (writes.kept id known), ?_, added, roots, ?_⟩
    · exact fun root member => ((ready.forest.root_iff root).mp member).1
    · intro root member name new
      rw [Option.mem_toList]
      exact (named root member).symm.trans new
  · exact ⟨generals, sameGenerals, fun general member => (newGenerals general member).1⟩
  · exact writes.redefinitions
  · exact ⟨abouts, sameAbouts, fun target member => (newAbouts target member).1⟩

theorem writes_ofDeclarations (declarations : List Declaration) :
    Writes 0 (Declaration.listPaths declarations) empty (ofDeclarations declarations) :=
  writes_declareAll none nofun declarations empty (Nat.zero_le _) fun _ listed => listed

/-- The names that wait in the draft of a document stand in the document. -/
theorem awaits_ofDeclarations {names : List String} {declarations : List Declaration}
    (apart : ∀ path ∈ Declaration.listPaths declarations, path.first ∉ names) :
    Awaits names (ofDeclarations declarations) := by
  have bounded := (laysOut_ofDeclarations declarations).bounded
  have ready := ready_ofDeclarations declarations
  obtain ⟨generals, sameGenerals, fromGenerals⟩ := (writes_ofDeclarations declarations).generals
  obtain ⟨abouts, sameAbouts, fromAbouts⟩ := (writes_ofDeclarations declarations).abouts
  constructor
  · intro general member
    have written : general ∈ generals := by simpa [sameGenerals, empty] using member
    exact ⟨known_of_bounded bounded general member, apart _ (fromGenerals general written).2⟩
  · exact fun pending member => lt_of_isFeature (ready.features pending member)
  · intro target member
    have written : target ∈ abouts := by simpa [sameAbouts, empty] using member
    exact ⟨known_abouts bounded target member, apart _ (fromAbouts target written).2⟩

theorem paths_of_value {declarations : List Declaration} {id : ElementId} {expr : Expr}
    (written : (ofDeclarations declarations).model.value? id = some expr) :
    expr.paths ⊆ Declaration.listPaths declarations := by
  rcases (writes_ofDeclarations declarations).values id expr written with before | inside
  · cases before
  · exact inside

end Draft

namespace LoadedModel

variable {declarations : List Declaration} {declaration : Declaration} {loaded extended : LoadedModel}

section append

variable (loads : ofDeclarations declarations = .ok loaded)
  (apart : ∀ path ∈ Declaration.listPaths declarations, declaration.name? ≠ some path.first)

include loads apart

theorem avoids_append (id : ElementId) (expr : Expr) (valued : loaded.model.value? id = some expr) :
    expr.Avoids declaration.name?.toList := by
  intro path member own
  rw [(ofDeclarations_ok loads).1, Draft.value_linked] at valued
  exact apart path (Draft.paths_of_value valued member) (Option.mem_toList.mp own)

theorem continues_append (reloads : ofDeclarations (declarations ++ [declaration]) = .ok extended) :
    Continues declaration.name?.toList loaded.model extended.model := by
  have clean := ((loads_iff declarations).mp ⟨loaded, loads⟩).2.1
  have clean' := ((loads_iff (declarations ++ [declaration])).mp ⟨extended, reloads⟩).2.1
  rw [(ofDeclarations_ok loads).1, (ofDeclarations_ok reloads).1]
  rw [Draft.ofDeclarations_append] at clean' ⊢
  have awaits : Draft.Awaits declaration.name?.toList (Draft.ofDeclarations declarations) :=
    Draft.awaits_ofDeclarations fun path listed own => apart path listed (Option.mem_toList.mp own)
  exact (Draft.prolongs_declare (Draft.ready_ofDeclarations declarations) declaration).linked awaits clean clean'

end append

/-- What a document means is not disturbed by one more declaration on the next line, if no name in the document starts
with what is declared: the elements stay where they are and say what they said, and what they are resolved to and worth
in one another stays the same, errors included. -/
theorem undisturbed_append {source text : String} (read : Declaration.ofSource source = .ok declarations)
    (appended : Declaration.ofSource text = .ok [declaration]) (loads : ofSource source = .ok loaded)
    (reloads : ofSource (source ++ "\n" ++ text) = .ok extended)
    (apart : ∀ path ∈ Declaration.listPaths declarations, declaration.name? ≠ some path.first) :
    loaded.model.size ≤ extended.model.size ∧
      (∀ id : Nat, id < loaded.model.size →
        (extended.model.element id).unannotated = (loaded.model.element id).unannotated) ∧
      ∀ feature scope : Nat, feature < loaded.model.size → scope < loaded.model.size →
        extended.model.resolve feature scope = loaded.model.resolve feature scope ∧
          ∀ env, extended.model.evaluateFeature env feature scope = loaded.model.evaluateFeature env feature scope := by
  rw [ofSource, read] at loads
  rw [ofSource, Declaration.ofSource_line read appended] at reloads
  have apart' : ∀ path ∈ Declaration.listPaths declarations,
      (declaration.moved (source.utf8ByteSize + 1)).name? ≠ some path.first := by
    intro path listed
    rw [Declaration.name_moved]
    exact apart path listed
  have continues := continues_append loads apart' reloads
  refine ⟨continues.size, continues.element, fun feature scope known inside => ⟨continues.resolve inside known, fun env => ?_⟩⟩
  exact continues.evaluateFeature (avoids_append loads apart') env known inside

def engine : String :=
  "part def Engine \x7b attribute power; attribute peak = power; \x7d"

def motorbike : String :=
  "part motorbike : Engine \x7b attribute :>> power; \x7d"

/-- The engine and its features are the same with the motorbike behind them. -/
theorem undisturbed_append_motorbike : ∃ declarations declaration loaded extended,
    Declaration.ofSource engine = .ok declarations ∧ Declaration.ofSource motorbike = .ok [declaration] ∧
      ofSource engine = .ok loaded ∧ ofSource (engine ++ "\n" ++ motorbike) = .ok extended ∧
      (∀ path ∈ Declaration.listPaths declarations, declaration.name? ≠ some path.first) ∧
      loaded.model.size = 3 ∧ extended.model.size = 5 ∧
      (∀ id : Nat, id < 3 → (extended.model.element id).unannotated = (loaded.model.element id).unannotated) ∧
      ∀ feature scope : Nat, feature < 3 → scope < 3 →
        extended.model.resolve feature scope = loaded.model.resolve feature scope ∧
          ∀ env, extended.model.evaluateFeature env feature scope = loaded.model.evaluateFeature env feature scope := by
  have firsts : ((Declaration.ofSource engine).map fun declarations =>
      (Declaration.listPaths declarations).map (·.first)) = .ok ["power"] := by cbv
  have names : ((Declaration.ofSource motorbike).map fun declarations => declarations.map (·.name?)) =
      .ok [some "motorbike"] := by cbv
  have alone : ((ofSource engine).map fun loaded => decide (loaded.model.size = 3)) = .ok true := by cbv
  have both : ((ofSource (engine ++ "\n" ++ motorbike)).map fun loaded => decide (loaded.model.size = 5)) =
      .ok true := by cbv
  obtain ⟨loaded, loads, size⟩ := exists_of_map_ofSource alone
  obtain ⟨extended, reloads, size'⟩ := exists_of_map_ofSource both
  obtain ⟨declarations, read, _⟩ := declarations_of_ofSource loads
  rw [read] at firsts
  cases appended : Declaration.ofSource motorbike with
  | error diagnostics =>
    rw [appended] at names
    cases names
  | ok others =>
    rw [appended] at names
    obtain ⟨declaration, rfl, name⟩ := List.map_eq_singleton_iff.mp (Except.ok.inj names)
    have apart : ∀ path ∈ Declaration.listPaths declarations, declaration.name? ≠ some path.first := by
      intro path listed same
      have first : path.first ∈ (Declaration.listPaths declarations).map (·.first) := List.mem_map_of_mem listed
      have only : (Declaration.listPaths declarations).map (·.first) = ["power"] := Except.ok.inj firsts
      rw [only, List.mem_singleton] at first
      rw [name, first] at same
      exact absurd (Option.some.inj same) (by decide)
    have undisturbed := (undisturbed_append read appended loads reloads apart).2
    rw [of_decide_eq_true size] at undisturbed
    exact ⟨declarations, declaration, loaded, extended, read, rfl, loads, reloads, apart, of_decide_eq_true size,
      of_decide_eq_true size', undisturbed⟩

end LoadedModel
end StructuralModel
