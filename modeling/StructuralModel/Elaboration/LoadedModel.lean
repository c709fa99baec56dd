import StructuralModel.Elaboration.Cycles
import StructuralModel.Elaboration.Links
import StructuralModel.Source.DeclarationGrammar

/-! Models read from source texts. -/

namespace StructuralModel

/-- A model without errors, and the warnings about its declarations. -/
structure LoadedModel where
  model : Model
  warnings : List Diagnostic

namespace Draft

def declared (d : Draft) (m : Model) (id : ElementId) : DeclaredElement :=
  ⟨m.path id, d.spanOf id⟩

def cycleProblem? (d : Draft) (m : Model) : List ElementId → Option DeclarationProblem
  | [] => none
  | first :: more => some (.generalizationCycle (d.declared m first) (more.map (d.declared m)))

/-- A feature that has the name of an inherited one and redefines nothing. It does not override the
inherited feature, which expressions of the general types go on to use. -/
def shadowing? (d : Draft) (m : Model) (id : ElementId) : Option DeclarationProblem :=
  if m.isFeature id && (m.redefines? id).isNone then do
    let name ← m.name? id
    let hidden ← m.inheritedFeature? (← m.owner? id) name
    return .shadowedFeature name (d.declared m id) (d.declared m hidden)
  else none

/-- What is wrong with the edges of a model. Shadowing is looked for where nothing is cyclic. -/
def edgeProblems (d : Draft) (m : Model) : List DeclarationProblem :=
  match m.cycles with
  | [] => m.traversal.filterMap (d.shadowing? m)
  | cycles => cycles.filterMap (d.cycleProblem? m)

end Draft

namespace LoadedModel

/-- The model that declarations declare. Where something is wrong with it, the warnings are told
together with the errors. -/
def ofDeclarations (declarations : List Declaration) : Except (List Diagnostic) LoadedModel :=
  let draft := Draft.ofDeclarations declarations
  let (model, unlinked) := draft.linked
  let problems := draft.problems ++ unlinked ++ draft.edgeProblems model
  let diagnostics := problems.map (·.diagnostic)
  if diagnostics.any (·.isError) then .error diagnostics else .ok ⟨model, diagnostics⟩

/-- The model that a source text declares. Errors in its tokens hide those in its grammar, and
these hide those in its declarations. -/
def ofSource (source : String) : Except (List Diagnostic) LoadedModel := do
  ofDeclarations (← Declaration.ofSource source)

end LoadedModel
end StructuralModel
