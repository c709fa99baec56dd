import StructuralModel.Composite
import StructuralModel.Elaboration.LoadedModel
import StructuralModel.Failure
import StructuralModel.Report

/-! A loaded model under settings, queried by the names of its elements. -/

namespace StructuralModel

structure Session where
  settings : Settings
  model : Model
  warnings : List Diagnostic := []

namespace Session

def checkSettings (settings : Settings) : Except Failure Unit :=
  settings.check.mapError .settings

/-- Reads a model. The settings are looked at before the source, and they decide whether warnings
refuse the model. -/
def ofSource (settings : Settings) (source : String) : Except Failure Session := do
  checkSettings settings
  let loaded ← (LoadedModel.ofSource source).mapError (.invalidSource source)
  if settings.load.warningsAsErrors && !loaded.warnings.isEmpty then
    throw (.invalidSource source loaded.warnings)
  return ⟨settings, loaded.model, loaded.warnings⟩

def environment (s : Session) : Environment :=
  s.settings.environment

/-- The element with a qualified name, or the first one with a simple name in traversal order. -/
def element (s : Session) (name : String) : Except Failure ElementId :=
  let found? := if QualifiedName.isQualified name then s.model.findPath? name else s.model.findNamed? name
  match found? with
  | some id => .ok id
  | none => .error (.elementNotFound name)

/-- The value of an element's feature in a scope, which is the element itself if none is given. -/
def evaluate (s : Session) (element feature : String) (scope? : Option String) :
    Except Failure Value := do
  let owner ← s.element element
  let scope ← match scope? with
    | some scope => s.element scope
    | none => pure owner
  match s.model.feature? owner feature with
  | none => .error (.featureNotFound (s.model.path owner) feature)
  | some id => (s.model.evaluateFeature s.environment id scope).mapError .evaluation

def evaluateAll (s : Session) (element : String) : Except Failure (List (String × Value)) := do
  let id ← s.element element
  ((Composite.ofElement id).evaluateAll s.model s.environment).mapError .evaluation

def metadata (s : Session) : List ElementMetadata :=
  s.model.metadata Model.partKinds

def commentsReport (s : Session) : Report :=
  Report.comments s.settings.report.commentsWithoutEntries s.metadata

def documentationReport (s : Session) : Report :=
  Report.documentation s.settings.report.documentationWithoutEntries s.metadata

/-- The parts that lack documentation in one of the settings' locales. -/
def missingLocales (s : Session) : List MissingLocales :=
  ElementMetadata.missingLocales s.metadata s.settings.report.locales

end Session
end StructuralModel
