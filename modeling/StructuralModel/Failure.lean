import StructuralModel.Evaluation.Error
import StructuralModel.Settings.Basic
import StructuralModel.Source.Diagnostic

/-! Why a request for a model was not answered, and how this is told to the user. -/

namespace StructuralModel

inductive Failure
  /-- The model or a report cannot be opened. -/
  | missingFile
  | settings (error : SettingsError)
  /-- The source text and what is wrong with it. -/
  | invalidSource (source : String) (diagnostics : List Diagnostic)
  | elementNotFound (name : String)
  | featureNotFound (scope feature : String)
  | evaluation (error : EvaluationError)

/-- What is shown for one problem. -/
structure Notice where
  message : String
  code? : Option String
  severity? : Option Severity
  help? : Option String
  /-- Places in the source; none for problems that are not about a place. -/
  labels : List Label
  source? : Option String
  cause? : Option String

namespace Notice

/-- A problem that is not about the source text. -/
def plain (message code : String) (help? cause? : Option String) : Notice :=
  ⟨message, some code, none, help?, [], none, cause?⟩

def ofDiagnostic (source : String) (d : Diagnostic) : Notice where
  message := d.message
  code? := d.code?.map (·.number)
  severity? := some d.severity
  help? := d.help?
  labels := d.labels
  source? := some source
  cause? := none

end Notice

namespace Failure

def missingFileCause : String := "No such file or directory (os error 2)"

def message : Failure → String
  | missingFile => "I/O error: " ++ missingFileCause
  | settings error => "Configuration error: " ++ error.message
  | invalidSource _ diagnostics => Diagnostic.summary diagnostics
  | elementNotFound name => "no element named `" ++ name ++ "`"
  | featureNotFound scope feature => "`" ++ scope ++ "` has no feature `" ++ feature ++ "`"
  | evaluation error => error.message

def notices (failure : Failure) : List Notice :=
  let message := failure.message
  match failure with
  | missingFile => [.plain message "partscope::io" none missingFileCause]
  | settings error => [.plain message "partscope::config" none error.message]
  | invalidSource source diagnostics => diagnostics.map (.ofDiagnostic source)
  | elementNotFound _ =>
    [.plain message "partscope::lookup"
      (some ("simple names match the first element in the model; use a qualified name such as " ++
        "`Package::Element` to pick another")) none]
  | featureNotFound _ _ =>
    [.plain message "partscope::lookup"
      (some ("features are looked up in the element and its general types; " ++
        "run `eval --all` to list them")) none]
  | evaluation _ => [.plain message "partscope::evaluation" none none]

end Failure
end StructuralModel
