import StructuralModel.Decimal.Shortest
import StructuralModel.Evaluation.Environment
import StructuralModel.Report
import StructuralModel.Text.Blank

/-! The settings for loading, evaluation and reports. Every setting has a default. -/

namespace StructuralModel

structure LoadSettings where
  /-- Refuse models that load with warnings. -/
  warningsAsErrors : Bool := true

structure EvaluationSettings where
  quantities : Bool := true
  maxDepth : Nat := 256
  /-- Conversions added to the standard ones. -/
  units : List (String × Conversion) := []

structure ReportSettings where
  /-- The locales that every documented element is expected to cover. -/
  locales : List String := ["en_US", "hu_HU", "lt_LT"]
  commentsWithoutEntries : EmptyPolicy := .skip
  documentationWithoutEntries : EmptyPolicy := .placeholder

structure Settings where
  load : LoadSettings := {}
  evaluation : EvaluationSettings := {}
  report : ReportSettings := {}

instance : Inhabited Settings := ⟨{}⟩

inductive SettingsError
  | zeroMaxDepth
  | invalidConversion (symbol : String) (factor : Float)
  | selfConversion (symbol : String)
  | emptyLocale
  | unreadable
  | missingFile (path : String)

def SettingsError.message : SettingsError → String
  | .zeroMaxDepth => "evaluation.max_depth must be at least 1"
  | .invalidConversion symbol factor =>
    "unit `" ++ symbol ++ "` has invalid conversion factor " ++ Decimal.text factor
  | .selfConversion symbol => "unit `" ++ symbol ++ "` cannot be defined in terms of itself"
  | .emptyLocale => "report locale must not be empty"
  | .unreadable => "Failed to parse TOML configuration"
  | .missingFile path => "Missing configuration file: " ++ path

namespace Settings

/-- A conversion has a positive finite factor and another symbol as its base. -/
def checkConversion (symbol : String) (conversion : Conversion) : Except SettingsError Unit :=
  if !conversion.factor.isFinite || conversion.factor <= 0 then
    .error (.invalidConversion symbol conversion.factor)
  else if symbol = conversion.base then .error (.selfConversion symbol)
  else .ok ()

def checkEvaluation (settings : EvaluationSettings) : Except SettingsError Unit := do
  if settings.maxDepth = 0 then throw .zeroMaxDepth
  settings.units.forM fun (symbol, conversion) => checkConversion symbol conversion

/-- A locale holds more than white space. -/
def checkReport (settings : ReportSettings) : Except SettingsError Unit :=
  if settings.locales.any fun locale => (Text.trim locale.toList).isEmpty then .error .emptyLocale
  else .ok ()

/-- Refuses settings that can be read but not used, with the first problem found. -/
def check (settings : Settings) : Except SettingsError Unit := do
  checkEvaluation settings.evaluation
  checkReport settings.report

/-- The environment in which expressions are evaluated under the settings. -/
def environment (settings : Settings) : Environment where
  quantities := settings.evaluation.quantities
  maxDepth := settings.evaluation.maxDepth
  conversions := ConversionTable.standard.insertAll settings.evaluation.units

end Settings
end StructuralModel
