import StructuralModel.Settings.Basic

/-! Settings taken from a document of nested tables. A section or setting that the document does
not have keeps its default; one that is not known is refused. -/

namespace StructuralModel

inductive Document
  | null
  | boolean (value : Bool)
  | integer (value : Int)
  | decimal (value : Float)
  | text (value : String)
  /-- A date, a time of day or both, as it is written. -/
  | date (written : String)
  | list (items : List Document)
  | table (entries : List (String × Document))

namespace Document

instance : Inhabited Document := ⟨.null⟩

def boolean? : Document → Option Bool
  | .boolean value => some value
  | _ => none

def text? : Document → Option String
  | .text value => some value
  | _ => none

def natural? : Document → Option Nat
  | .integer value => if 0 ≤ value ∧ value < 18446744073709551616 then some value.toNat else none
  | _ => none

def number? : Document → Option Float
  | .integer value => some (Float.ofInt value)
  | .decimal value => some value
  | _ => none

def texts? : Document → Option (List String)
  | .list items => items.mapM text?
  | _ => none

def policy? : Document → Option EmptyPolicy
  | .text name => EmptyPolicy.ofName? name
  | _ => none

/-- The values of named fields. A list gives the values of the first fields in their order. -/
def fields? (names : List String) : Document → Option (List (String × Document))
  | .table entries => some entries
  | .list items => if items.length ≤ names.length then some (names.zip items) else none
  | _ => none

/-- The fields of a section, all of which must be known. -/
def section? (names : List String) (document : Document) : Option (List (String × Document)) :=
  (document.fields? names).filter fun entries => entries.all fun entry => names.contains entry.1

/-- Reads a field, or takes the default if it is not there. -/
def fieldOr {α : Type} (entries : List (String × Document)) (name : String) (read : Document → Option α)
    (default : α) : Option α :=
  match entries.lookup name with
  | some value => read value
  | none => some default

/-- A factor and a base; other fields are not looked at. -/
def conversion? (document : Document) : Option Conversion := do
  let entries ← document.fields? ["factor", "base"]
  return ⟨← (← entries.lookup "factor").number?, ← (← entries.lookup "base").text?⟩

def units? : Document → Option (List (String × Conversion))
  | .table entries => entries.mapM fun (symbol, value) => do return (symbol, ← value.conversion?)
  | _ => none

def loadSettings? (document : Document) : Option LoadSettings := do
  let entries ← document.section? ["warnings_as_errors"]
  return { warningsAsErrors := ← fieldOr entries "warnings_as_errors" boolean? true }

def evaluationSettings? (document : Document) : Option EvaluationSettings := do
  let entries ← document.section? ["quantities", "max_depth", "units"]
  let defaults : EvaluationSettings := {}
  return {
    quantities := ← fieldOr entries "quantities" boolean? defaults.quantities
    maxDepth := ← fieldOr entries "max_depth" natural? defaults.maxDepth
    units := ← fieldOr entries "units" units? defaults.units }

def reportSettings? (document : Document) : Option ReportSettings := do
  let entries ← document.section?
    ["locales", "comments_without_entries", "documentation_without_entries"]
  let defaults : ReportSettings := {}
  return {
    locales := ← fieldOr entries "locales" texts? defaults.locales
    commentsWithoutEntries :=
      ← fieldOr entries "comments_without_entries" policy? defaults.commentsWithoutEntries
    documentationWithoutEntries :=
      ← fieldOr entries "documentation_without_entries" policy? defaults.documentationWithoutEntries }

end Document

def Settings.ofDocument? : Document → Option Settings
  | .table entries => do
    let sections ← (Document.table entries).section? ["load", "evaluation", "report"]
    return {
      load := ← Document.fieldOr sections "load" Document.loadSettings? {}
      evaluation := ← Document.fieldOr sections "evaluation" Document.evaluationSettings? {}
      report := ← Document.fieldOr sections "report" Document.reportSettings? {} }
  | _ => none

end StructuralModel
