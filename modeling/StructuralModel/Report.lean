import StructuralModel.Metadata

/-! Tables of comments and of documentation, one row for each entry of each element, and their
text with comma-separated fields. -/

namespace StructuralModel

/-- What a report has for an element without entries. -/
inductive EmptyPolicy
  | skip
  /-- The element has one row with empty entry columns. -/
  | placeholder
deriving Repr, DecidableEq

namespace EmptyPolicy

def ofName? : String → Option EmptyPolicy
  | "skip" => some .skip
  | "placeholder" => some .placeholder
  | _ => none

end EmptyPolicy

abbrev Row := List String

structure Report where
  header : Row
  rows : List Row
  /-- The number of rows that stand for an entry. -/
  entries : Nat
deriving Repr, DecidableEq

namespace Report

/-- The columns that tell which element a row belongs to. -/
def identity (element : ElementMetadata) : Row :=
  [element.name?.getD "", element.path, element.kind.name]

/-- What a report has written: records, and how many of them stand for an entry. -/
structure Written where
  rows : Array Row := #[]
  entries : Nat := 0

namespace Written

def placeholder (written : Written) (row : Row) : Written :=
  { written with rows := written.rows.push row }

def entry (written : Written) (row : Row) : Written where
  rows := written.rows.push row
  entries := written.entries + 1

/-- One round of the loop over the elements. It ends early for an element without entries. -/
def element (policy : EmptyPolicy) (placeholder : Row) (entriesOf : ElementMetadata → List Row)
    (written : Written) (element : ElementMetadata) : Written := Id.run do
  if (entriesOf element).isEmpty then
    if policy = .placeholder then
      return written.placeholder (identity element ++ placeholder)
    return written
  let mut written := written
  for entry in entriesOf element do
    written := written.entry (identity element ++ entry)
  return written

end Written

def ofEntries (header : Row) (placeholder : Row) (entriesOf : ElementMetadata → List Row)
    (policy : EmptyPolicy) (metadata : List ElementMetadata) : Report :=
  let written := metadata.foldl (Written.element policy placeholder entriesOf) {}
  { header, rows := written.rows.toList, entries := written.entries }

def commentRows (element : ElementMetadata) : List Row :=
  element.comments.map fun comment => [comment.name?.getD "", comment.text]

/-- Documentation that declares no locale has `None` in its column. -/
def documentationRows (element : ElementMetadata) : List Row :=
  element.documentation.map fun entry => [entry.locale?.getD "None", entry.text]

def comments : EmptyPolicy → List ElementMetadata → Report :=
  ofEntries ["Name", "Qualified Name", "Type", "Comment Name", "Comment Text"] ["", ""] commentRows

def documentation : EmptyPolicy → List ElementMetadata → Report :=
  ofEntries ["Name", "Qualified Name", "Type", "Locale", "Documentation"] ["None", ""]
    documentationRows

/-- A field is quoted when it would otherwise be cut apart; a quote inside is doubled. -/
def field (text : String) : String :=
  if text.toList.any fun c => c == ',' || c == '"' || c == '\r' || c == '\n' then
    String.ofList ('"' :: text.toList.flatMap (fun c => if c = '"' then ['"', '"'] else [c]) ++ ['"'])
  else text

def line (row : Row) : String :=
  ",".intercalate (row.map field) ++ "\n"

def text (report : Report) : String :=
  String.join ((report.header :: report.rows).map line)

end Report
end StructuralModel
