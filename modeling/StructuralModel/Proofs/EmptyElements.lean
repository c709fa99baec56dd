import Mathlib
import StructuralModel.Proofs.WrittenRows

/-! Elements without entries in the reports. The policy decides about placeholders for them and about nothing else: the
rows of all other elements, their order and the number of entries are the same. -/

namespace StructuralModel.Report

variable {α : Type} {entriesOf : ElementMetadata → List α} {columns : α → Row} {header placeholder : Row}
  {policy : EmptyPolicy} {element : ElementMetadata} {metadata : List ElementMetadata} {skipped filled : List Row}

/-- A row that starts with the name, the path and the kind of an element. -/
def rowFor (element : ElementMetadata) (cells : Row) : Row :=
  element.name?.getD "" :: element.path :: element.kind.name :: cells

/-- The rows of an element that has entries, one for each. -/
def entryRows (entriesOf : ElementMetadata → List α) (columns : α → Row) (element : ElementMetadata) : List Row :=
  (entriesOf element).map fun entry => rowFor element (columns entry)

/-- Rows of some elements, and the same rows with one more for each element without entries, at its place. -/
inductive Filled (entriesOf : ElementMetadata → List α) (columns : α → Row) (placeholder : Row) :
    List ElementMetadata → List Row → List Row → Prop
  | done : Filled entriesOf columns placeholder [] [] []
  | entries {element rest skipped filled} (some : entriesOf element ≠ [])
      (later : Filled entriesOf columns placeholder rest skipped filled) :
      Filled entriesOf columns placeholder (element :: rest) (entryRows entriesOf columns element ++ skipped)
        (entryRows entriesOf columns element ++ filled)
  | empty {element rest skipped filled} (none : entriesOf element = [])
      (later : Filled entriesOf columns placeholder rest skipped filled) :
      Filled entriesOf columns placeholder (element :: rest) skipped (rowFor element placeholder :: filled)

theorem Filled.length_skipped (fills : Filled entriesOf columns placeholder metadata skipped filled) :
    skipped.length = (metadata.map fun element => (entriesOf element).length).sum := by
  induction fills with
  | done => rfl
  | entries _ _ ih => rw [List.length_append, ih, List.map_cons, List.sum_cons, entryRows, List.length_map]
  | empty none _ ih => rw [ih, List.map_cons, List.sum_cons, none, List.length_nil, Nat.zero_add]

theorem Filled.length_filled (fills : Filled entriesOf columns placeholder metadata skipped filled) :
    filled.length = skipped.length + metadata.countP fun element => (entriesOf element).isEmpty := by
  induction fills with
  | done => rfl
  | entries some _ ih => simp [ih, some, Nat.add_assoc]
  | empty none _ ih => simp [ih, none, Nat.add_assoc]

/-- What the two policies have in common in a report, and what makes the difference. -/
structure DiffersInPlaceholders (entriesOf : ElementMetadata → List α) (columns : α → Row) (placeholder : Row)
    (report : EmptyPolicy → List ElementMetadata → Report) (metadata : List ElementMetadata) : Prop where
  header : (report .placeholder metadata).header = (report .skip metadata).header
  entries : ∀ policy, (report policy metadata).entries = (metadata.map fun element => (entriesOf element).length).sum
  consecutive : ∀ policy before element after, metadata = before ++ element :: after → entriesOf element ≠ [] →
    (report policy metadata).rows =
      (report policy before).rows ++ entryRows entriesOf columns element ++ (report policy after).rows
  filled : Filled entriesOf columns placeholder metadata (report .skip metadata).rows (report .placeholder metadata).rows
  skipping : (report .skip metadata).rows.length = (report .skip metadata).entries
  filling : (report .placeholder metadata).rows.length =
    (report .placeholder metadata).entries + metadata.countP fun element => (entriesOf element).isEmpty

theorem rowsOf_entries (some : entriesOf element ≠ []) :
    rowsOf policy placeholder element ((entriesOf element).map columns) = entryRows entriesOf columns element := by
  rw [entryRows]
  cases entries : entriesOf element with
  | nil => exact absurd entries some
  | cons entry rest => simp [rowsOf, rowFor, identity]

theorem rowsOf_placeholder (none : entriesOf element = []) :
    rowsOf .placeholder placeholder element ((entriesOf element).map columns) = [rowFor element placeholder] := by
  rw [none]
  rfl

theorem rowsOf_skip (none : entriesOf element = []) :
    rowsOf .skip placeholder element ((entriesOf element).map columns) = [] := by
  rw [none]
  rfl

section table

/-- A report whose rows are made of entries and their columns. -/
abbrev table (header placeholder : Row) (entriesOf : ElementMetadata → List α) (columns : α → Row) :
    EmptyPolicy → List ElementMetadata → Report :=
  ofEntries header placeholder fun element => (entriesOf element).map columns

theorem rows_table_cons (element : ElementMetadata) (rest : List ElementMetadata) :
    (table header placeholder entriesOf columns policy (element :: rest)).rows =
      rowsOf policy placeholder element ((entriesOf element).map columns) ++
        (table header placeholder entriesOf columns policy rest).rows := by
  rw [rows_ofEntries, rows_ofEntries, List.flatMap_cons]

theorem rows_table_append (before after : List ElementMetadata) :
    (table header placeholder entriesOf columns policy (before ++ after)).rows =
      (table header placeholder entriesOf columns policy before).rows ++
        (table header placeholder entriesOf columns policy after).rows := by
  rw [rows_ofEntries, rows_ofEntries, rows_ofEntries, List.flatMap_append]

theorem entries_table : (table header placeholder entriesOf columns policy metadata).entries =
    (metadata.map fun element => (entriesOf element).length).sum := by
  simp only [entries_ofEntries, List.length_map]

theorem filled_table (header placeholder : Row) (entriesOf : ElementMetadata → List α) (columns : α → Row)
    (metadata : List ElementMetadata) :
    Filled entriesOf columns placeholder metadata (table header placeholder entriesOf columns .skip metadata).rows
      (table header placeholder entriesOf columns .placeholder metadata).rows := by
  induction metadata with
  | nil => exact .done
  | cons element rest ih =>
    rw [rows_table_cons, rows_table_cons]
    by_cases none : entriesOf element = []
    · rw [rowsOf_skip none, rowsOf_placeholder none]
      exact .empty none ih
    · rw [rowsOf_entries none, rowsOf_entries none]
      exact .entries none ih

theorem differsInPlaceholders_table (header placeholder : Row) (entriesOf : ElementMetadata → List α)
    (columns : α → Row) (metadata : List ElementMetadata) :
    DiffersInPlaceholders entriesOf columns placeholder (table header placeholder entriesOf columns) metadata := by
  have fills := filled_table header placeholder entriesOf columns metadata
  refine ⟨rfl, fun policy => entries_table, ?_, fills, ?_, ?_⟩
  · intro policy before element after split some
    rw [split, rows_table_append, rows_table_cons, rowsOf_entries some, List.append_assoc]
  · rw [fills.length_skipped, entries_table]
  · rw [fills.length_filled, fills.length_skipped, entries_table]

end table

/-- In both reports every entry has one row, under either policy, and an element without entries has one row under one
of them and none under the other. Only entries are counted. -/
theorem placeholders_only (metadata : List ElementMetadata) :
    DiffersInPlaceholders (·.comments) (fun comment => [comment.name?.getD "", comment.text]) ["", ""] comments metadata ∧
      DiffersInPlaceholders (·.documentation) (fun entry => [entry.locale?.getD "None", entry.text]) ["None", ""]
        documentation metadata :=
  ⟨differsInPlaceholders_table _ _ _ _ metadata, differsInPlaceholders_table _ _ _ _ metadata⟩

end StructuralModel.Report
