import Mathlib
import StructuralModel.Report

/-! What the loop of a report has written in the end: the rows of one element after the other, and the number of all
entries. Every round adds to what is there. -/

namespace StructuralModel.Report

variable {policy : EmptyPolicy} {placeholder : Row} {entriesOf : ElementMetadata → List Row}

/-- A row for each entry, or what the policy asks for if there are none. -/
def rowsOf (policy : EmptyPolicy) (placeholder : Row) (element : ElementMetadata)
    (entries : List Row) : List Row :=
  match entries, policy with
  | [], .skip => []
  | [], .placeholder => [identity element ++ placeholder]
  | entries, _ => entries.map (identity element ++ ·)

namespace Written

/-- Rows have been added, and so many of them counted as entries. -/
structure Adds (before after : Written) (rows : List Row) (entries : Nat) : Prop where
  rows : after.rows.toList = before.rows.toList ++ rows
  entries : after.entries = before.entries + entries

theorem Adds.trans {first second third : Written} {rows more : List Row} {entries further : Nat}
    (before : Adds first second rows entries) (after : Adds second third more further) :
    Adds first third (rows ++ more) (entries + further) where
  rows := by rw [after.rows, before.rows, List.append_assoc]
  entries := by rw [after.entries, before.entries, Nat.add_assoc]

theorem adds_entry (written : Written) (row : Row) : Adds written (written.entry row) [row] 1 where
  rows := by simp [entry]
  entries := rfl

theorem adds_entries (element : ElementMetadata) (entries : List Row) (written : Written) :
    Adds written (entries.foldl (fun written entry => written.entry (identity element ++ entry)) written)
      (entries.map (identity element ++ ·)) entries.length := by
  induction entries generalizing written with
  | nil => exact ⟨by simp, rfl⟩
  | cons row rest ih =>
    have both := (adds_entry written (identity element ++ row)).trans (ih _)
    rwa [Nat.add_comm, List.singleton_append] at both

theorem adds_element (written : Written) (element : ElementMetadata) :
    Adds written (written.element policy placeholder entriesOf element)
      (rowsOf policy placeholder element (entriesOf element)) (entriesOf element).length := by
  rw [Written.element]
  cases entries : entriesOf element with
  | nil =>
    cases policy with
    | skip => exact ⟨by simp [rowsOf], rfl⟩
    | placeholder => exact ⟨by simp [rowsOf, Written.placeholder], rfl⟩
  | cons row rest => simpa [rowsOf] using adds_entries element (row :: rest) written

theorem adds_elements (metadata : List ElementMetadata) (written : Written) :
    Adds written (metadata.foldl (Written.element policy placeholder entriesOf) written)
      (metadata.flatMap fun element => rowsOf policy placeholder element (entriesOf element))
      (metadata.map fun element => (entriesOf element).length).sum := by
  induction metadata generalizing written with
  | nil => exact ⟨by simp, rfl⟩
  | cons element rest ih => exact (adds_element written element).trans (ih _)

end Written

theorem rows_ofEntries (header : Row) (metadata : List ElementMetadata) :
    (ofEntries header placeholder entriesOf policy metadata).rows =
      metadata.flatMap fun element => rowsOf policy placeholder element (entriesOf element) := by
  simpa [ofEntries] using (Written.adds_elements metadata {}).rows

theorem entries_ofEntries (header : Row) (metadata : List ElementMetadata) :
    (ofEntries header placeholder entriesOf policy metadata).entries =
      (metadata.map fun element => (entriesOf element).length).sum := by
  simpa [ofEntries] using (Written.adds_elements metadata {}).entries

end StructuralModel.Report
