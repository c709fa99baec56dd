import StructuralModel.Settings.Document

/-! Tables put together from statements that each name a path. A table is opened once by a header;
what a dotted key defines cannot be opened again; a value never changes. -/

namespace StructuralModel.Toml

/-- How a table came to be. -/
inductive Origin
  /-- As a part of the path of another header. -/
  | implied
  | header
  /-- As a part of a dotted key. -/
  | dotted
deriving Repr, DecidableEq

inductive Tree
  | leaf (value : Document)
  | table (origin : Origin) (entries : List (String × Tree))
  /-- Tables under one name. Only the last one can still grow. -/
  | tables (earlier : List Document) (last : Tree)

/-- The entries with one replaced, or added at the end. -/
def alter (name : String) (change : Option Tree → Option Tree) :
    List (String × Tree) → Option (List (String × Tree))
  | [] => (change none).map fun tree => [(name, tree)]
  | (other, tree) :: rest =>
    if other = name then (change (some tree)).map fun tree => (name, tree) :: rest
    else (alter name change rest).map ((other, tree) :: ·)

namespace Tree

def empty : Tree := .table .header []

mutual

def document : Tree → Document
  | .leaf value => value
  | .table _ entries => .table (documents entries)
  | .tables earlier last => .list (earlier ++ [last.document])

def documents : List (String × Tree) → List (String × Document)
  | [] => []
  | (name, tree) :: rest => (name, tree.document) :: documents rest

end

/-- Changes a table, or the last of several. -/
def inLast (change : Tree → Option Tree) : Tree → Option Tree
  | .tables earlier last => (change last).map (.tables earlier)
  | tree => change tree

/-- Opens the table that a header names. -/
def openTable : List String → Tree → Option Tree
  | [], .table .implied entries => some (.table .header entries)
  | name :: path, .table origin entries =>
    (alter name (fun tree? => inLast (openTable path) (tree?.getD (.table .implied []))) entries).map
      (.table origin)
  | _, _ => none

/-- Opens one more table among those that a header names. -/
def addTable : List String → Tree → Option Tree
  | [name], .table origin entries =>
    let change : Option Tree → Option Tree
      | none => some (.tables [] (.table .header []))
      | some (.tables earlier last) => some (.tables (earlier ++ [last.document]) (.table .header []))
      | some _ => none
    (alter name change entries).map (.table origin)
  | name :: path, .table origin entries =>
    (alter name (fun tree? => inLast (addTable path) (tree?.getD (.table .implied []))) entries).map
      (.table origin)
  | _, _ => none

/-- Adds a value under a dotted key. -/
def put (value : Document) : List String → Tree → Option Tree
  | [name], .table origin entries =>
    (alter name (fun | none => some (.leaf value) | some _ => none) entries).map (.table origin)
  | name :: path, .table origin entries =>
    let change : Option Tree → Option Tree
      | none => put value path (.table .dotted [])
      | some (.table .dotted inner) => put value path (.table .dotted inner)
      | some _ => none
    (alter name change entries).map (.table origin)
  | _, _ => none

/-- Adds a value under a dotted key in the table that was opened last. -/
def putIn (key : List String) (value : Document) : List String → Tree → Option Tree
  | [], tree => put value key tree
  | name :: path, .table origin entries =>
    (alter name (fun tree? => tree?.bind (inLast (putIn key value path))) entries).map (.table origin)
  | _, _ => none

/-- The table with values under dotted keys. -/
def ofEntries? (entries : List (List String × Document)) : Option Tree :=
  entries.foldlM (fun tree (key, value) => tree.put value key) empty

end Tree
end StructuralModel.Toml
