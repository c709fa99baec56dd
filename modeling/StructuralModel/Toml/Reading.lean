import StructuralModel.Toml.Scalar
import StructuralModel.Toml.Tree

/-! Reading a document of `key = value` lines under headers: `[table]` for one table, `[[table]]`
for one more of several. -/

namespace StructuralModel.Toml

/-- Skips white space, line ends and comments. -/
def skipGap (inComment : Bool) : List Char → List Char
  | [] => []
  | c :: cs =>
    if inComment then skipGap (c != '\n') cs
    else if c = '#' then skipGap true cs
    else if isBlank c || c = '\n' then skipGap false cs
    else c :: cs

/-- What follows the line, which holds nothing more than a comment. -/
def lineEnd? (cs : List Char) : Option (List Char) :=
  match skipBlanks cs with
  | [] => some []
  | '\n' :: rest => some rest
  | '#' :: rest => some (rest.dropWhile (· != '\n'))
  | _ => none

def isKeyChar (c : Char) : Bool :=
  c.isAlphanum || c = '_' || c = '-'

def keyPart : List Char → Option (String × List Char)
  | '"' :: cs => quotedText '"' cs
  | '\'' :: cs => quotedText '\'' cs
  | cs =>
    match Text.spanOf isKeyChar cs with
    | ([], _) => none
    | (name, rest) => some (String.ofList name, rest)

/-- A key of at most so many parts joined by points, and what follows it. -/
def keyUpTo : Nat → List Char → Option (List String × List Char)
  | 0, _ => none
  | count + 1, cs => do
    let (name, rest) ← keyPart (skipBlanks cs)
    match skipBlanks rest with
    | '.' :: rest =>
      let (names, rest) ← keyUpTo count rest
      return (name :: names, rest)
    | rest => return ([name], rest)

/-- A dotted key. Every part takes a character. -/
def key (cs : List Char) : Option (List String × List Char) :=
  keyUpTo (cs.length + 1) cs

def keyAndValue (value : List Char → Option (Document × List Char)) (cs : List Char) :
    Option ((List String × Document) × List Char) := do
  match ← key cs with
  | (names, '=' :: rest) =>
    let (found, rest) ← value (skipBlanks rest)
    return ((names, found), rest)
  | _ => none

/-- At most so many items, separated by commas, up to a closing bracket. -/
def items {α : Type} (close : Char) (item : List Char → Option (α × List Char)) :
    Nat → List Char → Option (List α × List Char)
  | 0, _ => none
  | count + 1, cs =>
    match skipGap false cs with
    | [] => none
    | c :: rest =>
      if c = close then some ([], rest)
      else do
        let (first, rest) ← item (c :: rest)
        match skipGap false rest with
        | [] => none
        | c :: rest =>
          if c = close then some ([first], rest)
          else if c = ',' then do
            let (more, rest) ← items close item count rest
            return (first :: more, rest)
          else none

def isBareChar (c : Char) : Bool :=
  isKeyChar c || c = '+' || c = '.' || c = ':'

/-- A value without quotes or brackets, and what follows it. A blank can stand between a date and a time. -/
def bareWord (cs : List Char) : List Char × List Char :=
  let (word, rest) := Text.spanOf isBareChar cs
  match pastDate? word, rest with
  | some [], ' ' :: c :: rest =>
    if c.isDigit then
      let (time, rest) := Text.spanOf isBareChar (c :: rest)
      (word ++ ' ' :: time, rest)
    else (word, ' ' :: c :: rest)
  | _, rest => (word, rest)

/-- A value up to a nesting depth, and what follows it. -/
def valueWithin : Nat → List Char → Option (Document × List Char)
  | 0, _ => none
  | depth + 1, cs =>
    match cs with
    | '"' :: '"' :: '"' :: cs => (quotedLines '"' cs).map fun (text, rest) => (.text text, rest)
    | '\'' :: '\'' :: '\'' :: cs => (quotedLines '\'' cs).map fun (text, rest) => (.text text, rest)
    | '"' :: cs => (quotedText '"' cs).map fun (text, rest) => (.text text, rest)
    | '\'' :: cs => (quotedText '\'' cs).map fun (text, rest) => (.text text, rest)
    | '[' :: cs =>
      (items ']' (valueWithin depth) (cs.length + 1) cs).map fun (found, rest) => (.list found, rest)
    | '\x7b' :: cs => do
      let (entries, rest) ← items '\x7d' (keyAndValue (valueWithin depth)) (cs.length + 1) cs
      return ((← Tree.ofEntries? entries).document, rest)
    | cs =>
      let (word, rest) := bareWord cs
      (bare? word).map (·, rest)

/-- A value. Every level of nesting takes a bracket. -/
def value (cs : List Char) : Option (Document × List Char) :=
  valueWithin (cs.length + 1) cs

inductive Statement
  | header (path : List String)
  | repeated (path : List String)
  | entry (key : List String) (value : Document)

def statement : List Char → Option (Statement × List Char)
  | '[' :: '[' :: cs => do
    match ← key cs with
    | (path, ']' :: ']' :: rest) => return (.repeated path, rest)
    | _ => none
  | '[' :: cs => do
    match ← key cs with
    | (path, ']' :: rest) => return (.header path, rest)
    | _ => none
  | cs => do
    let ((names, found), rest) ← keyAndValue value cs
    return (.entry names found, rest)

/-- At most so many statements, each with the rest of its line, up to the end of the text. -/
def statements : Nat → List Char → Option (List Statement)
  | 0, _ => none
  | count + 1, cs =>
    match skipGap false cs with
    | [] => some []
    | cs => do
      let (first, rest) ← statement cs
      let more ← statements count (← lineEnd? rest)
      return first :: more

/-- The tree after a statement, and the path of the table that is open. -/
def Statement.apply : List String × Tree → Statement → Option (List String × Tree)
  | (_, tree), .header path => (tree.openTable path).map (path, ·)
  | (_, tree), .repeated path => (tree.addTable path).map (path, ·)
  | (opened, tree), .entry key value => (tree.putIn key value opened).map (opened, ·)

def unifiedLines : List Char → List Char
  | '\r' :: '\n' :: rest => '\n' :: unifiedLines rest
  | c :: rest => c :: unifiedLines rest
  | [] => []

/-- Control characters other than tabs and line ends do not belong in a text. -/
def isForbidden (c : Char) : Bool :=
  (c.toNat < 0x20 && c != '\t' && c != '\n') || c.toNat = 0x7f

/-- A byte order mark in front of a text does not belong to it. -/
def withoutMark : List Char → List Char
  | '\ufeff' :: rest => rest
  | cs => cs

def document? (text : String) : Option Document := do
  let cs := unifiedLines (withoutMark text.toList)
  if cs.any isForbidden then none
  else
    let found ← statements (cs.length + 1) cs
    let (_, tree) ← found.foldlM Statement.apply ([], Tree.empty)
    return tree.document

end Toml

def Settings.read? (text : String) : Option Settings :=
  (Toml.document? text).bind Settings.ofDocument?

end StructuralModel
