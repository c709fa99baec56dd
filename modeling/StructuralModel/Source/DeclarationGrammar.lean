import StructuralModel.Source.Declaration
import StructuralModel.Source.ExpressionGrammar
import StructuralModel.Source.Lexer
import StructuralModel.Text.Blank

/-! The grammar of declarations, and whole documents. -/

namespace StructuralModel

/-- A line of a comment without white space at its ends and without the star and the blank that
decorate its start. -/
def undecorated (line : List Char) : List Char :=
  let line := Text.trim line
  let line := if line.head? = some '*' then line.drop 1 else line
  if line.head? = some ' ' then line.drop 1 else line

def commentText (raw : String) : String :=
  let lines := (Text.lines raw.toList).map undecorated
  String.ofList (Text.trim (['\n'].intercalate lines))

namespace Reader

def commentBody : Reader (Spanned String) :=
  expecting .commentBody <| token fun
    | .comment raw => some (commentText raw)
    | _ => none

def redefinition : Reader Unit :=
  expecting .redefinition <| (fun _ => ()) <$> token fun
    | .keyword .redefines => some ()
    | .mark .redefines => some ()
    | _ => none

def body (member : Reader Declaration) : Reader (List Declaration) :=
  expecting .body <| either ((fun _ => []) <$> mark .semicolon)
    (mark .leftBrace *> many member <* mark .rightBrace)

def enumerationLiteral : Reader Declaration := do
  let _ ← optional (keyword .enumeration)
  .enumerationLiteral <$> (identifier <* mark .semicolon)

def specializations : Reader (List (Spanned Path)) :=
  (·.getD []) <$> optional (mark .specializes *> qualifiedNames)

/-- The rest of a definition, such as `Car :> Vehicle { … }`. -/
def definition (member : Reader Declaration) (kind : DefinitionKind) : Reader Declaration := do
  let name ← identifier
  let generals ← specializations
  let element := match kind with
    | .enumeration => either enumerationLiteral member
    | .part | .attribute => member
  .definition kind name generals <$> body element

/-- The own name of a usage and the name of what it redefines. One of them may be missing. -/
def usageNames : Reader (Option (Spanned String) × Option (Spanned String)) := do
  match ← optional redefinition with
  | some _ => return (none, some (← identifier))
  | none =>
    let name ← identifier
    return (some name, ← optional (redefinition *> identifier))

def usageHeader : Reader UsageHeader := do
  let (name?, redefines?) ← usageNames
  let types ← optional (mark .colon *> qualifiedNames)
  let multiplicity? ← optional (mark .leftBracket *> number <* mark .rightBracket)
  let subsets ← specializations
  let value? ← optional (mark .assign *> spanned expression)
  return { name?, redefines?, types := types.getD [], multiplicity?, subsets, value? }

/-- The rest of a usage, such as `mass : Real = 500 [kg];`. -/
def usage (member : Reader Declaration) (kind : UsageKind) : Reader Declaration := do
  let header ← usageHeader
  .usage kind header <$> body member

/-- The keywords that start definitions, with the usages that they start too. -/
def leadingKeyword? : Token → Option (DefinitionKind × Option UsageKind)
  | .keyword .part => some (.part, some .part)
  | .keyword .attribute => some (.attribute, some .attribute)
  | .keyword .enumeration => some (.enumeration, none)
  | _ => none

def definitionOrUsage (member : Reader Declaration) : Reader Declaration := do
  let ⟨(definitionKind, usageKind?), _⟩ ← token leadingKeyword?
  committed do
    match usageKind? with
    | none =>
      let _ ← keyword .definition
      definition member definitionKind
    | some usageKind =>
      match ← optional (keyword .definition) with
      | some _ => definition member definitionKind
      | none => usage member usageKind

def shorthand (member : Reader Declaration) : Reader Declaration :=
  ahead redefinition *> committed (usage member .shorthand)

def package (member : Reader Declaration) : Reader Declaration := do
  let _ ← keyword .package
  committed do
    let name ← identifier
    .package name <$> body member

/-- A comment, such as `comment Origin about Car, Truck /* … */`. -/
def comment : Reader Declaration := do
  let _ ← keyword .comment
  committed do
    let name? ← optional identifier
    let about ← optional (keyword .about *> qualifiedNames)
    .comment name? (about.getD []) <$> commentBody

def bareComment : Reader Declaration :=
  .comment none [] <$> commentBody

/-- Documentation, such as `doc locale "en" /* … */`. -/
def documentation : Reader Declaration := do
  let _ ← keyword .documentation
  committed do
    let locale? ← optional (keyword .locale *> text)
    .documentation locale? <$> commentBody

/-- An import, such as `import Units::*;`. -/
def importing : Reader Declaration := do
  let _ ← keyword .importing
  committed do
    let name ← qualifiedName
    let _ ← optional (mark .doubleColon *> mark .star)
    let _ ← mark .semicolon
    return .importing name

/-- Visibility is accepted and changes nothing. -/
def visibility : Reader Unit :=
  (fun _ => ()) <$> token fun
    | .keyword .privately => some ()
    | .keyword .publicly => some ()
    | _ => none

def declarationWithin : Nat → Reader Declaration
  | 0 => fail
  | depth + 1 =>
    expecting .declaration <| firstOf [
      package (declarationWithin depth),
      definitionOrUsage (declarationWithin depth),
      shorthand (declarationWithin depth),
      comment,
      documentation,
      bareComment,
      importing,
      visibility *> declarationWithin depth]

/-- A declaration. Every level of nesting takes a token. -/
def declaration : Reader Declaration := fun tokens =>
  declarationWithin (tokens.length + 1) tokens

def document : Reader (List Declaration) := do
  let declarations ← many declaration
  fun
    | [] => .ok (declarations, [])
    | rest => .error (((SyntaxError.stopped rest).add (.expected .declaration)).commit rest)

end Reader

namespace Declaration

def ofTokens (tokens : Tokens) : Except Diagnostic (List Declaration) :=
  match Reader.document tokens with
  | .ok (declarations, _) => .ok declarations
  | .error error => .error (error.diagnostic tokens)

/-- The declarations of a source text, or all that is wrong with its tokens, or the first place
where they leave the grammar. -/
def ofSource (source : String) : Except (List Diagnostic) (List Declaration) := do
  let tokens ← Lexer.tokens source
  (ofTokens tokens).mapError ([·])

end Declaration
end StructuralModel
