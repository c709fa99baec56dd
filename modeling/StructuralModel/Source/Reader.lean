import StructuralModel.Expr.Basic
import StructuralModel.Source.SyntaxError

/-! Readers of tokens. A reader takes tokens from the front or fails; a failure is final once a
construct has been recognised by what it starts with, and otherwise lets an alternative try. -/

namespace StructuralModel

abbrev Reader := StateT Tokens (Except SyntaxError)

namespace Reader

variable {α β : Type}

def fail : Reader α := fun tokens => .error (.stopped tokens)

def token (read : Token → Option α) : Reader (Spanned α)
  | [] => .error (.stopped [])
  | token :: rest =>
    match read token.value with
    | some value => .ok (⟨value, token.span⟩, rest)
    | none => .error (.stopped (token :: rest))

def expecting (what : Expected) (reader : Reader α) : Reader α := fun tokens =>
  (reader tokens).mapError (·.add (.expected what))

/-- Everything in the reader belongs to a construct that has been recognised. -/
def committed (reader : Reader α) : Reader α := fun tokens =>
  (reader tokens).mapError (·.commit tokens)

/-- The second reader is tried where the first fails without commitment. -/
def either (first second : Reader α) : Reader α := fun tokens =>
  match first tokens with
  | .ok found => .ok found
  | .error error => if error.isCommitted then .error error else second tokens

def firstOf : List (Reader α) → Reader α
  | [] => fail
  | [reader] => reader
  | reader :: next :: more => either reader (firstOf (next :: more))

def optional (reader : Reader α) : Reader (Option α) :=
  either (some <$> reader) (pure none)

/-- As many as there are, up to a number. -/
def upTo : Nat → Reader α → Reader (List α)
  | 0, _ => pure []
  | count + 1, reader => do
    match ← optional reader with
    | none => pure []
    | some value => (value :: ·) <$> upTo count reader

/-- As many as there are. Each takes a token, so there are at most as many as tokens. -/
def many (reader : Reader α) : Reader (List α) := fun tokens =>
  upTo tokens.length reader tokens

def oneOrMore (reader : Reader α) : Reader (List α) := do
  let first ← reader
  (first :: ·) <$> many reader

/-- One or more, with a separator between them. A separator without a successor is left. -/
def separated (separator : Reader β) (reader : Reader α) : Reader (List α) := do
  let first ← reader
  (first :: ·) <$> many (separator *> reader)

/-- The value together with the place of the tokens that were taken for it. -/
def spanned (reader : Reader α) : Reader (Spanned α) := fun tokens => do
  let (value, rest) ← reader tokens
  return (⟨value, SyntaxError.spanOf (tokens.take (tokens.length - rest.length))⟩, rest)

def ahead (reader : Reader α) : Reader α := fun tokens =>
  match reader tokens with
  | .ok (value, _) => .ok (value, tokens)
  | .error error => .error { error with rest := tokens }

/-! Single tokens. -/

def keyword (word : Keyword) : Reader Span :=
  expecting (.keyword word) <| (·.span) <$> token fun
    | .keyword found => if found = word then some () else none
    | _ => none

def mark (sign : Mark) : Reader Span :=
  expecting (.mark sign) <| (·.span) <$> token fun
    | .mark found => if found = sign then some () else none
    | _ => none

def identifier : Reader (Spanned String) :=
  expecting .identifier <| token fun
    | .identifier name => some name
    | _ => none

def number : Reader (Spanned Float) :=
  expecting .number <| token fun
    | .number value => some value
    | _ => none

def text : Reader (Spanned String) :=
  expecting .text <| token fun
    | .text value => some value
    | _ => none

/-- Names joined by `::`, such as `Vehicles::Car`. -/
def qualifiedName : Reader (Spanned Path) := do
  let first ← identifier
  let rest ← many (mark .doubleColon *> identifier)
  let last := rest.getLast?.getD first
  return ⟨⟨first.value, rest.map (·.value)⟩, first.span.union last.span⟩

def qualifiedNames : Reader (List (Spanned Path)) :=
  separated (mark .comma) qualifiedName

end Reader
end StructuralModel
