import StructuralModel.Source.Diagnostic
import StructuralModel.Source.Token

/-! Where and why a sequence of tokens leaves the grammar. -/

namespace StructuralModel

abbrev Tokens := List (Spanned Token)

inductive Expected
  | keyword (word : Keyword)
  | mark (sign : Mark)
  | redefinition
  | identifier
  | number
  | text
  | commentBody
  | unit
  | expression
  | body
  | declaration
deriving Repr, DecidableEq

namespace Expected

def name : Expected → String
  | .keyword word => "`" ++ word.spelling ++ "`"
  | .mark sign => "`" ++ String.ofList sign.spelling ++ "`"
  | .redefinition => "`redefines`"
  | .identifier => "identifier"
  | .number => "number"
  | .text => "string literal"
  | .commentBody => "comment body `/* ... */`"
  | .unit => "unit"
  | .expression => "expression"
  | .body => "`;` or `\x7b`"
  | .declaration => "declaration"

end Expected

/-- A step on the way out of the grammar. -/
inductive Note
  | expected (what : Expected)
  /-- The construct whose tokens start here was being read. -/
  | inside (start : Tokens)

/-- A failure to read a piece of the grammar. -/
structure SyntaxError where
  /-- Innermost first. -/
  trail : List Note
  /-- The tokens that were left when reading stopped. -/
  rest : Tokens
  /-- The construct was recognised by what it starts with, so no other one is tried. -/
  isCommitted : Bool

namespace SyntaxError

/-- Nothing could be read at this place. -/
def stopped (rest : Tokens) : SyntaxError :=
  ⟨[], rest, false⟩

def add (error : SyntaxError) (note : Note) : SyntaxError :=
  { error with trail := error.trail ++ [note] }

def commit (error : SyntaxError) (start : Tokens) : SyntaxError :=
  { error.add (.inside start) with isCommitted := true }

def spanOf : Tokens → Span
  | [] => .atStart
  | first :: more => first.span.union (more.getLast?.getD first).span

def expectation? : Note → Option String
  | .expected what => some ("expected " ++ what.name)
  | .inside _ => none

def construct? : Note → Option Tokens
  | .expected _ => none
  | .inside start => some start

def reason (error : SyntaxError) : String :=
  match error.trail.filterMap expectation? with
  | [] => "unexpected token or end of input"
  | expectations => " → ".intercalate expectations

/-- The token at which reading stopped, or the last one if none was left. -/
def place (error : SyntaxError) (tokens : Tokens) : Span :=
  match error.rest, tokens.getLast? with
  | token :: _, _ => token.span
  | [], some token => token.span
  | [], none => .atStart

/-- The tokens of the innermost construct that had been read. -/
def passed (error : SyntaxError) : Tokens :=
  match error.trail.findSome? construct? with
  | some start => start.take (start.length - error.rest.length)
  | none => []

def diagnostic (error : SyntaxError) (tokens : Tokens) : Diagnostic where
  severity := .error
  code? := some .unexpectedToken
  message := "unexpected token: " ++ error.reason
  labels :=
    ⟨error.place tokens, "unexpected token", true⟩ ::
      match error.passed with
      | [] => []
      | passed => [⟨spanOf passed, "while parsing this", false⟩]
  help? := some "check syntax and token positioning"

end SyntaxError
end StructuralModel
