import StructuralModel.Source.Diagnostic
import StructuralModel.Source.Token
import StructuralModel.Decimal.Reading
import StructuralModel.Text.Letter
import StructuralModel.Text.Split

/-! Cutting a source text into tokens. White space and line comments separate tokens; block
comments are tokens, since they carry the text of comments and documentation. A piece that is no
token is reported, one more character is skipped, and the text is read on from there. -/

namespace StructuralModel

/-- Why a piece of text is no token. -/
inductive LexicalFault
  | unterminatedText
  | unterminatedName
  | unterminatedComment
  | unexpectedCharacter
deriving Repr, DecidableEq

inductive Piece
  | blank
  | token (token : Token)
  | fault (fault : LexicalFault)

/-- A piece at the start of a text, the characters it takes and those that follow. A fault takes
the characters up to the one at which reading stopped. -/
structure Scan where
  piece : Piece
  taken : List Char
  rest : List Char

namespace Lexer

open Text (spanOf spanOf_append)

def isSpace (c : Char) : Bool :=
  c = ' ' || c = '\t' || c = '\r' || c = '\n'

def isWordStart (c : Char) : Bool :=
  c.isAlpha || c = '_'

def isWordChar (c : Char) : Bool :=
  isWordStart c || c.isDigit

def unescape? : Char → Option Char
  | 'n' => some '\n'
  | 't' => some '\t'
  | '\\' => some '\\'
  | '"' => some '"'
  | _ => none

/-- The inside of a text literal: its value, the characters it takes and those that follow. -/
structure TextBody where
  value : List Char
  taken : List Char
  rest : List Char

def TextBody.cons (value : Char) (taken : List Char) (body : TextBody) : TextBody :=
  ⟨value :: body.value, taken ++ body.taken, body.rest⟩

/-- Reads up to a quote, a line end or a backslash that starts no escape. -/
def textBody : List Char → TextBody
  | [] => ⟨[], [], []⟩
  | ['\\'] => ⟨[], [], ['\\']⟩
  | '\\' :: c :: rest =>
    match unescape? c with
    | some value => (textBody rest).cons value ['\\', c]
    | none => ⟨[], [], '\\' :: c :: rest⟩
  | c :: rest =>
    if c = '"' || c = '\n' then ⟨[], [], c :: rest⟩ else (textBody rest).cons c [c]

/-- What stands before and after the end of a block comment. -/
def splitCommentEnd : List Char → Option (List Char × List Char)
  | [] => none
  | '*' :: '/' :: rest => some ([], rest)
  | c :: rest => (splitCommentEnd rest).map fun (before, after) => (c :: before, after)

def scanText (opening : Char) (cs : List Char) : Scan :=
  let body := textBody cs
  match body.rest with
  | '"' :: rest => ⟨.token (.text (String.ofList body.value)), opening :: body.taken ++ ['"'], rest⟩
  | rest => ⟨.fault .unterminatedText, opening :: body.taken, rest⟩

def scanName (opening : Char) (cs : List Char) : Scan :=
  let (name, rest) := spanOf (fun c => c != '\'' && c != '\n') cs
  match name, rest with
  | _ :: _, '\'' :: rest =>
    ⟨.token (.identifier (String.ofList name)), opening :: name ++ ['\''], rest⟩
  | name, rest => ⟨.fault .unterminatedName, opening :: name, rest⟩

def scanComment (cs : List Char) : Scan :=
  match splitCommentEnd cs with
  | some (raw, rest) =>
    ⟨.token (.comment (String.ofList raw)), '/' :: '*' :: raw ++ ['*', '/'], rest⟩
  | none => ⟨.fault .unterminatedComment, ['/', '*'], cs⟩

def scanWord (cs : List Char) : Scan :=
  let (word, rest) := spanOf isWordChar cs
  let name := String.ofList word
  let token := match Keyword.ofSpelling? name with
    | some keyword => .keyword keyword
    | none => .identifier name
  ⟨.token token, word, rest⟩

/-- The point and the digits after it; nothing without digits. -/
def fractionOf : List Char → List Char × List Char
  | '.' :: cs =>
    match spanOf Char.isDigit cs with
    | ([], _) => ([], '.' :: cs)
    | (digits, rest) => ('.' :: digits, rest)
  | cs => ([], cs)

/-- The digits after an optional sign; nothing without digits. -/
def signedDigitsOf (cs : List Char) : Option (List Char × List Char) :=
  let (sign, digits) := match cs with
    | '+' :: digits => (['+'], digits)
    | '-' :: digits => (['-'], digits)
    | digits => ([], digits)
  match spanOf Char.isDigit digits with
  | ([], _) => none
  | (digits, rest) => some (sign ++ digits, rest)

/-- The exponent mark, a sign and digits; nothing without digits. -/
def exponentOf : List Char → List Char × List Char
  | [] => ([], [])
  | c :: cs =>
    if c = 'e' || c = 'E' then
      match signedDigitsOf cs with
      | some (digits, rest) => (c :: digits, rest)
      | none => ([], c :: cs)
    else ([], c :: cs)

/-- The number written by digits, a fraction and an exponent. -/
def numberOf (whole fraction exponent : List Char) : Float :=
  Decimal.ofDigits whole (fraction.drop 1) ((Decimal.readInt? (exponent.drop 1)).getD 0)

/-- A number is not followed by a letter or numeral; a unit has to stand in brackets. -/
def scanNumber (cs : List Char) : Scan :=
  let (whole, afterWhole) := spanOf Char.isDigit cs
  let (fraction, afterFraction) := fractionOf afterWhole
  let (exponent, rest) := exponentOf afterFraction
  if rest.head?.any fun c => Text.isLetterOrNumeral c || c = '_' then
    ⟨.fault .unexpectedCharacter, [], cs⟩
  else ⟨.token (.number (numberOf whole fraction exponent)), whole ++ fraction ++ exponent, rest⟩

def scanMark (cs : List Char) : Scan :=
  match Mark.ofStart? cs with
  | some mark => ⟨.token (.mark mark), mark.spelling, cs.drop mark.spelling.length⟩
  | none => ⟨.fault .unexpectedCharacter, [], cs⟩

def scan (c : Char) (cs : List Char) : Scan :=
  if isSpace c then
    let (blank, rest) := spanOf isSpace cs
    ⟨.blank, c :: blank, rest⟩
  else if c = '"' then scanText c cs
  else if c = '\'' then scanName c cs
  else if c.isDigit then scanNumber (c :: cs)
  else if isWordStart c then scanWord (c :: cs)
  else
    match c, cs with
    | '/', '/' :: cs =>
      let (line, rest) := spanOf (· != '\n') cs
      ⟨.blank, '/' :: '/' :: line, rest⟩
    | '/', '*' :: cs => scanComment cs
    | c, cs => scanMark (c :: cs)

/-! The pieces are cut out of the text: nothing is lost, and every piece but a fault takes
something. -/

theorem textBody_append (cs : List Char) : (textBody cs).taken ++ (textBody cs).rest = cs := by
  fun_induction textBody cs <;> simp_all [TextBody.cons]

theorem splitCommentEnd_append {cs raw rest : List Char} (found : splitCommentEnd cs = some (raw, rest)) :
    raw ++ '*' :: '/' :: rest = cs := by
  fun_induction splitCommentEnd cs generalizing raw with
  | case1 => simp at found
  | case2 tail => simp_all
  | case3 c tail _ ih =>
    obtain ⟨⟨before, after⟩, inner, same⟩ := Option.map_eq_some_iff.mp found
    simp only [Prod.mk.injEq] at same
    obtain ⟨rfl, rfl⟩ := same
    simp [ih inner]

theorem scanText_append (c : Char) (cs : List Char) :
    (scanText c cs).taken ++ (scanText c cs).rest = c :: cs := by
  have whole := textBody_append cs
  simp only [scanText]
  split
  next rest eq => rw [eq] at whole; simpa using whole
  next => simp [whole]

theorem scanName_append (c : Char) (cs : List Char) :
    (scanName c cs).taken ++ (scanName c cs).rest = c :: cs := by
  have whole := spanOf_append (fun c => c != '\'' && c != '\n') cs
  simp only [scanName]
  split
  next eq => rw [eq] at whole; simpa using whole
  next => simp [whole]

theorem scanComment_append (cs : List Char) :
    (scanComment cs).taken ++ (scanComment cs).rest = '/' :: '*' :: cs := by
  unfold scanComment
  split
  next found => simp [← splitCommentEnd_append found]
  next => simp

theorem scanWord_append (cs : List Char) : (scanWord cs).taken ++ (scanWord cs).rest = cs :=
  spanOf_append isWordChar cs

theorem fractionOf_append (cs : List Char) : (fractionOf cs).1 ++ (fractionOf cs).2 = cs := by
  unfold fractionOf
  split
  next cs =>
    have whole := spanOf_append Char.isDigit cs
    split
    · simp
    next eq => simp_all
  next => simp

theorem signedDigitsOf_append {cs digits rest : List Char}
    (found : signedDigitsOf cs = some (digits, rest)) : digits ++ rest = cs := by
  unfold signedDigitsOf at found
  split at found
  next sign unsigned eq =>
    have whole := spanOf_append Char.isDigit unsigned
    split at found
    · simp at found
    next eq' =>
      rw [eq'] at whole
      simp only [Option.some.injEq, Prod.mk.injEq] at found
      obtain ⟨rfl, rfl⟩ := found
      split at eq <;> simp only [Prod.mk.injEq] at eq <;> obtain ⟨rfl, rfl⟩ := eq <;> simp [whole]

theorem exponentOf_append (cs : List Char) : (exponentOf cs).1 ++ (exponentOf cs).2 = cs := by
  unfold exponentOf
  split
  · simp
  · split
    · split
      next found => simp [signedDigitsOf_append found]
      next => simp
    · simp

theorem scanNumber_append (cs : List Char) : (scanNumber cs).taken ++ (scanNumber cs).rest = cs := by
  unfold scanNumber
  simp only
  split
  · simp
  · simp only [List.append_assoc]
    rw [exponentOf_append, fractionOf_append, spanOf_append]

theorem scanMark_append (cs : List Char) : (scanMark cs).taken ++ (scanMark cs).rest = cs := by
  unfold scanMark
  split
  next mark found =>
    have start := List.find?_some found
    obtain ⟨rest, rfl⟩ := List.isPrefixOf_iff_prefix.mp start
    simp
  next => simp

/-- Nothing is lost. -/
theorem scan_append (c : Char) (cs : List Char) : (scan c cs).taken ++ (scan c cs).rest = c :: cs := by
  unfold scan
  split
  · simp [spanOf_append]
  split
  · exact scanText_append c cs
  split
  · exact scanName_append c cs
  split
  · exact scanNumber_append (c :: cs)
  split
  · exact scanWord_append (c :: cs)
  split
  · simp [spanOf_append]
  · exact scanComment_append _
  · exact scanMark_append _

theorem scanNumber_taken {c : Char} (cs : List Char) (digit : c.isDigit) :
    (scanNumber (c :: cs)).piece = .fault .unexpectedCharacter ∨ (scanNumber (c :: cs)).taken ≠ [] := by
  unfold scanNumber
  simp only
  split
  · exact .inl rfl
  · exact .inr (by simp [spanOf, digit])

theorem scanMark_taken (cs : List Char) :
    (scanMark cs).piece = .fault .unexpectedCharacter ∨ (scanMark cs).taken ≠ [] := by
  unfold scanMark
  split
  next mark _ => exact .inr (by cases mark <;> simp [Mark.spelling])
  next => exact .inl rfl

/-- A piece that takes nothing is an unexpected character. -/
theorem scan_taken (c : Char) (cs : List Char) :
    (scan c cs).piece = .fault .unexpectedCharacter ∨ (scan c cs).taken ≠ [] := by
  unfold scan
  split
  · exact .inr (by simp)
  split
  · exact .inr (by simp only [scanText]; split <;> simp)
  split
  · exact .inr (by simp only [scanName]; split <;> simp)
  split
  next digit => exact scanNumber_taken cs digit
  split
  next start => exact .inr (by simp [scanWord, spanOf, isWordChar, start])
  split
  · exact .inr (by simp)
  · exact .inr (by unfold scanComment; split <;> simp)
  · exact scanMark_taken _

end Lexer

namespace Scan

def skipped (s : Scan) : List Char :=
  match s.piece with
  | .fault _ => s.rest.take 1
  | _ => []

/-- The text from which reading goes on. -/
def remaining (s : Scan) : List Char :=
  s.rest.drop s.skipped.length

end Scan

namespace Lexer

/-- Every piece makes progress, a fault too. -/
theorem length_remaining_lt (c : Char) (cs : List Char) :
    (scan c cs).remaining.length < (c :: cs).length := by
  have whole := congrArg List.length (scan_append c cs)
  rw [List.length_append] at whole
  rw [Scan.remaining, List.length_drop]
  rcases scan_taken c cs with fault | taken
  · rw [Scan.skipped, fault]
    simp only [List.length_take, List.length_cons] at whole ⊢
    omega
  · have positive := List.length_pos_iff.mpr taken
    omega

def byteLength : List Char → Nat
  | [] => 0
  | c :: cs => c.utf8Size + byteLength cs

/-- The pieces of a text that starts at a byte position. -/
def pieces (position : Nat) : List Char → List (Spanned Piece)
  | [] => []
  | c :: cs =>
    let s := scan c cs
    let stop := position + byteLength s.taken
    ⟨s.piece, .between position stop⟩ :: pieces (stop + byteLength s.skipped) s.remaining
termination_by cs => cs.length
decreasing_by exact length_remaining_lt c cs

end Lexer

namespace LexicalFault

def code : LexicalFault → DiagnosticCode
  | .unterminatedText => .unterminatedText
  | .unterminatedName => .unterminatedText
  | .unterminatedComment => .unterminatedComment
  | .unexpectedCharacter => .unexpectedCharacter

def message : LexicalFault → String
  | .unterminatedText => "unterminated string literal"
  | .unterminatedName => "unterminated quoted name"
  | .unterminatedComment => "unterminated block comment"
  | .unexpectedCharacter => "unexpected character"

def help? : LexicalFault → Option String
  | .unterminatedText => some "add closing `\"`"
  | .unterminatedName => some "add closing `'`"
  | .unterminatedComment => some "add closing `*/`"
  | .unexpectedCharacter => none

/-- An unexpected character is marked by its first byte, the other faults by all that was read. -/
def markedSpan (fault : LexicalFault) (span : Span) : Span :=
  match fault with
  | .unexpectedCharacter => .between span.start (span.start + 1)
  | _ => span

def diagnostic (fault : LexicalFault) (span : Span) : Diagnostic where
  severity := .error
  code? := some fault.code
  message := fault.message
  labels := [⟨fault.markedSpan span, fault.code.description, true⟩]
  help? := fault.help?

end LexicalFault

namespace Lexer

def tokenOf? (piece : Spanned Piece) : Option (Spanned Token) :=
  match piece.value with
  | .token token => some ⟨token, piece.span⟩
  | _ => none

def diagnosticOf? (piece : Spanned Piece) : Option Diagnostic :=
  match piece.value with
  | .fault fault => some (fault.diagnostic piece.span)
  | _ => none

/-- The tokens of a source text, or everything in it that is no token. -/
def tokens (source : String) : Except (List Diagnostic) (List (Spanned Token)) :=
  let found := pieces 0 source.toList
  match found.filterMap diagnosticOf? with
  | [] => .ok (found.filterMap tokenOf?)
  | faults => .error faults

end Lexer
end StructuralModel
