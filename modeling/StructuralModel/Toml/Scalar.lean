import StructuralModel.Decimal.Reading
import StructuralModel.Settings.Document

/-! Numbers, truth values, dates and quoted texts. -/

namespace StructuralModel.Toml

/-- Digits with single underscores between them, which are dropped. -/
def digits? (isDigit : Char → Bool) (text : List Char) : Option (List Char) :=
  let groups := Text.splitAt '_' text
  if groups.all fun group => !group.isEmpty && group.all isDigit then some groups.flatten else none

def withoutSign : List Char → List Char
  | '+' :: rest => rest
  | '-' :: rest => rest
  | rest => rest

def digitValue (c : Char) : Nat :=
  if c.isDigit then c.toNat - '0'.toNat else c.toLower.toNat - 'a'.toNat + 10

def isDigitOf (base : Nat) (c : Char) : Bool :=
  (c.isDigit || 'a' ≤ c.toLower && c.toLower ≤ 'f') && digitValue c < base

def natOfBase? (base : Nat) (text : List Char) : Option Nat :=
  (digits? (isDigitOf base) text).map fun digits =>
    digits.foldl (fun n c => n * base + digitValue c) 0

/-- The digits before a point or exponent; only zero itself starts with a zero. -/
def whole? (text : List Char) : Option (List Char) :=
  (digits? Char.isDigit text).filter fun digits => digits.head? != some '0' || digits.length == 1

/-- Integers of 64 bits, signed or not. -/
def inRange? (n : Int) : Option Document :=
  if -9223372036854775808 ≤ n ∧ n < 18446744073709551616 then some (.integer n) else none

def integer? (text : List Char) : Option Document :=
  match text with
  | '0' :: 'x' :: digits => (natOfBase? 16 digits).bind fun n => inRange? n
  | '0' :: 'o' :: digits => (natOfBase? 8 digits).bind fun n => inRange? n
  | '0' :: 'b' :: digits => (natOfBase? 2 digits).bind fun n => inRange? n
  | text => do
    let digits ← whole? (withoutSign text)
    let n : Int := Decimal.natOfDigits digits
    inRange? (if text.head? = some '-' then -n else n)

/-- Whether a magnitude has a fraction or an exponent, and digits in every place. -/
def isDecimal (magnitude : List Char) : Bool :=
  let (mantissa, exponent?) := match Text.splitFirst 'e' magnitude with
    | some (mantissa, exponent) => (mantissa, some exponent)
    | none => (magnitude, none)
  let (whole, fraction?) := match Text.splitFirst '.' mantissa with
    | some (whole, fraction) => (whole, some fraction)
    | none => (mantissa, none)
  (exponent?.isSome || fraction?.isSome) && (whole? whole).isSome &&
    fraction?.all (fun fraction => (digits? Char.isDigit fraction).isSome) &&
    exponent?.all fun exponent => (digits? Char.isDigit (withoutSign exponent)).isSome

def decimal? (text : List Char) : Option Document :=
  let text := text.map fun c => if c = 'E' then 'e' else c
  let magnitude := withoutSign text
  if magnitude = ['i', 'n', 'f'] || magnitude = ['n', 'a', 'n'] || isDecimal magnitude then
    (Decimal.read? (text.filter (· != '_'))).map .decimal
  else none

/-- The number in the first digits of a text, so many and within bounds, and what follows it. -/
def leading? (count low high : Nat) (cs : List Char) : Option (Nat × List Char) :=
  let digits := cs.take count
  let n := Decimal.natOfDigits digits
  if digits.length = count ∧ digits.all Char.isDigit ∧ low ≤ n ∧ n ≤ high then some (n, cs.drop count)
  else none

/-- What follows a mark. -/
def past? (mark : Char) : List Char → Option (List Char)
  | [] => none
  | c :: rest => if c = mark then some rest else none

def isLeap (year : Nat) : Bool :=
  year % 4 = 0 && (year % 100 != 0 || year % 400 = 0)

def daysIn (year month : Nat) : Nat :=
  if month = 2 then if isLeap year then 29 else 28
  else if month = 4 || month = 6 || month = 9 || month = 11 then 30
  else 31

/-- What follows a year, a month and a day of it. -/
def pastDate? (cs : List Char) : Option (List Char) := do
  let (year, rest) ← leading? 4 0 9999 cs
  let (month, rest) ← leading? 2 1 12 (← past? '-' rest)
  let (_, rest) ← leading? 2 1 (daysIn year month) (← past? '-' rest)
  return rest

/-- What follows an hour and a minute. -/
def pastMinute? (cs : List Char) : Option (List Char) := do
  let (_, rest) ← leading? 2 0 23 cs
  let (_, rest) ← leading? 2 0 59 (← past? ':' rest)
  return rest

/-- What follows a time of day. It may have no seconds, and a fraction only behind them. -/
def pastTime? (cs : List Char) : Option (List Char) := do
  let rest ← pastMinute? cs
  match rest with
  | ':' :: rest =>
    let (_, rest) ← leading? 2 0 60 rest
    match rest with
    | '.' :: rest =>
      match Text.spanOf Char.isDigit rest with
      | ([], _) => none
      | (_, rest) => return rest
    | rest => return rest
  | rest => return rest

/-- Nothing, or the distance from universal time. -/
def isOffset : List Char → Bool
  | [] => true
  | [mark] => mark = 'Z' || mark = 'z'
  | sign :: rest => (sign = '+' || sign = '-') && pastMinute? rest == some []

/-- A date, a time of day, or both with a mark between them. Only both together have an offset. -/
def isDate (text : List Char) : Bool :=
  match pastDate? text with
  | none => pastTime? text == some []
  | some [] => true
  | some (mark :: rest) => (mark = 'T' || mark = 't' || mark = ' ') && (pastTime? rest).any isOffset

def bare? (text : List Char) : Option Document :=
  if text = ['t', 'r', 'u', 'e'] then some (.boolean true)
  else if text = ['f', 'a', 'l', 's', 'e'] then some (.boolean false)
  else if isDate text then some (.date (String.ofList text))
  else integer? text <|> decimal? text

def isBlank (c : Char) : Bool :=
  c = ' ' || c = '\t'

def skipBlanks (cs : List Char) : List Char :=
  cs.dropWhile isBlank

/-- The character with a code given by hexadecimal digits. -/
def characterOf? (digits : List Char) : Option Char := do
  let code ← if digits.all (isDigitOf 16) then natOfBase? 16 digits else none
  if code.isValidChar then some (Char.ofNat code) else none

/-- The character that a single letter after a backslash stands for. -/
def escaped? : Char → Option Char
  | 'b' => some '\x08'
  | 't' => some '\t'
  | 'n' => some '\n'
  | 'f' => some '\x0c'
  | 'r' => some '\r'
  | 'e' => some '\x1b'
  | '"' => some '"'
  | '\\' => some '\\'
  | _ => none

/-- What the escapes in a text stand for. A backslash at the end of a line hides everything up to the next visible
character; so do blanks and line ends while `skipping`. -/
def unescaped? (skipping : Bool) : List Char → Option (List Char)
  | [] => some []
  | '\\' :: 'x' :: a :: b :: rest => before (characterOf? [a, b]) (unescaped? false rest)
  | '\\' :: 'u' :: a :: b :: c :: d :: rest => before (characterOf? [a, b, c, d]) (unescaped? false rest)
  | '\\' :: 'U' :: a :: b :: c :: d :: e :: f :: g :: h :: rest =>
    before (characterOf? [a, b, c, d, e, f, g, h]) (unescaped? false rest)
  | '\\' :: c :: rest =>
    if (skipBlanks (c :: rest)).head? = some '\n' then unescaped? true rest
    else before (escaped? c) (unescaped? false rest)
  | c :: rest =>
    if skipping && (isBlank c || c = '\n') then unescaped? true rest
    else before (some c) (unescaped? false rest)
where
  before (c? : Option Char) (rest? : Option (List Char)) : Option (List Char) := do
    return (← c?) :: (← rest?)

/-- What follows the closing quotes in front of a text, after those that still belong to the text inside. A text of several
lines is closed by the last three of at most five. -/
def closing? (quote : Char) (lines : Bool) (cs : List Char) : Option (List Char × List Char) :=
  let count := (cs.takeWhile (· = quote)).length
  if lines then
    let inside := min (count - 3) 2
    if 3 ≤ count then some (List.replicate inside quote, cs.drop (inside + 3)) else none
  else if 1 ≤ count then some ([], cs.drop 1) else none

/-- What stands before the closing quotes, and what follows them. In double quotes the character behind a backslash closes
nothing. -/
def quotedPart (quote : Char) (lines : Bool) : List Char → Option (List Char × List Char)
  | [] => none
  | [c] => closing? quote lines [c]
  | c :: next :: rest =>
    match closing? quote lines (c :: next :: rest) with
    | some found => some found
    | none =>
      if quote = '"' && c = '\\' then
        (quotedPart quote lines rest).map fun (part, rest) => (c :: next :: part, rest)
      else (quotedPart quote lines (next :: rest)).map fun (part, rest) => (c :: part, rest)

def meaning? (quote : Char) (written : List Char) : Option String :=
  if quote = '"' then (unescaped? false written).map String.ofList else some (String.ofList written)

/-- A text on one line, behind the quote that opens it, and what follows it. -/
def quotedText (quote : Char) (cs : List Char) : Option (String × List Char) := do
  let (written, rest) ← quotedPart quote false cs
  if written.contains '\n' then none
  else return (← meaning? quote written, rest)

/-- A text of several lines, behind the three quotes that open it. A line end right behind them does not belong to it. -/
def quotedLines (quote : Char) (cs : List Char) : Option (String × List Char) := do
  let cs := match cs with
    | '\n' :: rest => rest
    | cs => cs
  let (written, rest) ← quotedPart quote true cs
  return (← meaning? quote written, rest)

end StructuralModel.Toml
