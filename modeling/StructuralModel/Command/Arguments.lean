import StructuralModel.Text.Similarity

/-! The command line: an input file, a subcommand with its switches, and switches that go with
every subcommand. -/

namespace StructuralModel

inductive Switch
  | config
  | logLevel
  | output
  | element
  | feature
  | scope
  | all
  | help
  | version
deriving Repr, DecidableEq

namespace Switch

def name : Switch → String
  | config => "config"
  | logLevel => "log-level"
  | output => "output"
  | element => "element"
  | feature => "feature"
  | scope => "scope"
  | all => "all"
  | help => "help"
  | version => "version"

def letter? : Switch → Option Char
  | config => some 'c'
  | output => some 'o'
  | element => some 'e'
  | feature => some 'f'
  | scope => some 's'
  | help => some 'h'
  | version => some 'V'
  | logLevel | all => none

def takesValue (switch : Switch) : Bool :=
  !(switch matches all | help | version)

end Switch

inductive Subcommand
  | comments
  | docs
  | locales
  | eval
deriving Repr, DecidableEq

namespace Subcommand

def name : Subcommand → String
  | comments => "comments"
  | docs => "docs"
  | locales => "locales"
  | eval => "eval"

def all : List Subcommand :=
  [comments, docs, locales, eval]

def ofName? (name : String) : Option Subcommand :=
  all.find? fun subcommand => subcommand.name == name

def switches : Subcommand → List Switch
  | comments | docs => [.output]
  | locales => []
  | eval => [.element, .feature, .scope, .all]

end Subcommand

/-- The word that asks for help on a subcommand. -/
def helpWord : String := "help"

def subcommandWords : List String :=
  Subcommand.all.map Subcommand.name ++ [helpWord]

/-- Why the words of a command line are no request. -/
inductive UsageError
  | helpRequested
  | versionRequested
  | nothingGiven
  | missingArgument
  | missingSubcommand
  | unknownArgument
  /-- A word is close to a subcommand, or help is asked for on what is none. -/
  | unknownSubcommand
  | missingValue
  | unexpectedValue
  /-- A switch is given twice, or together with one that excludes it. -/
  | conflict
deriving Repr, DecidableEq

def UsageError.message : UsageError → String
  | .helpRequested | .nothingGiven =>
    "usage: partscope [-c FILE] [--log-level LEVEL] INPUT comments|docs [-o FILE]\n" ++
      "       partscope [-c FILE] [--log-level LEVEL] INPUT locales\n" ++
      "       partscope [-c FILE] [--log-level LEVEL] INPUT eval -e ELEMENT (-f FEATURE [-s SCOPE] | --all)"
  | .versionRequested => "partscope"
  | .missingArgument => "a required argument is missing"
  | .missingSubcommand => "a subcommand is missing"
  | .unknownArgument => "unexpected argument"
  | .unknownSubcommand => "unrecognized subcommand"
  | .missingValue => "a switch lacks its value"
  | .unexpectedValue => "a switch that takes no value has one"
  | .conflict => "switches exclude each other"

inductive Request
  | comments (output? : Option String)
  | docs (output? : Option String)
  | locales
  | eval (element feature : String) (scope? : Option String)
  | evalAll (element : String)
deriving Repr, DecidableEq

/-- The file that a report is written to; without one, the answer is printed. -/
def Request.output? : Request → Option String
  | .comments output? | .docs output? => output?
  | .locales | .eval .. | .evalAll _ => none

structure Arguments where
  input : String
  config? : Option String
  request : Request
deriving Repr, DecidableEq

namespace Arguments

/-- The words that can be recognised before a subcommand, and those that can after it. -/
inductive Level
  | top
  | inside (subcommand : Subcommand)

namespace Level

def switches : Level → List Switch
  | top => [.config, .logLevel, .help, .version]
  | inside subcommand => subcommand.switches ++ [.config, .logLevel, .help]

def words : Level → List String
  | top => subcommandWords
  | inside _ => []

def takesInput : Level → Bool
  | top => true
  | inside _ => false

def ofName? (level : Level) (name : String) : Option Switch :=
  level.switches.find? fun switch => switch.name == name

def ofLetter? (level : Level) (letter : Char) : Option Switch :=
  level.switches.find? fun switch => switch.letter? == some letter

end Level

inductive Word
  /-- After `--`, words are taken as they are. -/
  | separator
  | long (name : String) (value? : Option String)
  /-- Letters after a hyphen; the first that takes a value ends the switches. -/
  | letters (letters : List Char)
  | plain

namespace Word

def ofName : List Char → List Char × Option (List Char)
  | [] => ([], none)
  | '=' :: value => ([], some value)
  | c :: rest =>
    let (name, value?) := ofName rest
    (c :: name, value?)

def ofText (text : String) : Word :=
  match text.toList with
  | ['-', '-'] => separator
  | '-' :: '-' :: rest =>
    let (name, value?) := ofName rest
    long (String.ofList name) (value?.map String.ofList)
  | '-' :: c :: rest => letters (c :: rest)
  | _ => plain

end Word

/-- What has been read of one level. -/
structure Progress where
  given : List (Switch × String) := []
  input? : Option String := none
  /-- The last switch, as long as its value can still come or is not yet looked at. -/
  last? : Option (Switch × Option String) := none
  /-- Whether all further words are taken as they are. -/
  isPlain : Bool := false

namespace Progress

def value? (p : Progress) (switch : Switch) : Option String :=
  p.given.lookup switch

def isGiven (p : Progress) (switch : Switch) : Bool :=
  (p.value? switch).isSome

def awaitsValue (p : Progress) : Bool :=
  p.last? matches some (_, none)

def add (p : Progress) (switch : Switch) (value : String) : Except UsageError Progress :=
  if p.isGiven switch then .error .conflict
  else .ok { p with given := p.given ++ [(switch, value)] }

/-- Takes up the last switch, which must have its value by now. -/
def settle (p : Progress) : Except UsageError Progress :=
  match p.last? with
  | none => .ok p
  | some (_, none) => .error .missingValue
  | some (switch, some value) => { p with last? := none }.add switch value

/-- A switch, perhaps with a value attached to it. -/
def take (p : Progress) (switch : Switch) (value? : Option String) : Except UsageError Progress :=
  if switch.takesValue then do
    let p ← p.settle
    match value? with
    | some value => p.add switch value
    | none => return { p with last? := some (switch, none) }
  else if value?.isSome then .error .unexpectedValue
  else do
    let p ← p.settle
    match switch with
    | .help => throw .helpRequested
    | .version => throw .versionRequested
    | switch => p.add switch ""

/-- Letters after the one of a switch that takes a value are that value. -/
def attached : List Char → Option String
  | [] => none
  | '=' :: value => some (String.ofList value)
  | value => some (String.ofList value)

def takeLetters (level : Level) (p : Progress) : List Char → Except UsageError Progress
  | [] => .ok p
  | c :: rest =>
    match level.ofLetter? c with
    | none => .error .unknownArgument
    | some switch =>
      if switch.takesValue then p.take switch (attached rest)
      else do takeLetters level (← p.take switch none) rest

/-- Why a word has no place here. -/
def misplaced (level : Level) (p : Progress) (word : String) : UsageError :=
  if p.isPlain && level.words.contains word then .unknownArgument
  else if level.words.any fun known => Text.isSimilar word.toList known.toList then .unknownSubcommand
  else .unknownArgument

/-- A word that is neither a switch nor the value of one. -/
def takePlain (level : Level) (p : Progress) (word : String) : Except UsageError Progress :=
  if level.takesInput && p.input?.isNone then do
    return { ← p.settle with input? := some word }
  else .error (p.misplaced level word)

def takeWord (level : Level) (p : Progress) (word : String) : Except UsageError Progress :=
  if p.isPlain then p.takePlain level word
  else
    match Word.ofText word with
    | .separator => .ok { p with isPlain := true }
    | .long name value? =>
      match level.ofName? name with
      | none => .error .unknownArgument
      | some switch => p.take switch value?
    | .letters letters => p.takeLetters level letters
    | .plain =>
      match p.last? with
      | some (switch, none) => .ok { p with last? := some (switch, some word) }
      | _ => p.takePlain level word

/-- Reads words up to a subcommand, which comes with the words after it. -/
def read (level : Level) (p : Progress) :
    List String → Except UsageError (Progress × Option (String × List String))
  | [] => .ok (p, none)
  | word :: rest =>
    if !p.isPlain && !p.awaitsValue && level.words.contains word then .ok (p, some (word, rest))
    else do read level (← p.takeWord level word) rest

end Progress

/-- What is required and excluded inside a subcommand. Exclusion is looked at first. -/
def requestOf (subcommand : Subcommand) (p : Progress) : Except UsageError Request :=
  match subcommand with
  | .comments => .ok (.comments (p.value? .output))
  | .docs => .ok (.docs (p.value? .output))
  | .locales => .ok .locales
  | .eval =>
    if p.isGiven .all && (p.isGiven .feature || p.isGiven .scope) then .error .conflict
    else
      match p.value? .element, p.value? .feature with
      | some element, some feature => .ok (.eval element feature (p.value? .scope))
      | some element, none => if p.isGiven .all then .ok (.evalAll element) else .error .missingArgument
      | none, _ => .error .missingArgument

/-- The words after the one that asks for help name at most one subcommand. -/
def helpOn : List String → UsageError
  | [] => .helpRequested
  | [word] => if subcommandWords.contains word then .helpRequested else .unknownSubcommand
  | _ => .unknownSubcommand

/-- Reads the words after the program's name. What is wrong inside a subcommand is told before what
is wrong around it. -/
def ofWords (words : List String) : Except UsageError Arguments := do
  let (outer, found?) ← ({} : Progress).read .top words
  match found? with
  | none =>
    let outer ← outer.settle
    throw (if outer.given.isEmpty && outer.input?.isNone then .nothingGiven else .missingSubcommand)
  | some (word, rest) =>
    match Subcommand.ofName? word with
    | none => throw (helpOn rest)
    | some subcommand =>
      let (inner, _) ← ({} : Progress).read (.inside subcommand) rest
      let inner ← inner.settle
      let request ← requestOf subcommand inner
      let outer ← outer.settle
      match outer.input? with
      | none => throw .missingArgument
      | some input =>
        return { input, config? := inner.value? .config <|> outer.value? .config, request }

end Arguments
end StructuralModel
