import StructuralModel.Command.Arguments
import StructuralModel.Session
import StructuralModel.Toml.Reading

/-! Carrying out a command line. Files and printed text are a state, so that what a command leaves
behind can be told also when it fails. -/

namespace StructuralModel

/-- Files by path, the paths of directories, and the text printed so far. -/
structure World where
  files : List (String × String)
  directories : List String
  /-- The paths of files that cannot be read as text. -/
  unreadable : List String := []
  printed : String := ""

namespace World

/-- What stands before each slash of a path, after the characters in `passed`. -/
def parentsAfter (passed : List Char) : List Char → List String
  | [] => []
  | c :: rest =>
    let outer := parentsAfter (passed ++ [c]) rest
    if c = '/' then String.ofList passed :: outer else outer

def parents (path : String) : List String :=
  parentsAfter [] path.toList

/-- The directory that a file is in; the empty path is the one where the command runs. -/
def directoryOf (path : String) : String :=
  (parents path).getLastD ""

def ofFiles (files : List (String × String)) : World where
  files := files
  directories := "" :: files.flatMap fun (path, _) => parents path

def file? (w : World) (path : String) : Option String :=
  w.files.lookup path

/-- Whether a path is the one of a file or of a directory. The empty path does not stand for the directory where the
command runs. -/
def holds (w : World) (path : String) : Bool :=
  (w.file? path).isSome || path != "" && (w.unreadable ++ w.directories).contains path

/-- A file can be written in a directory that exists, but not in the place of one. -/
def accepts (w : World) (path : String) : Bool :=
  w.directories.contains (directoryOf path) && !w.directories.contains path && path.toList.getLast? != some '/'

/-- The files with the content of one replaced, or with one more. -/
def withFile (path content : String) : List (String × String) → List (String × String)
  | [] => [(path, content)]
  | (other, old) :: rest =>
    if other = path then (path, content) :: rest else (other, old) :: withFile path content rest

end World

/-- A computation that reads and changes the world, and keeps the changes when it fails. -/
abbrev Action := ExceptT Failure (StateM World)

namespace Action

def readFile (path : String) : Action String := do
  match (← get).file? path with
  | some content => return content
  | none => throw .missingFile

def writeFile (path content : String) : Action Unit := do
  let world ← get
  if world.accepts path then
    set { world with files := World.withFile path content world.files }
  else throw .missingFile

def print (text : String) : Action Unit :=
  modify fun world => { world with printed := world.printed ++ text }

def settingsIn (path : String) : Action Settings := do
  if (← get).holds path then
    match Settings.read? (← readFile path) with
    | some settings => return settings
    | none => throw (.settings .unreadable)
  else throw (.settings (.missingFile path))

def localSettings : String := "partscope/config.toml"

/-- The settings from the file given, else from the local file, else from the user's; without any of
them, the defaults. A path that is there is not passed over, even if it cannot be read. -/
def settings (given? : Option String) (userSettings : String) : Action Settings := do
  match given? with
  | some path => settingsIn path
  | none =>
    let world ← get
    match [localSettings, userSettings].find? world.holds with
    | some path => settingsIn path
    | none => return {}

def deliver (report : Report) : Option String → Action Unit
  | some path => writeFile path report.text
  | none => print report.text

/-- A value on a line after its name. Composites are shown by the path of their element. -/
def valueLine (m : Model) (name : String) (value : Value) : String :=
  let text := match value with
    | .composite element _ => m.path element
    | value => value.printed
  name ++ " = " ++ text ++ "\n"

def localesLine (missing : MissingLocales) : String :=
  missing.path ++ ": " ++ ", ".intercalate missing.locales ++ "\n"

def answer (session : Session) : Request → Action Unit
  | .comments output? => deliver session.commentsReport output?
  | .docs output? => deliver session.documentationReport output?
  | .locales => print (String.join (session.missingLocales.map localesLine))
  | .eval element feature scope? => do
    let value ← session.evaluate element feature scope?
    print (valueLine session.model feature value)
  | .evalAll element => do
    let values ← session.evaluateAll element
    print (String.join (values.map fun (name, value) => valueLine session.model name value))

def ofArguments (arguments : Arguments) (userSettings : String) : Action Unit := do
  let settings ← settings arguments.config? userSettings
  let source ← readFile arguments.input
  let session ← Session.ofSource settings source
  answer session arguments.request

end Action

/-- Carries out a command line in a world, and tells the failure, if any, and the world after it. -/
def Arguments.execute (arguments : Arguments) (userSettings : String) (world : World) :
    Except Failure Unit × World :=
  (Action.ofArguments arguments userSettings).run.run world

end StructuralModel
