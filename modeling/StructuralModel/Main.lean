import StructuralModel.Command.Execution

/-! The program: files, environment and streams around the carrying out of a command line. -/

namespace StructuralModel.Program

def contentOf? (path : String) : IO (Option (String × String)) := do
  try return some (path, ← IO.FS.readFile path) catch _ => return none

def isThere (path : String) : IO Bool := do
  try (← IO.FS.realPath path).pathExists catch _ => return false

def isDirectory (path : String) : IO Bool := do
  try (← IO.FS.realPath path).isDir catch _ => return false

def userSettings : IO String := do
  let home := (← IO.getEnv "HOME").getD ""
  let directory := (← IO.getEnv "XDG_CONFIG_HOME").getD (home ++ "/.config")
  return directory ++ "/partscope/config.toml"

/-- The files and directories that a command line can refer to. -/
def worldOf (arguments : Arguments) (userSettings : String) : IO World := do
  let paths := arguments.config?.toList ++ [Action.localSettings, userSettings, arguments.input]
  let files ← paths.filterMapM contentOf?
  let unreadable ← (paths.filter fun path => (files.lookup path).isNone).filterM isThere
  let outputs := arguments.request.output?.toList
  let directories ← (outputs ++ outputs.map World.directoryOf).filterM isDirectory
  return { files, directories := "" :: directories, unreadable }

def showNotice (notice : Notice) : IO Unit := do
  let code := match notice.code? with
    | some code => "[" ++ code ++ "] "
    | none => ""
  IO.eprintln (code ++ notice.message)
  for label in notice.labels do
    IO.eprintln ("  " ++ toString label.span.start ++ ".." ++ toString label.span.stop ++ ": " ++
      label.message)
  if let some help := notice.help? then
    IO.eprintln ("  help: " ++ help)

def run (arguments : Arguments) : IO UInt32 := do
  let userSettings ← userSettings
  let before ← worldOf arguments userSettings
  let (outcome, after) := arguments.execute userSettings before
  for (path, content) in after.files do
    if before.file? path != some content then
      IO.FS.writeFile path content
  IO.print after.printed
  match outcome with
  | .ok () => return 0
  | .error failure =>
    failure.notices.forM showNotice
    return 1

end StructuralModel.Program

def main (words : List String) : IO UInt32 := do
  match StructuralModel.Arguments.ofWords words with
  | .ok arguments => StructuralModel.Program.run arguments
  | .error .helpRequested =>
    IO.println StructuralModel.UsageError.helpRequested.message
    return 0
  | .error .versionRequested =>
    IO.println StructuralModel.UsageError.versionRequested.message
    return 0
  | .error error =>
    IO.eprintln error.message
    return 2
