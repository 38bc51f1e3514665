import Aggregation.Command.Run

/-!
# The command line

Reads the files that a command names, runs the command on them, and writes what
it leaves behind.
-/

namespace Aggregation.CommandLine

/-- The files of a directory that may hold definitions; of its directories only
the names. -/
def readDirectory (path : String) : IO FileTree := do
  let entries ← ((← IO.currentDir) / path).readDir
  let parts ← entries.toList.filterMapM fun entry => do
    if ← entry.path.isDir then pure (some (entry.fileName, FileTree.empty))
    else if (DefinitionFormat.ofPath? entry.fileName).isNone then pure none
    else
      try
        let bytes ← IO.FS.readBinFile entry.path
        pure (some (entry.fileName, .file bytes.toList))
      catch _ => pure none
  pure (.directory parts)

/-- What stands at a path, if it can be read. -/
def readPart? (path : String) : IO (Option FileTree) := do
  try
    let bytes ← IO.FS.readBinFile path
    pure (some (.file bytes.toList))
  catch _ =>
    try some <$> readDirectory path catch _ => pure none

/-- Adds what stands at a path to the tree of what has been read. -/
def gather (base : List String) (tree : FileTree) (path : String) :
    IO FileTree := do
  match ← readPart? path with
  | some part => pure (FileTree.put part (Path.resolve base path) tree)
  | none => pure tree

/-- The files that a command needs: the definitions, its configuration and the
bindings. -/
def readFiles (command : Command) : IO Files := do
  let base := Path.resolve [] (← IO.currentDir).toString
  let seen (tree : FileTree) : Files := base.foldl Files.enter ⟨tree, []⟩
  let tree ←
    match Config.load (seen (← gather base .empty command.configPath))
        command.configPath with
    | .ok config => gather base .empty config.aggregationsDir
    | .error _ => pure .empty
  let tree ← gather base tree command.configPath
  let tree ←
    match command.paramsPath? with
    | some path => gather base tree path
    | none => pure tree
  pure (seen tree)

/-- The level of the log, if there is a configuration. -/
def logLevel? (files : Files) (command : Command) : Option Level :=
  match Config.load files command.configPath with
  | .ok config => config.level.toOption
  | .error _ => none

def usage : String :=
  "usage: validate [--config PATH]\n" ++
  "       list [--config PATH]\n" ++
  "       compile [--config PATH] --name NAME [--params PATH]\n"

def execute (command : Command) : IO UInt32 := do
  let files ← readFiles command
  let (result, events) := command.run files
  if let some level := logLevel? files command then
    (events.filter (·.isShown level)).forM fun event => IO.eprintln event.line
  IO.print result.output
  IO.eprint result.errorText
  pure (UInt32.ofNat result.exitCode)

end Aggregation.CommandLine

open Aggregation in
def main (arguments : List String) : IO UInt32 := do
  match CommandLine.read arguments with
  | .ok command => CommandLine.execute command
  | .error fault =>
    if fault.exitCode = 0 then IO.print CommandLine.usage
      else IO.eprint CommandLine.usage
    pure (UInt32.ofNat fault.exitCode)
