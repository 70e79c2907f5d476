/-
The command line: the files of a directory are read, the check runs on them, and its report is
printed.
-/
import TypedTemplate.Check

namespace TypedTemplate.CommandLine

/-- A path without `..`, which depends on what is there. -/
def settled (path : String) : IO String := do
  if (Path.components path).contains .up then
    try
      return (← IO.FS.realPath path).toString
    catch _ => return path
  else return path

/-- The text of a file, if there is one. -/
def readText (path : String) : IO (Option String) := do
  try
    return String.fromUTF8? (← IO.FS.readBinFile path)
  catch _ => return none

/-- The files below a directory, by their paths from there. -/
partial def collect (root path : String) : IO (List (String × Option String)) := do
  try
    let dir ← IO.FS.realPath (Path.join root path)
    let entries ← dir.readDir
    let found ← entries.toList.mapM fun entry => do
      let below := if path.isEmpty then entry.fileName else path ++ "/" ++ entry.fileName
      match (← entry.path.symlinkMetadata).type with
      | .dir => collect root below
      | .file => return [(below, ← readText (Path.join root below))]
      | _ => return []
    return found.flatten
  catch _ => return []

/-- The files that a check may look at: those below the directory, and those named by arguments. -/
def load (root : String) (named : List String) : IO FileTree := do
  let inside ← collect root ""
  let texts ← named.mapM fun path => do return (path, ← readText path)
  return .ofFiles root (inside ++ texts.filter (·.2.isSome))

/-- Runs a check with arguments that were understood. -/
def check (args : Arguments) : IO UInt32 := do
  let current := (← IO.currentDir).toString
  let root ← settled (Path.join current args.workspace)
  let config ← args.config.mapM fun path => settled (Path.join root path)
  let diagnostics ← args.diagnostics.mapM fun path => settled (Path.join current path)
  let tree ← load root (config.toList ++ diagnostics.toList)
  match Check.run tree current { args with workspace := root, config, diagnostics } with
  | .error e =>
    IO.eprintln e.message
    return 1
  | .ok result =>
    IO.eprint result.errorOutput
    IO.print result.output
    return if result.summary.failed then 1 else 0

end TypedTemplate.CommandLine

open TypedTemplate in
def main (args : List String) : IO UInt32 := do
  match Arguments.parse args with
  | .ok args => CommandLine.check args
  | .error e =>
    if e.isAsked then
      IO.println e.message
      return 0
    else
      IO.eprintln e.message
      return 2
