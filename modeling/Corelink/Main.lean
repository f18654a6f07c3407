import Corelink.CommandLine.Run

/-!
# The program

Reads the words of the command line, the environment and the files that a run can look
at, runs, and does what the run came to: prints, reports, writes the file that was asked
for. No transport is linked in, so Core is out of reach, as on a host without a route.
-/

namespace Corelink

open CommandLine Rehearsal

/-- The files that a run can look at. -/
def readPaths (words : List String) (configHome home : Option String) : List String :=
  match parse words with
  | .ok i => i.config.toList ++ Settings.usualPlaces configHome home
  | .error _ => []

/-- The file that a run can write. -/
def writtenPath? (words : List String) : Option String :=
  match parse words with
  | .ok { command := .config true output, .. } => output
  | _ => none

/-- Puts a file of the host into the tree, if it is there. -/
def snapshot (t : FileTree) (path : String) : IO FileTree := do
  let parents := (t.makeParents path).2
  try
    let content ← IO.FS.readBinFile path
    return (parents.write path content.toList).2
  catch
    | .noFileOrDirectory .. => return t
    | .inappropriateType .. => return (parents.makeDirectories path).2
    | e => throw e

/-- One run of the program, with its exit code. -/
def program (words : List String) : IO UInt32 := do
  let configHome ← IO.getEnv "XDG_CONFIG_HOME"
  let home ← IO.getEnv "HOME"
  let overrides : Overrides :=
    { host := ← IO.getEnv Overrides.hostVariable, port := ← IO.getEnv Overrides.portVariable }
  let here := (← IO.currentDir).toString
  let start := (FileTree.empty ((Path.body here).filter (!Path.idle ·))).makeDirectories here |>.2
  let found ← (readPaths words configHome home).foldlM snapshot start
  let tree := match writtenPath? words with
    | some path => (found.makeParents path).2
    | none => found
  let ending := run
    { overrides, configHome, home, tree
      core := fun settings => { settings, route := .unreachable, core := {} } } words
  if let some path := writtenPath? words then
    if let .ok content := ending.tree.read path then
      IO.FS.writeBinFile path (ByteArray.mk content.toArray)
  IO.print ending.stdout
  if let some e := ending.error then IO.eprintln ("Error: " ++ e)
  return UInt32.ofNat ending.exitCode

end Corelink

def main (words : List String) : IO UInt32 :=
  Corelink.program words
