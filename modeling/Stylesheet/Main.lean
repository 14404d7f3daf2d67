import Stylesheet.CommandLine

/-!
# The program

Reads the files that a run asks for, and writes what its outcome says. A run is not started before
all files that it may ask for have been read.
-/

namespace Stylesheet.Program

def accessFault : IO.Error → AccessFault
  | .noFileOrDirectory _ _ _ => .notFound
  | .inappropriateType none _ _ => .isFolder
  | .inappropriateType (some _) _ _ => .notAFolder
  | .invalidArgument _ _ _ => .nameTooLong
  | _ => .denied

def readFile (path : String) : IO (Except AccessFault (List UInt8)) := do
  if path.contains '\x00' then pure (.error .holdsNul)
  else
    try
      let bytes ← IO.FS.readBinFile path
      pure (.ok bytes.toList)
    catch e => pure (.error (accessFault e))

/-- Everything that a run asks for, read until it asks for nothing new. -/
partial def gather (texts : List String) (known : List (String × Except AccessFault (List UInt8))) :
    IO Disk := do
  let disk := Disk.ofKnown known
  let paths := known.map (·.1)
  match (CommandLine.asked disk paths texts).find? fun path => !paths.contains path with
  | none => pure disk
  | some path => gather texts ((path, ← readFile path) :: known)

end Stylesheet.Program

open Stylesheet in
/-- Runs the program with the arguments of the command line. -/
def main (texts : List String) : IO UInt32 := do
  let outcome := CommandLine.run (← Program.gather texts []) texts
  IO.print outcome.output
  IO.eprint outcome.errors
  if let some (path, text) := outcome.written then
    IO.FS.writeFile path text
  pure outcome.ending.code.toUInt32
