import Placement.CommandLine.Run

/-!
# The program

Reads the files that a command names, runs the command, and writes what it ends with: results to
standard output, faults to standard error. The exit code is one for a failed command and two for a
misused command line.
-/

namespace Placement.Command

/-- A fault of the file system by its number, which may be given negated in 32 bits. -/
def faultOfCode (code : UInt32) (description : String) : FileFault :=
  .ofCode (min code.toNat (UInt32.size - code.toNat)) description

def faultOf? (e : IO.Error) : Option FileFault :=
  match e with
  | .noFileOrDirectory _ code description => some (faultOfCode code description)
  | .inappropriateType _ code description => some (faultOfCode code description)
  | .invalidArgument _ code description => some (faultOfCode code description)
  | .permissionDenied _ code description => some (faultOfCode code description)
  | .alreadyExists _ code description => some (faultOfCode code description)
  | .resourceExhausted _ code description => some (faultOfCode code description)
  | .noSuchThing _ code description => some (faultOfCode code description)
  | .otherError code description => some (faultOfCode code description)
  | _ => none

/-- A fault without a number is one of the text. -/
def faultOf (e : IO.Error) : FileFault := (faultOf? e).getD .notText

/-- What is found where a command looks for a file. -/
structure Found where
  path : String
  text : Except FileFault String
  isTaken : Bool

def look (path : String) : IO Found := do
  try
    let text ← IO.FS.readFile path
    return { path, text := .ok text, isTaken := true }
  catch e =>
    let fault := faultOf e
    return { path, text := .error fault, isTaken := fault = .isDirectory }

def surroundings (found : List Found) (entropy : UInt64) : Surroundings where
  read path := ((found.find? (·.path == path)).map Found.text).getD (.error .missing)
  isTaken path := found.any fun f => f.path == path && f.isTaken
  entropy := entropy

def finish (e : Ending) : IO UInt32 := do
  match e with
  | .printed text =>
    IO.print text
    return 0
  | .creates path content text =>
    IO.FS.writeFile path content
    IO.print text
    return 0
  | .failed reason =>
    IO.eprintln ("Error: " ++ reason)
    return 1

def execute (c : Command) : IO UInt32 := do
  let found ← c.paths.mapM look
  let entropy ← IO.monoNanosNow
  finish (c.run (surroundings found (UInt64.ofNat entropy)))

end Placement.Command

def main (words : List String) : IO UInt32 := do
  match Placement.Command.ofWords? words with
  | some c =>
    try
      c.execute
    catch e =>
      IO.eprintln ("Error: " ++ (Placement.Command.faultOf e).message)
      return 1
  | none =>
    IO.eprint Placement.Command.usage
    return 2
