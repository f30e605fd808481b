import Placement.Decimal.Layout

/-!
# Files around a command

What a command can ask about the files around it, and why a file may have no text.
-/

namespace Placement

/-- Why nothing can be read or written at a path. -/
inductive FileFault where
  | missing
  | notDirectory
  | isDirectory
  | nameTooLong
  /-- The bytes of a file are no text. -/
  | notText
  /-- Any other reason, with its number and its description. -/
  | other (code : Nat) (description : String)
  deriving DecidableEq, Repr

namespace FileFault

/-- The number that the system has for a fault, if it comes from there. -/
def code? : FileFault → Option Nat
  | missing => some 2
  | notDirectory => some 20
  | isDirectory => some 21
  | nameTooLong => some 36
  | notText => none
  | other code _ => some code

def description : FileFault → String
  | missing => "No such file or directory"
  | notDirectory => "Not a directory"
  | isDirectory => "Is a directory"
  | nameTooLong => "File name too long"
  | notText => "stream did not contain valid UTF-8"
  | other _ description => description

def message (f : FileFault) : String :=
  match f.code? with
  | some code => f.description ++ " (os error " ++ Decimal.wholeText code ++ ")"
  | none => f.description

/-- The fault with a number; the description counts only if there is no name for it. -/
def ofCode (code : Nat) (description : String) : FileFault :=
  ([missing, notDirectory, isDirectory, nameTooLong].find? fun f => f.code? == some code).getD
    (other code description)

end FileFault

/-- The files that a command may read, each with its text or the reason why it has none. -/
structure Surroundings where
  read : String → Except FileFault String
  isTaken : String → Bool
  /-- Where choices come from when no seed is set. -/
  entropy : UInt64

end Placement
