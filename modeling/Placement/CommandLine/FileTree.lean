import Placement.CommandLine.Run

/-!
# Trees of files

A tree of files in memory, in which a command line can be run without touching other files. Paths
are walked name by name: a name is looked up in a directory, `.` is the directory itself and `..`
the one around it.
-/

namespace Placement

/-- The names on the way from the root to a file or a directory. -/
abbrev Place := List String

structure FileTree where
  directories : List Place
  files : List (Place × String)
  /-- The directory in which relative paths start. -/
  here : Place

namespace FileTree

/-! ### Paths -/

/-- The most bytes in a name. -/
def nameLimit : Nat := 255

/-- The most bytes in a path. -/
def pathLimit : Nat := 4095

/-- What stands between the slashes. -/
def parts : List Char → List (List Char)
  | [] => [[]]
  | c :: cs =>
    if c = '/' then [] :: parts cs
    else
      match parts cs with
      | [] => [[c]]
      | p :: ps => (c :: p) :: ps

def namesOf (path : String) : List String := ((parts path.toList).filter (· ≠ [])).map String.ofList

/-- A path that ends with a slash leads to a directory. -/
def endsWithSlash (path : String) : Bool := path.toList.getLast? == some '/'

def isDirectory (t : FileTree) (place : Place) : Bool := place == [] || t.directories.contains place

def holds (t : FileTree) (place : Place) : Bool :=
  t.isDirectory place || (t.files.lookup place).isSome

/-- One name further from a place. -/
def step (t : FileTree) (place : Place) (name : String) : Except FileFault Place :=
  if !t.isDirectory place then .error .notDirectory
  else if name = "." then .ok place
  else if name = ".." then .ok place.dropLast
  else if nameLimit < name.utf8ByteSize then .error .nameTooLong
  else if t.holds (place ++ [name]) then .ok (place ++ [name])
  else .error .missing

def walk (t : FileTree) (path : String) (names : List String) : Except FileFault Place :=
  if path = "" then .error .missing
  else if pathLimit < path.utf8ByteSize then .error .nameTooLong
  else names.foldlM t.step (if path.toList.head? = some '/' then [] else t.here)

/-- The place that a path leads to. -/
def locate (t : FileTree) (path : String) : Except FileFault Place :=
  t.walk path (if endsWithSlash path then namesOf path ++ ["."] else namesOf path)

/-! ### Reading and writing -/

def read (t : FileTree) (path : String) : Except FileFault String := do
  let place ← t.locate path
  match t.files.lookup place with
  | some text => .ok text
  | none => .error .isDirectory

/-- A file at a place, in directories that are made where there are none. -/
def add (t : FileTree) (place : Place) (text : String) : FileTree :=
  { t with
    directories :=
      t.directories ++ ((List.range place.length).map place.take).filter fun d => !t.isDirectory d
    files := (place, text) :: t.files.filter fun f => f.1 != place }

/-- Writes a file into a directory that is there. -/
def write (t : FileTree) (path content : String) : Except FileFault FileTree := do
  let names := namesOf path
  let place ← t.walk path names.dropLast
  match names.getLast? with
  | none => .error .isDirectory
  | some name =>
    if !t.isDirectory place then .error .notDirectory
    else if endsWithSlash path ∨ name = "." ∨ name = ".." then .error .isDirectory
    else if nameLimit < name.utf8ByteSize then .error .nameTooLong
    else if t.isDirectory (place ++ [name]) then .error .isDirectory
    else .ok (t.add (place ++ [name]) content)

def surroundings (t : FileTree) (entropy : UInt64) : Surroundings where
  read := t.read
  isTaken path := (t.locate path).isOk
  entropy := entropy

end FileTree

/-! ### Running a command line -/

/-- What a command line leaves behind. -/
structure Exit where
  code : Nat
  /-- On standard output. -/
  output : String
  /-- On standard error. -/
  complaint : String
  files : FileTree

namespace Exit

def success (output : String) (files : FileTree) : Exit :=
  { code := 0, output, complaint := "", files }

def failure (reason : String) (files : FileTree) : Exit :=
  { code := 1, output := "", complaint := "Error: " ++ reason ++ "\n", files }

end Exit

/-- Runs a command line in a tree of files. -/
def FileTree.run (t : FileTree) (entropy : UInt64) (words : List String) : Exit :=
  match Command.ofWords? words with
  | none => { code := 2, output := "", complaint := Command.usage, files := t }
  | some c =>
    match c.run (t.surroundings entropy) with
    | .printed text => .success text t
    | .failed reason => .failure reason t
    | .creates path content text =>
      match t.write path content with
      | .ok t => .success text t
      | .error f => .failure f.message t

end Placement
