import Placement.Decimal.Numeral
import Placement.Search.Strategy

/-!
# Arguments

What the words of a command line ask for. Each command knows some options, all of which take a
value, as the next word or joined to the option; an option is given once at most. A request for the
version or for help counts as soon as it is met, a fault in what stands before it having been met
first.
-/

namespace Placement

/-! ### Commands -/

/-- Settings given on the command line, which count before those in a file. -/
structure Overrides where
  strategy : Option Strategy := none
  seed : Option UInt64 := none
  deadlineSecs : Option UInt64 := none

inductive Command where
  | solve (plan : String) (settings : Option String) (overrides : Overrides)
  | validate (plan : String)
  | initSettings (path : String)
  /-- The version of the program or of one of its commands. -/
  | version (name : String)
  | help

/-! ### Options -/

structure CommandOption where
  long : String
  short : Option Char
  accepts : String → Bool

/-- A word of 64 bits in decimal digits, perhaps behind a plus sign. -/
def wordOfText? (s : String) : Option UInt64 :=
  let ds := match s.toList with
    | '+' :: ds => ds
    | ds => ds
  let n := Decimal.digitsValue 0 ds
  if ds ≠ [] ∧ ds.all Char.isDigit ∧ n < UInt64.size then some (UInt64.ofNat n) else none

namespace CommandOption

def path (long : String) (short : Char) : CommandOption :=
  { long, short := some short, accepts := fun s => s != "" }

def word (long : String) : CommandOption :=
  { long, short := none, accepts := fun s => (wordOfText? s).isSome }

def plan : CommandOption := path "plan" 'p'

def settings : CommandOption := path "config" 'c'

def target : CommandOption := path "path" 'p'

def strategy : CommandOption :=
  { long := "strategy", short := none, accepts := fun s => (Strategy.ofOption? s).isSome }

def seed : CommandOption := word "seed"

def deadlineSecs : CommandOption := word "deadline-secs"

end CommandOption

/-! ### Words -/

/-- What one word of a command line is, seen by itself. -/
inductive Word where
  | version
  | help
  /-- An option, with the value joined to it if there is one. -/
  | option (o : CommandOption) (value : Option (List Char))
  /-- The end of the options. -/
  | separator
  | other

/-- A name behind two dashes and the value behind an equality sign. -/
def longWord (os : List CommandOption) (cs : List Char) : Word :=
  let name := String.ofList (cs.takeWhile (· != '='))
  match cs.dropWhile (· != '='), os.find? (·.long == name) with
  | [], some o => .option o none
  | _ :: value, some o => .option o (some value)
  | [], none => if name = "version" then .version else if name = "help" then .help else .other
  | _, none => .other

/-- A letter behind one dash and the value behind it, perhaps after an equality sign. -/
def shortWord (os : List CommandOption) (c : Char) (cs : List Char) : Word :=
  match os.find? (·.short == some c) with
  | some o =>
    match cs with
    | [] => .option o none
    | '=' :: value => .option o (some value)
    | value => .option o (some value)
  | none => if c = 'V' then .version else if c = 'h' then .help else .other

def wordOf (os : List CommandOption) (s : String) : Word :=
  match s.toList with
  | ['-', '-'] => .separator
  | '-' :: '-' :: cs => longWord os cs
  | '-' :: c :: cs => shortWord os c cs
  | _ => .other

/-- The word can be the value of the option before it. -/
def isValue (s : String) : Bool :=
  match s.toList with
  | '-' :: _ :: _ => false
  | _ => true

/-! ### Reading options -/

/-- Why the words are no options with values. -/
inductive Interruption where
  | misuse
  | version
  | help
  deriving DecidableEq, Repr

/-- The values given to options, by the long names. -/
abbrev GivenOptions := List (String × String)

/-- Notes a value, unless the option has one already or does not take this one. -/
def give (given : GivenOptions) (o : CommandOption) (value : String) :
    Except Interruption GivenOptions :=
  if (given.lookup o.long).isSome || !o.accepts value then .error .misuse
  else .ok ((o.long, value) :: given)

def readOptions (os : List CommandOption) (given : GivenOptions) :
    List String → Except Interruption GivenOptions
  | [] => .ok given
  | [s] =>
    match wordOf os s with
    | .version => .error .version
    | .help => .error .help
    | .option o (some value) => give given o (String.ofList value)
    | .separator => .ok given
    | _ => .error .misuse
  | s :: t :: rest =>
    match wordOf os s with
    | .version => .error .version
    | .help => .error .help
    | .option o (some value) => do
      let given ← give given o (String.ofList value)
      readOptions os given (t :: rest)
    | .option o none => do
      if !isValue t then throw .misuse
      let given ← give given o t
      readOptions os given rest
    | _ => .error .misuse

/-- The value of an option that must be given. -/
def demanded (given : GivenOptions) (o : CommandOption) : Except Interruption String :=
  match given.lookup o.long with
  | some s => .ok s
  | none => .error .misuse

/-! ### Reading commands -/

namespace Command

def programName : String := "homing"

def readSolve (words : List String) : Except Interruption Command := do
  let given ← readOptions [.plan, .settings, .strategy, .seed, .deadlineSecs] [] words
  let plan ← demanded given .plan
  let value (o : CommandOption) := given.lookup o.long
  return .solve plan (value .settings)
    { strategy := (value .strategy).bind Strategy.ofOption?
      seed := (value .seed).bind wordOfText?
      deadlineSecs := (value .deadlineSecs).bind wordOfText? }

def readValidate (words : List String) : Except Interruption Command := do
  let given ← readOptions [.plan] [] words
  return .validate (← demanded given .plan)

def readInit (words : List String) : Except Interruption Command := do
  let given ← readOptions [.target] [] words
  return .initSettings ((given.lookup CommandOption.target.long).getD "homing.toml")

/-- The command that words ask for, requests for the version and for help among them. -/
def orInterruption (name : String) (read : Except Interruption Command) : Option Command :=
  match read with
  | .ok c => some c
  | .error .version => some (.version name)
  | .error .help => some .help
  | .error .misuse => none

def names : List String := ["solve", "validate", "init-config", "help"]

/-- Help may be asked for one command. -/
def readHelp (words : List String) : Option Command :=
  match words with
  | [] => some .help
  | [s] => if s ∈ names then some .help else none
  | _ => none

/-- The command that a command line asks for; a misuse asks for nothing. -/
def ofWords? (words : List String) : Option Command :=
  match words with
  | [] => none
  | s :: rest =>
    if s = "solve" then orInterruption (programName ++ "-solve") (readSolve rest)
    else if s = "validate" then orInterruption (programName ++ "-validate") (readValidate rest)
    else if s = "init-config" then orInterruption (programName ++ "-init-config") (readInit rest)
    else if s = "help" then readHelp rest
    else
      match wordOf [] s with
      | .version => some (.version programName)
      | .help => some .help
      | _ => none

end Command

end Placement
