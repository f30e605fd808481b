import Placement.Decimal.Numeral

/-!
# Moments

Days, times of day and both together, in the fixed-width form in which data files write them:
`1979-05-27`, `07:32:00.5`, `1979-05-27T07:32:00-08:00`.
-/

namespace Placement

structure Day where
  year : Nat
  month : Nat
  day : Nat
  deriving DecidableEq, Repr

structure TimeOfDay where
  hour : Nat
  minute : Nat
  second : Nat
  nanosecond : Nat
  deriving DecidableEq, Repr

inductive Moment where
  | date (d : Day)
  | time (t : TimeOfDay)
  /-- A time on a day; its distance from universal time, in minutes, may be left open. -/
  | instant (d : Day) (t : TimeOfDay) (offset : Option Int)
  deriving DecidableEq, Repr

namespace Moment

def isLeapYear (year : Nat) : Bool := year % 4 == 0 && (year % 100 != 0 || year % 400 == 0)

def daysIn (year month : Nat) : Nat :=
  if month = 2 then if isLeapYear year then 29 else 28
  else if month = 4 ∨ month = 6 ∨ month = 9 ∨ month = 11 then 30
  else 31

/-- A number of exactly `n` digits, and what follows it. -/
def fixed? (n : Nat) (cs : List Char) : Option (Nat × List Char) :=
  let ds := cs.take n
  if ds.length = n ∧ ds.all Char.isDigit then some (Decimal.digitsValue 0 ds, cs.drop n) else none

/-- What follows a given character. -/
def behind? (c : Char) : List Char → Option (List Char)
  | [] => none
  | d :: cs => if d = c then some cs else none

def day? (cs : List Char) : Option (Day × List Char) := do
  let (year, cs) ← fixed? 4 cs
  let cs ← behind? '-' cs
  let (month, cs) ← fixed? 2 cs
  let cs ← behind? '-' cs
  let (day, cs) ← fixed? 2 cs
  if 1 ≤ month ∧ month ≤ 12 ∧ 1 ≤ day ∧ day ≤ daysIn year month then some ({ year, month, day }, cs)
  else none

/-- Hours and minutes. -/
def hourMinute? (cs : List Char) : Option (Nat × Nat × List Char) := do
  let (hour, cs) ← fixed? 2 cs
  let cs ← behind? ':' cs
  let (minute, cs) ← fixed? 2 cs
  if hour ≤ 23 ∧ minute ≤ 59 then some (hour, minute, cs) else none

/-- A fraction of a second in nanoseconds; digits beyond the ninth are dropped. -/
def nanoseconds (cs : List Char) : Nat × List Char :=
  match cs with
  | '.' :: rest =>
    match Decimal.spanDigits rest with
    | ([], _) => (0, cs)
    | (ds, rest) => (Decimal.digitsValue 0 ((ds ++ List.replicate 9 '0').take 9), rest)
  | _ => (0, cs)

/-- The second 60 is a leap second. -/
def timeOfDay? (cs : List Char) : Option (TimeOfDay × List Char) := do
  let (hour, minute, cs) ← hourMinute? cs
  let cs ← behind? ':' cs
  let (second, cs) ← fixed? 2 cs
  let (nanosecond, cs) := nanoseconds cs
  if second ≤ 60 then some ({ hour, minute, second, nanosecond }, cs) else none

def offset? (cs : List Char) : Option (Int × List Char) :=
  match cs with
  | 'Z' :: cs => some (0, cs)
  | 'z' :: cs => some (0, cs)
  | '+' :: cs => (hourMinute? cs).map fun (h, m, cs) => (60 * h + m, cs)
  | '-' :: cs => (hourMinute? cs).map fun (h, m, cs) => (-(60 * h + m), cs)
  | _ => none

/-- A time of day behind the letter or the blank that parts it from its day. -/
def timeOnDay? (cs : List Char) : Option (TimeOfDay × List Char) :=
  match cs with
  | 'T' :: cs => timeOfDay? cs
  | 't' :: cs => timeOfDay? cs
  | ' ' :: cs => timeOfDay? cs
  | _ => none

/-- The longest moment at the front of a text, and what follows it. -/
def ofChars? (cs : List Char) : Option (Moment × List Char) :=
  match day? cs with
  | none => (timeOfDay? cs).map fun (t, cs) => (time t, cs)
  | some (d, cs) =>
    match timeOnDay? cs with
    | none => some (date d, cs)
    | some (t, cs) =>
      match offset? cs with
      | none => some (instant d t none, cs)
      | some (minutes, cs) => some (instant d t (some minutes), cs)

end Moment

end Placement
