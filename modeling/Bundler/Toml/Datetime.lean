/-!
# Dates and times

A date, a time of day, or both, which may then have an offset. The month and the year bound the day,
a minute may have a leap second, and the seconds may be left out. `Datetime.text` is the normal form:
capital letters, and a fraction of at most nine digits without zeros at its end.
-/

namespace Bundler.Toml

structure Date where
  year : Nat
  month : Nat
  day : Nat
  deriving DecidableEq, Repr

structure Second where
  whole : Nat
  fraction : Option (List Char)
  deriving DecidableEq, Repr

structure Time where
  hour : Nat
  minute : Nat
  second : Option Second
  deriving DecidableEq, Repr

inductive Offset where
  | utc
  | east (minutes : Int)
  deriving DecidableEq, Repr

inductive Datetime where
  | date (d : Date)
  | time (t : Time)
  | both (d : Date) (t : Time) (offset : Option Offset)
  deriving DecidableEq, Repr

namespace Datetime

/-! ## Reading -/

/-- A number of exactly this many digits. -/
def readDigits (count : Nat) (s : List Char) : Option (Nat × List Char) :=
  let digits := s.take count
  if digits.length = count ∧ digits.all Char.isDigit then
    some (digits.foldl (fun n c => n * 10 + (c.toNat - 48)) 0, s.drop count)
  else none

def readChar (allowed : List Char) : List Char → Option (Char × List Char)
  | [] => none
  | c :: rest => if allowed.contains c then some (c, rest) else none

def isLeapYear (year : Nat) : Bool := year % 4 = 0 && (year % 100 ≠ 0 || year % 400 = 0)

def daysIn (year month : Nat) : Nat :=
  if month = 2 then if isLeapYear year then 29 else 28
  else if [4, 6, 9, 11].contains month then 30
  else 31

def readDate (s : List Char) : Option (Date × List Char) := do
  let (year, s) ← readDigits 4 s
  let (_, s) ← readChar ['-'] s
  let (month, s) ← readDigits 2 s
  let (_, s) ← readChar ['-'] s
  let (day, s) ← readDigits 2 s
  if 1 ≤ month ∧ month ≤ 12 ∧ 1 ≤ day ∧ day ≤ daysIn year month then return (⟨year, month, day⟩, s)
  none

def readFraction (s : List Char) : Option (Option (List Char) × List Char) :=
  match s with
  | '.' :: rest =>
    let digits := rest.takeWhile Char.isDigit
    if digits.isEmpty then none else some (some digits, rest.dropWhile Char.isDigit)
  | s => some (none, s)

def readSecond (s : List Char) : Option (Option Second × List Char) :=
  match s with
  | ':' :: rest => do
    let (whole, rest) ← readDigits 2 rest
    let (fraction, rest) ← readFraction rest
    if whole ≤ 60 then return (some ⟨whole, fraction⟩, rest)
    none
  | s => some (none, s)

def readClock (s : List Char) : Option (Nat × Nat × List Char) := do
  let (hour, s) ← readDigits 2 s
  let (_, s) ← readChar [':'] s
  let (minute, s) ← readDigits 2 s
  if hour ≤ 23 ∧ minute ≤ 59 then return (hour, minute, s)
  none

def readTime (s : List Char) : Option (Time × List Char) := do
  let (hour, minute, s) ← readClock s
  let (second, s) ← readSecond s
  return (⟨hour, minute, second⟩, s)

def readOffset (s : List Char) : Option (Option Offset × List Char) :=
  match s with
  | [] => some (none, [])
  | 'Z' :: rest | 'z' :: rest => some (some .utc, rest)
  | '+' :: rest => (readClock rest).map fun (h, m, r) => (some (.east (h * 60 + m)), r)
  | '-' :: rest => (readClock rest).map fun (h, m, r) => (some (.east (-(h * 60 + m))), r)
  | _ => none

/-- The date, time or both that the characters are, all of them. -/
def ofChars? (s : List Char) : Option Datetime :=
  match readDate s with
  | none => do
    let (t, []) ← readTime s | none
    return .time t
  | some (d, []) => some (.date d)
  | some (d, rest) => do
    let (_, rest) ← readChar ['T', 't', ' '] rest
    let (t, rest) ← readTime rest
    let (offset, []) ← readOffset rest | none
    return .both d t offset

/-! ## Normal form -/

def pad (width n : Nat) : List Char :=
  let digits := Nat.toDigits 10 n
  List.replicate (width - digits.length) '0' ++ digits

def dateText (d : Date) : List Char := pad 4 d.year ++ '-' :: pad 2 d.month ++ '-' :: pad 2 d.day

/-- Nanoseconds are the finest unit; a fraction that comes to nothing is one zero. -/
def fractionText (digits : List Char) : List Char :=
  match (digits.take 9).reverse.dropWhile (· == '0') with
  | [] => ['0']
  | significant => significant.reverse

def secondText (s : Second) : List Char :=
  ':' :: pad 2 s.whole ++ match s.fraction with
    | none => []
    | some digits => '.' :: fractionText digits

def timeText (t : Time) : List Char :=
  pad 2 t.hour ++ ':' :: pad 2 t.minute ++ (t.second.map secondText).getD []

def offsetText : Offset → List Char
  | .utc => ['Z']
  | .east minutes =>
    let n := minutes.natAbs
    (if minutes < 0 then '-' else '+') :: pad 2 (n / 60) ++ ':' :: pad 2 (n % 60)

def text : Datetime → String
  | .date d => String.ofList (dateText d)
  | .time t => String.ofList (timeText t)
  | .both d t offset =>
    String.ofList (dateText d ++ 'T' :: timeText t ++ (offset.map offsetText).getD [])

end Datetime

end Bundler.Toml
