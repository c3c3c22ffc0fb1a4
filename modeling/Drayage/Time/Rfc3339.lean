import Drayage.Time.Instant
import Drayage.Text.Blank

/-!
# Instants as text

Instants are written in UTC as RFC 3339 has it, with as many digits of the second in
groups of three as it takes. They are read with any offset and with some leniency:
blanks around the numbers, fewer digits than usual, `UTC` for the offset.
-/

namespace Drayage.Instant

def pad (width n : Nat) : List Char :=
  let ds := Nat.toDigits 10 n
  List.replicate (width - ds.length) '0' ++ ds

/-- Years outside 0 to 9999 carry a sign. -/
def printYear (y : Int) : List Char :=
  if 0 ≤ y ∧ y ≤ 9999 then pad 4 y.toNat
  else (if y < 0 then '-' else '+') :: pad 4 y.natAbs

/-- A fraction of a second in no digits, 3, 6 or 9. -/
def printFraction (nanos : Nat) : List Char :=
  if nanos = 0 then []
  else if nanos % 1000000 = 0 then '.' :: pad 3 (nanos / 1000000)
  else if nanos % 1000 = 0 then '.' :: pad 6 (nanos / 1000)
  else '.' :: pad 9 nanos

def printDate (d : Date) : List Char :=
  printYear d.year ++ '-' :: pad 2 d.month ++ '-' :: pad 2 d.day

def printWith (fraction : Nat → List Char) (t : Instant) : List Char :=
  let day := t.seconds / 86400
  let second := (t.seconds % 86400).toNat
  let leap := 10 ^ 9 ≤ t.nanos
  printDate (Date.ofDayNumber day)
    ++ 'T' :: pad 2 (second / 3600)
    ++ ':' :: pad 2 (second / 60 % 60)
    ++ ':' :: pad 2 (second % 60 + if leap then 1 else 0)
    ++ fraction (if leap then t.nanos - 10 ^ 9 else t.nanos)
    ++ ['Z']

def print (t : Instant) : String := String.ofList (t.printWith printFraction)

def printSeconds (t : Instant) : String := String.ofList (t.printWith fun _ => [])

def isDigit (c : Char) : Bool := '0' ≤ c && c ≤ '9'

def value (ds : List Char) : Nat := ds.foldl (fun n d => n * 10 + (d.toNat - '0'.toNat)) 0

/-- A number of one to `width` digits, after blanks. -/
def number? (width : Nat) (cs : List Char) : Option (Nat × List Char) :=
  let cs := Text.trimStart cs
  let ds := (cs.take width).takeWhile isDigit
  if ds.isEmpty then none else some (value ds, cs.drop ds.length)

/-- A year: up to four digits, or a sign and any number of them. -/
def year? (cs : List Char) : Option (Int × List Char) :=
  let cs := Text.trimStart cs
  match cs with
  | '-' :: rest => do
    guard (rest.head?.any isDigit)
    let (n, rest) ← number? rest.length rest
    return (-(n : Int), rest)
  | '+' :: rest => do
    guard (rest.head?.any isDigit)
    let (n, rest) ← number? rest.length rest
    return ((n : Int), rest)
  | cs => (number? 4 cs).map fun (n, rest) => ((n : Int), rest)

def mark? (c : Char) (cs : List Char) : Option (List Char) :=
  match Text.trimStart cs with
  | d :: rest => if c = d then some rest else none
  | [] => none

/-- The fraction of a second in nanoseconds. Digits after the ninth do not count. -/
def fraction? : List Char → Option (Nat × List Char)
  | '.' :: cs =>
    let ds := (cs.take 9).takeWhile isDigit
    if ds.isEmpty then none
    else some (value ds * 10 ^ (9 - ds.length), (cs.drop ds.length).dropWhile isDigit)
  | cs => some (0, cs)

def twoDigits? (top : Char) : List Char → Option (Nat × List Char)
  | a :: b :: rest =>
    if isDigit a && a ≤ top && isDigit b then some (value [a, b], rest) else none
  | _ => none

def offset? (cs : List Char) : Option (Int × List Char) :=
  match cs with
  | 'Z' :: rest | 'z' :: rest => some (0, rest)
  | sign :: rest => do
    let negative ←
      if sign = '+' then some false
      else if sign = '-' || sign = '−' then some true
      else none
    let (hours, rest) ← twoDigits? '9' rest
    let rest := rest.dropWhile fun c => c = ':' || Text.isBlank c
    let (minutes, rest) ← twoDigits? '5' rest
    let seconds : Int := hours * 3600 + minutes * 60
    guard (seconds < 86400)
    return (if negative then -seconds else seconds, rest)
  | [] => none

/-- `UTC` in any case stands for no offset. -/
def zone? : List Char → Option (Int × List Char)
  | a :: b :: c :: rest =>
    if (a = 'U' || a = 'u') && (b = 'T' || b = 't') && (c = 'C' || c = 'c') then some (0, rest)
    else offset? (a :: b :: c :: rest)
  | cs => offset? cs

def parse? (s : String) : Option Instant := do
  let (year, cs) ← year? s.toList
  let cs ← mark? '-' cs
  let (month, cs) ← number? 2 cs
  let cs ← mark? '-' cs
  let (day, cs) ← number? 2 cs
  let cs ← match cs with
    | 'T' :: cs | 't' :: cs | ' ' :: cs => some cs
    | _ => none
  let (hour, cs) ← number? 2 cs
  let cs ← mark? ':' cs
  let (minute, cs) ← number? 2 cs
  let cs ← mark? ':' cs
  let (second, cs) ← number? 2 cs
  let (nanos, cs) ← fraction? cs
  let (offset, cs) ← zone? (Text.trimStart cs)
  guard (Text.trimStart cs).isEmpty
  let date : Date := ⟨year, month, day⟩
  guard (date.valid && hour ≤ 23 && minute ≤ 59 && second ≤ 60)
  let leap := second = 60
  let inDay : Int := hour * 3600 + minute * 60 + (if leap then 59 else second)
  let t : Instant :=
    ⟨date.dayNumber * 86400 + inDay - offset, if leap then nanos + 10 ^ 9 else nanos⟩
  guard (earliest ≤ t.seconds * 10 ^ 9 && t.seconds * 10 ^ 9 ≤ latest)
  return t

end Drayage.Instant
