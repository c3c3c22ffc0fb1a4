import Drayage.Json.Integer
import Drayage.Number.Decimal
import Drayage.Toml.Text

/-!
# Numbers, truth values and dates in TOML

All of them are words of letters, digits and a few signs, so a word is cut out of the text
first. Dates are texts in their standard form.
-/

namespace Drayage.Toml

def isWordPart (c : Char) : Bool :=
  c.isAlphanum || c == '+' || c == '-' || c == '_' || c == '.' || c == ':'

/-- The digits of a number, among which single underlines may stand. -/
def digits? (isDigit : Char → Bool) : List Char → Option (List Char)
  | [] => none
  | [d] => if isDigit d then some [d] else none
  | d :: '_' :: ds => if isDigit d then (digits? isDigit ds).map (d :: ·) else none
  | d :: ds => if isDigit d then (digits? isDigit ds).map (d :: ·) else none

/-- The digits of a decimal number, which has no zeros before it. -/
def decimal? (cs : List Char) : Option (List Char) :=
  (digits? Char.isDigit cs).filter fun ds => ds.length = 1 || ds.head? != some '0'

def natural (base : Nat) (ds : List Char) : Nat := (Number.naturalIn? base ds).getD 0

/-- An integer of 64 bits with a sign; only decimal ones are written with one. -/
def integer? (cs : List Char) : Option Number :=
  match cs with
  | '0' :: 'x' :: ds => based 16 ds
  | '0' :: 'o' :: ds => based 8 ds
  | '0' :: 'b' :: ds => based 2 ds
  | cs => do
    let (negative, ds) := Number.sign cs
    Number.integer? negative (natural 10 (← decimal? ds))
where
  based (base : Nat) (ds : List Char) : Option Number := do
    let ds ← digits? (fun c => (Number.digitIn? base c).isSome) ds
    Number.integer? false (natural base ds)

/-- A number with a point or an exponent. Those too large are refused, unless they are
negative. -/
def float? (cs : List Char) : Option Binary64 := do
  let (negative, cs) := Number.sign cs
  match String.ofList cs with
  | "inf" => return if negative then Binary64.infinity.negate else Binary64.infinity
  | "nan" => return if negative then Binary64.nan.negate else Binary64.nan
  | _ =>
    let isMark (c : Char) : Bool := c == '.' || c == 'e' || c == 'E'
    let whole ← decimal? (cs.takeWhile (!isMark ·))
    let (fraction, cs) ← match cs.dropWhile (!isMark ·) with
      | '.' :: cs => do
        let fraction ← digits? Char.isDigit (cs.takeWhile (!isMark ·))
        some (fraction, cs.dropWhile (!isMark ·))
      | [] => none
      | cs => some ([], cs)
    let e ← match cs with
      | [] => some 0
      | c :: cs =>
        if c == '.' then none
        else do
          let (down, ds) := Number.sign cs
          let n : Int := natural 10 (← digits? Char.isDigit ds)
          some (if down then -n else n)
    let ds := whole ++ fraction
    let x := Binary64.ofDigits (natural 10 ds) ds.length (e - fraction.length)
    if negative then return x.negate
    else if x.isInfinite then none
    else return x

/-! ## Dates -/

def field? (width : Nat) (cs : List Char) : Option (Nat × List Char) :=
  let ds := cs.take width
  if ds.length = width && ds.all Char.isDigit then some (natural 10 ds, cs.drop width) else none

def expect? (c : Char) : List Char → Option (List Char)
  | d :: cs => if c == d then some cs else none
  | [] => none

def isLeapYear (y : Nat) : Bool := y % 4 = 0 && (y % 100 ≠ 0 || y % 400 = 0)

def daysIn (year month : Nat) : Nat :=
  if month = 2 then if isLeapYear year then 29 else 28
  else if [4, 6, 9, 11].contains month then 30 else 31

def before (cs rest : List Char) : List Char := cs.take (cs.length - rest.length)

/-- A date, which is already in its standard form, and what follows it. -/
def date? (cs : List Char) : Option (List Char × List Char) := do
  let (year, rest) ← field? 4 cs
  let (month, rest) ← field? 2 (← expect? '-' rest)
  let (day, rest) ← field? 2 (← expect? '-' rest)
  if 1 ≤ month ∧ month ≤ 12 ∧ 1 ≤ day ∧ day ≤ daysIn year month then
    return (before cs rest, rest)
  else none

/-- The fraction of a second: nine digits, without the zeros at their end. -/
def fraction? (cs : List Char) : Option (List Char × List Char) :=
  match cs with
  | '.' :: cs =>
    let ds := cs.takeWhile Char.isDigit
    let kept := ((ds.take 9).reverse.dropWhile (· == '0')).reverse
    if ds.isEmpty then none
    else some (if kept.isEmpty then [] else '.' :: kept, cs.drop ds.length)
  | cs => some ([], cs)

def time? (cs : List Char) : Option (List Char × List Char) := do
  let (hour, rest) ← field? 2 cs
  let (minute, rest) ← field? 2 (← expect? ':' rest)
  let (second, rest) ← field? 2 (← expect? ':' rest)
  let (fraction, after) ← fraction? rest
  if hour < 24 ∧ minute < 60 ∧ second ≤ 60 then return (before cs rest ++ fraction, after)
  else none

def offset? (cs : List Char) : Option (List Char) :=
  match cs with
  | [] => some []
  | ['Z'] | ['z'] => some ['Z']
  | _ => do
    let (back, rest) ← match cs with
      | '+' :: rest => some (false, rest)
      | '-' :: rest => some (true, rest)
      | _ => none
    let (hour, after) ← field? 2 rest
    let (minute, after) ← field? 2 (← expect? ':' after)
    let mark := if back && (hour ≠ 0 || minute ≠ 0) then '-' else '+'
    if hour < 24 ∧ minute < 60 ∧ after.isEmpty then return mark :: rest else none

def timeAndOffset? (cs : List Char) : Option (List Char) := do
  let (time, rest) ← time? cs
  return time ++ (← offset? rest)

/-- A date with its time, or one of the two. -/
def moment? (cs : List Char) : Option String :=
  match date? cs with
  | some (date, []) => some (String.ofList date)
  | some (date, c :: rest) =>
    if c == 'T' || c == 't' || c == ' ' then
      (timeAndOffset? rest).map fun time => String.ofList (date ++ 'T' :: time)
    else none
  | none =>
    match time? cs with
    | some (time, []) => some (String.ofList time)
    | _ => none

/-- The word at the start of a text. The time after a date may follow a single blank. -/
def word (cs : List Char) : List Char × List Char :=
  let first := cs.takeWhile isWordPart
  let rest := cs.drop first.length
  match date? first, rest with
  | some (_, []), ' ' :: d :: more =>
    if d.isDigit then
      let second := (d :: more).takeWhile isWordPart
      (first ++ ' ' :: second, (d :: more).drop second.length)
    else (first, rest)
  | _, _ => (first, rest)

def scalar? (cs : List Char) : Option Json :=
  if cs == "true".toList then some (.bool true)
  else if cs == "false".toList then some (.bool false)
  else ((moment? cs).map .text).or
    (((float? cs).map fun x => .number (.real x)).or ((integer? cs).map .number))

end Drayage.Toml
