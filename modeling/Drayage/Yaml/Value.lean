import Drayage.Json.Integer
import Drayage.Number.Decimal
import Drayage.Yaml.Node

/-!
# The values of a document

Plain scalars stand for nothing, truth values, numbers or texts. There are two conventions:
documents of data are strict, settings are lenient.
-/

namespace Drayage.Yaml

def base? : List Char → Option (Nat × List Char)
  | '0' :: 'x' :: cs => some (16, cs)
  | '0' :: 'o' :: cs => some (8, cs)
  | '0' :: 'b' :: cs => some (2, cs)
  | _ => none

/-- A zero before other digits makes a number a text. -/
def hasIdleZero : List Char → Bool
  | '0' :: d :: ds => (d :: ds).all Char.isDigit
  | _ => false

namespace Strict

def isNull (s : String) : Bool := ["", "~", "null", "Null", "NULL"].contains s

def bool? (s : String) : Option Bool :=
  if ["true", "True", "TRUE"].contains s then some true
  else if ["false", "False", "FALSE"].contains s then some false
  else none

def integer? (s : String) : Option (Bool × Nat) :=
  let (negative, cs) := Number.sign s.toList
  let n := match base? cs with
    | some (base, ds) => Number.naturalIn? base ds
    | none => if hasIdleZero cs then none else Number.naturalIn? 10 cs
  n.map (negative, ·)

def float? (s : String) : Option Binary64 :=
  let (negative, cs) := Number.sign s.toList
  let signed (x : Binary64) : Binary64 := if negative then x.negate else x
  match String.ofList cs with
  | ".inf" | ".Inf" | ".INF" => some (signed Binary64.infinity)
  | ".nan" | ".NaN" | ".NAN" => if s.startsWith "." then some Binary64.nan else none
  | _ =>
    if hasIdleZero cs then none
    else ((Binary64.unsigned? cs).filter Binary64.isFinite).map signed

/-- A plain scalar. An integer beyond 64 bits is refused. -/
def plain? (s : String) : Option Json :=
  if isNull s then some .null
  else match bool? s with
    | some b => some (.bool b)
    | none =>
      match integer? s with
      | some (negative, n) =>
        if if negative then 2 ^ 63 < n else 2 ^ 64 ≤ n then none
        else some (.number (Number.integer negative n))
      | none =>
        match float? s with
        | some x => some (.number (.real x))
        | none => some (.text s)

def tagged? (name s : String) : Option Json :=
  match name with
  | "bool" => (bool? s).map .bool
  | "int" => match integer? s, plain? s with
    | some _, j => j
    | none, _ => none
  | "float" => (float? s).map fun x => .number (.real x)
  | "null" => if isNull s then some .null else none
  | _ => some (.text s)

mutual

def value? : Node → Option Json
  | .scalar .none s plain => if plain then plain? s else some (.text s)
  | .scalar (.core name) s _ => tagged? name s
  | .list .other _ | .mapping .other _ | .scalar .other _ _ => none
  | .list _ items => (values? items).map .list
  | .mapping _ entries => (members? entries).map .record

def values? : List Node → Option (List Json)
  | [] => some []
  | n :: ns => do return (← value? n) :: (← values? ns)

def members? : List (Node × Node) → Option (List (String × Json))
  | [] => some []
  | (k, v) :: es => do
    let .text key ← value? k | none
    let v ← value? v
    let ms ← members? es
    if ms.any (·.1 == key) then none else return (key, v) :: ms

end

end Strict

namespace Lenient

def integer? (s : String) : Option Number :=
  let other := match s.toList with
    | '0' :: 'x' :: cs => Number.integerIn? 16 cs
    | '0' :: 'o' :: cs => Number.integerIn? 8 cs
    | _ => none
  other.or (Number.integerIn? 10 s.toList)

/-- Words for values without digits, which numbers are not written as elsewhere. -/
def isWord (s : String) : Bool :=
  [".inf", ".Inf", ".INF", "+.inf", "+.Inf", "+.INF", "-.inf", "-.Inf", "-.INF", ".nan",
    ".NAN"].contains s

/-- A plain scalar. The words for values without digits are refused. -/
def plain? (s : String) : Option Json :=
  if isWord s then none
  else if ["", "~", "null"].contains s then some .null
  else if s == "true" then some (.bool true)
  else if s == "false" then some (.bool false)
  else match integer? s with
    | some n => some (.number n)
    | none =>
      match Binary64.parse? s with
      | some x => some (.number (.real x))
      | none => some (.text s)

/-- A scalar with a tag of the common set: nothing, where it is not what the tag says. -/
def tagged? (name s : String) : Option Json :=
  match name with
  | "bool" => some (if s == "true" then .bool true else if s == "false" then .bool false else .null)
  | "int" => some ((Number.integerIn? 10 s.toList).elim .null .number)
  | "float" =>
    if isWord s then none else some ((Binary64.parse? s).elim .null fun x => .number (.real x))
  | "null" => some .null
  | _ => some (.text s)

def scalar? (t : Tag) (s : String) (isPlain : Bool) : Option Json :=
  match isPlain, t with
  | false, _ | true, .other => some (.text s)
  | true, .core name => tagged? name s
  | true, .none => plain? s

def keyText? : Node → Option String
  | .scalar t s isPlain =>
    match scalar? t s isPlain with
    | some (.text s) => some s
    | some (.number (.natural n)) => some (toString n)
    | some (.number (.negative n)) => some ("-" ++ toString n)
    | _ => none
  | _ => none

mutual

/-- The value of a node; of equal keys the last one counts. -/
def value? : Node → Option Json
  | .scalar t s isPlain => scalar? t s isPlain
  | .list _ items => (values? items).map .list
  | .mapping _ entries => (members? entries).map .record

def values? : List Node → Option (List Json)
  | [] => some []
  | n :: ns => do return (← value? n) :: (← values? ns)

def members? : List (Node × Node) → Option (List (String × Json))
  | [] => some []
  | (k, v) :: es => do
    let key ← keyText? k
    let v ← value? v
    return (key, v) :: (← members? es)

end

end Lenient

end Drayage.Yaml
