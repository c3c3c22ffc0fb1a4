import Drayage.Json.Basic

/-!
# Looking into JSON

For readers who know what they look for: what is missing counts as `null`, and what is of
another sort as empty.
-/

namespace Drayage.Json

variable {α : Type}

def get (j : Json) (name : String) : Json := (j.member? name).getD .null

def asText : Json → String
  | .text s => s
  | _ => ""

def asNat : Json → Nat
  | .number (.natural n) => n
  | _ => 0

def asInt : Json → Int
  | .number (.natural n) => n
  | .number (.negative n) => -n
  | _ => 0

def asBool : Json → Bool
  | .bool b => b
  | _ => false

def asList : Json → List Json
  | .list js => js
  | _ => []

def asPair : Json → String × String
  | .list [a, b] => (a.asText, b.asText)
  | _ => ("", "")

def asRecord : Json → List (String × Json)
  | .record ms => ms
  | _ => []

/-- What `f` makes of a value other than `null`. -/
def present? (f : Json → α) : Json → Option α
  | .null => none
  | j => some (f j)

def has (j : Json) (name : String) : Bool := j.get name != .null

def textAt (j : Json) (name : String) : String := (j.get name).asText

def textAt? (j : Json) (name : String) : Option String := (j.get name).present? asText

def natAt (j : Json) (name : String) : Nat := (j.get name).asNat

def natAt? (j : Json) (name : String) : Option Nat := (j.get name).present? asNat

def boolAt (j : Json) (name : String) : Bool := (j.get name).asBool

def listAt (j : Json) (name : String) : List Json := (j.get name).asList

/-! ## Making JSON -/

def ofList (f : α → Json) (as : List α) : Json := .list (as.map f)

def ofTexts (ss : List String) : Json := .list (ss.map .text)

def ofOption (f : α → Json) : Option α → Json
  | some a => f a
  | none => .null

end Drayage.Json
