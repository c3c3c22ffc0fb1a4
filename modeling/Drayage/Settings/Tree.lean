import Drayage.Json.Integer
import Drayage.Text.Blank
import Drayage.Text.Lowercase

/-!
# Settings

Settings are an object. Further settings are laid over it: objects member by member, and
everything else in place of what was there. Names do not tell upper from lower case, so
they are kept in lower case.
-/

namespace Drayage.Settings

/-- The members of an object; anything else counts as an object without members. -/
def members : Json → List (String × Json)
  | .record ms => ms
  | _ => []

def change (name : String) (f : Option Json → Json) :
    List (String × Json) → List (String × Json)
  | [] => [(name, f none)]
  | (k, j) :: ms => if k = name then (k, f (some j)) :: ms else (k, j) :: change name f ms

mutual

def lay (name : String) (value root : Json) : Json :=
  match value with
  | .record ms =>
    .record (change (Text.lowercase name) (fun j => layAll ms (j.getD (.record []))) (members root))
  | j => .record (change (Text.lowercase name) (fun _ => j) (members root))

def layAll : List (String × Json) → Json → Json
  | [], root => root
  | (name, j) :: ms, root => layAll ms (lay name j root)

end

/-! ## Paths -/

/-- One step of the way to a setting. Elements may be counted from the end. -/
inductive Step where
  | member (name : String)
  | element (index : Int)
  deriving DecidableEq, Inhabited

def isNamePart (c : Char) : Bool := c.isAlphanum || c == ' ' || c == '_' || c == '-'

/-- An integer among blanks; only a negative one has a sign. -/
def index? (cs : List Char) : Option Int :=
  let isGap (c : Char) : Bool := c == ' ' || c == '\t'
  match Text.dropEndWhile isGap (cs.dropWhile isGap) with
  | '-' :: ds => (Number.naturalIn? 10 ds).map fun n => -n
  | ds => (Number.naturalIn? 10 ds).map fun n => n

/-- The steps after the first one: names behind points, and numbers in brackets. -/
def steps? : (fuel : Nat) → List Char → Option (List Step)
  | _, [] => some []
  | 0, _ => none
  | fuel + 1, '.' :: cs =>
    let name := cs.takeWhile isNamePart
    if name.isEmpty then none
    else (steps? fuel (cs.drop name.length)).map (.member (String.ofList name) :: ·)
  | fuel + 1, '[' :: cs =>
    let inner := cs.takeWhile (· ≠ ']')
    match index? inner, cs.drop inner.length with
    | some i, _ :: rest => (steps? fuel rest).map (.element i :: ·)
    | _, _ => none
  | _, _ => none

/-- The path that a key is, or the key itself as a name. -/
def path (key : String) : List Step :=
  (steps? (key.length + 1) ('.' :: key.toList)).getD [.member key]

def items : Json → List Json
  | .list js => js
  | _ => []

def place? (length : Nat) (index : Int) : Option Nat :=
  if 0 ≤ index then some index.toNat
  else if index.natAbs ≤ length then some (length - index.natAbs)
  else none

/-- Changes an element, in a list made long enough for it. -/
def changeElement (index : Int) (f : Json → Json) (js : List Json) : List Json :=
  match place? js.length index with
  | some i => (js ++ List.replicate (i + 1 - js.length) Json.null).modify i f
  | none => js

/-- Puts a value at the end of a path, making way for it where there is none. -/
def put (value : Json) : List Step → Json → Json
  | [], _ => value
  | [.member name], root => lay name value root
  | .member name :: path, root =>
    .record (change (Text.lowercase name) (fun j => put value path (j.getD .null)) (members root))
  | .element i :: path, root => .list (changeElement i (put value path) (items root))

/-- Settings laid over others: a key may be a path. -/
def overlay (root : Json) (sets : List (String × Json)) : Json :=
  sets.foldl (fun root s => put s.2 (path s.1) root) root

end Drayage.Settings
