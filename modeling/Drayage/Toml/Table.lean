import Drayage.Json.Basic

/-!
# Tables in TOML

A table is filled by its header's section, by headers of tables within it and by keys with
points in them. Which of these may add to a table depends on how it came about (`Origin`).
-/

namespace Drayage.Toml

inductive Origin where
  /-- It has a header of its own. -/
  | headed
  /-- A header leads through it. -/
  | implied
  /-- A key with points leads through it. -/
  | dotted
  deriving DecidableEq, Inhabited

/-- What a name in a table stands for. A list of tables holds the latest of them first. -/
inductive Item where
  | value (j : Json)
  | table (origin : Origin) (members : List (String × Item))
  | tables (latest : List (String × Item)) (earlier : List (List (String × Item)))
  deriving Inhabited

abbrev Members := List (String × Item)

namespace Members

/-- Changes the item of a name, or adds one; `f` may refuse. -/
def alter (name : String) (f : Option Item → Option Item) : Members → Option Members
  | [] => (f none).map fun i => [(name, i)]
  | (k, i) :: ms =>
    if k = name then (f (some i)).map fun i => (k, i) :: ms
    else (alter name f ms).map ((k, i) :: ·)

/-- Adds a value under a name that is not taken. A key with points leads to its table
through tables without a header; a table that headers made takes no value this way
(`takes`). -/
def assign (name : String) (j : Json) :
    (parents : List String) → (takes : Bool) → Members → Option Members
  | [], takes, ms =>
    if takes then alter name (fun i => if i.isNone then some (.value j) else none) ms else none
  | p :: ps, _, ms => alter p (fun
    | none => (assign name j ps true []).map (.table .dotted)
    | some (.table .dotted ms) => (assign name j ps true ms).map (.table .dotted)
    | some (.table .implied ms) => (assign name j ps false ms).map (.table .implied)
    | some (.tables ms earlier) => (assign name j ps false ms).map (.tables · earlier)
    | some _ => none) ms

def reach (f : Members → Option Members) : List String → Members → Option Members
  | [], ms => f ms
  | p :: ps, ms => alter p (fun
    | none => (reach f ps []).map (.table .implied)
    | some (.table o ms) => (reach f ps ms).map (.table o)
    | some (.tables ms earlier) => (reach f ps ms).map (.tables · earlier)
    | some (.value _) => none) ms

def fill : List (List String × String × Json) → Members → Option Members
  | [], ms => some ms
  | (parents, name, j) :: pairs, ms => do fill pairs (← assign name j parents true ms)

/-- The table under a header of its own: a new one, or one that was only implied. -/
def openTable (pairs : List (List String × String × Json)) (name : String) :
    Members → Option Members :=
  alter name fun
    | none => (fill pairs []).map (.table .headed)
    | some (.table .implied ms) => (fill pairs ms).map (.table .headed)
    | some _ => none

def openElement (pairs : List (List String × String × Json)) (name : String) :
    Members → Option Members :=
  alter name fun
    | none => (fill pairs []).map (.tables · [])
    | some (.tables latest earlier) => (fill pairs []).map (.tables · (latest :: earlier))
    | some _ => none

end Members

mutual

def Item.json : Item → Json
  | .value j => j
  | .table _ ms => .record (memberValues ms)
  | .tables latest earlier => .list (elementValues earlier [.record (memberValues latest)])

def memberValues : List (String × Item) → List (String × Json)
  | [] => []
  | (name, i) :: ms => (name, i.json) :: memberValues ms

/-- The values of tables, the latest first, before the values that follow them. -/
def elementValues : List (List (String × Item)) → List Json → List Json
  | [], js => js
  | ms :: rest, js => elementValues rest (.record (memberValues ms) :: js)

end

end Drayage.Toml
