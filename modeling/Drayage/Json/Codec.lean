import Drayage.Json.DecodeError
import Drayage.Json.Reader

/-!
# Codecs

A codec writes the values of a type as JSON and reads them back. A record's codec is
made from the list of its fields (`Fields`), which fixes the order in which they are
written, which of them are left out and what an absent one stands for. Members are
read in the order of the document, so of several faults the first one counts.
-/

namespace Drayage

structure Codec (α : Type) where
  write : α → Json
  read : Json → Except DecodeError α

namespace Codec

def text : Codec String where
  write := .text
  read
    | .text s => .ok s
    | .fault _ => .error .unreadable
    | j => .error (.wrongSort j "a string")

def bool : Codec Bool where
  write := .bool
  read
    | .bool b => .ok b
    | .fault _ => .error .unreadable
    | j => .error (.wrongSort j "a boolean")

/-- Natural numbers below `bound`; `name` is the expectation in messages. -/
def natural (bound : Nat) (name : String) : Codec Nat where
  write := Json.nat
  read
    | .number (.natural n) =>
      if n < bound then .ok n else .error (.wrongValue (.number (.natural n)) name)
    | .number (.negative n) => .error (.wrongValue (.number (.negative n)) name)
    | .fault _ => .error .unreadable
    | j => .error (.wrongSort j name)

def nat64 : Codec Nat := natural (2 ^ 64) "u64"

def nat32 : Codec UInt32 where
  write n := .nat n.toNat
  read j := ((natural UInt32.size "u32").read j).map UInt32.ofNat

def opaqueData : Codec Json where
  write := id
  read j := match j.canonical? with
    | some j => .ok j
    | none => .error .unreadable

/-- `null` is the absent value. -/
def optional {α : Type} (c : Codec α) : Codec (Option α) where
  write
    | none => .null
    | some a => c.write a
  read
    | .null => .ok none
    | j => (c.read j).map some

def list {α : Type} (c : Codec α) : Codec (List α) where
  write as := .list (as.map c.write)
  read
    | .list js => js.mapM c.read
    | .fault _ => .error .unreadable
    | j => .error (.wrongSort j "a sequence")

def readMembers {α : Type} (c : Codec α) :
    List (String × Json) → Except DecodeError (List (String × α))
  | [] => .ok []
  | (name, j) :: ms => do
    let a ← c.read j
    let rest ← readMembers c ms
    return (name, a) :: rest

/-- An object as a dictionary: of equal names the last counts. -/
def dict {α : Type} (c : Codec α) : Codec (Dict String α) where
  write d := .record (d.entries.map fun e => (e.1, c.write e.2))
  read
    | .record ms => (readMembers c ms).map Dict.ofList
    | .fault _ => .error .unreadable
    | j => .error (.wrongSort j "a map")

/-- A set of texts, written as a list in ascending order. -/
def textSet : Codec (Dict String Unit) where
  write d := .list (d.keys.map .text)
  read j := ((list text).read j).map fun names => Dict.ofList (names.map (·, ()))

/-- A type with finitely many values, each known by a name. A name alone may also be
written as the only member of an object, with `null` beside it. -/
def variants {α : Type} (known : List α) (name : α → String) : Codec α where
  write a := .text (name a)
  read
    | .text s => named s
    | .record ((s, j) :: rest) =>
      match named s with
      | .error e => .error e
      | .ok a => if j = .null ∧ rest.isEmpty then .ok a else .error .unreadable
    | .fault _ => .error .unreadable
    | j => .error (.wrongSort j "a variant")
where
  named (s : String) : Except DecodeError α :=
    match known.find? fun a => name a == s with
    | some a => .ok a
    | none => .error (.unknownVariant s (known.map name))

end Codec

structure Scalars where
  text : Codec String
  bool : Codec Bool
  nat64 : Codec Nat

/-- Every value is written as what it is. -/
def Scalars.exact : Scalars := ⟨.text, .bool, .nat64⟩

inductive Absence (α : Type) where
  /-- The field must be there. -/
  | required
  /-- The field has this value then. -/
  | standsFor (a : α)

/-- The fields of a record, whose values together form a nested pair. `omitted` tells
which values are not written. -/
inductive Fields : Type → Type 1 where
  | done : Fields Unit
  | field {α β : Type} (name : String) (codec : Codec α) (absence : Absence α)
      (omitted : α → Bool) (rest : Fields β) : Fields (α × β)

namespace Fields

def required {α β : Type} (name : String) (codec : Codec α) (rest : Fields β) :
    Fields (α × β) :=
  .field name codec .required (fun _ => false) rest

/-- A field that is always written and stands for `a` when it is absent. -/
def defaulted {α β : Type} (name : String) (codec : Codec α) (a : α) (rest : Fields β) :
    Fields (α × β) :=
  .field name codec (.standsFor a) (fun _ => false) rest

/-- A field that is left out when it has no value. -/
def maybe {α β : Type} (name : String) (codec : Codec α) (rest : Fields β) :
    Fields (Option α × β) :=
  .field name codec.optional (.standsFor none) Option.isNone rest

/-- A list that is left out when it is empty. -/
def many {α β : Type} (name : String) (codec : Codec α) (rest : Fields β) :
    Fields (List α × β) :=
  .field name codec.list (.standsFor []) List.isEmpty rest

def entries {α β : Type} (name : String) (codec : Codec α) (rest : Fields β) :
    Fields (Dict String α × β) :=
  .field name codec.dict (.standsFor ∅) Dict.isEmpty rest

def nonempty {β : Type} (name : String) (rest : Fields β) : Fields (String × β) :=
  .field name .text (.standsFor "") String.isEmpty rest

variable {τ : Type}

def count : {τ : Type} → Fields τ → Nat
  | _, .done => 0
  | _, .field _ _ _ _ rest => rest.count + 1

def write : {τ : Type} → Fields τ → τ → List (String × Json)
  | _, .done, _ => []
  | _, .field name codec _ omitted rest, (a, b) =>
    if omitted a then rest.write b else (name, codec.write a) :: rest.write b

def Partial : {τ : Type} → Fields τ → Type
  | _, .done => Unit
  | _, @field α _ _ _ _ _ rest => Option α × rest.Partial

def nothing : {τ : Type} → (fs : Fields τ) → fs.Partial
  | _, .done => ()
  | _, .field _ _ _ _ rest => (none, rest.nothing)

/-- Takes in one member. A name that no field has is passed over, if its value is well
formed. -/
def take : {τ : Type} → (fs : Fields τ) → String → Json → fs.Partial →
    Except DecodeError fs.Partial
  | _, .done, _, j, p =>
    if j.wellFormed && j != .fault .nameless then .ok p else .error .unreadable
  | _, @field α _ name codec _ _ rest, key, j, p =>
    let (a, p) : Option α × rest.Partial := p
    if key = name then
      match a with
      | some _ => .error (.duplicateField name)
      | none => (codec.read j).map fun a => (some a, p)
    else (rest.take key j p).map fun p => (a, p)

def takeAll (fs : Fields τ) : List (String × Json) → fs.Partial → Except DecodeError fs.Partial
  | [], p => .ok p
  | (key, j) :: ms, p => do fs.takeAll ms (← fs.take key j p)

def finish : {τ : Type} → (fs : Fields τ) → fs.Partial → Except DecodeError τ
  | _, .done, _ => .ok ()
  | _, @field α _ name _ absence _ rest, p => do
    let (a, p) : Option α × rest.Partial := p
    let a ← match a, absence with
      | some a, _ => .ok a
      | none, .standsFor a => .ok a
      | none, .required => .error (.missingField name)
    let b ← rest.finish p
    return (a, b)

/-- A record given as the list of its values. Values at the end may be missing where
absence means something. -/
def readList : {τ : Type} → (fs : Fields τ) → (shape : DecodeError) → List Json →
    Except DecodeError τ
  | _, .done, _, [] => .ok ()
  | _, .done, _, _ :: _ => .error .unreadable
  | _, .field _ _ absence _ rest, shape, [] => do
    let a ← match absence with
      | .standsFor a => .ok a
      | .required => .error shape
    let b ← rest.readList shape []
    return (a, b)
  | _, .field _ codec _ _ rest, shape, j :: js => do
    let a ← codec.read j
    let b ← rest.readList shape js
    return (a, b)

def shape (fs : Fields τ) (title : String) : String :=
  s!"struct {title} with {fs.count} element" ++ if fs.count = 1 then "" else "s"

def read (fs : Fields τ) (title : String) : Json → Except DecodeError τ
  | .record ms => do fs.finish (← fs.takeAll ms fs.nothing)
  | .list js =>
    if fs.count < js.length then
      match fs.readList .unreadable (js.take fs.count) with
      | .error e => .error e
      | .ok _ => .error (.wrongLength js.length "fewer elements in array")
    else fs.readList (.wrongLength js.length (fs.shape title)) js
  | .fault _ => .error .unreadable
  | j => .error (.wrongSort j ("struct " ++ title))

end Fields

namespace Codec

/-- A record's codec, from its fields and the correspondence of the record with the
nested pair of their values. -/
def record {α τ : Type} (title : String) (fs : Fields τ) (pair : α → τ) (make : τ → α) :
    Codec α where
  write a := .record (fs.write (pair a))
  read j := (fs.read title j).map make

end Codec

end Drayage
