import Drayage.Yaml.Token

/-!
# Documents

A text holds any number of documents. Each is a tree of scalars, lists and mappings;
references are replaced by what they refer to. A mapping keeps its entries in the order of
the text.
-/

namespace Drayage.Yaml

inductive Tag where
  | none
  /-- A type of the common set, such as `str`. -/
  | core (name : String)
  | other
  deriving DecidableEq, Inhabited

inductive Node where
  | scalar (tag : Tag) (text : String) (plain : Bool)
  | list (tag : Tag) (items : List Node)
  | mapping (tag : Tag) (entries : List (Node × Node))
  deriving Inhabited

namespace Node

/-- What stands where nothing is written. -/
def empty (tag : Tag) : Node := .scalar tag "" true

end Node

/-- What has been named so far: the anchors, and the abbreviations for tags. -/
structure Names where
  anchors : List (List Char × Node)
  handles : List (List Char × List Char)

abbrev After (α : Type) := α × Names × List Token

def coreLead : List Char := "tag:yaml.org,2002:".toList

def tagOf (full : List Char) : Tag :=
  match Text.dropLead? coreLead full with
  | some name => .core (String.ofList name)
  | none => .other

def resolveTag? (names : Names) (handle suffix : List Char) : Option Tag :=
  if handle.isEmpty then some (if suffix == ['!'] then .other else tagOf suffix)
  else match names.handles.find? fun h => h.1 == handle with
    | some (_, lead) => some (tagOf (lead ++ suffix))
    | none => none

/-- The properties in front of a node: at most one anchor and one tag, in either order. -/
structure Properties where
  anchor : Option (List Char)
  tag : Tag
  given : Bool

def properties? (names : Names) : List Token → Option (Properties × List Token)
  | .anchor a :: .tag h t :: rest => do return (⟨some a, ← resolveTag? names h t, true⟩, rest)
  | .tag h t :: .anchor a :: rest => do return (⟨some a, ← resolveTag? names h t, true⟩, rest)
  | .anchor a :: rest => some (⟨some a, .none, true⟩, rest)
  | .tag h t :: rest => do return (⟨none, ← resolveTag? names h t, true⟩, rest)
  | rest => some (⟨none, .none, false⟩, rest)

def Names.bind (names : Names) (anchor : Option (List Char)) (n : Node) : Names :=
  match anchor with
  | some a => { names with anchors := (a, n) :: names.anchors }
  | none => names

/-- Tokens before which a key or value in a block is empty. -/
def endsBlockPart : List Token → Bool
  | .key :: _ | .value :: _ | .blockEnd :: _ | [] => true
  | _ => false

/-- Tokens before which a part of a list or mapping in brackets is empty. -/
def endsFlowPart (close : Token) : List Token → Bool
  | .comma :: _ | [] => true
  | t :: _ => t == close

mutual

/-- Reads a node. In brackets there are no blocks; in a mapping, the items of a list need
not be indented. -/
def node? (fuel : Nat) (block indentless : Bool) (names : Names) (ts : List Token) :
    Option (After Node) :=
  match fuel with
  | 0 => none
  | fuel + 1 =>
    match ts with
    | .reference name :: rest => do
      let (_, n) ← names.anchors.find? fun a => a.1 == name
      return (n, names, rest)
    | ts => do
      let (p, ts) ← properties? names ts
      let (n, names, ts) ← content? fuel block indentless p names ts
      return (n, names.bind p.anchor n, ts)

def content? (fuel : Nat) (block indentless : Bool) (p : Properties) (names : Names)
    (ts : List Token) : Option (After Node) :=
  match fuel with
  | 0 => none
  | fuel + 1 =>
    match ts with
    | .scalar text plain :: rest => some (.scalar p.tag (String.ofList text) plain, names, rest)
    | .flowSequenceStart :: rest => do
      let (items, names, rest) ← flowItems? fuel true names rest
      return (.list p.tag items, names, rest)
    | .flowMappingStart :: rest => do
      let (entries, names, rest) ← flowEntries? fuel true names rest
      return (.mapping p.tag entries, names, rest)
    | .item :: _ =>
      if indentless then do
        let (items, names, rest) ← items? fuel false names ts
        return (.list p.tag items, names, rest)
      else if p.given then some (.empty p.tag, names, ts)
      else none
    | .sequenceStart :: rest =>
      if block then do
        let (items, names, rest) ← items? fuel true names rest
        return (.list p.tag items, names, rest)
      else none
    | .mappingStart :: rest =>
      if block then do
        let (entries, names, rest) ← entries? fuel names rest
        return (.mapping p.tag entries, names, rest)
      else none
    | ts => if p.given then some (.empty p.tag, names, ts) else none

/-- The items of a list, which has an end of its own if it is indented. -/
def items? (fuel : Nat) (indented : Bool) (names : Names) (ts : List Token) :
    Option (After (List Node)) :=
  match fuel with
  | 0 => none
  | fuel + 1 =>
    match ts with
    | .item :: rest => do
      let isEmpty := match rest with
        | .item :: _ | .blockEnd :: _ => true
        | .key :: _ | .value :: _ => !indented
        | _ => false
      let (n, names, rest) ← if isEmpty then some (.empty .none, names, rest)
        else node? fuel true false names rest
      let (ns, names, rest) ← items? fuel indented names rest
      return (n :: ns, names, rest)
    | .blockEnd :: rest => some ([], names, if indented then rest else ts)
    | ts => if indented then none else some ([], names, ts)

/-- The entries of a mapping. Either part of an entry may be missing. -/
def entries? (fuel : Nat) (names : Names) (ts : List Token) :
    Option (After (List (Node × Node))) :=
  match fuel with
  | 0 => none
  | fuel + 1 =>
    match ts with
    | .blockEnd :: rest => some ([], names, rest)
    | .key :: rest => do
      let (k, names, rest) ← blockPart? fuel names rest
      let (v, names, rest) ← match rest with
        | .value :: rest => blockPart? fuel names rest
        | rest => some (.empty .none, names, rest)
      let (es, names, rest) ← entries? fuel names rest
      return ((k, v) :: es, names, rest)
    | .value :: rest => do
      let (v, names, rest) ← blockPart? fuel names rest
      let (es, names, rest) ← entries? fuel names rest
      return ((.empty .none, v) :: es, names, rest)
    | _ => none

def blockPart? (fuel : Nat) (names : Names) (ts : List Token) : Option (After Node) :=
  match fuel with
  | 0 => none
  | fuel + 1 =>
    if endsBlockPart ts then some (.empty .none, names, ts) else node? fuel true true names ts

/-- The items of a list in brackets. A key among them makes a mapping with one entry. -/
def flowItems? (fuel : Nat) (first : Bool) (names : Names) (ts : List Token) :
    Option (After (List Node)) :=
  match fuel with
  | 0 => none
  | fuel + 1 =>
    match ts with
    | .flowSequenceEnd :: rest => some ([], names, rest)
    | ts => do
      let ts ← match first, ts with
        | true, ts => some ts
        | false, .comma :: rest => some rest
        | false, _ => none
      match ts with
      | .flowSequenceEnd :: rest => return ([], names, rest)
      | .key :: rest => do
        let (k, names, rest) ← flowPart? fuel .flowSequenceEnd names rest
        let (v, names, rest) ← flowValue? fuel .flowSequenceEnd names rest
        let (ns, names, rest) ← flowItems? fuel false names rest
        return (.mapping .none [(k, v)] :: ns, names, rest)
      | ts => do
        let (n, names, rest) ← node? fuel false false names ts
        let (ns, names, rest) ← flowItems? fuel false names rest
        return (n :: ns, names, rest)

def flowEntries? (fuel : Nat) (first : Bool) (names : Names) (ts : List Token) :
    Option (After (List (Node × Node))) :=
  match fuel with
  | 0 => none
  | fuel + 1 =>
    match ts with
    | .flowMappingEnd :: rest => some ([], names, rest)
    | ts => do
      let ts ← match first, ts with
        | true, ts => some ts
        | false, .comma :: rest => some rest
        | false, _ => none
      match ts with
      | .flowMappingEnd :: rest => return ([], names, rest)
      | .key :: rest => do
        let (k, names, rest) ← flowPart? fuel .flowMappingEnd names rest
        let (v, names, rest) ← flowValue? fuel .flowMappingEnd names rest
        let (es, names, rest) ← flowEntries? fuel false names rest
        return ((k, v) :: es, names, rest)
      | ts => do
        let (k, names, rest) ← node? fuel false false names ts
        let (es, names, rest) ← flowEntries? fuel false names rest
        return ((k, .empty .none) :: es, names, rest)

def flowPart? (fuel : Nat) (close : Token) (names : Names) (ts : List Token) :
    Option (After Node) :=
  match fuel with
  | 0 => none
  | fuel + 1 =>
    match ts with
    | .value :: _ => some (.empty .none, names, ts)
    | ts =>
      if endsFlowPart close ts then some (.empty .none, names, ts)
      else node? fuel false false names ts

def flowValue? (fuel : Nat) (close : Token) (names : Names) (ts : List Token) :
    Option (After Node) :=
  match fuel with
  | 0 => none
  | fuel + 1 =>
    match ts with
    | .value :: rest =>
      if endsFlowPart close rest then some (.empty .none, names, rest)
      else node? fuel false false names rest
    | ts => some (.empty .none, names, ts)

end

def standardHandles : List (List Char × List Char) := [(['!'], ['!']), (['!', '!'], coreLead)]

/-- The lines that introduce a document: at most one version, which has to be 1.1 or 1.2, and
abbreviations, each once. -/
def directives? (versioned : Bool) (handles : List (List Char × List Char)) :
    List Token → Option (List (List Char × List Char) × List Token)
  | .version major minor :: rest =>
    if versioned || major ≠ 1 || (minor ≠ 1 && minor ≠ 2) then none
    else directives? true handles rest
  | .tagHandle handle lead :: rest =>
    if handles.any fun h => h.1 == handle then none
    else directives? versioned ((handle, lead) :: handles) rest
  | rest => some (handles, rest)

def endsDocument : List Token → Bool
  | .version _ _ :: _ | .tagHandle _ _ :: _ | .documentStart :: _ | .documentEnd :: _
  | .streamEnd :: _ | [] => true
  | _ => false

def documentNode? (handles : List (List Char × List Char)) (ts : List Token) :
    Option (Node × List Token) :=
  if endsDocument ts then some (.empty .none, ts)
  else do
    let (n, _, ts) ← node? (4 * ts.length + 8) true false ⟨[], handles ++ standardHandles⟩ ts
    return (n, ts)

/-- Reads the documents. Only the first one may begin without a mark. -/
def documents? : (fuel : Nat) → (first : Bool) → List Token → Option (List Node)
  | 0, _, _ => none
  | fuel + 1, first, ts =>
    let bare := first && !endsDocument ts
    match if first then ts else ts.dropWhile (· == .documentEnd) with
    | [] => some []
    | .streamEnd :: _ => some []
    | ts => do
      let (handles, ts) ← if bare then some ([], ts) else
        match ← directives? false [] ts with
        | (handles, .documentStart :: ts) => some (handles, ts)
        | _ => none
      let (n, ts) ← documentNode? handles ts
      let ts := match ts with
        | .documentEnd :: ts => ts
        | ts => ts
      return n :: (← documents? fuel false ts)

def Node.ofText? (text : String) : Option (List Node) := do
  let ts ← Token.ofText? text.toList
  documents? (ts.length + 1) true ts

end Drayage.Yaml
