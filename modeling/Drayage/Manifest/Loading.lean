import Drayage.Credentials.Database
import Drayage.Manifest.Basic
import Drayage.Resource.Annotations
import Drayage.Service.Error
import Drayage.Store.Basic
import Drayage.Yaml.Value

/-!
# Loading manifests

Manifests are read from a file or from all manifest files of a directory, in the order of
their names. Stages and Freight are stored before any Promotion, so that nobody sees a
Promotion whose Stage is missing.
-/

namespace Drayage.Manifest

/-- A JSON file holds a manifest or a list of them. -/
def readJson (now : Instant) (text : String) : Except DecodeError (List Manifest) :=
  match Json.read text with
  | (j, true) =>
    match j.canonical? with
    | some (.list items) => items.mapM (read now)
    | some j => (read now j).map ([·])
    | none => .error .unreadable
  | (_, false) => .error .unreadable

/-- A YAML file holds any number of manifests; empty documents do not count. -/
def readYaml (now : Instant) (text : String) : Except DecodeError (List Manifest) :=
  match (Yaml.Node.ofText? text).bind fun docs => docs.mapM Yaml.Strict.value? with
  | some values => (values.filter (· != .null)).mapM (read now)
  | none => .error .unreadable

def isManifestName (name : String) : Bool :=
  match extension? name with
  | some ext => ["yaml", "yml", "json"].contains ext
  | none => false

/-- Only the name tells JSON from YAML. -/
def readText (now : Instant) (name text : String) : Except DecodeError (List Manifest) :=
  if extension? name = some "json" then readJson now text else readYaml now text

/-- Reads the manifests of one file; `shown` is its path in messages. -/
def readFile (now : Instant) (d : Directory) (shown : String) (path : List String) :
    Except ServiceError (List Manifest) :=
  match d.read path (Directory.isClosed shown) with
  | .error cause => .error (.unreadableManifest shown cause)
  | .ok text =>
    match readText now (path.getLastD "") text with
    | .error cause => .error (.invalidManifest shown cause)
    | .ok ms => .ok ms

def readAll (now : Instant) (d : Directory) (root path : String) :
    Except ServiceError (List Manifest) := do
  let shown := if path.isEmpty then root else Directory.entryOf root path
  let names := Directory.pathOf path
  if d.isDirectory names then
    let files := (d.filesIn names).filter isManifestName
    let parts ← files.mapM fun name =>
      readFile now d (Directory.entryOf shown name) (names ++ [name])
    return parts.flatten
  else readFile now d shown names

end Manifest

structure Holdings where
  store : Store
  secrets : CredentialsDatabase

structure LoadSummary where
  stages : Nat
  freight : Nat
  promotions : Nat
  credentials : Nat
  deriving DecidableEq, Inhabited

namespace LoadSummary

def zero : LoadSummary := ⟨0, 0, 0, 0⟩

def json (s : LoadSummary) : Json :=
  .record [("credentials", .nat s.credentials), ("freight", .nat s.freight),
    ("promotions", .nat s.promotions), ("stages", .nat s.stages)]

def count (s : LoadSummary) : Manifest → LoadSummary
  | .stage _ => { s with stages := s.stages + 1 }
  | .freight _ => { s with freight := s.freight + 1 }
  | .promotion _ => { s with promotions := s.promotions + 1 }
  | .credentials _ => { s with credentials := s.credentials + 1 }

end LoadSummary

namespace Holdings

/-- Loads one manifest; `uid` is for a resource without a uid of its own. -/
def put (h : Holdings) (uid : Uid) : Manifest → Except StoreError Holdings
  | .stage s => (h.store.putStage s uid).map fun r => { h with store := r.2 }
  | .freight f => (h.store.putFreight f uid).map fun r => { h with store := r.2 }
  | .promotion p => (h.store.createPromotion p uid).map fun r => { h with store := r.2 }
  | .credentials s => .ok { h with secrets := h.secrets.insert s }

/-- Loads manifests up to the first one that the store refuses. -/
def putEach (h : Holdings) (done : LoadSummary) :
    List (Uid × Manifest) → Except StoreError LoadSummary × Holdings
  | [] => (.ok done, h)
  | (uid, m) :: rest =>
    match h.put uid m with
    | .ok h => putEach h (done.count m) rest
    | .error e => (.error e, h)

def isPromotion : Manifest → Bool
  | .promotion _ => true
  | _ => false

/-- Loads manifests, Promotions last; `uids` gives a uid for every manifest. -/
def load (h : Holdings) (uids : Nat → Uid) (ms : List Manifest) :
    Except ServiceError LoadSummary × Holdings :=
  let ordered := ms.filter (!isPromotion ·) ++ ms.filter isPromotion
  let (result, h) := h.putEach .zero (ordered.mapIdx fun i m => (uids i, m))
  match result with
  | .ok summary => (.ok summary, h)
  | .error e => (.error (.store e), h)

end Holdings

end Drayage
