import Drayage.Credentials.Basic
import Drayage.Resource.Stage

/-!
# Manifests

A manifest is a document that describes one resource, or a secret. Its member `kind` tells
which.
-/

namespace Drayage

inductive ManifestKind where
  | stage
  | freight
  | promotion
  | credentials
  deriving DecidableEq, Inhabited

namespace ManifestKind

def name : ManifestKind → String
  | stage => "Stage"
  | freight => "Freight"
  | promotion => "Promotion"
  | credentials => "Credentials"

def all : List ManifestKind := [stage, freight, promotion, credentials]

def read : Json → Except DecodeError ManifestKind
  | .text s => match all.find? fun k => k.name == s with
    | some k => .ok k
    | none => .error (.unknownVariant s (all.map name))
  | .fault _ => .error .unreadable
  | j => .error (.wrongSort j "variant identifier")

end ManifestKind

inductive Manifest where
  | stage (s : Stage)
  | freight (f : Freight)
  | promotion (p : Promotion)
  | credentials (s : Secret)
  deriving DecidableEq

namespace Manifest

def kindName : String := "kind"

def readBody (now : Instant) (kind : ManifestKind) (body : Json) : Except DecodeError Manifest :=
  match kind with
  | .stage => ((Stage.codec now).read body).map .stage
  | .freight => ((Freight.codec now).read body).map .freight
  | .promotion => ((Promotion.codec now).read body).map .promotion
  | .credentials => (Secret.codec.read body).map .credentials

/-- Reads a manifest. The kind is a member of an object or the first item of a list. -/
def read (now : Instant) : Json → Except DecodeError Manifest
  | .record ms =>
    match ms.filter (·.1 == kindName) with
    | [] => .error (.missingField kindName)
    | [(_, tag)] => do
      let kind ← ManifestKind.read tag
      readBody now kind (.record (ms.filter (·.1 != kindName)))
    | _ => .error (.duplicateField kindName)
  | .list [] => .error (.missingField kindName)
  | .list (tag :: body) => do readBody now (← ManifestKind.read tag) (.list body)
  | .fault _ => .error .unreadable
  | j => .error (.wrongSort j "internally tagged enum Manifest")

end Manifest

end Drayage
