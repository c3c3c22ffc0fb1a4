import Drayage.Resource.Key
import Drayage.Resource.Uid
import Drayage.Time.Rfc3339

/-!
# Metadata

What every resource carries beside its content: address, identity, version, and the
annotations and labels that users attach.
-/

namespace Drayage

def Instant.codec : Codec Instant where
  write t := .text t.print
  read
    | .text s => match Instant.parse? s with
      | some t => .ok t
      | none => .error (.notInstant s)
    | .fault _ => .error .unreadable
    | j => .error (.wrongSort j "an RFC 3339 formatted date and time string")

/-- `version` is the token that a write has to present; `generation` counts the changes of
what the user wrote. -/
structure Metadata where
  name : String
  project : String
  uid : Uid
  version : Nat
  generation : Nat
  annotations : Dict String String
  labels : Dict String String
  createdAt : Instant
  deriving DecidableEq, Inhabited

namespace Metadata

def fresh (project name : String) (createdAt : Instant) : Metadata :=
  ⟨name, project, .unset, 0, 0, ∅, ∅, createdAt⟩

def key (m : Metadata) : Key := ⟨m.project, m.name⟩

def annotate (m : Metadata) (key value : String) : Metadata :=
  { m with annotations := m.annotations.insert key value }

def label (m : Metadata) (key value : String) : Metadata :=
  { m with labels := m.labels.insert key value }

/-- Metadata read without a creation time were created `now`. -/
def codec (now : Instant) : Codec Metadata :=
  .record "Metadata"
    (.required "name" .text <| .required "namespace" .text <|
      .defaulted "uid" Uid.codec .unset <| .defaulted "resourceVersion" .nat64 0 <|
      .defaulted "generation" .nat64 0 <| .entries "annotations" .text <|
      .entries "labels" .text <| .defaulted "creationTimestamp" Instant.codec now .done)
    (fun m => (m.name, m.project, m.uid, m.version, m.generation, m.annotations, m.labels,
      m.createdAt, ()))
    (fun (name, project, uid, version, generation, annotations, labels, createdAt, ()) =>
      ⟨name, project, uid, version, generation, annotations, labels, createdAt⟩)

end Metadata

end Drayage
