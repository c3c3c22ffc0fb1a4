import Drayage.Resource.Freight

/-!
# Freight collections

A collection holds references to Freight, at most one per origin, in the order in which
the origins first came in. It is written as an object whose names are the origins, but
read by the origins inside the references alone.
-/

namespace Drayage

structure Verification where
  id : String
  phase : String
  startedAt : Option Instant
  deriving DecidableEq, Inhabited

def Verification.codec : Codec Verification :=
  .record "Verification"
    (.required "id" .text <| .nonempty "phase" <| .maybe "startedAt" Instant.codec .done)
    (fun v => (v.id, v.phase, v.startedAt, ()))
    (fun (id, phase, startedAt, ()) => ⟨id, phase, startedAt⟩)

abbrev References := List FreightReference

namespace References

/-- Puts a reference in the place of the one with the same origin, or at the end. -/
def upsert (r : FreightReference) : References → References
  | [] => [r]
  | s :: rest => if s.origin = r.origin then r :: rest else s :: upsert r rest

def get? (rs : References) (o : Origin) : Option FreightReference :=
  rs.find? fun r => r.origin = o

/-- The names of the Freight in ascending order, joined by commas. -/
def digest (rs : References) : String :=
  Text.join "," ((rs.map FreightReference.name).mergeSort fun a b => (compare a b).isLE)

def codec : Codec References where
  write rs := .record (rs.map fun r => (r.origin.text, FreightReference.codec.write r))
  read
    | .record ms =>
      (Codec.readMembers FreightReference.codec ms).map fun rs =>
        rs.foldl (fun acc r => upsert r.2 acc) []
    | .fault _ => .error .unreadable
    | j => .error (.wrongSort j "a map of origin to freight reference")

end References

/-- The Freight that a Stage holds, or is to hold after a Promotion. -/
structure Collection where
  id : String
  freight : References
  verifications : List Verification
  deriving DecidableEq, Inhabited

namespace Collection

def empty : Collection := ⟨"", [], []⟩

/-- Puts a reference in and names the collection after its Freight. -/
def update (c : Collection) (r : FreightReference) : Collection :=
  let freight := References.upsert r c.freight
  { c with freight, id := References.digest freight }

def get? (c : Collection) (o : Origin) : Option FreightReference := References.get? c.freight o

def containsFreight (c : Collection) (name : String) : Bool :=
  c.freight.any fun r => r.name == name

def codec : Codec Collection :=
  .record "Collection"
    (.nonempty "id" <| .defaulted "freight" References.codec [] <|
      .many "verificationHistory" Verification.codec .done)
    (fun c => (c.id, c.freight, c.verifications, ()))
    (fun (id, freight, verifications, ()) => ⟨id, freight, verifications⟩)

end Collection

end Drayage
