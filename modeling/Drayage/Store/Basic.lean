import Drayage.Store.Error
import Drayage.Store.Event
import Drayage.Resource.Annotations

/-!
# The store

The store keeps Promotions, Stages and Freight. Every write stamps the resource with a
version that no earlier write had, and publishes one event. A status is written only
against the version it was computed from. An operation that fails changes nothing.
-/

namespace Drayage

structure Store where
  promotions : Dict Key Promotion
  stages : Dict Key Stage
  freight : Dict Key Freight
  /-- The last version that was given out. -/
  version : Nat
  available : Bool
  published : Array StoreEvent
  deriving Inhabited

namespace Store

def empty : Store := ⟨∅, ∅, ∅, 0, true, #[]⟩

abbrev Outcome (α : Type) := Except StoreError (α × Store)

def outage : StoreError := .unavailable "in-memory store marked unavailable"

def whenAvailable {α : Type} (s : Store) (outcome : Except StoreError α) :
    Except StoreError α :=
  if s.available then outcome else .error outage

def setAvailable (s : Store) (available : Bool) : Store := { s with available }

/-- A new value replaces `previous` or is stored for the first time, in which case it gets
the identity `candidate` unless it has one. -/
def stamped (m : Metadata) (previous : Option Metadata) (candidate : Uid) (version : Nat) :
    Metadata :=
  match previous with
  | some p =>
    { m with uid := p.uid, createdAt := p.createdAt, generation := p.generation + 1, version }
  | none =>
    { m with uid := if m.uid.isUnset then candidate else m.uid, generation := 1, version }

/-- Stores a Promotion as the next version and publishes the change. -/
def writePromotion (s : Store) (old : Option Promotion) (p : Promotion) : Store :=
  { s with
    promotions := s.promotions.insert p.key p
    version := s.version + 1
    published := s.published.push (.promotion (.replaced old p)) }

def writeStage (s : Store) (old : Option Stage) (stage : Stage) : Store :=
  { s with
    stages := s.stages.insert stage.metadata.key stage
    version := s.version + 1
    published := s.published.push (.stage (.replaced old stage)) }

def writeFreight (s : Store) (old : Option Freight) (freight : Freight) : Store :=
  { s with
    freight := s.freight.insert freight.metadata.key freight
    version := s.version + 1
    published := s.published.push (.freight (.replaced old freight)) }

def removePromotion (s : Store) (p : Promotion) : Store :=
  { s with
    promotions := s.promotions.erase p.key
    published := s.published.push (.promotion (.deleted p)) }

def createPromotion (s : Store) (p : Promotion) (candidate : Uid) : Outcome Promotion :=
  s.whenAvailable <|
    match s.promotions.get? p.key with
    | some _ => .error (.alreadyExists p.key)
    | none =>
      let p := { p with metadata := stamped p.metadata none candidate (s.version + 1) }
      .ok (p, s.writePromotion none p)

def annotatePromotion (s : Store) (key : Key) (mark value : String) :
    Outcome Promotion :=
  s.whenAvailable <|
    match s.promotions.get? key with
    | none => .error (.notFound key)
    | some old =>
      let m := { old.metadata.annotate mark value with version := s.version + 1 }
      let p := { old with metadata := m }
      .ok (p, s.writePromotion (some old) p)

def deletePromotion (s : Store) (key : Key) : Outcome (Option Promotion) :=
  s.whenAvailable <|
    match s.promotions.get? key with
    | none => .ok (none, s)
    | some p => .ok (some p, s.removePromotion p)

def putStage (s : Store) (stage : Stage) (candidate : Uid) : Outcome Stage :=
  s.whenAvailable <|
    let old := s.stages.get? stage.metadata.key
    let m := stamped stage.metadata (old.map Stage.metadata) candidate (s.version + 1)
    let stage := { stage with metadata := m }
    .ok (stage, s.writeStage old stage)

def putFreight (s : Store) (freight : Freight) (candidate : Uid) : Outcome Freight :=
  s.whenAvailable <|
    let old := s.freight.get? freight.metadata.key
    let m := stamped freight.metadata (old.map Freight.metadata) candidate (s.version + 1)
    let freight := { freight with metadata := m }
    .ok (freight, s.writeFreight old freight)

def getPromotion (s : Store) (key : Key) : Except StoreError (Option Promotion) :=
  s.whenAvailable (.ok (s.promotions.get? key))

def getStage (s : Store) (key : Key) : Except StoreError (Option Stage) :=
  s.whenAvailable (.ok (s.stages.get? key))

def getFreight (s : Store) (key : Key) : Except StoreError (Option Freight) :=
  s.whenAvailable (.ok (s.freight.get? key))

def listPromotions (s : Store) : Except StoreError (List Promotion) :=
  s.whenAvailable (.ok s.promotions.values)

/-- Writes the status of a Promotion if its version is still the expected one and the
status is fit for it. Returns the new version. -/
def updateStatus (s : Store) (key : Key) (expected : Nat) (status : PromotionStatus) :
    Outcome Nat :=
  s.whenAvailable <|
    match s.promotions.get? key with
    | none => .error (.notFound key)
    | some old =>
      if old.metadata.version ≠ expected then
        .error (.conflict key expected old.metadata.version)
      else match status.unfit? old.spec with
        | some unfit => .error (.invalid key unfit)
        | none =>
          let version := s.version + 1
          let p := { old with metadata := { old.metadata with version }, status }
          .ok (version, s.writePromotion (some old) p)

/-- The first verification of the Freight that a Stage holds. -/
def latestVerification (stage : Stage) : Option Verification :=
  stage.currentFreight.bind fun c => c.verifications.head?

def requestReverification (s : Store) (key : Key) (now : Instant) : Outcome Unit :=
  s.whenAvailable <|
    match s.stages.get? key with
    | none => .error (.notFound key)
    | some old =>
      match latestVerification old with
      | none => .error (.invalid key .nothingToVerify)
      | some v =>
        let m := old.metadata.annotate Annotations.reverifyKey (v.id ++ s!"@{now.millis}")
        let stage := { old with metadata := { m with version := s.version + 1 } }
        .ok ((), s.writeStage (some old) stage)

end Store

end Drayage
