import Drayage.Resource.Promotion

/-!
# Stages

A Stage is a place that Freight is promoted into. It requests Freight from origins, names
the one Promotion that may run against it, and keeps the collections it has held.
-/

namespace Drayage

/-- Where Freight of an origin may come from: straight from the origin, or from Stages it
was verified in. -/
structure Sources where
  direct : Bool
  stages : List String
  deriving DecidableEq, Inhabited

def Sources.codec : Codec Sources :=
  .record "Sources" (.defaulted "direct" .bool false <| .many "stages" .text .done)
    (fun s => (s.direct, s.stages, ())) (fun (direct, stages, ()) => ⟨direct, stages⟩)

structure FreightRequest where
  origin : Origin
  sources : Sources
  deriving DecidableEq, Inhabited

namespace FreightRequest

def direct (origin : Origin) : FreightRequest := ⟨origin, ⟨true, []⟩⟩

def codec : Codec FreightRequest :=
  .record "FreightRequest"
    (.required "origin" Origin.codec <| .defaulted "sources" Sources.codec ⟨false, []⟩ .done)
    (fun r => (r.origin, r.sources, ())) (fun (origin, sources, ()) => ⟨origin, sources⟩)

end FreightRequest

structure VerificationSpec where
  analysisTemplates : List String
  deriving DecidableEq, Inhabited

def VerificationSpec.codec : Codec VerificationSpec :=
  .record "VerificationSpec" (.many "analysisTemplates" .text .done)
    (fun v => (v.analysisTemplates, ())) (fun (analysisTemplates, ()) => ⟨analysisTemplates⟩)

structure StageSpec where
  requestedFreight : List FreightRequest
  verification : Option VerificationSpec
  deriving DecidableEq, Inhabited

def StageSpec.codec : Codec StageSpec :=
  .record "StageSpec"
    (.defaulted "requestedFreight" (.list FreightRequest.codec) [] <|
      .maybe "verification" VerificationSpec.codec .done)
    (fun s => (s.requestedFreight, s.verification, ()))
    (fun (requestedFreight, verification, ()) => ⟨requestedFreight, verification⟩)

structure PromotionReference where
  name : String
  freight : Option FreightReference
  status : Option PromotionStatus
  finishedAt : Option Instant
  deriving DecidableEq, Inhabited

namespace PromotionReference

def named (name : String) : PromotionReference := ⟨name, none, none, none⟩

def codec : Codec PromotionReference :=
  .record "PromotionReference"
    (.required "name" .text <| .maybe "freight" FreightReference.codec <|
      .maybe "status" PromotionStatus.codec <| .maybe "finishedAt" Instant.codec .done)
    (fun r => (r.name, r.freight, r.status, r.finishedAt, ()))
    (fun (name, freight, status, finishedAt, ()) => ⟨name, freight, status, finishedAt⟩)

end PromotionReference

/-- `freightHistory` has the newest collection first. -/
structure StageStatus where
  currentPromotion : Option PromotionReference
  lastPromotion : Option PromotionReference
  freightHistory : List Collection
  deriving DecidableEq, Inhabited

def StageStatus.codec : Codec StageStatus :=
  .record "StageStatus"
    (.maybe "currentPromotion" PromotionReference.codec <|
      .maybe "lastPromotion" PromotionReference.codec <|
      .many "freightHistory" Collection.codec .done)
    (fun s => (s.currentPromotion, s.lastPromotion, s.freightHistory, ()))
    (fun (currentPromotion, lastPromotion, freightHistory, ()) =>
      ⟨currentPromotion, lastPromotion, freightHistory⟩)

structure Stage where
  metadata : Metadata
  spec : StageSpec
  status : StageStatus
  deriving DecidableEq, Inhabited

namespace Stage

def fresh (metadata : Metadata) (spec : StageSpec) : Stage :=
  ⟨metadata, spec, ⟨none, none, []⟩⟩

def withCurrent (s : Stage) (r : Option PromotionReference) : Stage :=
  { s with status := { s.status with currentPromotion := r } }

/-- The name of the Promotion that may run against the Stage. -/
def currentPromotionName (s : Stage) : Option String :=
  s.status.currentPromotion.map PromotionReference.name

def currentFreight (s : Stage) : Option Collection := s.status.freightHistory.head?

/-- A request is met by Freight that may come from its origin directly, or that was
verified in one of the Stages it names. -/
def admits (r : FreightRequest) (f : Freight) : Bool :=
  r.origin == f.origin && (r.sources.direct || r.sources.stages.any f.isVerifiedIn)

/-- Freight may be promoted into a Stage that it was approved for, or that requests it. -/
def isAvailable (s : Stage) (f : Freight) : Bool :=
  f.isApprovedFor s.metadata.name || s.spec.requestedFreight.any (admits · f)

def codec (now : Instant) : Codec Stage :=
  .record "Stage"
    (.required "metadata" (Metadata.codec now) <|
      .defaulted "spec" StageSpec.codec ⟨[], none⟩ <|
      .defaulted "status" StageStatus.codec ⟨none, none, []⟩ .done)
    (fun s => (s.metadata, s.spec, s.status, ()))
    (fun (metadata, spec, status, ()) => ⟨metadata, spec, status⟩)

end Stage

end Drayage
