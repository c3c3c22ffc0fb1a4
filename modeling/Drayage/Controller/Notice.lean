import Drayage.Resource.Promotion
import Drayage.Resource.Annotations

/-!
# Notices

A notice tells the outside world what became of a Promotion. Its annotations repeat what
the Promotion was about and name an actor.
-/

namespace Drayage

inductive Severity where
  | normal
  | warning
  deriving DecidableEq, Inhabited

def Severity.name : Severity → String
  | normal => "Normal"
  | warning => "Warning"

structure Notice where
  object : Key
  uid : Uid
  annotations : Dict String String
  severity : Severity
  reason : String
  message : String
  deriving DecidableEq, Inhabited

namespace Notice

def projectKey : String := "event.relay.dev/project"

def promotionKey : String := "event.relay.dev/promotion-name"

def createTimeKey : String := "event.relay.dev/promotion-create-time"

def stageKey : String := "event.relay.dev/stage-name"

def freightKey : String := "event.relay.dev/freight-name"

def nicknameKey : String := "event.relay.dev/freight-alias"

def commitsKey : String := "event.relay.dev/freight-commits"

def imagesKey : String := "event.relay.dev/freight-images"

def chartsKey : String := "event.relay.dev/freight-charts"

def actorKey : String := "event.relay.dev/actor"

def verificationKey : String := "event.relay.dev/verification-pending"

def succeededReason : String := "PromotionSucceeded"

def failedReason : String := "PromotionFailed"

def erroredReason : String := "PromotionErrored"

def abortedReason : String := "PromotionAborted"

def reasonFor : Phase → Option String
  | .succeeded => some succeededReason
  | .failed => some failedReason
  | .errored => some erroredReason
  | .aborted => some abortedReason
  | .pending | .running => none

/-- A list of artifacts as an annotation, unless there are none. -/
def artifacts {α : Type} (key : String) (codec : Codec α) (items : List α) :
    List (String × String) :=
  if items.isEmpty then [] else [(key, (codec.list.write items).compact)]

/-- Who a notice about a Promotion names: its creator, or else the given actor, but nobody
whose name is empty. -/
def actorOf (promotion : Promotion) (defaultActor : Option String) : Option String :=
  ((Annotations.creator promotion.metadata.annotations).or defaultActor).filter
    fun actor => !actor.isEmpty

def annotationsFor (defaultActor : Option String) (promotion : Promotion)
    (freight : Option Freight) : Dict String String :=
  .ofList <|
    [(projectKey, promotion.metadata.project), (promotionKey, promotion.metadata.name),
      (createTimeKey, promotion.metadata.createdAt.printSeconds),
      (stageKey, promotion.spec.stage), (freightKey, promotion.spec.freight)]
    ++ ((actorOf promotion defaultActor).map fun actor => (actorKey, actor)).toList
    ++ match freight with
      | none => []
      | some f =>
        (f.nickname.map fun name => (nicknameKey, name)).toList
          ++ artifacts commitsKey Commit.codec f.commits
          ++ artifacts imagesKey Image.codec f.images
          ++ artifacts chartsKey Chart.codec f.charts

def about (m : Metadata) (annotations : Dict String String) (severity : Severity)
    (reason message : String) : Notice :=
  ⟨m.key, m.uid, annotations, severity, reason, message⟩

def json (n : Notice) : Json :=
  .record [("annotations", Codec.text.dict.write n.annotations), ("message", .text n.message),
    ("object", .text n.object.text), ("reason", .text n.reason),
    ("type", .text n.severity.name), ("uid", .text n.uid.text)]

end Notice

end Drayage
