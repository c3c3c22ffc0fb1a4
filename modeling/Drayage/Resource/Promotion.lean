import Drayage.Resource.Collection

/-!
# Promotions

A Promotion asks for one piece of Freight to be moved into one Stage by a list of steps.
What was asked for never changes; the status records how far it got, until its phase is
terminal.
-/

namespace Drayage

abbrev SharedState := Dict String Json

inductive Phase where
  | pending
  | running
  | succeeded
  | failed
  | errored
  | aborted
  deriving DecidableEq, Inhabited

namespace Phase

def name : Phase → String
  | pending => "Pending"
  | running => "Running"
  | succeeded => "Succeeded"
  | failed => "Failed"
  | errored => "Errored"
  | aborted => "Aborted"

def isTerminal : Phase → Bool
  | pending | running => false
  | succeeded | failed | errored | aborted => true

def codec : Codec Phase :=
  .variants [pending, running, succeeded, failed, errored, aborted] name

end Phase

inductive StepStatus where
  | pending
  | running
  | succeeded
  | failed
  | errored
  | aborted
  | skipped
  deriving DecidableEq, Inhabited

namespace StepStatus

def name : StepStatus → String
  | pending => "Pending"
  | running => "Running"
  | succeeded => "Succeeded"
  | failed => "Failed"
  | errored => "Errored"
  | aborted => "Aborted"
  | skipped => "Skipped"

def isTerminal : StepStatus → Bool
  | pending | running => false
  | succeeded | failed | errored | aborted | skipped => true

def codec : Codec StepStatus :=
  .variants [pending, running, succeeded, failed, errored, aborted, skipped] name

end StepStatus

structure RetryPolicy where
  timeoutSeconds : Option Nat
  errorThreshold : Option UInt32
  deriving DecidableEq, Inhabited

namespace RetryPolicy

/-- The time a step may take; zero means no time is set. -/
def timeout (p : RetryPolicy) : Option Span := p.timeoutSeconds.map Span.ofSeconds

/-- The errors after which a step has errored: at least one. -/
def threshold (p : RetryPolicy) : UInt32 :=
  match p.errorThreshold with
  | none | some 0 => 1
  | some n => n

def codec : Codec RetryPolicy :=
  .record "RetryPolicy"
    (.maybe "timeoutSeconds" .nat64 <| .maybe "errorThreshold" .nat32 .done)
    (fun p => (p.timeoutSeconds, p.errorThreshold, ()))
    (fun (timeoutSeconds, errorThreshold, ()) => ⟨timeoutSeconds, errorThreshold⟩)

end RetryPolicy

structure Variable where
  name : String
  value : String
  deriving DecidableEq, Inhabited

def Variable.codec : Codec Variable :=
  .record "Variable" (.required "name" .text <| .defaulted "value" .text "" .done)
    (fun v => (v.name, v.value, ())) (fun (name, value, ()) => ⟨name, value⟩)

structure DeclaredStep where
  uses : String
  name : Option String
  guard : Option String
  continueOnError : Bool
  retry : Option RetryPolicy
  vars : List Variable
  config : Option Json
  deriving DecidableEq, Inhabited

namespace DeclaredStep

def ofKind (uses : String) : DeclaredStep := ⟨uses, none, none, false, none, [], none⟩

def codec : Codec DeclaredStep :=
  .record "DeclaredStep"
    (.required "uses" .text <| .maybe "as" .text <| .maybe "if" .text <|
      .defaulted "continueOnError" .bool false <| .maybe "retry" RetryPolicy.codec <|
      .many "vars" Variable.codec <| .maybe "config" .opaqueData .done)
    (fun s => (s.uses, s.name, s.guard, s.continueOnError, s.retry, s.vars, s.config, ()))
    (fun (uses, name, guard, continueOnError, retry, vars, config, ()) =>
      ⟨uses, name, guard, continueOnError, retry, vars, config⟩)

end DeclaredStep

structure PromotionSpec where
  stage : String
  freight : String
  vars : List Variable
  steps : List DeclaredStep
  deriving DecidableEq, Inhabited

def PromotionSpec.codec : Codec PromotionSpec :=
  .record "PromotionSpec"
    (.required "stage" .text <| .required "freight" .text <|
      .many "vars" Variable.codec <| .defaulted "steps" (.list DeclaredStep.codec) [] .done)
    (fun s => (s.stage, s.freight, s.vars, s.steps, ()))
    (fun (stage, freight, vars, steps, ()) => ⟨stage, freight, vars, steps⟩)

structure StepRecord where
  name : String
  status : StepStatus
  startedAt : Option Instant
  finishedAt : Option Instant
  errorCount : UInt32
  message : Option String
  deriving DecidableEq, Inhabited

namespace StepRecord

def started (name : String) (time : Instant) : StepRecord :=
  ⟨name, .running, some time, none, 0, none⟩

def codec : Codec StepRecord :=
  .record "StepRecord"
    (.nonempty "alias" <| .required "status" StepStatus.codec <|
      .maybe "startedAt" Instant.codec <| .maybe "finishedAt" Instant.codec <|
      .defaulted "errorCount" .nat32 0 <| .maybe "message" .text .done)
    (fun r => (r.name, r.status, r.startedAt, r.finishedAt, r.errorCount, r.message, ()))
    (fun (name, status, startedAt, finishedAt, errorCount, message, ()) =>
      ⟨name, status, startedAt, finishedAt, errorCount, message⟩)

end StepRecord

/-- A check that a step asks to be made after the Promotion. -/
structure HealthCheck where
  uses : String
  config : Option Json
  deriving DecidableEq, Inhabited

def HealthCheck.codec : Codec HealthCheck :=
  .record "HealthCheck" (.required "uses" .text <| .maybe "config" .opaqueData .done)
    (fun h => (h.uses, h.config, ())) (fun (uses, config, ()) => ⟨uses, config⟩)

/-- How far a Promotion got. There is no phase until it is first looked at. -/
structure PromotionStatus where
  phase : Option Phase
  message : Option String
  currentStep : Nat
  records : List StepRecord
  state : SharedState
  freight : Option FreightReference
  collection : Option Collection
  healthChecks : List HealthCheck
  startedAt : Option Instant
  finishedAt : Option Instant
  lastHandledRefresh : Option String
  deriving DecidableEq, Inhabited

namespace PromotionStatus

def initial : PromotionStatus :=
  ⟨none, none, 0, [], ∅, none, none, [], none, none, none⟩

def isTerminal (s : PromotionStatus) : Bool := s.phase.any Phase.isTerminal

def codec : Codec PromotionStatus :=
  .record "PromotionStatus"
    (.maybe "phase" Phase.codec <| .maybe "message" .text <|
      .defaulted "currentStep" .nat64 0 <| .many "stepExecutionMetadata" StepRecord.codec <|
      .entries "state" .opaqueData <| .maybe "freight" FreightReference.codec <|
      .maybe "freightCollection" Collection.codec <|
      .many "healthChecks" HealthCheck.codec <| .maybe "startedAt" Instant.codec <|
      .maybe "finishedAt" Instant.codec <| .maybe "lastHandledRefresh" .text .done)
    (fun s => (s.phase, s.message, s.currentStep, s.records, s.state, s.freight, s.collection,
      s.healthChecks, s.startedAt, s.finishedAt, s.lastHandledRefresh, ()))
    (fun (phase, message, currentStep, records, state, freight, collection, healthChecks,
        startedAt, finishedAt, lastHandledRefresh, ()) =>
      ⟨phase, message, currentStep, records, state, freight, collection, healthChecks,
        startedAt, finishedAt, lastHandledRefresh⟩)

end PromotionStatus

structure Promotion where
  metadata : Metadata
  spec : PromotionSpec
  status : PromotionStatus
  deriving DecidableEq, Inhabited

namespace Promotion

def fresh (metadata : Metadata) (spec : PromotionSpec) : Promotion :=
  ⟨metadata, spec, .initial⟩

def key (p : Promotion) : Key := p.metadata.key

def codec (now : Instant) : Codec Promotion :=
  .record "Promotion"
    (.required "metadata" (Metadata.codec now) <| .required "spec" PromotionSpec.codec <|
      .defaulted "status" PromotionStatus.codec .initial .done)
    (fun p => (p.metadata, p.spec, p.status, ()))
    (fun (metadata, spec, status, ()) => ⟨metadata, spec, status⟩)

end Promotion

end Drayage
