import Drayage.Engine.Basic
import Drayage.Json.Access

/-!
# What engines and runners are given, as JSON

For logs, and for whoever wants to see what a call was about.
-/

namespace Drayage

namespace Step

def members (s : Step) : List (String × Json) :=
  [("alias", .text s.name), ("config", .ofOption id s.config),
    ("continueOnError", .bool s.continueOnError), ("guard", .ofOption .text s.guard),
    ("kind", .text s.kind), ("retry", .ofOption RetryPolicy.codec.write s.retry),
    ("vars", Variable.codec.list.write s.vars)]

def json (s : Step) : Json := .record s.members

end Step

/-- All but where credentials come from. -/
def StepContext.json (c : StepContext) : Json :=
  .record [("alias", .text c.name), ("attemptErrors", .nat c.errors.toNat),
    ("config", .ofOption id c.config), ("project", .text c.project),
    ("promotion", .text c.promotion), ("sharedState", .record c.state.entries),
    ("stage", .text c.stage), ("startedAt", .text c.startedAt.print),
    ("vars", Variable.codec.list.write c.vars), ("workspace", .text c.workspace)]

def PromotionContext.json (c : PromotionContext) (steps : List Step) : Json :=
  .record [("actor", .ofOption .text c.actor),
    ("freight", .text (Collection.codec.write c.collection).compact),
    ("freightRequests", FreightRequest.codec.list.write c.freightRequests),
    ("project", .text c.project), ("promotion", .text c.promotion), ("stage", .text c.stage),
    ("startFromStep", .nat c.start), ("state", .record c.state.entries),
    ("stepExecutionMetadata", StepRecord.codec.list.write c.records),
    ("steps", .ofList Step.json steps),
    ("targetFreight", FreightReference.codec.write c.target), ("uiBaseUrl", .text c.baseUrl),
    ("vars", Variable.codec.list.write c.vars), ("workspace", .text c.workspace)]

def EngineResult.members (r : EngineResult) : List (String × Json) :=
  [("currentStep", .nat r.currentStep),
    ("healthChecks", HealthCheck.codec.list.write r.healthChecks),
    ("message", .ofOption .text r.message), ("state", .record r.state.entries),
    ("status", .text r.phase.name),
    ("stepExecutionMetadata", StepRecord.codec.list.write r.records)]

end Drayage
