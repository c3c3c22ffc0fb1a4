import Drayage.Engine.Runner
import Drayage.Resource.Stage

/-!
# Engines

An engine takes the steps of a Promotion as far as they go at the moment. Its result says
at which step it stands and what the next call has to be given.
-/

namespace Drayage

structure PromotionContext where
  baseUrl : String
  workspace : String
  project : String
  stage : String
  promotion : String
  freightRequests : List FreightRequest
  collection : Collection
  target : FreightReference
  /-- The position of the step to start at. -/
  start : Nat
  records : List StepRecord
  state : SharedState
  vars : List Variable
  /-- Who created the Promotion. -/
  actor : Option String
  deriving DecidableEq, Inhabited

structure EngineResult where
  phase : Phase
  message : Option String
  currentStep : Nat
  records : List StepRecord
  state : SharedState
  /-- The checks of the steps that were completed by this call. -/
  healthChecks : List HealthCheck
  deriving DecidableEq, Inhabited

inductive EngineAnswer where
  | result (r : EngineResult)
  | error (e : EngineError)
  | crashed (c : Crash)
  deriving DecidableEq, Inhabited

/-- An engine acts on a world `σ`. -/
abbrev Engine (σ : Type) := PromotionContext → List Step → StateM σ EngineAnswer

end Drayage
