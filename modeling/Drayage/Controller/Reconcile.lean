import Drayage.Controller.Abort
import Drayage.Controller.Config
import Drayage.Controller.Outcome
import Drayage.Controller.Program
import Drayage.Controller.Requeue
import Drayage.Resource.Delivery

/-!
# Reconciling a Promotion

A reconcile reads a Promotion, takes it as far as it goes and writes the result against
the version that it has read. It keeps nothing to itself, so a Promotion may be reconciled
any number of times. Steps are only carried out while the Stage names the Promotion as its
current one.
-/

namespace Drayage

open Program

structure Reconciler where
  config : ControllerConfig
  /-- The time that steps of a kind may take by default. -/
  runnerDefault : String → Option Span

namespace Reconciler

variable (c : Reconciler)

def actor : String := Annotations.controllerActor c.config.name

/-- Ends a Promotion on request. One that has ended already is left alone. -/
def terminate (request : AbortRequest) (p : Promotion) (freight : Option Freight) :
    Program (Except ReconcileError Unit) := do
  if p.status.isTerminal then return .ok ()
  let actor := request.actorFor c.config.name
  let now ← Program.request .now
  let status := p.status.terminated actor now
  match ← Program.request (.updateStatus p.key p.metadata.version status) with
  | .error e => return .error (.store e)
  | .ok _ =>
    let _ ← Program.request (.release p.metadata.uid)
    let annotations := (Notice.annotationsFor none p freight).insert Notice.actorKey actor
    let _ ← Program.request (.emit (.about p.metadata annotations .normal
      Notice.abortedReason (status.message.getD "")))
    return .ok ()

def writeStatus (p : Promotion) (status : PromotionStatus) :
    Program (Except ReconcileError Promotion) := do
  match ← Program.request (.updateStatus p.key p.metadata.version status) with
  | .error e => return .error (.store e)
  | .ok version => return .ok { p with metadata := { p.metadata with version }, status }

/-- The status to start the engine from. Nothing that was done in a workspace that is no
longer there can be relied on, but the shared state is kept. -/
def startingStatus (status : PromotionStatus) (target : FreightReference)
    (collection : Collection) (fresh : Bool) : PromotionStatus :=
  let status := { status with freight := some target, collection := some collection }
  if fresh then { status with currentStep := 0, records := [], healthChecks := [] } else status

def context (p : Promotion) (stage : Stage) (target : FreightReference)
    (collection : Collection) (status : PromotionStatus) : PromotionContext where
  baseUrl := c.config.baseUrl
  workspace := Workspaces.pathOf c.config.workspaceRoot p.metadata.uid
  project := p.metadata.project
  stage := stage.metadata.name
  promotion := p.metadata.name
  freightRequests := stage.spec.requestedFreight
  collection
  target
  start := status.currentStep
  records := status.records
  state := status.state
  vars := p.spec.vars
  actor := Annotations.creator p.metadata.annotations

def resultStatus (status : PromotionStatus) : Except EngineError EngineResult → PromotionStatus
  | .ok r =>
    { status with
      phase := some r.phase
      message := r.message
      currentStep := r.currentStep
      records := r.records
      state := r.state
      healthChecks := status.healthChecks ++ r.healthChecks }
  | .error e => { status with phase := some .errored, message := some e.message }

/-- The Stage holds this Freight already and has verified what it holds. -/
def isRepeat (stage : Stage) (target : FreightReference) : Bool :=
  stage.currentFreight.any fun current =>
    !current.verifications.isEmpty && current.containsFreight target.name

/-- Tidies up after the engine: a repeated success asks for another verification, and a
Promotion that has ended needs no workspace. Neither has to work. -/
def settle (p : Promotion) (stage : Stage) (target : FreightReference)
    (status : PromotionStatus) : Program Unit := do
  if status.phase = some .succeeded ∧ isRepeat stage target then
    let _ ← Program.request (.requestReverification stage.metadata.key)
  if status.isTerminal then
    let _ ← Program.request (.release p.metadata.uid)

/-- Has the engine carry out the steps of a Promotion and returns the status that results;
nothing is written. -/
def promote (p : Promotion) (stage : Stage) (freight : Option Freight) : Program Promoted := do
  match freight with
  | none => return .failed (.freightNotFound p.spec.freight p.metadata.project)
  | some freight =>
    if !stage.isAvailable freight then
      return .failed
        (.freightNotAvailable p.spec.freight stage.metadata.name p.metadata.project)
    let target := freight.reference
    let collection := stage.delivery target
    match ← Program.request (.acquire p.metadata.uid) with
    | .error e =>
      return .failed
        (.workspace (Workspaces.pathOf c.config.workspaceRoot p.metadata.uid) e)
    | .ok fresh =>
      let status := startingStatus p.status target collection fresh
      let steps := Step.ofDeclaredSteps p.spec.steps
      match ← Program.request (.promote (c.context p stage target collection status) steps) with
      | .crashed crash => return .crashed crash
      | .result r =>
        let status := resultStatus status (.ok r)
        settle p stage target status
        return .status status
      | .error e =>
        let status := resultStatus status (.error e)
        settle p stage target status
        return .status status

def newStatus (p : Promotion) (promoted : Promoted) : Program PromotionStatus := do
  match promoted with
  | .status s => return s
  | .failed e => return p.status.errored e.message
  | .crashed crash =>
    let _ ← Program.request (.release p.metadata.uid)
    return p.status.errored crash.message

/-- The status with the time at which it ended, if it did, and the refresh it answers. -/
def stamp (p : Promotion) (status : PromotionStatus) : Program PromotionStatus := do
  let status ←
    if status.isTerminal then do
      let now ← Program.request .now
      pure { status with finishedAt := some now }
    else pure status
  match Annotations.refreshToken p.metadata.annotations with
  | some token => return { status with lastHandledRefresh := some token }
  | none => return status

/-- The status that takes the place of one the store does not accept. -/
def fallback (p : Promotion) (rejected : PromotionStatus) (e : StoreError) (now : Instant) :
    PromotionStatus :=
  { p.status.errored ("error updating status: " ++ e.message) with
    finishedAt := some now
    lastHandledRefresh := rejected.lastHandledRefresh }

/-- Writes the final status. If the store does not accept it, an errored status that says
so is written in its place, so that no Promotion is stuck with a write that never works. -/
def persist (p : Promotion) (status : PromotionStatus) :
    Program (Except StoreError PromotionStatus) := do
  match ← Program.request (.updateStatus p.key p.metadata.version status) with
  | .ok _ => return .ok status
  | .error e =>
    if !e.isInvalid then return .error e
    let now ← Program.request .now
    let status := fallback p status e now
    match ← Program.request (.updateStatus p.key p.metadata.version status) with
    | .ok _ => return .ok status
    | .error e => return .error e

def endMessage (phase : Phase) (status : PromotionStatus) : String :=
  let detail := status.message.getD ""
  "Promotion " ++ phase.name ++ if detail.isEmpty then "" else ": " ++ detail

/-- The notice that a Promotion has ended, if it has. A success tells whether the Stage will
verify it. -/
def endNotice (p : Promotion) (stage : Stage) (freight : Option Freight)
    (status : PromotionStatus) : Option Notice := do
  let phase ← status.phase
  let reason ← Notice.reasonFor phase
  let annotations := Notice.annotationsFor (some c.actor) p freight
  let annotations :=
    if phase = .succeeded then
      annotations.insert Notice.verificationKey
        (if stage.spec.verification.isSome then "true" else "false")
    else annotations
  return .about p.metadata annotations .normal reason (endMessage phase status)

def conclude (p : Promotion) (stage : Stage) (freight : Option Freight)
    (initialPhase : Option Phase) (persisted : PromotionStatus) : Program Ending := do
  if persisted.isTerminal ∧ persisted.phase ≠ initialPhase then
    match c.endNotice p stage freight persisted with
    | some notice =>
      let _ ← Program.request (.emit notice)
    | none => pure ()
  if persisted.phase = some .running then
    let now ← Program.request .now
    match { p with status := persisted }.nextDelay c.runnerDefault c.config.interval now with
    | some delay => return .finished (some delay)
    | none => return .crashed (.words "\x60DateTime + TimeDelta\x60 overflowed")
  return .finished none

def execute (p : Promotion) (stage : Stage) (freight : Option Freight)
    (initialPhase : Option Phase) : Program Ending := do
  let promoted ← c.promote p stage freight
  let status ← newStatus p promoted
  let status ← stamp p status
  match ← persist p status with
  | .ok persisted => c.conclude p stage freight initialPhase persisted
  | .error e => return if e.isRetryable then .failed (.store e) else .finished none

def admitted (p : Promotion) (stage : Stage) (freight : Option Freight) : Program Ending := do
  let initialPhase := p.status.phase
  if initialPhase = some .running then c.execute p stage freight initialPhase
  else
    let now ← Program.request .now
    match ← writeStatus p { p.status with phase := some .running, startedAt := some now } with
    | .error e => return .failed e
    | .ok p => c.execute p stage freight initialPhase

def approach (key : Key) (p : Promotion) (freight : Option Freight) : Program Ending := do
  let stageKey : Key := ⟨key.project, p.spec.stage⟩
  match ← Program.request (.getStage stageKey) with
  | .error e => return .failed (.store e)
  | .ok none => return .failed (.stageNotFound stageKey)
  | .ok (some stage) =>
    if stage.currentPromotionName = some p.metadata.name then c.admitted p stage freight
    else return .finished none

def proceed (key : Key) (p : Promotion) (freight : Option Freight) : Program Ending := do
  match Annotations.abortRequest p.metadata.annotations with
  | .ok (some request) =>
    match ← c.terminate request p freight with
    | .error e => return .failed e
    | .ok () => return .finished none
  | .ok none | .error _ =>
    if p.status.phase.isSome then c.approach key p freight
    else match ← writeStatus p { p.status with phase := some .pending } with
      | .error e => return .failed e
      | .ok p => c.approach key p freight

/-- Takes the Promotion with a key as far as it goes. -/
def reconcile (key : Key) : Program Ending := do
  match ← Program.request (.getPromotion key) with
  | .error e => return .failed (.store e)
  | .ok none => return .finished none
  | .ok (some p) =>
    if p.status.isTerminal then return .finished none
    match ← Program.request (.getFreight ⟨key.project, p.spec.freight⟩) with
    | .error e => return .failed (.store e)
    | .ok freight => c.proceed key p freight

end Reconciler

end Drayage
