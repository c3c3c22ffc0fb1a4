import Drayage.Engine.Basic

/-!
# The sequential engine

Steps are carried out one after another. A step that is still running, or that failed
less often than it may, pauses the Promotion; the next call resumes at the same step
with the records and the shared state of this one.
-/

namespace Drayage.Sequential

variable {σ : Type}

inductive Verdict where
  | next
  | pause (message : Option String)
  | halt (phase : Phase) (message : String)
  deriving DecidableEq, Inhabited

/-- What a step leaves behind: its record, and its output and check if it was
completed. -/
structure StepOutcome where
  record : StepRecord
  verdict : Verdict
  output : Option Json
  healthCheck : Option HealthCheck
  deriving DecidableEq, Inhabited

def haltPhase : StepStatus → Phase
  | .failed => .failed
  | .aborted => .aborted
  | _ => .errored

def haltVerb : Phase → String
  | .failed => "failed"
  | .aborted => "was aborted"
  | _ => "errored"

/-- A step ends badly. The Promotion ends with it, unless the step lets it continue. -/
def halted (step : Step) (record : StepRecord) (status : StepStatus) (message : String)
    (now : Instant) : StepOutcome :=
  let record := { record with status, finishedAt := some now, message := some message }
  let phase := haltPhase status
  let verdict :=
    if step.continueOnError then .next
    else .halt phase
      ("step " ++ Text.quoted step.name ++ " " ++ haltVerb phase ++ ": " ++ message)
  ⟨record, verdict, none, none⟩

/-- A step whose guard says that it is not to run. -/
def skipped (record : StepRecord) (now : Instant) : StepOutcome :=
  ⟨{ record with status := .skipped, finishedAt := some now }, .next, none, none⟩

def paused (record : StepRecord) (message : Option String) : StepOutcome :=
  ⟨{ record with message }, .pause message, none, none⟩

/-- The outcome of an attempt that did not crash; `now` is the time after it. -/
def concluded (step : Step) (record : StepRecord) (now : Instant) :
    Except StepError StepReport → StepOutcome
  | .ok report =>
    match report.status with
    | .succeeded | .skipped =>
      ⟨{ record with status := report.status, finishedAt := some now,
                     message := report.message },
        .next, report.output, report.healthCheck⟩
    | .pending | .running => paused record report.message
    | .failed | .errored | .aborted =>
      halted step record report.status
        (report.message.getD ("step reported " ++ report.status.name)) now
  | .error e =>
    -- the count has 32 bits, and starts again at zero beyond them
    let record := { record with errorCount := record.errorCount + 1 }
    if e.isTerminal || step.threshold ≤ record.errorCount.toNat then
      halted step record .errored e.message now
    else paused record (some e.message)

/-- What is decided about a step before a runner is called. -/
inductive Preparation (σ : Type) where
  | skip
  | halt (message : String)
  | ready (r : Runner σ)

def timedOut (now startedAt : Instant) (timeout : Span) : Bool :=
  timeout ≤ now.elapsed startedAt

def prepare (registry : Registry σ) (step : Step) (now startedAt : Instant) : Preparation σ :=
  match Step.evaluateGuard step.guard with
  | .error message => .halt message
  | .ok false => .skip
  | .ok true =>
    match registry.get? step.kind with
    | none => .halt ("no runner registered for step kind " ++ Text.quoted step.kind)
    | some runner =>
      match step.timeout runner.defaultTimeout with
      | none => .ready runner
      | some timeout =>
        if timedOut now startedAt timeout then
          .halt s!"step timed out after {timeout.seconds}s"
        else .ready runner

structure Setting (σ : Type) where
  registry : Registry σ
  credentials : CredentialsSource
  clock : StateM σ Instant

def stepContext (credentials : CredentialsSource) (ctx : PromotionContext) (step : Step)
    (record : StepRecord) (startedAt : Instant) (state : SharedState) : StepContext where
  project := ctx.project
  stage := ctx.stage
  promotion := ctx.promotion
  workspace := ctx.workspace
  name := step.name
  config := step.config
  vars := ctx.vars ++ step.vars
  state
  startedAt
  errors := record.errorCount
  credentials

def runStep (env : Setting σ) (ctx : PromotionContext) (step : Step) (record : StepRecord)
    (state : SharedState) : StateM σ (Except Crash StepOutcome) := do
  let now ← env.clock
  let startedAt := record.startedAt.getD now
  let record := { record with status := .running, startedAt := some startedAt }
  match prepare env.registry step now startedAt with
  | .skip => return .ok (skipped record now)
  | .halt message => return .ok (halted step record .errored message (← env.clock))
  | .ready runner =>
    match ← runner.run (stepContext env.credentials ctx step record startedAt state) with
    | .crashed c => return .error c
    | .reported report => return .ok (concluded step record (← env.clock) (.ok report))
    | .failed e => return .ok (concluded step record (← env.clock) (.error e))

structure Progress where
  records : List StepRecord
  state : SharedState
  healthChecks : List HealthCheck
  deriving DecidableEq, Inhabited

def Progress.add (p : Progress) (step : Step) (o : StepOutcome) : Progress where
  records := p.records ++ [o.record]
  state := match o.output with
    | some output => p.state.insert step.name output
    | none => p.state
  healthChecks := p.healthChecks ++ o.healthCheck.toList

def Progress.result (p : Progress) (phase : Phase) (message : Option String) (index : Nat) :
    EngineResult :=
  ⟨phase, message, index, p.records, p.state, p.healthChecks⟩

/-- Carries out the steps from position `index` on. `resumed` is the record of the first of
them, if it was attempted before. -/
def advance (env : Setting σ) (ctx : PromotionContext) :
    (index : Nat) → List Step → (resumed : Option StepRecord) → Progress →
      StateM σ EngineAnswer
  | index, [], resumed, p =>
    return .result
      ({ p with records := p.records ++ resumed.toList }.result .succeeded none index)
  | index, step :: rest, resumed, p => do
    let record ← match resumed with
      | some record => pure record
      | none => do pure (StepRecord.started step.name (← env.clock))
    match ← runStep env ctx step record p.state with
    | .error c => return .crashed c
    | .ok o =>
      let p := p.add step o
      match o.verdict with
      | .next => advance env ctx (index + 1) rest none p
      | .pause message => return .result (p.result .running message index)
      | .halt phase message => return .result (p.result phase (some message) index)

def promote (env : Setting σ) : Engine σ := fun ctx steps =>
  if steps.length < ctx.start then
    return .error (.startBeyond ctx.start steps.length)
  else if ctx.records.length < ctx.start then
    return .error (.recordsMissing ctx.start ctx.records.length)
  else
    advance env ctx ctx.start (steps.drop ctx.start) ctx.records[ctx.start]?
      ⟨ctx.records.take ctx.start, ctx.state, []⟩

end Drayage.Sequential
