import Drayage.Engine.Step
import Drayage.Credentials.Database

/-!
# Step runners

A runner carries out the steps of one kind. What it does is an action on a world `σ`
that the library knows nothing about, so every behaviour is allowed for: a report, an
error or a crash. A registry holds the runners by the kinds of their steps.
-/

namespace Drayage

/-- Where steps get credentials from: by project, kind of repository and URL. -/
abbrev CredentialsSource :=
  String → RepositoryKind → String → Except CredentialsError (Option Credentials)

structure StepContext where
  project : String
  stage : String
  promotion : String
  workspace : String
  name : String
  config : Option Json
  /-- The variables of the Promotion, then those of the step. -/
  vars : List Variable
  state : SharedState
  /-- When the step was first attempted. -/
  startedAt : Instant
  /-- The errors of earlier attempts. -/
  errors : UInt32
  credentials : CredentialsSource

/-- Why an attempt failed. Only a transient error may pass by itself. -/
inductive StepError where
  | transient (reason : String)
  | terminal (reason : String)
  | invalidConfig (reason : String)
  deriving DecidableEq, Inhabited

namespace StepError

def message : StepError → String
  | transient reason => reason
  | terminal reason => reason
  | invalidConfig reason => "invalid step configuration: " ++ reason

def isTerminal : StepError → Bool
  | transient _ => false
  | terminal _ | invalidConfig _ => true

end StepError

/-- Looks up credentials for a step. A failure of the look-up may pass. -/
def StepContext.credentialsFor (c : StepContext) (kind : RepositoryKind) (url : String) :
    Except StepError (Option Credentials) :=
  match c.credentials c.project kind url with
  | .ok found => .ok found
  | .error e => .error (.transient e.message)

structure StepReport where
  status : StepStatus
  output : Option Json
  message : Option String
  healthCheck : Option HealthCheck
  deriving DecidableEq, Inhabited

namespace StepReport

def succeeded : StepReport := ⟨.succeeded, none, none, none⟩

def running (message : String) : StepReport := ⟨.running, none, some message, none⟩

end StepReport

/-- The end of a computation that broke down, with its last words if they are known. -/
inductive Crash where
  | words (text : String)
  | silent
  deriving DecidableEq, Inhabited

inductive Attempt where
  | reported (r : StepReport)
  | failed (e : StepError)
  | crashed (c : Crash)
  deriving DecidableEq, Inhabited

structure Runner (σ : Type) where
  defaultTimeout : Option Span
  run : StepContext → StateM σ Attempt

/-- Runners by the kind of their steps. -/
abbrev Registry (σ : Type) := Dict String (Runner σ)

namespace Registry

variable {σ : Type}

/-- The time that the steps of a kind may take unless they say otherwise. -/
def defaultTimeout (reg : Registry σ) (kind : String) : Option Span :=
  (reg.get? kind).bind Runner.defaultTimeout

def kinds (reg : Registry σ) : List String := reg.keys

def describe (reg : Registry σ) : String :=
  "StepRunnerRegistry \x7b kinds: " ++ Text.quotedList reg.kinds ++ " \x7d"

end Registry

inductive EngineError where
  | startBeyond (start steps : Nat)
  | recordsMissing (start records : Nat)
  | duplicateRunner (kind : String)
  | internal (reason : String)
  deriving DecidableEq, Inhabited

def EngineError.message : EngineError → String
  | startBeyond start steps => s!"cannot start at step {start}: promotion has only {steps} steps"
  | recordsMissing start records =>
    s!"engine error: resuming at step {start} with metadata for only {records} steps"
  | duplicateRunner kind => "step runner already registered for kind " ++ Text.quoted kind
  | internal reason => "engine error: " ++ reason

def EngineError.kind : EngineError → String
  | startBeyond _ _ => "InvalidStartStep"
  | duplicateRunner _ => "DuplicateRunner"
  | recordsMissing _ _ | internal _ => "Internal"

/-- Registers a runner for a kind that has none. -/
def Registry.register {σ : Type} (reg : Registry σ) (kind : String) (r : Runner σ) :
    Except EngineError (Registry σ) :=
  if reg.contains kind then .error (.duplicateRunner kind) else .ok (reg.insert kind r)

end Drayage
