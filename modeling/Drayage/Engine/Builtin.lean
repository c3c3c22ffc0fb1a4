import Drayage.Engine.Runner

/-!
# Builtin steps

`noop` does nothing. `wait` is running until some seconds have passed since its first
attempt.
-/

namespace Drayage.Builtin

variable {σ : Type}

def noop : Runner σ := ⟨none, fun _ => pure (.reported .succeeded)⟩

structure WaitConfig where
  seconds : Nat
  deriving DecidableEq, Inhabited

def WaitConfig.codec : Codec WaitConfig :=
  .record "WaitConfig" (.required "duration" .nat64 .done)
    (fun c => (c.seconds, ())) (fun (seconds, ()) => ⟨seconds⟩)

/-- An attempt to wait, made at some time. -/
def waitAttempt (c : StepContext) (now : Instant) : Attempt :=
  match c.config with
  | none => .failed (.invalidConfig "wait requires a duration")
  | some j =>
    match WaitConfig.codec.read j with
    | .error e => .failed (.invalidConfig e.message)
    | .ok config =>
      let passed := (now.elapsed c.startedAt).seconds
      if config.seconds ≤ passed then .reported .succeeded
      else .reported (.running s!"waiting {config.seconds - passed}s more")

def waitTimeout : Span := .ofSeconds 3600

def wait (clock : StateM σ Instant) : Runner σ :=
  ⟨some waitTimeout, fun c => return waitAttempt c (← clock)⟩

def registry (clock : StateM σ Instant) : Registry σ :=
  ((∅ : Registry σ).insert "noop" noop).insert "wait" (wait clock)

end Drayage.Builtin
