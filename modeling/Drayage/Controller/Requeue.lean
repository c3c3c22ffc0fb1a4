import Drayage.Engine.Step

/-!
# When to look again

A running Promotion is looked at again after an interval, or already when its current step
runs out of time.
-/

namespace Drayage

/-- When the current step of a Promotion runs out of time, as the start of the step and the
time it may take. There is no such time if the step may take as long as it likes, has not
started, or may take longer than can be told. -/
def Promotion.timeLimit? (p : Promotion) (runnerDefault : String → Option Span) :
    Option (Instant × Span) := do
  let i := p.status.currentStep
  let declared ← p.spec.steps[i]?
  let step := Step.ofDeclared i declared
  let timeout ← step.timeout (runnerDefault step.kind)
  let record ← p.status.records[i]?
  let startedAt ← record.startedAt
  if timeout.addable then some (startedAt, timeout) else none

/-- The delay after which a running Promotion is looked at again. There is none if a sum
of times lies beyond the calendar. -/
def Promotion.nextDelay (p : Promotion) (runnerDefault : String → Option Span)
    (interval : Span) (now : Instant) : Option Span :=
  match p.timeLimit? runnerDefault with
  | none => some interval
  | some (startedAt, timeout) => do
    let deadline ← startedAt.add? timeout
    let horizon ← now.add? (if interval.addable then interval else .zero)
    return if deadline < horizon then deadline.elapsed now else interval

end Drayage
