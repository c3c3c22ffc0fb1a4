import Drayage.Resource.Promotion
import Drayage.Resource.Annotations

/-!
# Aborting a Promotion

An abort is attributed to whoever asked for it, and to the controller if nobody is named.
-/

namespace Drayage

def AbortRequest.actorFor (r : AbortRequest) (controller : String) : String :=
  (r.actor.filter fun actor => !actor.isEmpty).getD (Annotations.controllerActor controller)

namespace PromotionStatus

/-- The records after an abort: the step in flight is aborted with the Promotion. A step is
in flight only if its record is the last one of a running Promotion. -/
def abortedRecords (s : PromotionStatus) (now : Instant) : List StepRecord :=
  if s.phase = some .running ∧ s.records.length = s.currentStep + 1 then
    s.records.modify s.currentStep fun r =>
      if r.status = .running then { r with status := .aborted, finishedAt := some now } else r
  else s.records

def terminationMessage (actor : String) : String :=
  if actor.isEmpty then "Promotion terminated per user request"
  else "Promotion terminated by " ++ actor

def terminated (s : PromotionStatus) (actor : String) (now : Instant) : PromotionStatus :=
  { s with
    records := s.abortedRecords now
    phase := some .aborted
    message := some (terminationMessage actor)
    finishedAt := some now }

end PromotionStatus

end Drayage
