import Drayage.Resource.Stage

/-!
# What a Promotion delivers

The collection that a Stage is to hold after a Promotion: the Freight of the last
Promotion for the other origins that the Stage requests, together with the target.
-/

namespace Drayage.Stage

/-- The collection of the last Promotion, which matters only to a Stage that requests
several origins. -/
def inherited (s : Stage) : Option Collection :=
  if 1 < s.spec.requestedFreight.length then do
    let last ← s.status.lastPromotion
    let status ← last.status
    status.collection
  else none

/-- References are taken over in the order of the requests, then the target comes in. -/
def delivery (s : Stage) (target : FreightReference) : Collection :=
  let kept := match s.inherited with
    | some previous =>
      s.spec.requestedFreight.filterMap fun (r : FreightRequest) => previous.get? r.origin
    | none => []
  (kept.foldl Collection.update .empty).update target

end Drayage.Stage
