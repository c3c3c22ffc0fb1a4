import Drayage.Controller.World

/-!
# Outages

An outage makes the store refuse a request that it would answer otherwise, which shows how a
controller copes with a store that is not always there.
-/

namespace Drayage

/-- An error that a request meets once, after some requests with the same name have passed. -/
structure Outage where
  request : String
  skip : Nat
  error : StoreError
  deriving DecidableEq, Inhabited

namespace Outage

/-- The name of a request that the store answers, and how the store refuses it. -/
def refusal : (r : Request) → Option (String × (StoreError → r.Answer))
  | .getPromotion _ => some ("get_promotion", .error)
  | .getStage _ => some ("get_stage", .error)
  | .getFreight _ => some ("get_freight", .error)
  | .listPromotions => some ("list_promotions", .error)
  | .updateStatus _ _ _ => some ("update_promotion_status", .error)
  | .requestReverification _ => some ("request_stage_reverification", .error)
  | .now | .acquire _ | .release _ | .promote _ _ | .emit _ => none

/-- The error that a request meets, if any, and the outages that are left. Those of one
name come one after another. -/
def strike (request : String) : List Outage → Option StoreError × List Outage
  | [] => (none, [])
  | f :: fs =>
    if f.request ≠ request then
      let (hit, fs) := strike request fs
      (hit, f :: fs)
    else match f.skip with
      | 0 => (some f.error, fs)
      | skip + 1 => (none, { f with skip } :: fs)

variable {ε : Type}

/-- Answers requests as `perform` does, but for the outages that the world holds. -/
def perform (outages : ε → List Outage) (leave : List Outage → ε → ε)
    (perform : (r : Request) → StateM (World ε) r.Answer) (r : Request) :
    StateM (World ε) r.Answer := fun w =>
  match refusal r with
  | none => perform r w
  | some (name, refuse) =>
    let (hit, left) := strike name (outages w.extra)
    let w := { w with extra := leave left w.extra }
    match hit with
    | some e => (refuse e, w)
    | none => perform r w

end Outage

end Drayage
