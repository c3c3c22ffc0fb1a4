import Drayage.Resource.Promotion

/-!
# Errors of the store

What a store refuses and why. `unfit?` is the rule for statuses: a status must not point
beyond the declared steps, nor record more steps than there are, nor carry a message
longer than the store keeps.
-/

namespace Drayage

inductive Unfit where
  | stepBeyond (step steps : Nat)
  | recordsBeyond (records steps : Nat)
  | messageTooLong (bytes : Nat)
  | nothingToVerify
  | other (reason : String)
  deriving DecidableEq, Inhabited

/-- The longest message of a status, in bytes. -/
def messageLimit : Nat := 4096

def Unfit.reason : Unfit → String
  | stepBeyond step steps => s!"currentStep {step} exceeds the {steps} declared steps"
  | recordsBeyond records steps =>
    s!"stepExecutionMetadata has {records} entries for {steps} declared steps"
  | messageTooLong bytes => s!"message is {bytes} bytes, limit is {messageLimit}"
  | nothingToVerify => "stage has no verification to repeat"
  | other reason => reason

def PromotionStatus.unfit? (status : PromotionStatus) (spec : PromotionSpec) : Option Unfit :=
  let steps := spec.steps.length
  let bytes := (status.message.getD "").utf8ByteSize
  if steps < status.currentStep then some (.stepBeyond status.currentStep steps)
  else if steps < status.records.length then some (.recordsBeyond status.records.length steps)
  else if messageLimit < bytes then some (.messageTooLong bytes)
  else none

inductive StoreError where
  /-- The write was made against an old version. -/
  | conflict (key : Key) (expected actual : Nat)
  | invalid (key : Key) (unfit : Unfit)
  | notFound (key : Key)
  | alreadyExists (key : Key)
  | unavailable (reason : String)
  deriving DecidableEq, Inhabited

namespace StoreError

def message : StoreError → String
  | conflict key expected actual =>
    "conflict writing " ++ key.text ++ s!": expected version {expected}, found {actual}"
  | invalid key unfit => "invalid status for " ++ key.text ++ ": " ++ unfit.reason
  | notFound key => "not found: " ++ key.text
  | alreadyExists key => "already exists: " ++ key.text
  | unavailable reason => "store unavailable: " ++ reason

def kind : StoreError → String
  | conflict _ _ _ => "Conflict"
  | invalid _ _ => "Invalid"
  | notFound _ => "NotFound"
  | alreadyExists _ => "AlreadyExists"
  | unavailable _ => "Unavailable"

def isConflict : StoreError → Bool
  | conflict _ _ _ => true
  | _ => false

def isInvalid : StoreError → Bool
  | invalid _ _ => true
  | _ => false

/-- The same call may succeed later. -/
def isRetryable : StoreError → Bool
  | conflict _ _ _ | unavailable _ => true
  | _ => false

end StoreError

end Drayage
