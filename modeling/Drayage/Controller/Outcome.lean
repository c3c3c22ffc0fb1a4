import Drayage.Store.Error
import Drayage.Engine.Runner
import Drayage.Text.Boundary
import Drayage.Workspace.Basic

/-!
# How reconciles end

A reconcile fails for reasons outside the Promotion, and is then tried again. What is wrong
with the Promotion itself ends it as errored.
-/

namespace Drayage

inductive ReconcileError where
  | store (e : StoreError)
  | stageNotFound (key : Key)
  deriving DecidableEq, Inhabited

namespace ReconcileError

def message : ReconcileError → String
  | store e => e.message
  | stageNotFound key => "could not find Stage " ++ key.text

def kind : ReconcileError → String
  | store e => e.kind
  | stageNotFound _ => "StageNotFound"

def isConflict : ReconcileError → Bool
  | store e => e.isConflict
  | stageNotFound _ => false

end ReconcileError

inductive Ending where
  /-- All is done for now; a Promotion that is still running is to be looked at again after
  a while. -/
  | finished (requeueAfter : Option Span)
  | failed (e : ReconcileError)
  | crashed (c : Crash)
  deriving DecidableEq, Inhabited

/-- Why the steps of a Promotion could not be started. -/
inductive PromoteError where
  | freightNotFound (freight project : String)
  | freightNotAvailable (freight stage project : String)
  | workspace (path : String) (cause : FileError)
  deriving DecidableEq, Inhabited

def PromoteError.message : PromoteError → String
  | freightNotFound freight project =>
    "Freight " ++ Text.quoted freight ++ " not found in namespace " ++ Text.quoted project
  | freightNotAvailable freight stage project =>
    "Freight " ++ Text.quoted freight ++ " is not available to Stage " ++ Text.quoted stage
      ++ " in namespace " ++ Text.quoted project
  | workspace path cause =>
    "error creating working directory " ++ Text.quoted path ++ ": " ++ cause.message

def PromoteError.kind : PromoteError → String
  | freightNotFound _ _ => "FreightNotFound"
  | freightNotAvailable _ _ _ => "FreightNotAvailable"
  | workspace _ _ => "Workspace"

inductive Promoted where
  | status (s : PromotionStatus)
  | failed (e : PromoteError)
  | crashed (c : Crash)
  deriving DecidableEq, Inhabited

def Crash.message : Crash → String
  | words text => text
  | silent => "promotion panicked"

/-- As much of a text as takes up at most `limit` bytes, cut at the end. -/
def truncate (limit : Nat) (message : String) : String :=
  if limit < message.utf8ByteSize then
    let stop := (Text.lastBoundary? message limit).get (Text.isSome_lastBoundary? message limit)
    (message.sliceTo stop).copy
  else message

/-- A status moved to errored, with as much of the message as the store keeps. -/
def PromotionStatus.errored (s : PromotionStatus) (message : String) : PromotionStatus :=
  { s with phase := some .errored, message := some (truncate messageLimit message) }

end Drayage
