import Drayage.Json.Codec
import Drayage.Time.Span

/-!
# Configuration of the controller
-/

namespace Drayage

structure ControllerConfig where
  /-- The shard that the controller serves. -/
  shard : Option String
  /-- The controller also serves what is in no shard. -/
  isDefault : Bool
  /-- The address of the API server, for links that steps make. -/
  baseUrl : String
  /-- How many Promotions are worked on at the same time. -/
  maxConcurrent : Nat
  /-- The directory of the workspaces. -/
  workspaceRoot : String
  /-- After how many seconds a running Promotion is looked at again. -/
  intervalSeconds : Nat
  deriving DecidableEq, Inhabited

namespace ControllerConfig

/-- The configuration that holds where nothing else is said. -/
def standard (tempDir : String) : ControllerConfig := ⟨none, true, "", 4, tempDir, 300⟩

/-- The name of the controller, with its shard if it has one. -/
def name (c : ControllerConfig) : String :=
  match c.shard.filter fun s => !s.isEmpty with
  | some shard => "promotion-controller-" ++ shard
  | none => "promotion-controller"

def interval (c : ControllerConfig) : Span := .ofSeconds c.intervalSeconds

def codecOf (s : Scalars) (tempDir : String) : Codec ControllerConfig :=
  .record "ControllerConfig"
    (.defaulted "shard_name" (.optional s.text) none <|
      .defaulted "is_default_controller" s.bool true <|
      .defaulted "api_server_base_url" s.text "" <|
      .defaulted "max_concurrent_reconciles" s.nat64 4 <|
      .defaulted "workspace_root" s.text tempDir <|
      .defaulted "default_requeue_interval_secs" s.nat64 300 .done)
    (fun c => (c.shard, c.isDefault, c.baseUrl, c.maxConcurrent, c.workspaceRoot,
      c.intervalSeconds, ()))
    (fun (shard, isDefault, baseUrl, maxConcurrent, workspaceRoot, intervalSeconds, ()) =>
      ⟨shard, isDefault, baseUrl, maxConcurrent, workspaceRoot, intervalSeconds⟩)

def codec (tempDir : String) : Codec ControllerConfig := codecOf .exact tempDir

end ControllerConfig

end Drayage
