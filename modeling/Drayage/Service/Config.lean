import Drayage.Controller.Config
import Drayage.Credentials.Basic
import Drayage.Service.Error
import Drayage.Settings.Environment
import Drayage.Settings.File
import Drayage.Settings.Tree

/-!
# Configuration of the service

The configuration comes from a file and from the environment: what a file says counts more
than what is standard, and what the environment says counts most.
-/

namespace Drayage

structure LoggingConfig where
  /-- Which messages are logged. -/
  level : String
  /-- Messages are logged as JSON. -/
  json : Bool
  deriving DecidableEq, Inhabited

namespace LoggingConfig

def standard : LoggingConfig := ⟨"info", false⟩

def codecOf (s : Scalars) : Codec LoggingConfig :=
  .record "LoggingConfig"
    (.defaulted "level" s.text standard.level <| .defaulted "json" s.bool standard.json .done)
    (fun c => (c.level, c.json, ()))
    (fun (level, json, ()) => ⟨level, json⟩)

end LoggingConfig

structure ServiceConfig where
  controller : ControllerConfig
  credentials : CredentialsConfig
  logging : LoggingConfig
  deriving DecidableEq, Inhabited

namespace ServiceConfig

def standard (tempDir : String) : ServiceConfig :=
  ⟨.standard tempDir, .standard, .standard⟩

def codec (tempDir : String) : Codec ServiceConfig :=
  let s := Settings.scalars
  let controller := Settings.sectionOf 6 (ControllerConfig.codecOf s tempDir)
  .record "ServiceConfig"
    (.defaulted "controller" controller (.standard tempDir) <|
      .defaulted "credentials" (Settings.sectionOf 2 (CredentialsConfig.codecOf s)) .standard <|
      .defaulted "logging" (Settings.sectionOf 2 (LoggingConfig.codecOf s)) .standard .done)
    (fun c => (c.controller, c.credentials, c.logging, ()))
    (fun (controller, credentials, logging, ()) => ⟨controller, credentials, logging⟩)

/-- Why the controller cannot work with a configuration, if it cannot. -/
def unusable? (c : ServiceConfig) : Option String :=
  if c.controller.intervalSeconds = 0 then
    some "controller.default_requeue_interval_secs must be greater than zero"
  else none

def ofSettings (tempDir : String) (settings : Json) : Except ServiceError ServiceConfig :=
  match (codec tempDir).read settings with
  | .error e => .error (.unreadableConfig e.message)
  | .ok c =>
    match c.unusable? with
    | some reason => .error (.unusableConfig reason)
    | none => .ok c

def load (tempDir : String) (d : Directory) (path : Option String)
    (env : List (String × String)) : Except ServiceError ServiceConfig :=
  match path.elim (some []) (Settings.ofFile? d) with
  | none => .error (.unreadableConfig "the file holds no settings")
  | some sets =>
    let base := (codec tempDir).write (standard tempDir)
    ofSettings tempDir
      (Settings.overlay (Settings.overlay base sets) (Environment.settings env))

end ServiceConfig

end Drayage
