import Drayage.Manifest.Directory
import Drayage.Store.Error

/-!
# Errors of the service

What can go wrong before the controller runs.
-/

namespace Drayage

inductive ServiceError where
  /-- The configuration cannot be read as one. -/
  | unreadableConfig (reason : String)
  /-- The configuration has a value that the controller cannot work with. -/
  | unusableConfig (reason : String)
  | unreadableManifest (path : String) (cause : Directory.ReadError)
  | invalidManifest (path : String) (cause : DecodeError)
  | store (e : StoreError)
  deriving DecidableEq

def ServiceError.kind : ServiceError → String
  | unreadableConfig _ => "Config"
  | unusableConfig _ => "InvalidConfig"
  | unreadableManifest _ _ => "ManifestIo"
  | invalidManifest _ _ => "ManifestParse"
  | store e => e.kind

def ServiceError.message : ServiceError → String
  | unreadableConfig reason => "Configuration error: " ++ reason
  | unusableConfig reason => "Invalid configuration: " ++ reason
  | unreadableManifest path cause => "Failed to read manifest " ++ path ++ ": " ++ cause.message
  | invalidManifest path cause => "Invalid manifest " ++ path ++ ": " ++ cause.message
  | store e => "Store error: " ++ e.message

end Drayage
