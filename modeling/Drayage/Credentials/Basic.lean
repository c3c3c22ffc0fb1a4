import Drayage.Resource.Key

/-!
# Credentials

Credentials for repositories are kept as secrets. A secret belongs to a project and names
the repositories it is for by their kind and by a URL or a pattern of URLs.
-/

namespace Drayage

inductive RepositoryKind where
  | git
  | helm
  | image
  | generic
  deriving DecidableEq, Inhabited

namespace RepositoryKind

def name : RepositoryKind → String
  | git => "git"
  | helm => "helm"
  | image => "image"
  | generic => "generic"

def codec : Codec RepositoryKind := .variants [git, helm, image, generic] name

end RepositoryKind

structure Credentials where
  username : String
  password : String
  sshPrivateKey : Option String
  deriving DecidableEq, Inhabited

namespace Credentials

def codec : Codec Credentials :=
  .record "Credentials"
    (.defaulted "username" .text "" <| .defaulted "password" .text "" <|
      .maybe "sshPrivateKey" .text .done)
    (fun c => (c.username, c.password, c.sshPrivateKey, ()))
    (fun (username, password, sshPrivateKey, ()) => ⟨username, password, sshPrivateKey⟩)

/-- Credentials in a log: the user, and whether there is a key, but no secrets. -/
def redacted (c : Credentials) : String :=
  let hidden := Text.quoted "<redacted>"
  "Credentials \x7b username: " ++ Text.quoted c.username ++ ", password: " ++ hidden
    ++ ", ssh_private_key: "
    ++ (if c.sshPrivateKey.isSome then "Some(" ++ hidden ++ ")" else "None") ++ " \x7d"

end Credentials

structure Secret where
  name : String
  project : String
  kind : RepositoryKind
  repoUrl : String
  /-- `repoUrl` is a pattern that a URL has to contain. -/
  isPattern : Bool
  credentials : Credentials
  deriving DecidableEq, Inhabited

namespace Secret

def key (s : Secret) : Key := ⟨s.project, s.name⟩

def codec : Codec Secret :=
  .record "Secret"
    (.required "name" .text <| .required "namespace" .text <|
      .required "credentialType" RepositoryKind.codec <| .required "repoUrl" .text <|
      .defaulted "repoUrlIsRegex" .bool false <|
      .required "credentials" Credentials.codec .done)
    (fun s => (s.name, s.project, s.kind, s.repoUrl, s.isPattern, s.credentials, ()))
    (fun (name, project, kind, repoUrl, isPattern, credentials, ()) =>
      ⟨name, project, kind, repoUrl, isPattern, credentials⟩)

end Secret

/-- Which projects share their secrets with all others, and whether credentials may be
sent unencrypted. -/
structure CredentialsConfig where
  globalProjects : List String
  allowOverHttp : Bool
  deriving DecidableEq, Inhabited

namespace CredentialsConfig

def standard : CredentialsConfig := ⟨[], false⟩

def codecOf (s : Scalars) : Codec CredentialsConfig :=
  .record "CredentialsConfig"
    (.defaulted "global_namespaces" (.list s.text) [] <|
      .defaulted "allow_over_http" s.bool false .done)
    (fun c => (c.globalProjects, c.allowOverHttp, ()))
    (fun (globalProjects, allowOverHttp, ()) => ⟨globalProjects, allowOverHttp⟩)

def codec : Codec CredentialsConfig := codecOf .exact

end CredentialsConfig

end Drayage
