import Drayage.Credentials.Url

/-!
# Looking up credentials

A look-up searches the project it is made for and then the global projects in ascending
order; within a project secrets are tried in the order of their names. The meaning of a
pattern is a parameter (`PatternLanguage`).
-/

namespace Drayage

/-- What patterns mean: a text is no pattern, or it decides which texts it matches. -/
abbrev PatternLanguage := String → Option (String → Bool)

structure CredentialsDatabase where
  secrets : Dict Key Secret
  config : CredentialsConfig
  deriving DecidableEq, Inhabited

inductive CredentialsError where
  | unavailable (reason : String)
  deriving DecidableEq, Inhabited

def CredentialsError.message : CredentialsError → String
  | unavailable reason => "credentials backend unavailable: " ++ reason

namespace CredentialsDatabase

def empty (config : CredentialsConfig) : CredentialsDatabase := ⟨∅, config⟩

/-- A secret replaces the one with the same key. -/
def insert (db : CredentialsDatabase) (s : Secret) : CredentialsDatabase :=
  { db with secrets := db.secrets.insert s.key s }

def size (db : CredentialsDatabase) : Nat := db.secrets.size

/-- A secret is for a URL that has its URL's normal form, or that its pattern matches. -/
def serves (patterns : PatternLanguage) (s : Secret) (wanted : String) : Bool :=
  if s.isPattern then
    match patterns s.repoUrl with
    | some decides => decides wanted
    | none => false
  else s.kind.normalize s.repoUrl == wanted

def findIn (db : CredentialsDatabase) (patterns : PatternLanguage) (project : String)
    (kind : RepositoryKind) (url : String) : Option Credentials :=
  let wanted := kind.normalize url
  (db.secrets.values.find? fun s =>
    s.project == project && s.kind == kind && serves patterns s wanted).map Secret.credentials

def searched (db : CredentialsDatabase) (project : String) : List String :=
  project :: db.config.globalProjects.mergeSort fun a b => (compare a b).isLE

def refuses (db : CredentialsDatabase) (url : String) : Bool :=
  !db.config.allowOverHttp && (Text.dropLead? "http://".toList url.toList).isSome

def get? (db : CredentialsDatabase) (patterns : PatternLanguage) (project : String)
    (kind : RepositoryKind) (url : String) : Option Credentials :=
  if db.refuses url then none
  else (db.searched project).findSome? fun p => db.findIn patterns p kind url

end CredentialsDatabase

end Drayage
