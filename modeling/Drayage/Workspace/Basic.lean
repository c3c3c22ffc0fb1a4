import Drayage.Resource.Uid

/-!
# Workspaces

Every Promotion has a directory of its own, named after its uid, under a common root.
Whether the directory had to be made tells if what was done in it before can still be
relied on.
-/

namespace Drayage

inductive FileError where
  | exists
  | notDirectory
  | other (kind text : String)
  deriving DecidableEq, Inhabited

namespace FileError

def kind : FileError → String
  | .exists => "AlreadyExists"
  | .notDirectory => "NotADirectory"
  | .other kind _ => kind

def message : FileError → String
  | .exists => "File exists (os error 17)"
  | .notDirectory => "Not a directory (os error 20)"
  | .other _ text => text

end FileError

/-- What stands under a name: a directory with the paths of its files, or a plain file. -/
inductive Place where
  | directory (files : List String)
  | plainFile
  deriving DecidableEq, Inhabited

structure Workspaces where
  rootIsFile : Bool
  places : Dict String Place
  deriving DecidableEq, Inhabited

namespace Workspaces

def empty : Workspaces := ⟨false, ∅⟩

def nameOf (uid : Uid) : String := "promotion-" ++ uid.text

def below (directory name : String) : String :=
  if directory.isEmpty || directory.toList.getLast? = some '/' then directory ++ name
  else directory ++ "/" ++ name

def pathOf (root : String) (uid : Uid) : String := below root (nameOf uid)

/-- The workspace of a Promotion is there, in whatever form. -/
def holds (ws : Workspaces) (uid : Uid) : Bool := ws.places.contains (nameOf uid)

/-- Makes sure that the workspace is there and tells whether it had to be made. -/
def acquire (ws : Workspaces) (uid : Uid) : Except FileError (Bool × Workspaces) :=
  if ws.rootIsFile then .error .exists
  else if ws.holds uid then .ok (false, ws)
  else .ok (true, { ws with places := ws.places.insert (nameOf uid) (.directory []) })

/-- Removes the workspace with all that is in it; it need not be there. -/
def release (ws : Workspaces) (uid : Uid) : Except FileError Workspaces :=
  if ws.rootIsFile then .error .notDirectory
  else match ws.places.get? (nameOf uid) with
    | none => .ok ws
    | some .plainFile => .error .notDirectory
    | some (.directory _) => .ok { ws with places := ws.places.erase (nameOf uid) }

def names (ws : Workspaces) : List String := ws.places.keys

def list (ws : Workspaces) (uid : Uid) : List String :=
  match ws.places.get? (nameOf uid) with
  | some (.directory files) =>
    (Dict.ofList (files.map fun path =>
      (String.ofList (path.toList.takeWhile (· ≠ '/')), ()))).keys
  | _ => []

/-- A file is put into the workspace, which is made if need be. -/
def write (ws : Workspaces) (uid : Uid) (path : String) : Workspaces :=
  if ws.rootIsFile then ws
  else
    let files := match ws.places.get? (nameOf uid) with
      | some (.directory files) => files
      | _ => []
    { ws with places := ws.places.insert (nameOf uid) (.directory (path :: files)) }

/-- A plain file is put where the workspace would be. -/
def obstruct (ws : Workspaces) (uid : Uid) : Workspaces :=
  if ws.rootIsFile then ws
  else { ws with places := ws.places.insert (nameOf uid) .plainFile }

def obstructRoot (_ : Workspaces) : Workspaces := ⟨true, ∅⟩

end Workspaces

end Drayage
