import Drayage.Data.Dict
import Drayage.Text.Blank

/-!
# Directories of files

A tree of files, known by their paths below a root.
-/

namespace Drayage

/-- Paths are lists of names. -/
structure Directory where
  files : Dict (List String) String
  /-- The directories, the root apart. -/
  directories : Dict (List String) Unit
  deriving Inhabited

namespace Directory

def empty : Directory := ⟨∅, ∅⟩

/-- The names of a path, without those that mean the directory itself. -/
def pathOf (path : String) : List String :=
  ((Text.splitAt '/' path.toList).map String.ofList).filter fun name => name != "" && name != "."

def parents : List String → List (List String)
  | [] => []
  | [_] => []
  | name :: rest => [name] :: (parents rest).map (name :: ·)

def makeParents (d : Directory) (path : List String) : Directory :=
  { d with directories := (parents path).foldl (fun ds p => ds.insert p ()) d.directories }

/-- Writes a file, and makes the directories it is in. -/
def write (d : Directory) (path content : String) : Directory :=
  let path := pathOf path
  { d.makeParents path with files := d.files.insert path content }

def makeDirectory (d : Directory) (path : String) : Directory :=
  let path := pathOf path
  let d := d.makeParents path
  { d with directories := d.directories.insert path () }

def isDirectory (d : Directory) (path : List String) : Bool :=
  path.isEmpty || d.directories.contains path

/-- The names of the files in a directory, without those below it, in ascending order. -/
def filesIn (d : Directory) (path : List String) : List String :=
  d.files.keys.filterMap fun file =>
    match file.getLast? with
    | some name => if file.dropLast == path then some name else none
    | none => none

inductive ReadError where
  | notFound
  | notDirectory
  | isDirectory
  deriving DecidableEq, Inhabited

def ReadError.message : ReadError → String
  | notFound => "No such file or directory (os error 2)"
  | notDirectory => "Not a directory (os error 20)"
  | isDirectory => "Is a directory (os error 21)"

/-- The path ends in a slash, so it can only lead to a directory. -/
def isClosed (path : String) : Bool := path.toList.getLast? == some '/'

def entryOf (path name : String) : String :=
  if isClosed path then path ++ name else path ++ "/" ++ name

def read (d : Directory) (path : List String) (closed : Bool) : Except ReadError String :=
  match d.files.get? path with
  | some content => if closed then .error .notDirectory else .ok content
  | none =>
    if d.isDirectory path then .error .isDirectory
    else if (parents path).any fun p => (d.files.get? p).isSome then .error .notDirectory
    else .error .notFound

end Directory

/-- What follows the last dot of a name that does not only begin with one. -/
def extension? (name : String) : Option String :=
  let cs := name.toList.reverse
  let ext := cs.takeWhile (· ≠ '.')
  match cs.drop ext.length with
  | [] | [_] => none
  | _ :: _ => some (String.ofList ext.reverse)

end Drayage
