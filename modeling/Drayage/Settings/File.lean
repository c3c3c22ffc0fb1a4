import Drayage.Ini.Document
import Drayage.Json.Reader
import Drayage.Manifest.Directory
import Drayage.Toml.Document
import Drayage.Yaml.Value

/-!
# Settings in files

The name of a file tells its format. A file may also be named without what follows the
last point, and it need not exist.
-/

namespace Drayage.Settings

inductive FileFormat where
  | toml
  | json
  | yaml
  | ini
  deriving DecidableEq, Inhabited

namespace FileFormat

def extensions : List (String × FileFormat) :=
  [("toml", .toml), ("json", .json), ("yaml", .yaml), ("yml", .yaml), ("ini", .ini)]

def ofName? (name : String) : Option FileFormat :=
  (extension? name).bind fun ext => extensions.lookup ext

/-- The value of a text. YAML has at most one document. -/
def read? : FileFormat → String → Option Json
  | .toml, s => Toml.read? s
  | .json, s =>
    match Json.read s with
    | (j, true) => j.canonical?
    | (_, false) => none
  | .yaml, s =>
    match Yaml.Node.ofText? s with
    | some [] => some (.record [])
    | some [doc] => Yaml.Lenient.value? doc
    | _ => none
  | .ini, s => Ini.read? s

end FileFormat

/-- The file of a path with its format. What exists under the path itself counts first, and
is passed over if its format is not known. -/
def find? (d : Directory) (path : String) : Option (String × FileFormat) :=
  let names := Directory.pathOf path
  match d.files.get? names, names.getLast? with
  | _, none => none
  | some content, some name => (FileFormat.ofName? name).map (content, ·)
  | none, some name =>
    FileFormat.extensions.findSome? fun e =>
      (d.files.get? (names.dropLast ++ [name ++ "." ++ e.1])).map (·, e.2)

/-- The settings of a file; nothing if it cannot be read as an object. -/
def ofFile? (d : Directory) (path : String) : Option (List (String × Json)) :=
  match find? d path with
  | none => some []
  | some (content, format) =>
    match format.read? content with
    | some (.record ms) => some ms
    | _ => none

end Drayage.Settings
