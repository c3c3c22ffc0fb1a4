import Drayage.Credentials.Basic
import Drayage.Text.Lowercase

/-!
# Repository URLs

Different spellings of a repository's URL have one normal form. For Git and Helm neither
case nor closing slashes matter, and for Git not a closing `.git` either.
-/

namespace Drayage

open Text

/-- A text without an ending, if it has it. -/
def stripEnd (ending cs : List Char) : List Char :=
  match dropLead? ending.reverse cs.reverse with
  | some rest => rest.reverse
  | none => cs

def RepositoryKind.normalize (kind : RepositoryKind) (url : String) : String :=
  let url := trim url
  match kind with
  | .git =>
    let slashless := dropEndWhile (· = '/') (lowercase url).toList
    String.ofList (stripEnd ".git".toList slashless)
  | .helm => String.ofList (dropEndWhile (· = '/') (lowercase url).toList)
  | .image | .generic => url

end Drayage
