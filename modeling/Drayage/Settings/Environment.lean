import Drayage.Settings.Scalar
import Drayage.Text.Blank

/-!
# Settings in the environment

A variable gives a setting if its name begins with `RELAY_`. Two underlines in the rest of
the name stand for the point between the names of a path.
-/

namespace Drayage.Environment

def lead : String := "relay_"

/-- Reads two underlines as a point. -/
def pointed : List Char → List Char
  | '_' :: '_' :: cs => '.' :: pointed cs
  | c :: cs => c :: pointed cs
  | [] => []

def setting? (name value : String) : Option (String × Json) :=
  (Text.dropLead? lead.toList (Text.lowercase name).toList).map fun rest =>
    (String.ofList (pointed rest), Settings.ofText value)

def settings (env : List (String × String)) : List (String × Json) :=
  env.filterMap fun v => setting? v.1 v.2

end Drayage.Environment
