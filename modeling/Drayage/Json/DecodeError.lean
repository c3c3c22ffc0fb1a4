import Drayage.Json.Printer

/-!
# Why a value is refused

The causes for which a JSON value does not stand for a value of a type, and the one
place that words them.
-/

namespace Drayage

inductive DecodeError where
  | missingField (name : String)
  | duplicateField (name : String)
  | unknownVariant (found : String) (known : List String)
  /-- A value of another sort than expected. -/
  | wrongSort (found : Json) (expected : String)
  /-- A value of the right sort beyond its range. -/
  | wrongValue (found : Json) (expected : String)
  | wrongLength (found : Nat) (expected : String)
  | notInstant (found : String)
  | notUid (found : String)
  /-- The text is not JSON, or has no value where one is needed. -/
  | unreadable
  deriving DecidableEq

namespace DecodeError

def describe : Json → String
  | .null => "null"
  | .bool true => "boolean `true`"
  | .bool false => "boolean `false`"
  | .number (.real x) => "floating point `" ++ String.ofList (Json.printReal x) ++ "`"
  | .number n => "integer `" ++ String.ofList (Json.printNumber n) ++ "`"
  | .text s => "string " ++ Text.quoted s
  | .list _ => "sequence"
  | .record _ => "map"
  | .fault _ => "nothing"

def backticked (s : String) : String := "`" ++ s ++ "`"

/-- The names that would have been right. -/
def alternatives : List String → String
  | [] => "there are no variants"
  | [a] => "expected " ++ backticked a
  | [a, b] => "expected " ++ backticked a ++ " or " ++ backticked b
  | names => "expected one of " ++ Text.join ", " (names.map backticked)

def message : DecodeError → String
  | missingField name => "missing field " ++ backticked name
  | duplicateField name => "duplicate field " ++ backticked name
  | unknownVariant found known =>
    "unknown variant " ++ backticked found ++ ", " ++ alternatives known
  | wrongSort found expected => "invalid type: " ++ describe found ++ ", expected " ++ expected
  | wrongValue found expected => "invalid value: " ++ describe found ++ ", expected " ++ expected
  | wrongLength found expected => s!"invalid length {found}, expected " ++ expected
  | notInstant found => "not an instant: " ++ Text.quoted found
  | notUid found => "not a uid: " ++ Text.quoted found
  | unreadable => "not JSON"

end DecodeError

end Drayage
