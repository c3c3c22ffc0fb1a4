import Drayage.Text.Extending
import Drayage.Text.Unprintable
import Drayage.Text.Blank

/-!
# Quoted text

How a message shows a name: in double quotes, with the characters that would be
invisible or ambiguous escaped.
-/

namespace Drayage.Text

def hexDigits (n : Nat) : List Char := Nat.toDigits 16 n

/-- One character between quotes. A quote, a backslash and four controls have short
escapes; a character without a shape of its own is shown by its code point. -/
def quoteChar (c : Char) : List Char :=
  if c = '"' then ['\\', '"']
  else if c = '\\' then ['\\', '\\']
  else if c = '\n' then ['\\', 'n']
  else if c = '\t' then ['\\', 't']
  else if c = '\r' then ['\\', 'r']
  else if c = '\x00' then ['\\', '0']
  else if c ≠ ' ' && (isExtending c || isUnprintable c) then
    ['\\', 'u', '\x7b'] ++ hexDigits c.toNat ++ ['\x7d']
  else [c]

def quoteList (cs : List Char) : List Char := ['"'] ++ cs.flatMap quoteChar ++ ['"']

def quoted (s : String) : String := String.ofList (quoteList s.toList)

def quotedList (ss : List String) : String := "[" ++ join ", " (ss.map quoted) ++ "]"

end Drayage.Text
