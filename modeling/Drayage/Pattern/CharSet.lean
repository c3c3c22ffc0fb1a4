import Drayage.Text.DecimalDigit
import Drayage.Text.Folding
import Drayage.Text.WordCharacter
import Drayage.Text.Blank

/-!
# Sets of characters

The sets that patterns speak of, and the test whether a character is in one.
-/

namespace Drayage.Pattern

inductive CharSet where
  | range (first last : Char)
  | digit
  | blank
  | word
  | union (a b : CharSet)
  | inter (a b : CharSet)
  | compl (a : CharSet)
  /-- The characters that differ from one of the set at most by case. -/
  | folded (a : CharSet)
  deriving DecidableEq, Inhabited

namespace CharSet

def contains : CharSet → Char → Bool
  | range first last, c => first ≤ c && c ≤ last
  | digit, c => Text.isDecimalDigit c
  | blank, c => Text.isBlank c
  | word, c => Text.isWordCharacter c
  | union a b, c => a.contains c || b.contains c
  | inter a b, c => a.contains c && b.contains c
  | compl a, c => !a.contains c
  | folded a, c => (Text.casings c).any a.contains

def single (c : Char) : CharSet := range c c

/-- No character at all. -/
def none : CharSet := inter digit (compl digit)

def unions (sets : List CharSet) : CharSet := sets.foldr union none

def diff (a b : CharSet) : CharSet := inter a (compl b)

def symmDiff (a b : CharSet) : CharSet := union (diff a b) (diff b a)

@[simp] theorem contains_none (c : Char) : none.contains c = false := by
  simp [none, contains]

end CharSet

end Drayage.Pattern
