import Drayage.Credentials.Database
import Drayage.Pattern.Parser

/-!
# The language of URL patterns
-/

namespace Drayage

/-- A URL need only contain a match. -/
def Pattern.language : PatternLanguage := fun text => (parse? text).map isMatch

end Drayage
