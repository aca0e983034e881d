import Stencil.Error
import Stencil.Text.Search

/-!
# The mode of a template

The close tags that occur in a template decide its mode: there is at most one iterative family
among them, and its regions vary.

Main definitions:

* `Mode.detect`: the mode of a template, or the two families that it mixes.
-/

namespace Stencil

namespace Mode

/-- The iterative families whose close tags occur, in the order of `Family.iterative`. -/
def familiesIn (source : List Char) : List Family :=
  Family.iterative.filter fun family => Text.occurs family.closeTag source

/-- The mode of a template. Of several iterative families the first two are reported. -/
def detect (source : List Char) : Except SetupError Mode :=
  match familiesIn source with
  | [] => .ok none
  | [family] => .ok (ofFamily family)
  | first :: second :: _ => .error (.mixedFamilies first second)

end Mode

end Stencil
