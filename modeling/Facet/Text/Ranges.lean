/-!
# Classes of characters as ranges

A property of characters is given by the closed ranges of code points that have it.
-/

set_option autoImplicit false

namespace Facet.Text

/-- Closed ranges of code points. -/
abbrev Ranges := List (Nat × Nat)

namespace Ranges

/-- Does one of the ranges hold the code point? -/
def holds (rs : Ranges) (n : Nat) : Bool := rs.any fun r => r.1 ≤ n && n ≤ r.2

end Ranges

end Facet.Text
