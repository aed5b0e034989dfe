import Mathlib.Algebra.Group.Int.Defs
import Mathlib.Order.Basic

namespace Ferrum

/-- A signed 64-bit value is an integer; these are the bounds of its type. -/
def i64Min : Int := -2 ^ 63
def i64Max : Int := 2 ^ 63 - 1

def checkedAdd (a b : Int) : Option Int :=
  if i64Min ≤ a + b ∧ a + b ≤ i64Max then some (a + b) else none

def saturatingAdd (a b : Int) : Int := max i64Min (min i64Max (a + b))

end Ferrum
