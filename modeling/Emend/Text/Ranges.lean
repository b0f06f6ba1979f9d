/-! Sets of characters as ascending, disjoint ranges of code points. -/
namespace Emend.Text

/-- Ranges from first to last code point, both included, in ascending order. -/
structure Ranges where
  list : List (Nat × Nat)

namespace Ranges

/-- Stops at the first range that begins above the point. -/
def covers : List (Nat × Nat) → Nat → Bool
  | [], _ => false
  | (first, last) :: rest, n =>
    if n < first then false
    else if n ≤ last then true
    else covers rest n

def contains (r : Ranges) (c : Char) : Bool := covers r.list c.toNat

end Ranges
end Emend.Text
