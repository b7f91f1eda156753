/-!
# Tables of character ranges

A property of characters that no formula gives is a table of closed ranges of
code points, in ascending order.
-/

namespace KeywordSwitch.Text

/-- Whether `n` lies in one of the ranges; the search stops at the first range above `n`. -/
def inRanges : List (Nat × Nat) → Nat → Bool
  | [], _ => false
  | (lo, hi) :: rest, n => if n < lo then false else n ≤ hi || inRanges rest n

end KeywordSwitch.Text
