/-!
# Ranges of code points

Character classes above ASCII are given as lists of closed ranges of code
points, in increasing order.
-/

namespace PlsqlAudit.Text

/-- True when `n` lies in one of the ranges, which stand in increasing order. -/
def inRanges (n : Nat) : List (Nat × Nat) → Bool
  | [] => false
  | (low, high) :: rest => if n < low then false else n ≤ high || inRanges n rest

end PlsqlAudit.Text
