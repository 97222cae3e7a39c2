/-!
# Character classes as ascending ranges

A Unicode character class is a set of code points, written as inclusive ranges in ascending order.
Since the ranges ascend, a look-up may stop at the first range that starts beyond the code point.

## Main definitions

* `Ranges`: inclusive ranges of code points.
* `Ranges.covers`: membership in one of the ranges.
-/

namespace BytecodeRegions.Text

/-- Inclusive ranges of code points, in ascending order. -/
abbrev Ranges := List (Nat × Nat)

/-- Whether some range holds the code point `n`; the search stops once a range starts beyond `n`. -/
def Ranges.covers : Ranges → Nat → Bool
  | [], _ => false
  | (lo, hi) :: rest, n => if n < lo then false else decide (n ≤ hi) || Ranges.covers rest n

end BytecodeRegions.Text
