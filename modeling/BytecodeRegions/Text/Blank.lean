import BytecodeRegions.Text.Ranges

/-!
# Blanks

Three notions of white space meet in a listing. Statements are spaced by *gaps* (space and tab).
An operand runs until a *blank*, which is any Unicode white space but the four information
separators U+001C to U+001F. A written line loses its trailing *padding*, which takes in those
separators too.

## Main definitions

* `isGap`, `isBlank`, `isPadding`: the three classes, each inside the next.
* `trimEnd`: a text without its trailing padding.
-/

namespace BytecodeRegions.Text

/-- Space or tab. -/
def isGap (c : Char) : Bool :=
  c == ' ' || c == '\t'

/-- The white space that ends an operand, as ascending ranges. -/
def blankRanges : Ranges :=
  [(0x9, 0xd), (0x20, 0x20), (0x85, 0x85), (0xa0, 0xa0), (0x1680, 0x1680), (0x2000, 0x200a),
    (0x2028, 0x2029), (0x202f, 0x202f), (0x205f, 0x205f), (0x3000, 0x3000)]

/-- Whether the character ends an operand. -/
def isBlank (c : Char) : Bool :=
  blankRanges.covers c.toNat

/-- Whether the character is dropped at the end of a written line: a blank, or one of the
information separators. -/
def isPadding (c : Char) : Bool :=
  isBlank c || (decide (0x1c ≤ c.toNat) && decide (c.toNat ≤ 0x1f))

/-- The text without its trailing padding. -/
def trimEnd (s : List Char) : List Char :=
  (s.reverse.dropWhile isPadding).reverse

/-- A gap is a blank. -/
theorem isBlank_of_isGap {c : Char} (h : isGap c = true) : isBlank c = true := by
  simp only [isGap, Bool.or_eq_true, beq_iff_eq] at h
  rcases h with rfl | rfl <;> decide

/-- A text that does not end in padding is left alone. -/
theorem trimEnd_append_singleton {s : List Char} {c : Char} (h : isPadding c = false) :
    trimEnd (s ++ [c]) = s ++ [c] := by
  simp [trimEnd, h]

end BytecodeRegions.Text
