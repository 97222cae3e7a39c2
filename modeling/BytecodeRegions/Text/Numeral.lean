import BytecodeRegions.Text.DecimalDigit

/-!
# Integers written in text

An integer token is an optional sign and at least one decimal digit, of any script. Reading its
value is refused when it has more than `Numeral.digitLimit` digits, leading zeros counted and the
sign not. A number of more digits cannot be written either. `decimal` and `decimalNat` do not look
at this: whoever writes a number asks `isWritable` first, or relies on where the number is from.

## Main definitions

* `Numeral`: the sign and the digits of an integer token.
* `Numeral.ofToken?`: the token class, as a reader.
* `Numeral.value`: the integer that is written.
* `decimal`: an integer in decimal digits.
* `isWritable`: whether a number has few enough digits to be written.
-/

namespace BytecodeRegions.Text

/-- An integer as written: its sign, and its digits from the most significant on. -/
structure Numeral where
  /-- Whether a minus sign is written. -/
  negative : Bool
  /-- The values of the digits. -/
  digits : List Nat
deriving Repr, DecidableEq

namespace Numeral

/-- The most digits a token may have for its value to be read. -/
def digitLimit : Nat := 4300

/-- The values of the digits of a text that is one digit or more and nothing else. -/
def digits? (s : List Char) : Option (List Nat) :=
  if s.isEmpty then none else s.mapM digitValue?

/-- Reads an integer token: an optional sign and digits. -/
def ofToken? : List Char → Option Numeral
  | '-' :: s => (digits? s).map (⟨true, ·⟩)
  | '+' :: s => (digits? s).map (⟨false, ·⟩)
  | s => (digits? s).map (⟨false, ·⟩)

/-- The natural number that the digits write. -/
def magnitude (n : Numeral) : Nat :=
  n.digits.foldl (fun acc d => acc * 10 + d) 0

/-- The integer that is written. -/
def value (n : Numeral) : Int :=
  if n.negative then -(n.magnitude : Int) else n.magnitude

/-- Why a numeral with too many digits is refused. -/
def tooLong (count : Nat) : String :=
  s!"Exceeds the limit ({digitLimit} digits) for integer string conversion: value has {count} " ++
    "digits; use sys.set_int_max_str_digits() to increase the limit"

/-- Why a number with too many digits is not written. -/
def unwritable : String :=
  s!"Exceeds the limit ({digitLimit} digits) for integer string conversion; " ++
    "use sys.set_int_max_str_digits() to increase the limit"

end Numeral

/-- A natural number in decimal digits, however many there are. -/
def decimalNat (n : Nat) : String :=
  String.ofList (Nat.toDigits 10 n)

/-- Whether a number has few enough digits to be written. -/
def isWritable (n : Nat) : Bool :=
  decide ((Nat.toDigits 10 n).length ≤ Numeral.digitLimit)

/-- An integer in decimal digits, however many there are, with a minus sign if it is negative. -/
def decimal : Int → String
  | .ofNat n => decimalNat n
  | .negSucc n => "-" ++ decimalNat (n + 1)

/-- Texts between square brackets, parted by a comma and a space. -/
def bracketed (items : List String) : String :=
  "[" ++ ", ".intercalate items ++ "]"

/-- A list of numbers between square brackets. -/
def numberList (ns : List Nat) : String :=
  bracketed (ns.map decimalNat)

end BytecodeRegions.Text
