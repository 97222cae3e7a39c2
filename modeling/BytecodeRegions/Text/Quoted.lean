import BytecodeRegions.Text.Printable

/-!
# Quoted text

Messages quote names and tokens. The quote is the single one, unless the text holds a single quote
and no double one. The quote in use and the backslash are escaped by a backslash, a line feed, a
carriage return and a tab by their letter, and any other character that is not printable by its
code point in lower-case hexadecimal, of two, four or eight digits.

## Main definitions

* `quoteFor`: the quote that a text is put between.
* `escaped`: the written form of one character.
* `quoted`: a text between quotes.
-/

namespace BytecodeRegions.Text

/-- The digits of `n` in lower-case hexadecimal, at least `width` of them. -/
def hex (width n : Nat) : List Char :=
  (Nat.toDigits 16 n).leftpad width '0'

/-- The quote to put around a text: double only if the text has single quotes and no double one. -/
def quoteFor (s : List Char) : Char :=
  if s.contains '\'' && !s.contains '"' then '"' else '\''

/-- The code point of a character that is not printable, in two, four or eight digits. -/
def escapedCode (c : Char) : List Char :=
  if c.toNat < 0x100 then '\\' :: 'x' :: hex 2 c.toNat
  else if c.toNat < 0x10000 then '\\' :: 'u' :: hex 4 c.toNat
  else '\\' :: 'U' :: hex 8 c.toNat

/-- The written form of a character between the quotes `quote`. -/
def escaped (quote c : Char) : List Char :=
  if c == quote || c == '\\' then ['\\', c]
  else if c == '\n' then ['\\', 'n']
  else if c == '\r' then ['\\', 'r']
  else if c == '\t' then ['\\', 't']
  else if isPrintable c then [c]
  else escapedCode c

/-- The characters of a quoted text. -/
def quotedChars (s : List Char) : List Char :=
  quoteFor s :: s.flatMap (escaped (quoteFor s)) ++ [quoteFor s]

/-- A text between quotes, with what cannot be shown escaped. -/
def quoted (s : String) : String :=
  String.ofList (quotedChars s.toList)

end BytecodeRegions.Text
