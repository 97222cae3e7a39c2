import BytecodeRegions.Text.Numeral
import BytecodeRegions.Text.Quoted

/-!
# JSON values and their one-line text

The values that diagnostics are made of, and the text they are written as: one line of printable
ASCII, with the members of an object in the order of their keys. Every other character is written as
an escape of four hexadecimal digits, or of two such escapes when its code point has more than
sixteen bits; quote, backslash and the common controls have escapes of their own.

## Main definitions

* `Json`: values without fractions.
* `Json.escaped`: the written form of a character inside a string.
* `Json.text`: the text of a value.
-/

namespace BytecodeRegions

/-- A value: nothing, a truth value, an integer, a string, a list, or members by key. -/
inductive Json where
  /-- No value. -/
  | null
  /-- A truth value. -/
  | bool (b : Bool)
  /-- An integer. -/
  | int (n : Int)
  /-- A string. -/
  | str (s : String)
  /-- A list. -/
  | arr (items : List Json)
  /-- Members by key. -/
  | obj (members : List (String × Json))
deriving Inhabited

namespace Json

/-- A natural number as a value. -/
def nat (n : Nat) : Json :=
  .int n

/-- A string, or no value. -/
def optStr (s : Option String) : Json :=
  s.elim .null .str

/-- The escape of a unit of sixteen bits. -/
def unitEscape (n : Nat) : List Char :=
  '\\' :: 'u' :: Text.hex 4 n

/-- The escape of a code point, by a pair of surrogates where it has more than sixteen bits. -/
def codeEscape (n : Nat) : List Char :=
  if n < 0x10000 then unitEscape n
  else unitEscape (0xd800 + (n - 0x10000) / 0x400) ++ unitEscape (0xdc00 + (n - 0x10000) % 0x400)

/-- The written form of a character inside a string. -/
def escaped (c : Char) : List Char :=
  if c = '"' then ['\\', '"']
  else if c = '\\' then ['\\', '\\']
  else if c = '\n' then ['\\', 'n']
  else if c = '\r' then ['\\', 'r']
  else if c = '\t' then ['\\', 't']
  else if c = '\x0c' then ['\\', 'f']
  else if c = '\x08' then ['\\', 'b']
  else if 0x20 ≤ c.toNat ∧ c.toNat ≤ 0x7e then [c]
  else codeEscape c.toNat

/-- The characters of a string between double quotes. -/
def stringChars (s : List Char) : List Char :=
  '"' :: s.flatMap escaped ++ ['"']

/-- A string between double quotes. -/
def stringText (s : String) : String :=
  String.ofList (stringChars s.toList)

/-- The text of an object from the keys and texts of its members, in the order of the keys. -/
def objectText (members : List (String × String)) : String :=
  let sorted := members.mergeSort fun a b => decide (a.1 ≤ b.1)
  "\x7b" ++ ", ".intercalate (sorted.map fun (k, v) => stringText k ++ ": " ++ v) ++ "\x7d"

mutual

/-- The text of a value. -/
def text : Json → String
  | null => "null"
  | bool b => if b then "true" else "false"
  | int n => Text.decimal n
  | str s => stringText s
  | arr items => Text.bracketed (itemTexts items)
  | obj members => objectText (memberTexts members)

/-- The texts of the items of a list. -/
def itemTexts : List Json → List String
  | [] => []
  | v :: items => text v :: itemTexts items

/-- The keys of members with the texts of their values. -/
def memberTexts : List (String × Json) → List (String × String)
  | [] => []
  | (k, v) :: members => (k, text v) :: memberTexts members

end

end Json

end BytecodeRegions
