import BytecodeRegions.Text.Numeral
import BytecodeRegions.Text.Quoted

/-!
# Error codes

Every finding has a code such as `JSR-1001`: a family, a number and an identifier for machines.
Codes 1000 to 1999 are about the structure of a method, 2000 to 2999 about listings. Two codes are
the same when family and number are, whatever their identifiers.

## Main definitions

* `ErrorCode`: a code.
* `ErrorCode.text`: the code as written, its number padded to four characters, sign included.
* `ErrorCode.same`: equality of codes.
* `ErrorCode.catalogue`: the codes in use, with the names they are listed under.
-/

namespace BytecodeRegions

/-- A code for a kind of finding. -/
structure ErrorCode where
  /-- The family of codes. -/
  family : String
  /-- The number inside the family. -/
  number : Int
  /-- An identifier for machines. -/
  errorId : String
deriving DecidableEq, Repr

namespace ErrorCode

/-- A number padded with zeros to a width in which its sign counts. -/
def padded (width : Nat) : Int → String
  | .ofNat n => String.ofList ((Nat.toDigits 10 n).leftpad width '0')
  | .negSucc n => String.ofList ('-' :: (Nat.toDigits 10 (n + 1)).leftpad (width - 1) '0')

/-- The code as written. -/
def text (c : ErrorCode) : String :=
  c.family ++ "-" ++ padded 4 c.number

/-- The word for a code. -/
def render (c : ErrorCode) : String :=
  "ErrorCode(" ++ Text.quoted c.text ++ ", " ++ Text.quoted c.errorId ++ ")"

/-- Two codes are the same when family and number are. -/
def same (a b : ErrorCode) : Bool :=
  a.family == b.family && a.number == b.number

/-- Whether a code is written as a given text. -/
def isWritten (c : ErrorCode) (s : String) : Bool :=
  c.text == s

/-- An instruction belongs to two regions. -/
def sharedInstruction : ErrorCode := ⟨"JSR", 1001, "subroutineSharedInstruction"⟩

/-- A subroutine does not return. -/
def missingRet : ErrorCode := ⟨"JSR", 1002, "subroutineMissingRet"⟩

/-- A subroutine returns at two places. -/
def multipleRet : ErrorCode := ⟨"JSR", 1003, "subroutineMultipleRet"⟩

/-- A subroutine returns by another slot than it was entered with. -/
def retSlotMismatch : ErrorCode := ⟨"JSR", 1004, "subroutineRetSlotMismatch"⟩

/-- A subroutine is protected by a handler. -/
def protectedSubroutine : ErrorCode := ⟨"JSR", 1005, "subroutineProtected"⟩

/-- A subroutine is called while its slot is in use. -/
def recursiveCall : ErrorCode := ⟨"JSR", 1006, "subroutineRecursiveCall"⟩

/-- A subroutine starts where none can. -/
def invalidEntry : ErrorCode := ⟨"JSR", 1007, "subroutineInvalidEntry"⟩

/-- A listing has a line that is none. -/
def listingSyntax : ErrorCode := ⟨"JSR", 2001, "listingSyntax"⟩

/-- A listing cannot be put together. -/
def listingAssembly : ErrorCode := ⟨"JSR", 2002, "listingAssembly"⟩

/-- The codes in use, with the names they are listed under. -/
def catalogue : List (String × ErrorCode) :=
  [("SHARED_INSTRUCTION", sharedInstruction), ("MISSING_RET", missingRet),
    ("MULTIPLE_RET", multipleRet), ("RET_SLOT_MISMATCH", retSlotMismatch),
    ("PROTECTED_SUBROUTINE", protectedSubroutine), ("RECURSIVE_CALL", recursiveCall),
    ("INVALID_ENTRY", invalidEntry), ("LISTING_SYNTAX", listingSyntax),
    ("LISTING_ASSEMBLY", listingAssembly)]

end ErrorCode

end BytecodeRegions
