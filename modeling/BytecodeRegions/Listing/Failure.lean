import BytecodeRegions.ErrorCode
import BytecodeRegions.Method

/-!
# Why a listing is refused

A listing is refused because a line is none, or because its statements cannot be put together. A
failure that one statement is to blame for names the line of that statement. An overlong numeral in
a handler declaration is a failure of its own, without line or code.

## Main definitions

* `Cause`: why statements cannot be put together, with its wording.
* `Failure`: a failure with the line it is blamed on.
* `Report`: wording, line and code of a failure, as one record.
-/

namespace BytecodeRegions.Listing

/-- What a numeral in an operand is for. -/
inductive Role where
  /-- A local slot. -/
  | slot
  /-- An increment. -/
  | increment
  /-- The key of a case. -/
  | key
deriving DecidableEq, Repr

/-- The role in words. -/
def Role.text : Role → String
  | slot => "a local slot"
  | increment => "an increment"
  | key => "a switch key"

/-- Why statements cannot be put together. -/
inductive Cause where
  /-- A label is defined twice. -/
  | duplicateLabel (name : String)
  /-- There is no instruction at all. -/
  | noInstructions
  /-- A name is no mnemonic. -/
  | unknownOpcode (name : String)
  /-- An instruction has the wrong number of operands. -/
  | operandCount (name : String) (expected got : Nat)
  /-- An operand is no integer where one is due. -/
  | notInteger (role : Role) (token : String)
  /-- A numeral has too many digits. -/
  | tooLong (count : Nat)
  /-- A label is not defined. -/
  | undefinedLabel (name : String)
  /-- The operand of a switch is no case. -/
  | notCase (operand : String)
  /-- A switch has two defaults. -/
  | secondDefault
  /-- A switch has no default. -/
  | noDefault (op : Opcode)
  /-- The parts do not make an instruction. -/
  | defect (d : Instruction.Defect)
  /-- The instructions do not make a body. -/
  | unlinked (e : Body.LinkError)
  /-- A handler declaration has the wrong form. -/
  | handlerForm
  /-- A handler declaration names a position outside a body of `size` instructions. -/
  | handlerOutside (p : Int) (size : Nat)
  /-- A handler is refused. -/
  | handlerRefused (r : Handler.Refusal)

/-- The wording of a cause. -/
def Cause.message : Cause → String
  | duplicateLabel name => "duplicate label " ++ Text.quoted name
  | noInstructions => "listing contains no instructions"
  | unknownOpcode name => "unknown opcode " ++ Text.quoted name
  | operandCount name expected got =>
    name ++ " takes " ++ Text.decimalNat expected ++ " operand(s), got " ++ Text.decimalNat got
  | notInteger role token => "expected " ++ role.text ++ ", got " ++ Text.quoted token
  | tooLong count => Text.Numeral.tooLong count
  | undefinedLabel name => "undefined label " ++ Text.quoted name
  | notCase operand => "switch case " ++ Text.quoted operand ++ " is not key:Label"
  | secondDefault => "switch has more than one default"
  | noDefault op => op.name ++ " needs a default:Label case"
  | defect d => d.message
  | unlinked e => e.message
  | handlerForm => ".catch expects '<type|all> from L1 to L2 using H'"
  | handlerOutside p size =>
    ".catch refers to position " ++ Text.decimal p ++ ", outside 0.." ++
      Text.decimal ((size : Int) - 1)
  | handlerRefused r => r.message

/-- Why a listing is refused. -/
inductive Failure where
  /-- The line with the given number is none; the text from its start on is quoted. -/
  | unreadable (line : Nat) (excerpt : String)
  /-- A statement of the given line cannot be put together with the others. -/
  | atLine (line : Nat) (cause : Cause)
  /-- The listing as a whole is to blame. -/
  | overall (cause : Cause)
  /-- A numeral of a handler declaration has too many digits. -/
  | numeral (count : Nat)

/-- Wording, line and code of a failure; line zero stands for no line. -/
structure Report where
  /-- The wording. -/
  detail : String
  /-- The line, or zero. -/
  line : Int := 0
  /-- The code. -/
  code : ErrorCode := .listingAssembly

/-- The wording with the line in front of it, if there is one. -/
def Report.message (r : Report) : String :=
  if r.line = 0 then r.detail else "line " ++ Text.decimal r.line ++ ": " ++ r.detail

/-- The report of a failure; an overlong numeral of a handler declaration has its wording only. -/
def Failure.report : Failure → Except String Report
  | unreadable line excerpt =>
    .ok { detail := "syntax error near " ++ Text.quoted excerpt, line, code := .listingSyntax }
  | atLine line cause => .ok { detail := cause.message, line }
  | overall cause => .ok { detail := cause.message }
  | numeral count => .error (Text.Numeral.tooLong count)

end BytecodeRegions.Listing
