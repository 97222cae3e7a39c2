import BytecodeRegions.Diagnostic
import BytecodeRegions.ErrorCode
import BytecodeRegions.Method

/-!
# Structural violations

A violation says why a method is refused: which rule of the structure of subroutines it breaks, in
words, and the instructions, regions and handler that show it. The first instruction is the one to
blame.

## Main definitions

* `Violation.Rule`: the rules that can be broken.
* `Violation`: a broken rule with its evidence.
* `Violation.evidence`, `Violation.diagnostic`: the violation for machines.
-/

namespace BytecodeRegions

/-- The rules of the structure of subroutines. -/
inductive Violation.Rule where
  /-- Any rule. -/
  | structural
  /-- An instruction belongs to one region only. -/
  | sharedInstruction
  /-- A subroutine returns. -/
  | missingRet
  /-- A subroutine returns at one place only. -/
  | multipleRet
  /-- A subroutine returns by the slot it was entered with. -/
  | retSlotMismatch
  /-- A subroutine is not protected by a handler. -/
  | protectedSubroutine
  /-- A subroutine is not called while its slot is in use. -/
  | recursiveCall
  /-- A subroutine starts by storing its return address. -/
  | invalidEntry
deriving DecidableEq, Repr

/-- The code of a broken rule. -/
def Violation.Rule.code : Violation.Rule → ErrorCode
  | structural | sharedInstruction => .sharedInstruction
  | missingRet => .missingRet
  | multipleRet => .multipleRet
  | retSlotMismatch => .retSlotMismatch
  | protectedSubroutine => .protectedSubroutine
  | recursiveCall => .recursiveCall
  | invalidEntry => .invalidEntry

/-- A region as evidence: what it is called, and its slot. -/
structure RegionNote where
  /-- What the region is called. -/
  label : String
  /-- The slot of its return address. -/
  slot : Option Int
deriving DecidableEq, Repr

/-- A broken rule with its evidence. -/
structure Violation where
  /-- The rule. -/
  rule : Violation.Rule
  /-- What was found, in words. -/
  detail : String
  /-- The name of the method. -/
  method : String := ""
  /-- The code. -/
  code : ErrorCode := rule.code
  /-- The positions of the instructions that show it. -/
  instructions : List Nat := []
  /-- The regions that take part. -/
  regions : List RegionNote := []
  /-- The handler that takes part. -/
  handler : Option Handler := none

namespace Violation

/-- The wording with the code in front of it. -/
def message (v : Violation) : String :=
  "[" ++ v.code.text ++ "] " ++ v.detail

/-- The position of the instruction to blame. -/
def primary (v : Violation) : Option Nat :=
  v.instructions.head?

/-- A region as a value. -/
def regionJson (r : RegionNote) : Json :=
  .obj [("region", .str r.label), ("slot", r.slot.elim .null .int)]

/-- A handler as a value. -/
def handlerJson (x : Handler) : Json :=
  .obj [("start", .nat x.start.position), ("end", .nat x.stop.position),
    ("handler", .nat x.entry.position), ("catch_type", .optStr x.catchType)]

/-- The evidence by key. -/
def evidence (v : Violation) : List (String × Json) :=
  [("code", .str v.code.text), ("instructions", .arr (v.instructions.map .nat)),
    ("subroutines", .arr (v.regions.map regionJson))] ++
  v.handler.toList.map fun x => ("handler", handlerJson x)

/-- The violation as a diagnostic. -/
def diagnostic (v : Violation) : Diagnostic where
  errorId := v.code.errorId
  message := v.detail
  severity := .error
  location := ⟨v.method, v.primary.elim (-1) fun p : Nat => (p : Int)⟩
  code := v.code.text
  secondary := v.instructions.tail.map fun p : Nat => ⟨v.method, p⟩
  evidence := v.evidence

end Violation

end BytecodeRegions
