import BytecodeRegions.Opcode
import BytecodeRegions.Text.Numeral

/-!
# Instructions

An instruction is an opcode with what it works on: a local slot, a jump target, the cases of a
switch and any further operands. The type `τ` of its targets is left open, since a target is a
number or a place in other code while a body is being put together, and a position once it is.

The fields fit the opcode: a slot is present exactly when the opcode accesses a local variable,
only a switch has cases, and the keys of a switch are either left out or as many as its cases.

The numbers of an instruction, which are its slot, its keys and its operands, are taken to be ones
that can be written, in the sense of `Text.isWritable`. `Instruction.make` does not ask for this;
numbers that were read from text have it. Instructions, regions and evidence therefore write slots
without asking. A slot that is computed is another matter: where a long or a double is accessed the
second slot may have one digit more, and `Query.slotList`, the only one to write such slots, does
ask.

## Main definitions

* `Operand`: a further operand, a number or a word.
* `Instruction`: an instruction with targets in `τ`.
* `Instruction.Defect`: why parts do not make an instruction.
* `Instruction.make`: puts an instruction together, or names the first defect.
* `Instruction.accessedSlots`: the local slots that are read or written.
* `Instruction.text`: the instruction in one line.
-/

namespace BytecodeRegions

/-- An operand that is neither slot nor target. -/
inductive Operand where
  /-- A number. -/
  | number (n : Int)
  /-- A word, such as the name of a field. -/
  | word (s : String)
deriving DecidableEq, Repr

/-- The operand as written. -/
def Operand.text : Operand → String
  | number n => Text.decimal n
  | word s => s

/-- An instruction with jump targets in `τ`. -/
structure Instruction (τ : Type) where
  /-- What is done. -/
  opcode : Opcode
  /-- The local slot that is accessed. -/
  slot : Option Nat
  /-- The jump target; for a switch, its default. -/
  target : Option τ
  /-- The targets of the cases of a switch. -/
  caseTargets : List τ
  /-- The keys of the cases, or none at all. -/
  keys : List Int
  /-- Further operands. -/
  operands : List Operand
  /-- There is a slot exactly when a local variable is accessed. -/
  slot_isSome : slot.isSome = opcode.accessesLocal
  /-- Only a switch has cases. -/
  switch_of_cases : caseTargets ≠ [] → opcode.kind = .switch
  /-- The keys are left out or one for each case. -/
  keys_fit : keys = [] ∨ keys.length = caseTargets.length
deriving DecidableEq

namespace Instruction

variable {τ σ : Type}

/-- Why parts do not make an instruction. -/
inductive Defect where
  /-- The opcode accesses a local variable and no slot is given. -/
  | slotMissing (op : Opcode)
  /-- A slot is given that the opcode has no use for. -/
  | slotUnused (op : Opcode)
  /-- Cases are given and the opcode is no switch. -/
  | casesUnused (op : Opcode)
  /-- Keys are given, and not one for each case. -/
  | keyCount
deriving DecidableEq, Repr

/-- The wording of a defect. -/
def Defect.message : Defect → String
  | slotMissing op => op.name ++ " needs a local variable slot"
  | slotUnused op => op.name ++ " does not take a local variable slot"
  | casesUnused op => op.name ++ " does not take case targets"
  | keyCount => "switch keys and targets differ in length"

/-- The slot an instruction has: the given one, else the one in the mnemonic. A slot has to be there
exactly when the opcode accesses a local variable, and it is not negative. -/
def slotFor (op : Opcode) (given : Option Int) :
    Except Defect { s : Option Nat // s.isSome = op.accessesLocal } :=
  if h : op.accessesLocal = true then
    match given, op.implicitSlot with
    | some (.ofNat n), _ => .ok ⟨some n, by simp [h]⟩
    | some (.negSucc _), _ => .error (.slotMissing op)
    | none, some n => .ok ⟨some n, by simp [h]⟩
    | none, none => .error (.slotMissing op)
  else if given.isSome || op.implicitSlot.isSome then .error (.slotUnused op)
  else .ok ⟨none, by simp [h]⟩

/-- Puts an instruction together; of several defects the first in the order of `Defect` is named.
That the numbers can be written is up to the caller. -/
def make (op : Opcode) (slot : Option Int) (target : Option τ) (caseTargets : List τ)
    (keys : List Int) (operands : List Operand) : Except Defect (Instruction τ) := do
  let ⟨slot, hslot⟩ ← slotFor op slot
  if hswitch : caseTargets ≠ [] → op.kind = .switch then
    if hkeys : keys = [] ∨ keys.length = caseTargets.length then
      return { opcode := op, slot, target, caseTargets, keys, operands, slot_isSome := hslot,
               switch_of_cases := hswitch, keys_fit := hkeys }
    else throw .keyCount
  else throw (.casesUnused op)

/-- The instruction with its targets replaced one by one. -/
def map (f : τ → σ) (i : Instruction τ) : Instruction σ where
  opcode := i.opcode
  slot := i.slot
  target := i.target.map f
  caseTargets := i.caseTargets.map f
  keys := i.keys
  operands := i.operands
  slot_isSome := i.slot_isSome
  switch_of_cases h := i.switch_of_cases (by simpa using h)
  keys_fit := by simpa using i.keys_fit

/-- What the instruction is called. -/
def name (i : Instruction τ) : String :=
  i.opcode.name

/-- The part the instruction plays. -/
def kind (i : Instruction τ) : Kind :=
  i.opcode.kind

/-- Whether the instruction calls a subroutine. -/
def isJsr (i : Instruction τ) : Bool :=
  i.kind == .jsr

/-- Whether the instruction returns from a subroutine. -/
def isRet (i : Instruction τ) : Bool :=
  i.kind == .ret

/-- Whether the instruction leaves the method. -/
def isReturn (i : Instruction τ) : Bool :=
  i.kind == .methodReturn

/-- Whether the instruction throws an exception. -/
def isThrow (i : Instruction τ) : Bool :=
  i.kind == .athrow

/-- Whether the instruction jumps and does nothing else. -/
def isGoto (i : Instruction τ) : Bool :=
  i.kind == .goto

/-- Whether the instruction jumps to one of several cases. -/
def isSwitch (i : Instruction τ) : Bool :=
  i.kind == .switch

/-- Whether the instruction jumps or goes on. -/
def isBranch (i : Instruction τ) : Bool :=
  i.kind == .branch

/-- Whether the instruction stores a reference or a return address. -/
def storesAddress (i : Instruction τ) : Bool :=
  i.opcode.storesAddress

/-- The local slots that are read or written, two of them for a long or a double. -/
def accessedSlots (i : Instruction τ) : List Nat :=
  match i.slot with
  | none => []
  | some s => if i.opcode.width = 2 then [s, s + 1] else [s]

/-- The keys of the cases; where they are left out, the cases are counted from zero. -/
def caseKeys (i : Instruction τ) : List Int :=
  if i.keys.isEmpty then (List.range i.caseTargets.length).map Int.ofNat else i.keys

/-- The slot and the operands as written after the mnemonic. A slot in the mnemonic is not
repeated. -/
def operandTexts (i : Instruction τ) : List String :=
  (if i.opcode.implicitSlot.isNone then i.slot.toList.map Text.decimalNat else []) ++
    i.operands.map Operand.text

/-- The instruction in one line, with `showTarget` for its targets and `None` for a target that is
missing. -/
def text (showTarget : τ → String) (i : Instruction τ) : String :=
  let target := i.target.elim "None" showTarget
  if i.isSwitch then
    let cases := (i.caseKeys.zip i.caseTargets).map fun (k, t) =>
      Text.decimal k ++ ":" ++ showTarget t
    i.name ++ " " ++ Text.bracketed cases ++ " default:" ++ target
  else if i.opcode.hasTarget then i.name ++ " -> " ++ target
  else " ".intercalate (i.name :: i.operandTexts)

/-- The word for an instruction in one line. -/
def render (line : String) : String :=
  "Instruction(" ++ line ++ ")"

end Instruction

end BytecodeRegions
