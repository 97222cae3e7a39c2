import BytecodeRegions.Text.Quoted

/-!
# Opcodes

The instruction set has the 202 opcodes 0 to 201, each with its mnemonic. What an opcode does is a
rule on its number, since the numbering is systematic: the loads and stores with a slot in their
mnemonic, for instance, run through the five types and, inside a type, through the slots 0 to 3.

## Main definitions

* `Kind`: the part an opcode plays in the flow of control and in local accesses.
* `Opcode`: an opcode, by its number.
* `Opcode.name`, `Opcode.ofName?`: the mnemonic, and the look-up that disregards case.
* `Opcode.kind`, `Opcode.implicitSlot`, `Opcode.localType`, `Opcode.width`: the rules.
-/

namespace BytecodeRegions

/-- The part an opcode plays. -/
inductive Kind where
  /-- Calls a subroutine. -/
  | jsr
  /-- Returns from a subroutine. -/
  | ret
  /-- Jumps. -/
  | goto
  /-- Jumps or goes on. -/
  | branch
  /-- Jumps to one of several cases. -/
  | switch
  /-- Leaves the method. -/
  | methodReturn
  /-- Throws an exception. -/
  | athrow
  /-- Reads a local variable. -/
  | load
  /-- Writes a local variable. -/
  | store
  /-- Adds a constant to a local variable. -/
  | iinc
  /-- Anything else. -/
  | other
deriving DecidableEq, Repr

namespace Kind

/-- The word for a kind. -/
def name : Kind → String
  | jsr => "jsr"
  | ret => "ret"
  | goto => "goto"
  | branch => "branch"
  | switch => "switch"
  | methodReturn => "return"
  | athrow => "throw"
  | load => "load"
  | store => "store"
  | iinc => "iinc"
  | other => "other"

/-- Whether instructions of the kind access a local variable. -/
def accessesLocal : Kind → Bool
  | load | store | iinc | ret => true
  | _ => false

/-- Whether instructions of the kind have a jump target. -/
def hasTarget : Kind → Bool
  | jsr | goto | branch | switch => true
  | _ => false

end Kind

/-- The type of the value in a local variable. -/
inductive LocalType where
  /-- An integer. -/
  | int
  /-- A long integer, which takes two slots. -/
  | long
  /-- A float. -/
  | float
  /-- A double, which takes two slots. -/
  | double
  /-- A reference or a return address. -/
  | address
deriving DecidableEq, Repr

namespace LocalType

/-- The letter that stands for the type in mnemonics. -/
def letter : LocalType → String
  | int => "i"
  | long => "l"
  | float => "f"
  | double => "d"
  | address => "a"

/-- The number of slots a value of the type takes. -/
def width : LocalType → Nat
  | long | double => 2
  | _ => 1

/-- The types in the order in which opcodes are numbered. -/
def ofRank : Nat → LocalType
  | 0 => int
  | 1 => long
  | 2 => float
  | 3 => double
  | _ => address

end LocalType

/-- The mnemonics in numeric order. -/
def mnemonics : Vector String 202 := #v[
  "nop", "aconst_null", "iconst_m1", "iconst_0", "iconst_1", "iconst_2", "iconst_3", "iconst_4",
  "iconst_5", "lconst_0", "lconst_1", "fconst_0", "fconst_1", "fconst_2", "dconst_0", "dconst_1",
  "bipush", "sipush", "ldc", "ldc_w", "ldc2_w", "iload", "lload", "fload", "dload", "aload",
  "iload_0", "iload_1", "iload_2", "iload_3", "lload_0", "lload_1", "lload_2", "lload_3",
  "fload_0", "fload_1", "fload_2", "fload_3", "dload_0", "dload_1", "dload_2", "dload_3",
  "aload_0", "aload_1", "aload_2", "aload_3", "iaload", "laload", "faload", "daload", "aaload",
  "baload", "caload", "saload", "istore", "lstore", "fstore", "dstore", "astore", "istore_0",
  "istore_1", "istore_2", "istore_3", "lstore_0", "lstore_1", "lstore_2", "lstore_3", "fstore_0",
  "fstore_1", "fstore_2", "fstore_3", "dstore_0", "dstore_1", "dstore_2", "dstore_3", "astore_0",
  "astore_1", "astore_2", "astore_3", "iastore", "lastore", "fastore", "dastore", "aastore",
  "bastore", "castore", "sastore", "pop", "pop2", "dup", "dup_x1", "dup_x2", "dup2", "dup2_x1",
  "dup2_x2", "swap", "iadd", "ladd", "fadd", "dadd", "isub", "lsub", "fsub", "dsub", "imul",
  "lmul", "fmul", "dmul", "idiv", "ldiv", "fdiv", "ddiv", "irem", "lrem", "frem", "drem", "ineg",
  "lneg", "fneg", "dneg", "ishl", "lshl", "ishr", "lshr", "iushr", "lushr", "iand", "land",
  "ior", "lor", "ixor", "lxor", "iinc", "i2l", "i2f", "i2d", "l2i", "l2f", "l2d", "f2i", "f2l",
  "f2d", "d2i", "d2l", "d2f", "i2b", "i2c", "i2s", "lcmp", "fcmpl", "fcmpg", "dcmpl", "dcmpg",
  "ifeq", "ifne", "iflt", "ifge", "ifgt", "ifle", "if_icmpeq", "if_icmpne", "if_icmplt",
  "if_icmpge", "if_icmpgt", "if_icmple", "if_acmpeq", "if_acmpne", "goto", "jsr", "ret",
  "tableswitch", "lookupswitch", "ireturn", "lreturn", "freturn", "dreturn", "areturn", "return",
  "getstatic", "putstatic", "getfield", "putfield", "invokevirtual", "invokespecial",
  "invokestatic", "invokeinterface", "invokedynamic", "new", "newarray", "anewarray",
  "arraylength", "athrow", "checkcast", "instanceof", "monitorenter", "monitorexit", "wide",
  "multianewarray", "ifnull", "ifnonnull", "goto_w", "jsr_w"]

/-- An opcode, by its number. -/
structure Opcode where
  /-- The number of the opcode. -/
  code : Fin 202
deriving DecidableEq, Repr

namespace Opcode

/-- The mnemonic. -/
def name (op : Opcode) : String :=
  mnemonics[op.code]

/-- The opcodes in numeric order. -/
def all : List Opcode :=
  (List.finRange 202).map Opcode.mk

/-- The part the opcode plays. -/
def kind (op : Opcode) : Kind :=
  let n := op.code.val
  if 21 ≤ n ∧ n ≤ 45 then .load
  else if 54 ≤ n ∧ n ≤ 78 then .store
  else if n = 132 then .iinc
  else if 153 ≤ n ∧ n ≤ 166 ∨ n = 198 ∨ n = 199 then .branch
  else if n = 167 ∨ n = 200 then .goto
  else if n = 168 ∨ n = 201 then .jsr
  else if n = 169 then .ret
  else if n = 170 ∨ n = 171 then .switch
  else if 172 ≤ n ∧ n ≤ 177 then .methodReturn
  else if n = 191 then .athrow
  else .other

/-- The slot that the mnemonic itself names. -/
def implicitSlot (op : Opcode) : Option Nat :=
  let n := op.code.val
  if 26 ≤ n ∧ n ≤ 45 then some ((n - 26) % 4)
  else if 59 ≤ n ∧ n ≤ 78 then some ((n - 59) % 4)
  else none

/-- The type of the local variable that is accessed, if one is. -/
def localType (op : Opcode) : Option LocalType :=
  let n := op.code.val
  if 21 ≤ n ∧ n ≤ 25 then some (.ofRank (n - 21))
  else if 26 ≤ n ∧ n ≤ 45 then some (.ofRank ((n - 26) / 4))
  else if 54 ≤ n ∧ n ≤ 58 then some (.ofRank (n - 54))
  else if 59 ≤ n ∧ n ≤ 78 then some (.ofRank ((n - 59) / 4))
  else if n = 132 then some .int
  else if n = 169 then some .address
  else none

/-- The number of local slots an access takes, zero where no local variable is accessed. -/
def width (op : Opcode) : Nat :=
  op.localType.elim 0 LocalType.width

/-- Whether a local variable is accessed. -/
def accessesLocal (op : Opcode) : Bool :=
  op.kind.accessesLocal

/-- Whether there is a jump target. -/
def hasTarget (op : Opcode) : Bool :=
  op.kind.hasTarget

/-- Whether the opcode stores a reference, as the first instruction of a subroutine must. -/
def storesAddress (op : Opcode) : Bool :=
  op.kind == .store && op.localType == some .address

/-- The lower case of a character, as far as it can yield a letter of a mnemonic: the capital
letters, and the Kelvin sign, whose lower case is the letter `k`. -/
def foldCase (c : Char) : Char :=
  if 'A' ≤ c ∧ c ≤ 'Z' then Char.ofNat (c.toNat + 32)
  else if c = '\u212a' then 'k'
  else c

/-- The opcode with a given mnemonic, upper and lower case taken as equal. -/
def ofName? (name : String) : Option Opcode :=
  let folded := String.ofList (name.toList.map foldCase)
  all.find? (·.name == folded)

/-- Why a name that is no mnemonic is refused. -/
def unknownMessage (name : String) : String :=
  "unknown opcode mnemonic " ++ Text.quoted name

/-- Every opcode is listed. -/
theorem mem_all (op : Opcode) : op ∈ all := by
  simp [all, List.mem_finRange]

end Opcode

end BytecodeRegions
