import BytecodeRegions.Listing.Failure
import BytecodeRegions.Listing.Grammar

/-!
# Putting a listing together

Reading a listing goes through three forms. The text, with its line ends normalised, is read into
statements, one line each. The statements are laid out as items with their line numbers: labels,
instructions and handler declarations. The items are put together into a method: labels first, since
a label may be used before it is defined, then the instructions one by one, then their targets, then
the handlers.

A label stands for the number of instructions in front of it. A target is a numeral or a label.

## Main definitions

* `normalised`: the text with line feeds only, and one at its end.
* `Item`, `items`: labels, instructions and handler declarations with their lines.
* `labels`: the positions that labels stand for.
* `instruction`: one instruction, from its name and operands.
* `handler`: one handler, from the operands of its declaration.
* `assemble`: a method from items.
* `parse`: a method from a text.
-/

namespace BytecodeRegions.Listing

/-! ### From text to items -/

/-- The text with every line end written as a line feed. -/
def lineFeeds : List Char → List Char
  | '\r' :: '\n' :: s => '\n' :: lineFeeds s
  | '\r' :: s => '\n' :: lineFeeds s
  | c :: s => c :: lineFeeds s
  | [] => []

/-- The text with line feeds only, and one at its end. -/
def normalised (text : String) : List Char :=
  let s := lineFeeds text.toList
  if s.getLast? = some '\n' then s else s ++ ['\n']

/-- An instruction as written. -/
structure Op where
  /-- The name. -/
  name : String
  /-- The operands. -/
  operands : List String
  /-- The line. -/
  line : Nat
deriving DecidableEq, Repr

/-- A handler declaration as written. -/
structure Clause where
  /-- The operands. -/
  operands : List String
  /-- The line. -/
  line : Nat
deriving DecidableEq, Repr

/-- What a listing consists of. -/
inductive Item where
  /-- A label. -/
  | label (name : String) (line : Nat)
  /-- An instruction. -/
  | op (o : Op)
  /-- A handler declaration. -/
  | clause (c : Clause)
deriving DecidableEq, Repr

/-- The items of a statement of line number `line`. -/
def Statement.items (line : Nat) : Statement → List Item
  | handler operands => [.clause ⟨operands, line⟩]
  | label name => [.label name line]
  | instruction name operands => [.op ⟨name, operands, line⟩]
  | labelled l name operands => [.label l line, .op ⟨name, operands, line⟩]

/-- The items of lines that are counted from one. -/
def items (ls : List (Option Statement)) : List Item :=
  (ls.zipIdx 1).flatMap fun (statement, line) => statement.elim [] (Statement.items line)

/-- The number of characters that are quoted where a text cannot be read on. -/
def excerptLength : Nat := 20

/-- Reads a text into items. -/
def read (text : String) : Except Failure (List Item) :=
  let (ls, rest) := lines (normalised text)
  if rest.isEmpty then .ok (items ls)
  else .error (.unreadable (ls.length + 1) (String.ofList (rest.take excerptLength)))

/-! ### From items to a method -/

/-- The instructions among the items. -/
def ops (is : List Item) : List Op :=
  is.filterMap fun
    | .op o => some o
    | _ => none

/-- The handler declarations among the items. -/
def clauses (is : List Item) : List Clause :=
  is.filterMap fun
    | .clause c => some c
    | _ => none

/-- The positions that labels stand for. -/
abbrev Labels := List (String × Nat)

/-- The labels of the items, after `count` instructions and the labels found so far. -/
def labelsFrom (count : Nat) (found : Labels) : List Item → Except Failure Labels
  | [] => .ok found
  | .label name line :: is =>
    if (found.lookup name).isSome then .error (.atLine line (.duplicateLabel name))
    else labelsFrom count ((name, count) :: found) is
  | .op _ :: is => labelsFrom (count + 1) found is
  | .clause _ :: is => labelsFrom count found is

/-- The labels of the items; none may be defined twice. -/
def labels (is : List Item) : Except Failure Labels :=
  labelsFrom 0 [] is

/-- The value of an integer token, as long as it has not too many digits; nothing if the token is no
integer. -/
def integer? (token : String) : Option (Except Cause Int) :=
  (Text.Numeral.ofToken? token.toList).map fun n =>
    if n.digits.length ≤ Text.Numeral.digitLimit then .ok n.value
    else .error (.tooLong n.digits.length)

/-- The value of a token that has to be an integer. -/
def integer (role : Role) (token : String) : Except Cause Int :=
  (integer? token).getD (.error (.notInteger role token))

/-- The position that a token stands for: a numeral, else a label. -/
def position (ls : Labels) (token : String) : Except Cause Int :=
  (integer? token).getD
    ((ls.lookup token).elim (.error (.undefinedLabel token)) fun p => .ok (p : Int))

/-- A further operand: a number if it is an integer token, else a word. -/
def operand (token : String) : Except Cause Operand :=
  (integer? token).elim (.ok (.word token)) fun n => .number <$> n

/-- What the operands of a switch say. -/
structure Cases where
  /-- The keys in order. -/
  keys : List Int := []
  /-- The targets in order. -/
  targets : List Int := []
  /-- The default. -/
  default? : Option Int := none

/-- The parts of an operand before and after its first colon, if both the colon and the second part
are there. -/
def splitCase (operand : String) : Option (String × String) :=
  let s := operand.toList
  match s.dropWhile (· != ':') with
  | _ :: c :: label => some (String.ofList (s.takeWhile (· != ':')), String.ofList (c :: label))
  | _ => none

/-- Reads one operand of a switch after those read so far. -/
def Cases.add (ls : Labels) (cs : Cases) (operand : String) : Except Cause Cases := do
  let some (key, label) := splitCase operand | throw (.notCase operand)
  if key = "default" then
    if cs.default?.isSome then throw .secondDefault
    let p ← position ls label
    return { cs with default? := some p }
  else
    let k ← integer .key key
    let p ← position ls label
    return { cs with keys := cs.keys ++ [k], targets := cs.targets ++ [p] }

/-- The instruction with the given parts. -/
def make (code : Opcode) (slot : Option Int) (target : Option Int) (targets : List Int)
    (keys : List Int) (operands : List Operand) : Except Cause (Instruction Target) :=
  (Instruction.make code slot (target.map .position) (targets.map .position) keys operands).mapError
    .defect

/-- A switch. -/
def switch (ls : Labels) (code : Opcode) (o : Op) : Except Cause (Instruction Target) := do
  let cs ← o.operands.foldlM (Cases.add ls) {}
  let some d := cs.default? | throw (.noDefault code)
  make code none (some d) cs.targets cs.keys []

/-- Why an instruction does not have the operands it should. -/
def wrongCount {α : Type} (o : Op) (expected : Nat) : Except Cause α :=
  .error (.operandCount o.name expected o.operands.length)

/-- An instruction with a given opcode, from its operands as written. -/
def encode (ls : Labels) (code : Opcode) (o : Op) : Except Cause (Instruction Target) :=
  match code.kind with
  | .jsr | .goto | .branch =>
    match o.operands with
    | [t] => do make code none (some (← position ls t)) [] [] []
    | _ => wrongCount o 1
  | .switch => switch ls code o
  | .iinc =>
    match o.operands with
    | [s, n] => do
      let slot ← integer .slot s
      let increment ← integer .increment n
      make code (some slot) none [] [] [.number increment]
    | _ => wrongCount o 2
  | .load | .store | .ret =>
    match code.implicitSlot, o.operands with
    | some _, [] => make code none none [] [] []
    | some _, _ => wrongCount o 0
    | none, [s] => do make code (some (← integer .slot s)) none [] [] []
    | none, _ => wrongCount o 1
  | .methodReturn | .athrow | .other => do
    make code none none [] [] (← o.operands.mapM operand)

/-- An instruction, from its name and operands as written. -/
def instruction (ls : Labels) (o : Op) : Except Failure (Instruction Target) :=
  match Opcode.ofName? o.name with
  | none => .error (.atLine o.line (.unknownOpcode o.name))
  | some code => (encode ls code o).mapError (.atLine o.line)

/-- The body of the instructions as written; `stamp` tells it from any other. -/
def body (stamp : Nat) (ls : Labels) (os : List Op) : Except Failure Body := do
  let is ← os.mapM (instruction ls)
  (Body.ofInstructions stamp is).mapError fun e => .overall (.unlinked e)

/-- The parts of a handler declaration of the right form: the type and three position tokens. -/
def clauseParts : List String → Option (String × String × String × String)
  | [type, w₁, start, w₂, stop, w₃, entry] =>
    if w₁ = "from" ∧ w₂ = "to" ∧ w₃ = "using" then some (type, start, stop, entry) else none
  | _ => none

/-- The position that a token of a handler declaration stands for. -/
def clausePosition (ls : Labels) (line : Nat) (token : String) : Except Failure Int :=
  (position ls token).mapError fun
    | .tooLong count => .numeral count
    | cause => .atLine line cause

/-- The first of the positions that is outside a body of `size` instructions. -/
def firstOutside (size : Nat) (ps : List Int) : Option Int :=
  ps.find? fun p => !(decide (0 ≤ p) && decide (p < size))

/-- The method with one more handler, from its declaration. -/
def addClause (ls : Labels) (m : Method) (c : Clause) : Except Failure Method := do
  let some (type, start, stop, entry) := clauseParts c.operands
    | throw (.atLine c.line .handlerForm)
  let start ← clausePosition ls c.line start
  let stop ← clausePosition ls c.line stop
  let entry ← clausePosition ls c.line entry
  if let some p := firstOutside m.body.size [start, stop, entry] then
    throw (.atLine c.line (.handlerOutside p m.body.size))
  let catchType := if type = "all" then none else some type
  (m.addHandler (.position start) (.position stop) (.position entry) catchType).mapError fun r =>
    .atLine c.line (.handlerRefused r)

/-- Puts items together into a method. -/
def assemble (stamp : Nat) (name : String) (is : List Item) : Except Failure Method := do
  let ls ← labels is
  if (ops is).isEmpty then throw (.overall .noInstructions)
  let b ← body stamp ls (ops is)
  let some m := Method.make? name b | throw (.overall .noInstructions)
  (clauses is).foldlM (addClause ls) m

/-- The name of a method for which none is given. -/
def defaultName : String := "<method>"

/-- Reads a text into a method. -/
def parse (stamp : Nat) (text : String) (name : String) : Except Failure Method := do
  assemble stamp name (← read text)

end BytecodeRegions.Listing
