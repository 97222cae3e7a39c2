import BytecodeRegions.Listing.Assembly
import BytecodeRegions.Listing.Printer
import BytecodeRegions.Log

/-!
# Workspaces

A workspace keeps methods, tables and hand-made regions under names, and the log. Every body gets a
stamp of its own, so a method that is defined anew under an old name is another method. A table that
is replaced under its name lives on in the regions that were made from it.

An action may fail; what it did to the workspace before it failed stays.

## Main definitions

* `Trouble`: why an action fails.
* `Place`, `Draft`, `Source`: places, instructions and methods as they are asked for.
* `Workspace`, `Action`: the state, and what is done to it.
* `Workspace.define`, `Workspace.addHandler`, `Workspace.buildTable`, `Workspace.ask`, …: the
  actions.
-/

namespace BytecodeRegions

/-- Why an action fails. -/
inductive Trouble where
  /-- A name is no mnemonic. -/
  | unknownMnemonic (name : String)
  /-- The parts do not make an instruction. -/
  | defect (d : Instruction.Defect)
  /-- The instructions do not make a body. -/
  | unlinked (e : Body.LinkError)
  /-- A method has no instructions. -/
  | emptyMethod (name : String)
  /-- A handler is refused, or a position is outside. -/
  | refusal (r : Handler.Refusal)
  /-- A listing is refused. -/
  | listing (f : Listing.Failure)
  /-- An operation or a query fails. -/
  | fault (f : Fault)
  /-- Nothing has the name. -/
  | unknownName (name : String)

/-- A place as it is asked for. -/
inductive Place where
  /-- A position. -/
  | position (p : Int)
  /-- A position of a named method, counted from the end if it is negative. -/
  | ofMethod (name : String) (p : Int)
  /-- No place at all. -/
  | absent
deriving DecidableEq, Repr

/-- An instruction as it is asked for. -/
structure Draft where
  /-- The mnemonic. -/
  op : String
  /-- The slot. -/
  slot : Option Int := none
  /-- The target. -/
  target : Option Place := none
  /-- The targets of the cases. -/
  caseTargets : List Place := []
  /-- The keys of the cases. -/
  keys : List Int := []
  /-- Further operands. -/
  operands : List Operand := []

/-- A handler as it is asked for. -/
structure HandlerDraft where
  /-- The first protected place. -/
  start : Place
  /-- The last protected place. -/
  stop : Place
  /-- The entry. -/
  entry : Place
  /-- The type that is caught. -/
  catchType : Option String := none

/-- A method as it is asked for. -/
inductive Source where
  /-- By its listing. -/
  | listing (text name : String)
  /-- By its instructions and handlers. -/
  | instructions (drafts : List Draft) (name : String) (handlers : List HandlerDraft)

/-- A region as it is asked for. -/
inductive RegionName where
  /-- The top level. -/
  | top
  /-- The subroutine that starts at a position, counted from the end if it is negative. -/
  | leader (p : Int)
  /-- A region that was made by hand. -/
  | made (name : String)
deriving DecidableEq, Repr

/-- A region of one of the tables that were ever built. -/
structure RegionKey where
  /-- The number of the table. -/
  table : Nat
  /-- The region in it. -/
  ref : RegionRef
deriving DecidableEq, Repr

/-- Methods, tables and regions under names, and the log. -/
structure Workspace where
  /-- The stamp of the next body. -/
  nextStamp : Nat := 0
  /-- The methods, the latest definition of a name first. -/
  methods : List (String × Method) := []
  /-- The tables that were ever built. -/
  tables : List Table := []
  /-- The numbers of the tables with names, the latest first. -/
  tableNames : List (String × Nat) := []
  /-- The regions that were made by hand, the latest first. -/
  regionNames : List (String × RegionKey) := []
  /-- The records since the log was last drained. -/
  log : List LogRecord := []

/-- What is done to a workspace: it may fail, and what it did before stays. -/
abbrev Action (α : Type) := ExceptT Trouble (StateM Workspace) α

namespace Workspace

/-! ### Names, places and the log -/

/-- An answer, or the trouble with it. -/
def attempt {ε α : Type} (trouble : ε → Trouble) : Except ε α → Action α
  | .ok a => return a
  | .error e => throw (trouble e)

/-- What a name stands for. -/
def named {α : Type} (entries : Workspace → List (String × α)) (name : String) : Action α := do
  match (entries (← get)).lookup name with
  | some a => return a
  | none => throw (.unknownName name)

/-- The method with a name. -/
def method (name : String) : Action Method :=
  named Workspace.methods name

/-- Writes to the log. -/
def record (rs : List LogRecord) : Action Unit :=
  modify fun w => { w with log := w.log ++ rs.flatMap LogRecord.emitted }

/-- Empties the log. -/
def drain : Action (List LogRecord) :=
  modifyGet fun w => (w.log, { w with log := [] })

/-- The place at a position of a method. -/
def placeOf (m : Method) (p : Int) : Action Handle :=
  attempt .refusal (m.resolve (.position p))

/-- The place at a position of a named method. -/
def handle (name : String) (p : Int) : Action Handle := do
  placeOf (← method name) p

/-- A place as a target. -/
def target : Place → Action Target
  | .position p => return .position p
  | .ofMethod name p => return .handle (← handle name p)
  | .absent => return .absent

/-! ### Instructions and methods -/

/-- An instruction that is not in a body yet. -/
def instruction (d : Draft) : Action (Instruction Target) := do
  let t ← d.target.mapM target
  let cases ← d.caseTargets.mapM target
  let some op := Opcode.ofName? d.op | throw (.unknownMnemonic d.op)
  attempt .defect (Instruction.make op d.slot t cases d.keys d.operands)

/-- A stamp that no body has yet. -/
def freshStamp : Action Nat :=
  modifyGet fun w => (w.nextStamp, { w with nextStamp := w.nextStamp + 1 })

/-- The method with a body and a name. -/
def methodOf (name : String) (b : Body) : Action Method :=
  (Method.make? name b).elim (throw (.emptyMethod name)) pure

/-- The handler that is asked for, as a handler of the method. -/
def handlerOf (m : Method) (d : HandlerDraft) : Action Handler := do
  let start ← target d.start
  let stop ← target d.stop
  let entry ← target d.entry
  attempt .refusal (m.handlerFor start stop entry d.catchType)

/-- The method that is asked for. -/
def methodFrom : Source → Action Method
  | .listing text name => do
    let m ← attempt .listing (Listing.parse (← freshStamp) text name)
    record [.assembled m]
    return m
  | .instructions drafts name handlers => do
    let is ← drafts.mapM instruction
    let b ← attempt .unlinked (Body.ofInstructions (← freshStamp) is)
    let m ← methodOf name b
    handlers.foldlM (fun m d => m.withHandler <$> handlerOf m d) m

/-- Keeps a method under a name. -/
def putMethod (name : String) (m : Method) : Action Unit :=
  modify fun w => { w with methods := (name, m) :: w.methods }

/-- Defines a method. -/
def define (name : String) (source : Source) : Action Method := do
  let m ← methodFrom source
  putMethod name m
  return m

/-- Defines a method by the instructions of another one, which are already in a body. -/
def relist (name other newName : String) : Action Method := do
  let m ← method other
  let b ← attempt .unlinked (m.body.relisted (← freshStamp))
  let m ← methodOf newName b
  putMethod name m
  return m

/-- Registers a handler with a method. -/
def addHandler (name : String) (d : HandlerDraft) : Action Handler := do
  let m ← method name
  let x ← handlerOf m d
  putMethod name (m.withHandler x)
  return x

/-- Appends a handler for any three places to those of a method. -/
def appendHandler (name : String) (start stop entry : String × Int) (catchType : Option String) :
    Action Handler := do
  let m ← method name
  let start ← handle start.1 start.2
  let stop ← handle stop.1 stop.2
  let entry ← handle entry.1 entry.2
  let x ← attempt .refusal (Handler.make start stop entry catchType)
  putMethod name (m.withHandler x)
  return x

/-- The handler with a number, counted from the end if it is negative. -/
def handlerAt (name : String) (index : Int) : Action Handler := do
  let m ← method name
  let i := if index < 0 then index + m.handlers.length else index
  match if 0 ≤ i then m.handlers[i.toNat]? else none with
  | some x => return x
  | none => throw (.refusal .outside)

/-! ### Tables -/

/-- The number of the table with a name. -/
def tableNumber (name : String) : Action Nat :=
  named Workspace.tableNames name

/-- Asks a table. -/
def ask {α : Type} (number : Nat) (q : Query α) : Action α := do
  match (← get).tables[number]? with
  | none => throw (.unknownName "")
  | some t =>
    let (answer, t) := q t
    modify fun w => { w with tables := w.tables.set number t }
    attempt .fault answer

/-- Builds the table of a method and keeps what the log says about it. -/
def buildTable (m : Method) (settings : Settings) : Action Table := do
  let result := Table.build m settings
  record (LogRecord.ofBuild m result)
  attempt .fault result

/-- Keeps a table under a name. -/
def putTable (name : String) (t : Table) : Action Nat :=
  modifyGet fun w =>
    (w.tables.length,
      { w with tables := w.tables ++ [t], tableNames := (name, w.tables.length) :: w.tableNames })

/-- The verdict on a method; the log keeps what is said against it. -/
def checkTable (m : Method) (settings : Settings) : Action Table.Verdict := do
  let result := Table.build m settings
  record (LogRecord.ofBuild m result)
  let verdict ← attempt .fault (Table.verdict result)
  if let .rejected v := verdict then record [.rejected m v]
  return verdict

/-- The region that owns a place, if any; otherwise the log says so. -/
def ownerOf (number : Nat) (h : Handle) : Action (Option Region) := do
  let t ← ask number get
  match t.ownerOf h with
  | some ref => return some (t.region ref)
  | none =>
    record [.deadCode t h]
    return none

/-- The region that is asked for, with the table it belongs to. -/
def region (number : Nat) : RegionName → Action RegionKey
  | .top => return ⟨number, .top⟩
  | .made name => named Workspace.regionNames name
  | .leader p => do
    let t ← ask number get
    let h ← placeOf t.method p
    let ref ← attempt (fun m => .fault (.misuse m)) (t.getSubroutine h)
    return ⟨number, ref⟩

/-- Makes a region by hand that starts at a place. -/
def newRegion (number : Nat) (name : String) (entry : Handle) (isTop : Bool) : Action Region := do
  let ref ← ask number (modifyGet fun t => (t.addLoose entry isTop).swap)
  modify fun w => { w with regionNames := (name, ⟨number, ref⟩) :: w.regionNames }
  ask number (Query.region ref)

/-- Changes a region by an operation, and describes it. -/
def change (key : RegionKey) (f : Bool → Region → Except Fault Region) : Action String := do
  ask key.table (Query.change key.ref f)
  ask key.table (Query.describe key.ref)

/-- The nesting depth of a region, asked of a table; an empty region has that of the table's top
level. -/
def depth (number : Nat) (key : RegionKey) : Action Nat := do
  let r ← ask key.table (Query.region key.ref)
  if r.members.isEmpty then ask number (Query.depth .top) else ask key.table (Query.depth key.ref)

/-- Checks the calls from a region and notes the success in the log. -/
def checkRecursion (key : RegionKey) (methodName : String) : Action Unit := do
  ask key.table (Query.checkRecursion key.ref methodName)
  record [.noRecursion methodName]

end Workspace

end BytecodeRegions
