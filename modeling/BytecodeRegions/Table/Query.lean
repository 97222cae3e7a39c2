import BytecodeRegions.Table

/-!
# Questions to a table

Slots, callees, nesting depth and the check for recursive calls. The slots of a region, the slots
of what it calls, and its callees are remembered while the table is sealed and its settings say so;
a question that fails leaves nothing remembered about itself. A region is changed through its table
as well, since it depends on the table which operations are refused.

## Main definitions

* `Query.change`: changes a region by one of its operations.
* `Query.remembered`: answers from memory, or computes and remembers.
* `Query.accessed`, `Query.recursive`, `Query.callees`: the questions that are remembered.
* `Query.graph`: the call graph seen from a region.
* `Query.depth`: the nesting depth.
* `Query.checkRecursion`: refuses a chain of calls that takes a slot twice.
* `Query.slotList`: slots as written.
* `Query.describe`: a region in several lines.
-/

namespace BytecodeRegions

/-- The leaders of the subroutines that a region calls, in ascending order. -/
def Table.calleesOf (t : Table) (r : Region) : Except Misuse (List Nat) := do
  let targets := (r.members.filter (·.instruction.isJsr)).filterMap Handle.target?
  let _ ← targets.mapM t.getSubroutine
  return Region.ascending (targets.map (·.position))

namespace Query

/-- The outcome of an operation as an answer. -/
def ofFault {α : Type} : Except Fault α → Query α
  | .ok a => return a
  | .error f => throw f

/-- An answer that only a misuse can prevent. -/
def ofMisuse {α : Type} : Except Misuse α → Query α
  | .ok a => return a
  | .error m => throw (.misuse m)

/-- A region by its name. -/
def region (ref : RegionRef) : Query Region :=
  return (← get).region ref

/-- Changes a region by an operation, which is told whether the table is sealed. The region is only
written back once the operation has succeeded, so whatever the operation is, a refusal changes
nothing. -/
def change (ref : RegionRef) (f : Bool → Region → Except Fault Region) : Query Unit := do
  let t ← get
  let r ← ofFault (f t.isSealed (t.region ref))
  modify (·.modify ref fun _ => r)

/-- Whether answers are remembered. -/
def remembers : Query Bool := do
  let t ← get
  return t.isSealed && t.settings.remember

/-- Answers from memory, or computes and remembers; while answers are not remembered, computes. -/
def remembered {α : Type} (ref : RegionRef) (find : Memo → Option α) (store : α → Memo → Memo)
    (compute : Query α) : Query α := do
  if ← remembers then
    match find (← region ref).memo with
    | some a => return a
    | none =>
      let a ← compute
      modify (·.modify ref fun r => { r with memo := store a r.memo })
      return a
  else compute

/-- The slots that a region accesses itself. -/
def accessed (ref : RegionRef) : Query (List Nat) := do
  let r ← region ref
  if r.ret.isNone && !r.isTop then throw (.misuse .unfinished)
  remembered ref Memo.accessed (fun a m => { m with accessed := some a }) do
    return (← region ref).accessedSlots

/-- The leaders of the subroutines that a region calls itself. -/
def callees (ref : RegionRef) : Query (List Nat) :=
  remembered ref Memo.callees (fun a m => { m with callees := some a }) do
    ofMisuse ((← get).calleesOf (← region ref))

/-- The call graph seen from a region. Every subroutine is asked for its callees, also one that no
chain of calls from the region leads to. So more callees may be remembered than the question at hand
needs; what is remembered is what would be computed, so this is never seen in an answer. -/
def graph (ref : RegionRef) : Query CallGraph := do
  let root ← callees ref
  let subs ← (← get).leaders.mapM fun p => return (p, ← callees (.sub p))
  return { root, subs }

/-- The slots that a region and all it calls, directly or not, access. -/
def recursive (ref : RegionRef) : Query (List Nat) :=
  remembered ref Memo.recursive (fun a m => { m with recursive := some a }) do
    let own ← accessed ref
    let g ← graph ref
    let called ← g.reachable.mapM fun p => accessed (.sub p)
    return Region.ascending (own ++ called.flatten)

/-- The length of the longest chain of calls from a region; an empty region has that of the top
level. It is found by taking layers off the call graph and not by going down from callee to callee.
The recursion is a theorem here: a region is one deeper than the deepest of its callees. -/
def depth (ref : RegionRef) : Query Nat := do
  let r ← region ref
  let g ← graph (if r.members.isEmpty then .top else ref)
  g.depth?.elim (throw .endless) pure

end Query

namespace Table

/-- The slot that the `ret` of a subroutine reads. -/
def retSlot (t : Table) (p : Nat) : Nat :=
  ((t.region (.sub p)).ret.bind fun h => h.instruction.slot).getD 0

/-- The violation of a chain of calls from the region `ref` that takes a slot twice. -/
def clashViolation (t : Table) (ref : RegionRef) (method : String) (x : Clash) : Violation :=
  let callee := t.region (.sub x.callee)
  let holder := (x.holder? t.retSlot).elim RegionRef.top .sub
  let caller := x.path.head?.elim ref .sub
  let retOf (r : RegionRef) := (t.region r).ret.toList.map (·.position)
  let path := ref :: (x.callee :: x.path).reverse.map .sub
  { rule := .recursiveCall
    detail := "Subroutine with local variable " ++ Region.slotText callee.slot ++ ", JSRs " ++
      Text.numberList callee.callPositions ++ ", RET " ++
      ", ".intercalate ((retOf (.sub x.callee)).map Text.decimalNat) ++
      " is called by a subroutine which uses the same local variable index as itself; " ++
      "maybe even a recursive call? Call path: " ++
      " -> ".intercalate (path.map fun r => (t.region r).label)
    method
    instructions := (retOf (.sub x.callee) ++ retOf holder).eraseDups
    regions := [RegionRef.sub x.callee, holder, caller].eraseDups.map fun r => (t.region r).note }

end Table

namespace Query

/-- Refuses a chain of calls from a region that takes a slot twice. -/
def checkRecursion (ref : RegionRef) (method : String) : Query Unit := do
  let g ← graph ref
  let t ← get
  match g.clash? t.retSlot with
  | some x => throw (.violation (t.clashViolation ref method x))
  | none => return

/-- A list of slots as written; it is refused if one of them has too many digits. The slots of
instructions are taken to have few enough, so this can only be the second slot of a long or a
double. -/
def slotList (slots : List Nat) : Query String :=
  if slots.all Text.isWritable then return Text.numberList slots else throw .unwritable

/-- A region in several lines. -/
def describe (ref : RegionRef) : Query String := do
  let r ← region ref
  let own :=
    if r.isTop then [] else
      ["  local variable: " ++ Region.slotText r.slot,
        "  JSRs: " ++ Text.numberList r.callPositions,
        "  RET: " ++ r.ret.elim "None" fun h => Text.decimalNat h.position]
  let members := "  instructions: " ++ Text.numberList (r.instructions.map (·.position))
  let slots ←
    if r.isTop || r.ret.isSome then do
      let own ← slotList (← accessed ref)
      let all ← slotList (← recursive ref)
      pure ["  accessed local variable slots: " ++ own,
        "  recursively accessed local variable slots: " ++ all]
    else pure []
  return "\n".intercalate (["Subroutine " ++ r.label ++ ":"] ++ own ++ [members] ++ slots)

end Query

end BytecodeRegions
