import BytecodeRegions.Diagram
import BytecodeRegions.Table.Query

/-!
# Reports about a table

Figures, a diagram of calls and a summary for people.

## Main definitions

* `Statistics`, `Query.statistics`: the figures.
* `Query.diagram`, `Query.dot`: who calls whom and from where, as data and in the DOT language.
* `Query.summary`: figures and regions, line by line.
-/

namespace BytecodeRegions

/-- The figures of a table. -/
structure Statistics where
  /-- The name of the method. -/
  method : String
  /-- The number of instructions. -/
  instructions : Nat
  /-- The number of instructions that a region owns. -/
  reachable : Nat
  /-- The number of subroutines. -/
  subroutines : Nat
  /-- The number of instructions of the top level. -/
  topLevel : Nat
  /-- The entries of the subroutines with the number of their instructions. -/
  perSubroutine : List (Nat × Nat)
  /-- The length of the longest chain of calls. -/
  maxDepth : Nat
deriving DecidableEq, Repr

/-- The number of instructions that no region owns. -/
def Statistics.dead (s : Statistics) : Nat :=
  s.instructions - s.reachable

/-- The number of positions that have an owner. -/
def Table.ownedCount (t : Table) : Nat :=
  t.method.body.positions.countP fun p => (ownerIn t.spans p).isSome

namespace Query

/-- The figures of a table. -/
def statistics : Query Statistics := do
  let t ← get
  let maxDepth ← depth .top
  return { method := t.method.name
           instructions := t.method.body.size
           reachable := t.ownedCount
           subroutines := t.subs.length
           topLevel := t.top.size
           perSubroutine := t.subs.map fun r => (r.entry.position, r.size)
           maxDepth }

/-- The node of a region in the diagram of calls. -/
def node (ref : RegionRef) : Query Diagram.Node := do
  let r ← region ref
  let exit ←
    if r.isTop then pure none
    else do
      let ret ← ofMisuse r.leavingRet
      pure (some { slot := r.slot, ret := ret.position })
  return { region := ref, label := r.label, size := r.size, exit }

/-- The positions of the calls of `callee` that are members of `caller`, in ascending order. -/
def callSites (caller callee : Region) : Except Misuse (List Nat) := do
  let calls ← callee.entering
  return (Region.byPosition (calls.filter caller.contains)).map (·.position)

/-- The edges from a region in the diagram of calls, one for each subroutine that it calls. -/
def edges (ref : RegionRef) : Query (List Diagram.Edge) := do
  let r ← region ref
  (← callees ref).mapM fun p => do
    let callee ← region (.sub p)
    let sites ← ofMisuse (callSites r callee)
    return { caller := ref, callerLabel := r.label, callee := .sub p, calleeLabel := callee.label,
             sites }

/-- The diagram of calls. -/
def diagram : Query Diagram := do
  let regions := (← get).regions
  let nodes ← regions.mapM node
  let edges ← regions.mapM edges
  return { nodes, edges := edges.flatten }

/-- The diagram of calls in the DOT language. -/
def dot (title : Option String) : Query String :=
  return (← diagram).text title

/-- The line of a region in the summary. -/
def summaryLine (ref : RegionRef) : Query String := do
  let r ← region ref
  let labels ← (← callees ref).mapM fun p => return (← region (.sub p)).label
  let calls := "calls " ++ Text.bracketed (labels.mergeSort fun a b => decide (a ≤ b))
  if r.isTop then
    return "  top-level: " ++ Text.decimalNat r.size ++ " instr, " ++ calls
  else
    let _ ← ofMisuse r.entering
    let ret ← ofMisuse r.leavingRet
    let locals ← slotList (← accessed ref)
    return "  " ++ r.label ++ ": slot " ++ Region.slotText r.slot ++ ", ret @" ++
      Text.decimalNat ret.position ++ ", jsrs " ++ Text.numberList r.callPositions ++ ", " ++
      Text.decimalNat r.size ++ " instr, locals " ++ locals ++ ", " ++ calls

/-- Figures and regions, line by line. -/
def summary : Query String := do
  let s ← statistics
  let regions ← (← get).regions.mapM summaryLine
  return "\n".intercalate
    (["Subroutines of " ++ s.method,
      "  Instructions:         " ++ Text.decimalNat s.instructions,
      "  Reachable:            " ++ Text.decimalNat s.reachable,
      "  Dead:                 " ++ Text.decimalNat s.dead,
      "  Subroutines:          " ++ Text.decimalNat s.subroutines,
      "  Max nesting depth:    " ++ Text.decimalNat s.maxDepth,
      "",
      "Regions:"] ++ regions)

end Query

end BytecodeRegions
