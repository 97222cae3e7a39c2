import BytecodeRegions.CallGraph
import BytecodeRegions.Flow
import BytecodeRegions.Region

/-!
# Tables of regions

A table holds the regions of one method: its top level, its subroutines in the order of their
entries, and any regions that were made by hand. A table knows which region owns which position. It
is sealed once it is built; while it is sealed, and if its settings say so, regions remember the
answers to some questions.

## Main definitions

* `Settings`: how a table is built and asked.
* `Span`: a region with the positions that it owns.
* `Table`: the regions of a method.
* `Table.region`, `Table.modify`: a region by its name.
* `Table.ownerOf`: the region that owns a place.
* `Query`: a question to a table, which may fail and may leave things remembered.
-/

namespace BytecodeRegions

/-- How a table is built and asked. -/
structure Settings where
  /-- Whether a summary of every table is logged. -/
  verbose : Bool := false
  /-- The level at which dead code is logged. -/
  deadCodeLevel : Int := 10
  /-- Whether regions remember answers. -/
  remember : Bool := true
deriving DecidableEq, Repr

/-- A region with the positions that it owns. -/
structure Span where
  /-- The region. -/
  region : RegionRef
  /-- The positions that it owns, in ascending order. -/
  positions : List Nat
deriving DecidableEq, Repr

/-- The region that owns a position. -/
def ownerIn (spans : List Span) (p : Nat) : Option RegionRef :=
  (spans.find? (·.positions.contains p)).map Span.region

/-- The regions of a method. -/
structure Table where
  /-- The method. -/
  method : Method
  /-- The settings. -/
  settings : Settings
  /-- Whether the table is sealed. -/
  isSealed : Bool
  /-- The top level. -/
  top : Region
  /-- The subroutines in the order of their entries. -/
  subs : List Region
  /-- Regions that were made by hand. -/
  loose : List Region
  /-- Which region owns which positions. -/
  spans : List Span

namespace Table

/-- The positions of the entries of the subroutines. -/
def leaders (t : Table) : List Nat :=
  t.subs.map (·.entry.position)

/-- The regions of the partition: the top level and the subroutines. -/
def regions (t : Table) : List RegionRef :=
  .top :: t.leaders.map .sub

/-- The subroutine with a given entry. -/
def sub? (t : Table) (leader : Nat) : Option Region :=
  t.subs.find? (·.entry.position == leader)

/-- A region by its name; a name that no region has stands for the top level. -/
def region (t : Table) : RegionRef → Region
  | .top => t.top
  | .sub leader => (t.sub? leader).getD t.top
  | .loose index => t.loose[index]?.getD t.top

/-- The table with one region changed. -/
def modify (t : Table) (ref : RegionRef) (f : Region → Region) : Table :=
  match ref with
  | .top => { t with top := f t.top }
  | .sub leader =>
    { t with subs := t.subs.map fun r => if r.entry.position = leader then f r else r }
  | .loose index => { t with loose := t.loose.modify index f }

/-- The region that owns a place. -/
def ownerOf (t : Table) (h : Handle) : Option RegionRef :=
  if t.method.body.owns h then ownerIn t.spans h.position else none

/-- The positions that no region owns. -/
def dead (t : Table) : List Nat :=
  t.method.body.positions.filter fun p => (ownerIn t.spans p).isNone

/-- The subroutine that starts at a place. -/
def getSubroutine (t : Table) (h : Handle) : Except Misuse RegionRef :=
  if h = t.top.entry then .error .topLookup
  else if t.method.body.owns h && (t.sub? h.position).isSome then .ok (.sub h.position)
  else .error (.notLeader h)

/-- The word for a table. -/
def render (t : Table) : String :=
  "Subroutines(" ++ Text.quoted t.method.name ++ ", subroutines=" ++
    Text.decimalNat t.subs.length ++ ")"

/-- A new region that starts at a place and belongs to no partition. -/
def addLoose (t : Table) (entry : Handle) (isTop : Bool) : Table × RegionRef :=
  ({ t with loose := t.loose ++ [{ entry, isTop }] }, .loose t.loose.length)

end Table

/-- A question to a table: the answer or why there is none, and what the table remembers after. -/
abbrev Query (α : Type) := ExceptT Fault (StateM Table) α

end BytecodeRegions
