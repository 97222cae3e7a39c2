import BytecodeRegions.Violation

/-!
# Regions

A region is a part of a method: a subroutine, or the top level. A subroutine is entered by calls
that target its entry, keeps its return address in a slot, and is left by one `ret`. The top level
has none of these.

A region is put together by four operations: the slot is set once; calls are attached whose target
stores to that slot; members are added as long as the table is open and the `ret` is not settled;
and the `ret` is settled as the only one among the members, if it reads the slot of the region. An
operation that is refused gives no region at all, so the region stays as it was.

## Main definitions

* `RegionRef`: names a region of a table.
* `Region`: a region, with what queries have remembered about it.
* `Misuse`, `Fault`: why an operation or a query is refused.
* `Region.setSlot`, `Region.addEntering`, `Region.addMember`, `Region.settleRet`: the operations.
* `Region.entering`, `Region.leavingRet`: queries that the top level refuses.
-/

namespace BytecodeRegions

/-- Names a region of a table. -/
inductive RegionRef where
  /-- The top level. -/
  | top
  /-- The subroutine whose entry has a given position. -/
  | sub (leader : Nat)
  /-- A region that was made by hand and belongs to no partition. -/
  | loose (index : Nat)
deriving DecidableEq, Repr

/-- Why an operation or a query makes no sense. -/
inductive Misuse where
  /-- The top level is given a slot. -/
  | topSlot
  /-- The slot is set a second time. -/
  | slotTwice
  /-- What is attached is no call. -/
  | notCall
  /-- A call is attached before there is a slot. -/
  | slotFirst
  /-- The target of an attached call stores to another slot. -/
  | wrongCall
  /-- A member is added to a table that is closed. -/
  | closed
  /-- A member is added after the `ret` was settled. -/
  | membersSettled
  /-- The `ret` of the top level, or of a region without slot, is to be settled. -/
  | retTooEarly
  /-- The calls of the top level are asked for. -/
  | topEntering
  /-- The `ret` of the top level is asked for. -/
  | topRet
  /-- The `ret` is asked for before it is settled. -/
  | retUnsettled
  /-- The slots of an unfinished region are asked for. -/
  | unfinished
  /-- The top level is looked up as a subroutine. -/
  | topLookup
  /-- A place is looked up that starts no subroutine. -/
  | notLeader (h : Handle)

/-- The wording of a misuse. -/
def Misuse.message : Misuse → String
  | topSlot => "The top level has no return-address slot."
  | slotTwice => "localVariable set twice."
  | notCall => "Expecting a jsr/jsr_w instruction handle."
  | slotFirst => "Set the local variable first!"
  | wrongCall => "Setting a wrong jsr instruction."
  | closed => "Subroutine table is sealed."
  | membersSettled => "All instructions must have been added before the leaving RET is set."
  | retTooEarly =>
    "_set_leaving_ret() called for the top level or before the local variable was set."
  | topEntering => "entering_jsr_instructions requested on the top level pseudo-subroutine."
  | topRet => "leaving_ret requested on the top level pseudo-subroutine."
  | retUnsettled => "leaving_ret requested before it was resolved."
  | unfinished =>
    "This subroutine object must be built up completely before calculating accessed locals."
  | topLookup => "TOPLEVEL special subroutine requested; use top_level."
  | notLeader h =>
    "Subroutine requested for '" ++ h.text ++ "', which is not the leader of a subroutine."

/-- Why an operation or a query fails. -/
inductive Fault where
  /-- The method breaks a rule. -/
  | violation (v : Violation)
  /-- The operation or query makes no sense. -/
  | misuse (m : Misuse)
  /-- Calls go round in a circle, so there is no longest chain of them. -/
  | endless
  /-- A number has too many digits to be written. -/
  | unwritable

/-- What queries have remembered about a region. -/
structure Memo where
  /-- The slots it accesses. -/
  accessed : Option (List Nat) := none
  /-- The slots that it and what it calls access. -/
  recursive : Option (List Nat) := none
  /-- The leaders of the subroutines it calls. -/
  callees : Option (List Nat) := none
deriving DecidableEq, Repr

/-- A part of a method. -/
structure Region where
  /-- Where the region starts. -/
  entry : Handle
  /-- Whether the region is the top level. -/
  isTop : Bool
  /-- The slot of the return address. -/
  slot : Option Int := none
  /-- The instructions of the region. -/
  members : List Handle := []
  /-- The calls that enter the region. -/
  calls : List Handle := []
  /-- The `ret` that leaves the region, once it is settled. -/
  ret : Option Handle := none
  /-- What queries have remembered. -/
  memo : Memo := {}

namespace Region

/-- What the region is called. -/
def label (r : Region) : String :=
  if r.isTop then "top-level" else "sub@" ++ Text.decimalNat r.entry.position

/-- The region as evidence. -/
def note (r : Region) : RegionNote :=
  ⟨r.label, r.slot⟩

/-- Sets the slot of the return address. -/
def setSlot (s : Int) (r : Region) : Except Misuse Region :=
  if r.isTop then .error .topSlot
  else if r.slot.isSome then .error .slotTwice
  else .ok { r with slot := some s }

/-- The slot that the target of a call stores to. -/
def targetSlot (call : Handle) : Option Int :=
  (call.target?.bind fun t => t.instruction.slot).map Int.ofNat

/-- Attaches a call. -/
def addEntering (call : Handle) (r : Region) : Except Misuse Region :=
  if call.instruction.isJsr then
    if r.slot.isNone then .error .slotFirst
    else if targetSlot call = r.slot then
      .ok { r with calls := if call ∈ r.calls then r.calls else r.calls ++ [call] }
    else .error .wrongCall
  else .error .notCall

/-- Adds a member. -/
def addMember (closed : Bool) (h : Handle) (r : Region) : Except Misuse Region :=
  if closed then .error .closed
  else if r.ret.isSome then .error .membersSettled
  else .ok { r with members := if h ∈ r.members then r.members else r.members ++ [h] }

/-- Handles in the order of their positions. -/
def byPosition (hs : List Handle) : List Handle :=
  hs.mergeSort fun a b => decide (a.position ≤ b.position)

/-- The `ret` instructions among the members, in order. -/
def rets (r : Region) : List Handle :=
  byPosition (r.members.filter (·.instruction.isRet))

/-- The violation of a region without `ret`. -/
def noRet (method : String) (r : Region) : Violation where
  rule := .missingRet
  detail := "Subroutine at " ++ Text.decimalNat r.entry.position ++ " without a RET detected."
  method := method
  instructions := [r.entry.position]
  regions := [r.note]

/-- The violation of a region with more than one `ret`. -/
def manyRets (method : String) (r : Region) (first second : Handle) (others : List Handle) :
    Violation where
  rule := .multipleRet
  detail := "Subroutine at " ++ Text.decimalNat r.entry.position ++
    " with more than one RET detected: '" ++ first.text ++ "' and '" ++ second.text ++ "'."
  method := method
  instructions := (first :: second :: others).map (·.position)
  regions := [r.note]

/-- The violation of a region whose `ret` reads another slot than `slot`. -/
def wrongRet (method : String) (r : Region) (ret : Handle) (slot : Int) : Violation where
  rule := .retSlotMismatch
  detail := "Subroutine uses '" ++ ret.text ++
    "' which does not match the correct local variable '" ++ Text.decimal slot ++ "'."
  method := method
  instructions := [ret.position, r.entry.position]
  regions := [r.note]

/-- Settles the `ret` that leaves the region. -/
def settleRet (method : String) (r : Region) : Except Fault Region :=
  match r.isTop, r.slot with
  | false, some s =>
    match r.rets with
    | [] => .error (.violation (r.noRet method))
    | [ret] =>
      if ret.instruction.slot.map Int.ofNat = some s then .ok { r with ret := some ret }
      else .error (.violation (r.wrongRet method ret s))
    | first :: second :: others => .error (.violation (r.manyRets method first second others))
  | _, _ => .error (.misuse .retTooEarly)

/-- The calls that enter a subroutine. -/
def entering (r : Region) : Except Misuse (List Handle) :=
  if r.isTop then .error .topEntering else .ok r.calls

/-- The `ret` that leaves a subroutine. -/
def leavingRet (r : Region) : Except Misuse Handle :=
  if r.isTop then .error .topRet else r.ret.elim (.error .retUnsettled) .ok

/-- The members in the order of their positions. -/
def instructions (r : Region) : List Handle :=
  byPosition r.members

/-- The positions of the attached calls in order. -/
def callPositions (r : Region) : List Nat :=
  (byPosition r.calls).map (·.position)

/-- The number of members. -/
def size (r : Region) : Nat :=
  r.members.length

/-- Whether a place is a member. -/
def contains (r : Region) (h : Handle) : Bool :=
  decide (h ∈ r.members)

/-- A slot as written, with `None` where there is none. -/
def slotText (s : Option Int) : String :=
  s.elim "None" Text.decimal

/-- The word for a region. -/
def render (r : Region) : String :=
  if r.isTop then "Subroutine(top-level, ninstructions=" ++ Text.decimalNat r.size ++ ")"
  else "Subroutine(entry=" ++ Text.decimalNat r.entry.position ++ ", local_variable=" ++
    slotText r.slot ++ ", ninstructions=" ++ Text.decimalNat r.size ++ ")"

/-- Numbers in ascending order, each once. -/
def ascending (ns : List Nat) : List Nat :=
  (ns.mergeSort fun a b => decide (a ≤ b)).eraseDups

/-- The slots that the members access, in ascending order. -/
def accessedSlots (r : Region) : List Nat :=
  ascending (r.members.flatMap (·.instruction.accessedSlots))

end Region

end BytecodeRegions
