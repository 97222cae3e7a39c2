import BytecodeRegions.Table.Build

/-!
# Log records

What putting listings together, building tables and asking them leaves in the log. A record has the
part of the library it comes from, a level and a text; records below level one are dropped.

## Main definitions

* `LogRecord`: a record.
* `LogRecord.assembled`, `LogRecord.ofBuild`, …: the records of each activity.
-/

namespace BytecodeRegions

/-- The part of the library that a record comes from. -/
inductive LogSource where
  /-- Putting listings together. -/
  | listing
  /-- Tables of regions. -/
  | subroutines
  /-- The check for recursive calls. -/
  | recursion
deriving DecidableEq, Repr

/-- The word for a source. -/
def LogSource.name : LogSource → String
  | listing => "listing"
  | subroutines => "subroutines"
  | recursion => "recursion"

/-- A record of the log. -/
structure LogRecord where
  /-- Where it comes from. -/
  source : LogSource
  /-- How grave it is. -/
  level : Int
  /-- What it says. -/
  text : String
deriving DecidableEq, Repr

namespace LogRecord

/-- The level of details. -/
def debug : Int := 10

/-- The level of information. -/
def info : Int := 20

/-- The record, unless its level is too low. -/
def emitted (r : LogRecord) : List LogRecord :=
  if 1 ≤ r.level then [r] else []

/-- A listing was put together. -/
def assembled (m : Method) : LogRecord :=
  ⟨.listing, debug, "assembled " ++ m.name ++ ": " ++ Text.decimalNat m.body.size ++
    " instructions, " ++ Text.decimalNat m.handlers.length ++ " handlers"⟩

/-- The leaders of a method were found. -/
def leaders (m : Method) : LogRecord :=
  ⟨.subroutines, debug, m.name ++ ": subroutine leaders at " ++ Text.numberList m.leaders⟩

/-- A region got its members. -/
def holds (m : Method) (s : Span) : LogRecord :=
  let label :=
    match s.region with
    | .sub p => "sub@" ++ Text.decimalNat p
    | _ => "top-level"
  ⟨.subroutines, debug, m.name ++ ": " ++ label ++ " holds " ++
    Text.decimalNat s.positions.length ++ " instruction(s)"⟩

/-- No chain of calls takes a slot twice. -/
def noRecursion (method : String) : LogRecord :=
  ⟨.recursion, debug, "no recursive subroutine calls in " ++ methodOrDefault method⟩

/-- The figures of a verbose build. -/
def figures (t : Table) : LogRecord :=
  ⟨.subroutines, info, t.method.name ++ ": " ++ Text.decimalNat t.subs.length ++
    " subroutine(s), " ++ Text.decimalNat t.ownedCount ++ " reachable / " ++
    Text.decimalNat (t.method.body.size - t.ownedCount) ++ " dead instruction(s)"⟩

/-- A method was refused. -/
def rejected (m : Method) (v : Violation) : LogRecord :=
  ⟨.subroutines, debug, m.name ++ " rejected: " ++ v.message⟩

/-- A place in dead code was asked for. -/
def deadCode (t : Table) (h : Handle) : LogRecord :=
  ⟨.subroutines, t.settings.deadCodeLevel, t.method.name ++ ": instruction '" ++ h.text ++
    "' lies in dead code"⟩

/-- The spans in front of the first one that meets an earlier one. -/
def heldSpans (earlier : List Span) : List Span → List Span
  | [] => []
  | s :: later =>
    if (Method.overlap? earlier s).isSome then [] else s :: heldSpans (earlier ++ [s]) later

/-- What building the table of a method leaves in the log, whatever came of it. -/
def ofBuild (m : Method) (result : Except Fault Table) : List LogRecord :=
  leaders m ::
    if m.entryViolation?.isSome then []
    else (heldSpans [] m.seeds).map (holds m) ++
      match result with
      | .error _ => []
      | .ok t => noRecursion m.name :: if t.settings.verbose then [figures t] else []

end LogRecord

end BytecodeRegions
