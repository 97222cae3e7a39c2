import BytecodeRegions.Table.Report

/-!
# Building a table

A method is partitioned in steps, and the first step that fails refuses it.

1. The targets of calls are the *leaders*; each one starts a subroutine.
2. A leader must not be the first instruction and must store a reference, to the slot of the
   subroutine.
3. Every call is attached to the subroutine of its target.
4. Every region gets what is reached from its roots: the leader of a subroutine; the first
   instruction and the entries of the handlers for the top level. No instruction may be reached from
   two regions.
5. The `ret` of every subroutine is settled.
6. No handler may protect an instruction of a subroutine.
7. No chain of calls from the top level may take a slot twice.

## Main definitions

* `Method.leaders`, `Method.topRoots`: where regions start.
* `Method.seeds`: what is reached from each region.
* `Method.entryViolation?`, `Method.sharing?`, `Table.protection?`: the checks of steps 2, 4 and 6.
* `Table.build`: all steps.
* `Table.check`: all steps, with a violation as the verdict on the method.

## Main results

* `Method.mem_reached_iff`: a region gets exactly what can be reached from its roots.
-/

namespace BytecodeRegions

namespace Method

/-- The instruction at a position. -/
def instruction? (m : Method) (p : Nat) : Option (Instruction Link) :=
  m.body.code[p]?

/-- Whether the instruction at `p` calls the subroutine at `leader`. -/
def callsAt (m : Method) (leader p : Nat) : Bool :=
  (m.instruction? p).any fun i => i.isJsr && i.target? == some leader

/-- The positions of the calls of the subroutine at `leader`, in ascending order. -/
def callsOf (m : Method) (leader : Nat) : List Nat :=
  m.body.positions.filter (m.callsAt leader)

/-- The targets of the calls in a method, in ascending order; calls in dead code count. -/
def leaders (m : Method) : List Nat :=
  let targets := m.body.code.toList.filterMap fun i => if i.isJsr then i.target? else none
  m.body.positions.filter targets.contains

/-- The place of the first instruction and the entries of the handlers, as far as they are places of
the method. -/
def topRoots (m : Method) : List Nat :=
  0 :: (m.handlers.filter fun x => m.body.owns x.entry).map (·.entry.position)

/-- The positions that are reached from roots without leaving the region, in ascending order. -/
def reached (m : Method) (roots : List Nat) : List Nat :=
  let found := reach m.body.successors m.body.positions roots
  m.body.positions.filter found.contains

/-- Exactly what can be reached from a root is. -/
theorem mem_reached_iff {m : Method} {roots : List Nat} (hroots : ∀ r ∈ roots, r < m.body.size)
    {p : Nat} : p ∈ m.reached roots ↔ ∃ r ∈ roots, Reaches m.body.successors r p := by
  have hnext : ∀ a ∈ m.body.positions, ∀ b ∈ m.body.successors a, b ∈ m.body.positions :=
    fun _ _ _ hb => List.mem_range.2 (Body.successors_lt hb)
  have hroots' : ∀ r ∈ roots, r ∈ m.body.positions := fun r hr => List.mem_range.2 (hroots r hr)
  simp only [reached, List.mem_filter, List.contains_iff_mem, mem_reach_iff hnext hroots',
    and_iff_right_iff_imp]
  rintro ⟨r, hr, hrp⟩
  exact hrp.closed (fun a b ha hb => hnext a ha b hb) (hroots' r hr)

/-- What is reached from each region: from the top level, then from every leader. -/
def seeds (m : Method) : List Span :=
  ⟨.top, m.reached m.topRoots⟩ :: m.leaders.map fun p => ⟨.sub p, m.reached [p]⟩

/-! ### Step 2: entries -/

/-- Whether a subroutine may start at a place. -/
def startsSubroutine (h : Handle) : Bool :=
  h.position != 0 && h.instruction.storesAddress

/-- The violation of a leader that cannot start a subroutine. -/
def badEntry (m : Method) (h : Handle) : Violation where
  rule := .invalidEntry
  detail :=
    if h.position = 0 then
      "A JSR targets the first instruction '" ++ h.text ++
        "' of the method; the method entry cannot start a subroutine."
    else "JSR target '" ++ h.text ++ "' is not an ASTORE storing the return address."
  method := m.name
  instructions := h.position :: m.callsOf h.position

/-- The places of the leaders. -/
def leaderHandles (m : Method) : List Handle :=
  m.leaders.filterMap m.body.handle?

/-- The violation of the first leader that cannot start a subroutine. -/
def entryViolation? (m : Method) : Option Violation :=
  (m.leaderHandles.find? fun h => !startsSubroutine h).map m.badEntry

/-! ### Step 4: no sharing -/

/-- The lowest position of a span that an earlier span has too, with the region that has it. -/
def overlap? (earlier : List Span) (s : Span) : Option (Nat × RegionRef) :=
  s.positions.findSome? fun p => (ownerIn earlier p).map fun r => (p, r)

/-- A position that is reached from two regions, the earlier one first. -/
structure Sharing where
  /-- The position. -/
  position : Nat
  /-- The earlier region. -/
  first : RegionRef
  /-- The later region. -/
  second : RegionRef
deriving DecidableEq, Repr

/-- The first span that meets an earlier one. -/
def sharingFrom (earlier : List Span) : List Span → Option Sharing
  | [] => none
  | s :: later =>
    match overlap? earlier s with
    | some (p, r) => some ⟨p, r, s.region⟩
    | none => sharingFrom (earlier ++ [s]) later

/-- The first region that reaches what an earlier region reaches. -/
def sharing? (m : Method) : Option Sharing :=
  sharingFrom [] m.seeds

end Method

namespace Table

/-- The subroutine of a leader with its slot. -/
def openSub (h : Handle) : Except Misuse Region :=
  let r : Region := { entry := h, isTop := false }
  match h.instruction.slot with
  | some s => r.setSlot s
  | none => .ok r

/-- The region with calls attached. -/
def attach (m : Method) (r : Region) : Except Misuse Region :=
  ((m.callsOf r.entry.position).filterMap m.body.handle?).foldlM (fun r h => r.addEntering h) r

/-- The region with what a span owns as members. -/
def populate (m : Method) (ps : List Nat) (r : Region) : Except Misuse Region :=
  (ps.filterMap m.body.handle?).foldlM (fun r h => r.addMember false h) r

/-- The violation of an instruction that two regions reach. -/
def sharedViolation (t : Table) (x : Method.Sharing) : Violation :=
  let first := t.region x.first
  let second := t.region x.second
  { rule := .sharedInstruction
    detail := "Instruction '" ++ (t.method.body.handle? x.position).elim "" Handle.text ++
      "' is part of more than one subroutine (or of the top level and a subroutine): " ++
      first.label ++ " and " ++ second.label ++ "."
    method := t.method.name
    instructions := [x.position]
    regions := [first.note, second.note] }

/-- The violation of a handler that protects an instruction of a subroutine. -/
def protectedViolation (t : Table) (x : Handler) (h : Handle) (ref : RegionRef) : Violation where
  rule := .protectedSubroutine
  detail := "Subroutine instruction '" ++ h.text ++ "' is protected by an exception handler, '" ++
    x.text ++ "'. Subroutines must not be protected by exception handlers."
  method := t.method.name
  instructions := [h.position]
  regions := [(t.region ref).note]
  handler := some x

/-- The table after steps 1 to 3: no members yet. -/
def opened (m : Method) (settings : Settings) : Except Fault Table := do
  if let some v := m.entryViolation? then throw (.violation v)
  let subs ← (m.leaderHandles.mapM openSub).mapError .misuse
  let subs ← (subs.mapM (attach m)).mapError .misuse
  return { method := m, settings, isSealed := false, top := { entry := m.first, isTop := true },
           subs, loose := [], spans := [] }

/-- The table with the members of its regions. -/
def partitioned (t : Table) : Except Fault Table := do
  let m := t.method
  if let some x := m.sharing? then throw (.violation (t.sharedViolation x))
  let top ← (populate m (m.reached m.topRoots) t.top).mapError .misuse
  let subs ← (t.subs.mapM fun r => populate m (m.reached [r.entry.position]) r).mapError .misuse
  return { t with top, subs, spans := m.seeds }

/-- The table with the `ret` of every subroutine. -/
def settled (t : Table) : Except Fault Table := do
  let subs ← t.subs.mapM (·.settleRet t.method.name)
  return { t with subs }

/-- The first place that a handler covers and a subroutine owns. -/
def protection? (t : Table) : Option (Handler × Handle × RegionRef) :=
  t.method.handlers.findSome? fun x =>
    x.covered.findSome? fun h =>
      match t.ownerOf h with
      | some (.sub p) => some (x, h, .sub p)
      | _ => none

/-- Refuses a table in which a handler protects a subroutine. -/
def unprotected (t : Table) : Except Fault Unit :=
  match t.protection? with
  | some (x, h, ref) => throw (.violation (t.protectedViolation x h ref))
  | none => return

/-- Builds the table of a method. -/
def build (m : Method) (settings : Settings) : Except Fault Table := do
  let t ← opened m settings
  let t ← t.partitioned
  let t ← t.settled
  t.unprotected
  (Query.checkRecursion .top m.name t).1
  let t := { t with isSealed := true }
  -- the figures of a verbose build are asked for, so what they rest on is remembered
  if settings.verbose then
    match Query.statistics t with
    | (.ok _, t) => return t
    | (.error f, _) => throw f
  else return t

/-- What comes of checking a method. -/
inductive Verdict where
  /-- The method is accepted. -/
  | accepted (t : Table)
  /-- The method breaks a rule. -/
  | rejected (v : Violation)

/-- The table of an accepted method. -/
def Verdict.table? : Verdict → Option Table
  | accepted t => some t
  | rejected _ => none

/-- What is to be said about the method: nothing if it is accepted. -/
def Verdict.diagnostics : Verdict → List Diagnostic
  | accepted _ => []
  | rejected v => [v.diagnostic]

/-- The verdict that the outcome of building a table amounts to; only a violation is a verdict
against the method. -/
def verdict : Except Fault Table → Except Fault Verdict
  | .ok t => .ok (.accepted t)
  | .error (.violation v) => .ok (.rejected v)
  | .error f => .error f

/-- Builds the table of a method, and takes a violation for a verdict. -/
def check (m : Method) (settings : Settings) : Except Fault Verdict :=
  verdict (build m settings)

end Table

end BytecodeRegions
