import BytecodeRegions.Instruction

/-!
# Bodies and handles

A *body* is a list of instructions in which every jump has a place to go: each target of an
instruction that jumps is a position of the body. A *handle* is one place of one body. Two bodies
with the same instructions are still two bodies: each carries a stamp of its own, and a handle of
one is no handle of the other.

A body is put together from instructions whose targets are numbers or handles. Numbers become
positions of the new body, and a handle of other code is refused.

## Main definitions

* `Link`: a target inside a body, bound to a position or left as a number.
* `Body`, `Handle`: instructions with bound jumps, and a place among them.
* `Target`: a target before the body is there.
* `Body.LinkError`, `Body.ofInstructions`: putting a body together.
* `Body.dump`: the body line by line.
-/

namespace BytecodeRegions

/-- A target inside a body. Instructions that jump have bound targets; on any other instruction a
target has no meaning and stays what it was. -/
inductive Link where
  /-- A number that was never looked up. -/
  | free (p : Int)
  /-- A position. -/
  | bound (p : Nat)
deriving DecidableEq, Repr

namespace Link

/-- The target as written. -/
def text : Link → String
  | free p => Text.decimal p
  | bound p => Text.decimalNat p

/-- The position a target is bound to. -/
def position? : Link → Option Nat
  | free _ => none
  | bound p => some p

/-- Whether the target is bound to a position before `n`. -/
def IsBelow (n : Nat) (l : Link) : Prop :=
  ∃ p < n, l = .bound p

/-- Whether a target is bound below a bound can be decided. -/
instance (n : Nat) : (l : Link) → Decidable (l.IsBelow n)
  | free p => isFalse (by simp [IsBelow])
  | bound p => decidable_of_iff (p < n) (by simp [IsBelow])

end Link

namespace Instruction

/-- The instruction in one line, inside a body. -/
def line (i : Instruction Link) : String :=
  i.text Link.text

/-- The position the instruction jumps to. -/
def target? (i : Instruction Link) : Option Nat :=
  i.target.bind Link.position?

/-- The positions of the cases of a switch. -/
def casePositions (i : Instruction Link) : List Nat :=
  i.caseTargets.filterMap Link.position?

/-- Every jump of the instruction goes to a position before `n`. -/
def JumpsBelow (n : Nat) (i : Instruction Link) : Prop :=
  i.opcode.hasTarget = true → (∃ t ∈ i.target, t.IsBelow n) ∧ ∀ t ∈ i.caseTargets, t.IsBelow n

/-- Whether every jump goes below a bound can be decided. -/
instance (n : Nat) (i : Instruction Link) : Decidable (i.JumpsBelow n) :=
  inferInstanceAs (Decidable (_ → _ ∧ _))

end Instruction

/-- Instructions in which every jump has a place to go. -/
structure Body where
  /-- What tells the body from any other. -/
  stamp : Nat
  /-- The instructions by position. -/
  code : Array (Instruction Link)
  /-- Every jump goes to a position of the body. -/
  jumps : ∀ i ∈ code, i.JumpsBelow code.size
deriving DecidableEq

namespace Body

/-- The number of instructions. -/
def size (b : Body) : Nat :=
  b.code.size

/-- The positions from first to last. -/
def positions (b : Body) : List Nat :=
  List.range b.size

/-- The line of a body for its position `p`. -/
def lineAt (p : Nat) (i : Instruction Link) : String :=
  Text.decimalNat p ++ ": " ++ i.line

/-- The body line by line. -/
def dump (b : Body) : String :=
  "\n".intercalate (b.code.toList.zipIdx.map fun (i, p) => lineAt p i)

/-- The word for a body. -/
def render (b : Body) : String :=
  "InstructionList(" ++ Text.decimalNat b.size ++ " instructions)"

end Body

/-- A place of a body. -/
structure Handle where
  /-- The body. -/
  body : Body
  /-- The position in it. -/
  position : Nat
  /-- The position is one of the body's. -/
  inside : position < body.size

namespace Handle

/-- Two handles are equal when they are the same place of the same body. -/
instance : DecidableEq Handle := fun a b =>
  if hp : a.position = b.position then
    if hb : a.body = b.body then isTrue (by cases a; cases b; simp_all)
    else isFalse (fun h => hb (h ▸ rfl))
  else isFalse (fun h => hp (h ▸ rfl))

/-- The instruction at the place. -/
def instruction (h : Handle) : Instruction Link :=
  h.body.code[(⟨h.position, h.inside⟩ : Fin h.body.code.size)]

/-- The place as a line: its position and its instruction. -/
def text (h : Handle) : String :=
  Body.lineAt h.position h.instruction

/-- The word for a place. -/
def render (h : Handle) : String :=
  "InstructionHandle(" ++ h.text ++ ")"

end Handle

namespace Body

/-- The place at a position. -/
def handle? (b : Body) (p : Nat) : Option Handle :=
  if h : p < b.size then some ⟨b, p, h⟩ else none

/-- The places from first to last. -/
def handles (b : Body) : List Handle :=
  b.positions.filterMap b.handle?

/-- Whether a handle is a place of this body. -/
def owns (b : Body) (h : Handle) : Bool :=
  h.body = b

end Body

namespace Handle

/-- The place right after. -/
def next? (h : Handle) : Option Handle :=
  h.body.handle? (h.position + 1)

/-- The place right before. -/
def prev? (h : Handle) : Option Handle :=
  if h.position = 0 then none else h.body.handle? (h.position - 1)

/-- The place jumped to. -/
def target? (h : Handle) : Option Handle :=
  h.instruction.target?.bind h.body.handle?

end Handle

/-- A target before the body is there. -/
inductive Target where
  /-- A position of the body to be. -/
  | position (p : Int)
  /-- A place of other code. -/
  | handle (h : Handle)
  /-- No place at all, for a case of a switch that is left open. -/
  | absent
deriving DecidableEq

namespace Target

/-- The target as written. -/
def text : Target → String
  | position p => Text.decimal p
  | handle h => Text.decimalNat h.position
  | absent => "None"

/-- The target of an instruction that does not jump, kept as it is. -/
def keep : Target → Link
  | position p => .free p
  | handle h => .bound h.position
  | absent => .free 0

/-- The target of a jump in a body: a number is now a position. -/
def link : Target → Link
  | position p => .bound p.toNat
  | handle h => .bound h.position
  | absent => .free 0

end Target

namespace Body

/-- Why instructions do not make a body. -/
inductive LinkError where
  /-- The target of the instruction at `owner` is a place of other code. -/
  | foreign (owner : Nat) (h : Handle)
  /-- The instruction at `owner` jumps and has no target. -/
  | missing (owner : Nat) (op : Opcode)
  /-- The target of the instruction at `owner` is outside a body of `size` instructions. -/
  | outside (owner : Nat) (p : Int) (size : Nat)

/-- The wording of the reason. -/
def LinkError.message : LinkError → String
  | foreign owner h =>
    "instruction " ++ Text.decimalNat owner ++ " targets a handle of another instruction list (" ++
      h.text ++ ")"
  | missing owner op =>
    "instruction " ++ Text.decimalNat owner ++ " (" ++ op.name ++ ") has no target"
  | outside owner p size =>
    "instruction " ++ Text.decimalNat owner ++ " targets position " ++ Text.decimal p ++
      ", outside 0.." ++ Text.decimal ((size : Int) - 1)

/-- What is wrong with a target of the instruction at `owner`, which has the opcode `op`, in a body
of `n` instructions. -/
def targetError? (n owner : Nat) (op : Opcode) : Target → Option LinkError
  | .handle h => some (.foreign owner h)
  | .absent => some (.missing owner op)
  | .position p => if 0 ≤ p ∧ p < n then none else some (.outside owner p n)

/-- The first thing wrong with the targets of the instruction at `owner`: its target comes before
its cases. -/
def instructionError? (n owner : Nat) (i : Instruction Target) : Option LinkError :=
  if i.opcode.hasTarget then
    match i.target with
    | none => some (.missing owner i.opcode)
    | some t => (t :: i.caseTargets).findSome? (targetError? n owner i.opcode)
  else none

/-- The first thing wrong with the targets of a list of instructions. -/
def linkError? (is : List (Instruction Target)) : Option LinkError :=
  is.zipIdx.findSome? fun (i, owner) => instructionError? is.length owner i

/-- The instruction with its targets bound if it jumps, and kept if it does not. -/
def linked (i : Instruction Target) : Instruction Link :=
  if i.opcode.hasTarget then i.map Target.link else i.map Target.keep

private theorem isBelow_link {n owner : Nat} {op : Opcode} {t : Target}
    (h : targetError? n owner op t = none) : t.link.IsBelow n := by
  cases t with
  | absent => simp [targetError?] at h
  | handle h' => simp [targetError?] at h
  | position p =>
    have hp : 0 ≤ p ∧ p < n := by simpa [targetError?] using h
    exact ⟨p.toNat, by omega, rfl⟩

private theorem jumpsBelow_linked {n owner : Nat} {i : Instruction Target}
    (h : instructionError? n owner i = none) : (linked i).JumpsBelow n := by
  intro hop
  have hop' : i.opcode.hasTarget = true := by
    simp only [linked] at hop
    split at hop <;> exact hop
  simp only [instructionError?, hop', if_true] at h
  simp only [linked, hop', if_true, Instruction.map]
  cases ht : i.target with
  | none => simp [ht] at h
  | some t =>
    simp only [ht, List.findSome?_eq_none_iff, List.mem_cons, forall_eq_or_imp] at h
    refine ⟨⟨t.link, rfl, isBelow_link h.1⟩, fun l hl => ?_⟩
    obtain ⟨t', ht', rfl⟩ := List.mem_map.1 hl
    exact isBelow_link (h.2 t' ht')

private theorem jumps_of_linkError? {is : List (Instruction Target)} (h : linkError? is = none) :
    ∀ i ∈ (is.map linked).toArray, i.JumpsBelow (is.map linked).toArray.size := by
  intro i hi
  obtain ⟨j, hj, rfl⟩ := List.mem_map.1 (List.mem_toArray.1 hi)
  obtain ⟨p, hp, rfl⟩ := List.mem_iff_getElem.1 hj
  have hmem : (is[p], p) ∈ is.zipIdx := by
    simp [List.mem_zipIdx_iff_getElem?, List.getElem?_eq_getElem hp]
  have := jumpsBelow_linked (List.findSome?_eq_none_iff.1 h _ hmem)
  simpa using this

/-- Puts a body together; of several wrong targets the first is named. -/
def ofInstructions (stamp : Nat) (is : List (Instruction Target)) : Except LinkError Body :=
  match h : linkError? is with
  | some e => .error e
  | none => .ok ⟨stamp, (is.map linked).toArray, jumps_of_linkError? h⟩

/-- The instructions of a body as a body of their own. Their jumps are bound to places of the first
body, so code that jumps is refused at its first jump. -/
def relisted (stamp : Nat) (b : Body) : Except LinkError Body :=
  match b.handles.find? (·.instruction.opcode.hasTarget) with
  | none => .ok { b with stamp }
  | some h =>
    .error (h.target?.elim (.missing h.position h.instruction.opcode) (.foreign h.position))

end Body

end BytecodeRegions
