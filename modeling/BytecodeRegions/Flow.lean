import BytecodeRegions.Body

/-!
# Flow inside a region

Which instructions may run right after an instruction without leaving its region. A call of a
subroutine goes on at the place it returns to, since the subroutine is a region of its own, and what
leaves a subroutine, the method or the region by an exception has no successor. Flow off the end of
the body has no successor either.

## Main definitions

* `Body.successors`: the positions that may follow a position.
* `Handle.successors`: the same for places.

## Main results

* `Body.successors_lt`: successors are positions of the body.
-/

namespace BytecodeRegions

namespace Body

/-- The position right after, unless the body ends. -/
def following (b : Body) (p : Nat) : List Nat :=
  if p + 1 < b.size then [p + 1] else []

/-- The positions that may follow the instruction `i` at `p`. A switch names its default before its
cases, and what is named twice is kept twice. -/
def successorsOf (b : Body) (p : Nat) (i : Instruction Link) : List Nat :=
  match i.kind with
  | .ret | .methodReturn | .athrow => []
  | .goto => i.target?.toList
  | .switch => i.target?.toList ++ i.casePositions
  | .branch => b.following p ++ i.target?.toList
  | .jsr | .load | .store | .iinc | .other => b.following p

/-- The positions that may follow a position without leaving its region. -/
def successors (b : Body) (p : Nat) : List Nat :=
  b.code[p]?.elim [] (b.successorsOf p)

private theorem target?_lt {b : Body} {i : Instruction Link} (hi : i ∈ b.code)
    (hop : i.opcode.hasTarget = true) {q : Nat} (hq : q ∈ i.target?.toList) : q < b.size := by
  obtain ⟨t, ht, p, hp, rfl⟩ := (b.jumps i hi hop).1
  simp only [Option.mem_def] at ht
  simp only [Instruction.target?, ht, Option.bind_some, Link.position?, Option.toList_some,
    List.mem_singleton] at hq
  exact hq ▸ hp

private theorem casePositions_lt {b : Body} {i : Instruction Link} (hi : i ∈ b.code)
    (hop : i.opcode.hasTarget = true) {q : Nat} (hq : q ∈ i.casePositions) : q < b.size := by
  obtain ⟨t, ht, hq⟩ := List.mem_filterMap.1 hq
  obtain ⟨p, hp, rfl⟩ := (b.jumps i hi hop).2 t ht
  cases hq
  exact hp

private theorem following_lt {b : Body} {p q : Nat} (hq : q ∈ b.following p) : q < b.size := by
  simp only [following] at hq
  split at hq
  · next h => exact List.mem_singleton.1 hq ▸ h
  · cases hq

/-- Successors are positions of the body. -/
theorem successors_lt {b : Body} {p q : Nat} (hq : q ∈ b.successors p) : q < b.size := by
  cases hp : b.code[p]? with
  | none => simp [successors, hp] at hq
  | some i =>
    have hi : i ∈ b.code := Array.mem_of_getElem? hp
    simp only [successors, hp, Option.elim_some, successorsOf] at hq
    have hop : i.kind.hasTarget = true → i.opcode.hasTarget = true := id
    cases hk : i.kind <;> simp only [hk, List.mem_append, List.not_mem_nil] at hq hop
    case goto => exact target?_lt hi (hop rfl) hq
    case switch => exact hq.elim (target?_lt hi (hop rfl)) (casePositions_lt hi (hop rfl))
    case branch => exact hq.elim following_lt (target?_lt hi (hop rfl))
    all_goals exact following_lt hq

end Body

/-- The places that may follow a place without leaving its region. -/
def Handle.successors (h : Handle) : List Handle :=
  (h.body.successors h.position).filterMap h.body.handle?

end BytecodeRegions
