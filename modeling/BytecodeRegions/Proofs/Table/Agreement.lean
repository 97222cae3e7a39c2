import BytecodeRegions.Proofs.Table.Questions

/-!
# Methods with the same structure

A table is built from little: the positions of calls and leaders, the positions that are reached
from each region, and the *gist* of the instructions there, which leaves out the keys of switches,
operands and targets that are not jumped to. Two methods in which all of this is the same have the
same structure. If both get tables, the tables say the same, position by position and region by
region; places are compared by their positions, since they are places of two bodies.

## Main definitions

* `Method.Twins`, `Method.SamePlace`, `Method.SameHandler`: places and handlers that correspond.
* `Instruction.gist`: what a table is built from in an instruction.
* `Method.outline`: the members of a region by their positions and gists.
* `Method.SameStructure`: two methods have the same structure.
* `Table.Agrees`: two tables say the same.

## Main results

* `Method.SameStructure.outline_eq`, `Method.SameStructure.callGraph_eq`: regions have the same
  members, and calls go the same ways.
* `Table.FullyBuilt.agrees`: the tables of methods with the same structure say the same.
-/

namespace BytecodeRegions

/-! ### Gists -/

/-- What a table is built from in an instruction, and how the instruction is written. -/
structure Instruction.Gist where
  /-- What is done. -/
  opcode : Opcode
  /-- The local slot that is accessed. -/
  slot : Option Nat
  /-- The position that is jumped to. -/
  target : Option Nat
  /-- The positions of the cases of a switch. -/
  cases : List Nat
  /-- The instruction in one line. -/
  line : String

namespace Instruction

/-- The gist of an instruction; what is not jumped to does not count as a target. -/
def gist (i : Instruction Link) : Gist where
  opcode := i.opcode
  slot := i.slot
  target := if i.opcode.hasTarget then i.target? else none
  cases := i.casePositions
  line := i.line

namespace Gist

/-- Whether an instruction with the gist returns from a subroutine. -/
def isRet (g : Gist) : Bool :=
  g.opcode.kind == .ret

/-- The position of the subroutine that an instruction with the gist calls. -/
def callee? (g : Gist) : Option Nat :=
  if g.opcode.kind == .jsr then g.target else none

/-- The local slots that an instruction with the gist reads or writes. -/
def accessedSlots (g : Gist) : List Nat :=
  match g.slot with
  | none => []
  | some s => if g.opcode.width = 2 then [s, s + 1] else [s]

end Gist

variable {i : Instruction Link}

theorem callee?_gist (i : Instruction Link) :
    i.gist.callee? = if i.isJsr then i.target? else none := by
  by_cases hjsr : i.opcode.kind = .jsr
  · have htarget : i.opcode.hasTarget = true := by simp [Opcode.hasTarget, hjsr, Kind.hasTarget]
    simp [Gist.callee?, gist, isJsr, kind, hjsr, htarget]
  · simp [Gist.callee?, gist, isJsr, kind, hjsr]

end Instruction

/-- What is at a position, read through the place there or directly. -/
theorem Body.map_handle? {α : Type} (b : Body) (p : Nat) (f : Instruction Link → α) :
    (b.handle? p).map (fun h => (h.position, f h.instruction)) =
      b.code[p]?.map fun i => (p, f i) := by
  rcases Nat.lt_or_ge p b.size with hp | hp
  · have hcode : b.code[p]? = some b.code[p] := Array.getElem?_eq_getElem hp
    rw [handle?_of_lt hp, hcode]
    rfl
  · have hnone : b.code[p]? = none := Array.getElem?_eq_none hp
    rw [handle?, dif_neg (Nat.not_lt.2 hp), hnone]
    rfl

namespace Method

variable {m m' : Method} {r : RegionRef} {h h' l : Handle} {p : Nat}

/-! ### Places that correspond -/

/-- Places of two methods stand at one position, and both are places of their method or neither
is. -/
structure SamePlace (m m' : Method) (h h' : Handle) : Prop where
  position : h'.position = h.position
  own : h'.body = m'.body ↔ h.body = m.body

/-- Places of two methods at one position. -/
structure Twins (m m' : Method) (h h' : Handle) : Prop where
  left : h.body = m.body
  right : h'.body = m'.body
  position : h'.position = h.position

/-- Handlers of two methods have the same places. What they catch does not matter. -/
structure SameHandler (m m' : Method) (x x' : Handler) : Prop where
  start : m.SamePlace m' x.start x'.start
  stop : m.SamePlace m' x.stop x'.stop
  entry : m.SamePlace m' x.entry x'.entry

/-- Handlers that correspond have their entries at the same positions. -/
theorem map_position_entries {xs xs' : List Handler}
    (hxs : List.Forall₂ (m.SameHandler m') xs xs') :
    (xs'.filter fun x => m'.body.owns x.entry).map (·.entry.position) =
      (xs.filter fun x => m.body.owns x.entry).map (·.entry.position) := by
  induction hxs with
  | nil => rfl
  | @cons x x' xs xs' hx _ ih =>
    have howns : m'.body.owns x'.entry = m.body.owns x.entry := by
      rw [Bool.eq_iff_iff, Body.owns_iff, Body.owns_iff]
      exact hx.entry.own
    rw [List.filter_cons, List.filter_cons, howns]
    split
    · rw [List.map_cons, List.map_cons, hx.entry.position, ih]
    · exact ih

/-! ### Outlines -/

/-- The members of a region by their positions and gists. -/
def outline (m : Method) (r : RegionRef) : List (Nat × Instruction.Gist) :=
  (m.membersOf r).map fun h => (h.position, h.instruction.gist)

theorem outline_eq (m : Method) (r : RegionRef) : m.outline r =
    (m.reachedFrom r).filterMap fun p => (m.instruction? p).map fun i => (p, i.gist) := by
  rw [outline, membersOf, List.map_filterMap]
  exact List.filterMap_congr fun p _ => m.body.map_handle? p Instruction.gist

private theorem map_position_targets (hs : List Handle) :
    ((hs.filter (·.instruction.isJsr)).filterMap Handle.target?).map Handle.position =
      hs.filterMap fun h => h.instruction.gist.callee? := by
  induction hs with
  | nil => rfl
  | cons h hs ih =>
    cases hjsr : h.instruction.isJsr with
    | false =>
      have hcallee : h.instruction.gist.callee? = none := by
        rw [Instruction.callee?_gist, hjsr]
        rfl
      rw [List.filter_cons_of_neg (by rw [hjsr]; exact Bool.false_ne_true), ih]
      simp only [List.filterMap_cons, hcallee]
    | true =>
      obtain ⟨l, hl⟩ := Handle.exists_target?_of_isJsr hjsr
      have hcallee : h.instruction.gist.callee? = some l.position := by
        rw [Instruction.callee?_gist, hjsr]
        exact (Handle.target?_eq_some_iff.1 hl).2
      rw [List.filter_cons_of_pos (by rw [hjsr]), List.filterMap_cons_some hl, List.map_cons, ih]
      simp only [List.filterMap_cons, hcallee]

/-- The callees of a region, by its outline. -/
theorem calleesFrom_eq_outline (m : Method) (r : RegionRef) :
    m.calleesFrom r = Region.ascending ((m.outline r).filterMap fun x => x.2.callee?) := by
  rw [calleesFrom, map_position_targets, outline, List.filterMap_map]
  rfl

/-- The `ret` instructions of a subroutine, by its outline. -/
theorem map_retsList (m : Method) (l : Handle) :
    (m.retsList l).map (fun h => (h.position, h.instruction.gist)) =
      (m.outline (.sub l.position)).filter fun x => x.2.isRet := by
  rw [retsList, outline, List.filter_map]
  rfl

/-- Two methods have the same calls, reach the same positions from each region, and have
instructions of the same gist there. -/
structure SameStructure (m m' : Method) : Prop where
  size : m'.body.size = m.body.size
  leaders : m'.leaders = m.leaders
  calls : ∀ p, m'.callsOf p = m.callsOf p
  reached : ∀ r, m.IsRegion r → m'.reachedFrom r = m.reachedFrom r
  gists : ∀ r, m.IsRegion r → ∀ p ∈ m.reachedFrom r,
    (m'.instruction? p).map Instruction.gist = (m.instruction? p).map Instruction.gist

namespace SameStructure

theorem exists_twins' (hm : m.SameStructure m') (hh : h.body = m.body) : ∃ h', Twins m m' h h' :=
  ⟨⟨m'.body, h.position, hm.size.symm ▸ Handle.position_lt hh⟩, hh, rfl, rfl⟩

variable (hm : m.SameStructure m')

include hm

theorem isRegion_iff : m'.IsRegion r ↔ m.IsRegion r := by
  rw [← mem_regionRefs_iff, ← mem_regionRefs_iff, regionRefs, regionRefs, hm.leaders]

theorem seeds_eq : m'.seeds = m.seeds := by
  rw [Method.seeds_eq, Method.seeds_eq, regionRefs, regionRefs, hm.leaders]
  refine List.map_congr_left fun r hr => ?_
  rw [spanOf, spanOf, hm.reached r (mem_regionRefs_iff.1 hr)]

theorem isLeader_iff {l' : Handle} (hl : Twins m m' l l') : m'.IsLeader l' ↔ m.IsLeader l := by
  rw [← mem_leaderHandles_iff, ← mem_leaderHandles_iff, leaderHandles, leaderHandles,
    Body.mem_filterMap_handle?_iff, Body.mem_filterMap_handle?_iff, and_iff_right hl.left,
    and_iff_right hl.right, hl.position, hm.leaders]

/-- Corresponding regions have the same outline. -/
theorem outline_eq (hr : m.IsRegion r) : m'.outline r = m.outline r := by
  rw [Method.outline_eq, Method.outline_eq, hm.reached r hr]
  refine List.filterMap_congr fun p hp => ?_
  have hgist := congrArg (Option.map (Prod.mk p)) (hm.gists r hr p hp)
  rwa [Option.map_map, Option.map_map] at hgist

/-- What corresponds has the same gist where a region reaches it. -/
theorem gist_eq (hr : m.IsRegion r) (hh : Twins m m' h h') (hmem : h ∈ m.extent r) :
    h'.instruction.gist = h.instruction.gist := by
  have hp : h.position ∈ m.reachedFrom r := (mem_reachedFrom_iff hr hh.left).2 hmem
  have hsame := hm.gists r hr h.position hp
  rw [instruction?, instruction?, ← hh.position, Handle.getElem?_position hh.right, hh.position,
    Handle.getElem?_position hh.left] at hsame
  exact Option.some.inj hsame

theorem calleesFrom_eq (hr : m.IsRegion r) : m'.calleesFrom r = m.calleesFrom r := by
  rw [calleesFrom_eq_outline, calleesFrom_eq_outline, hm.outline_eq hr]

theorem callGraph_eq (hr : m.IsRegion r) : m'.callGraph r = m.callGraph r := by
  have hsubs : m'.leaders.map (fun p => (p, m'.calleesFrom (.sub p))) =
      m.leaders.map fun p => (p, m.calleesFrom (.sub p)) := by
    rw [hm.leaders]
    refine List.map_congr_left fun p hp => ?_
    rw [hm.calleesFrom_eq (r := .sub p) (mem_leaders_iff.1 hp)]
  rw [callGraph, callGraph, hm.calleesFrom_eq hr, hsubs]

end SameStructure

end Method

/-! ### Two tables -/

namespace Table

variable {m m' : Method} {t t' : Table} {r : RegionRef} {l : Handle}

/-- Two tables say the same, position by position and region by region. Places are compared by
their positions, since they are places of two bodies. -/
structure Agrees (t t' : Table) : Prop where
  leaders : t'.leaders = t.leaders
  owner : ∀ p, (t'.method.body.handle? p).bind t'.ownerOf = (t.method.body.handle? p).bind t.ownerOf
  slot : ∀ r ∈ t.regions, (t'.region r).slot = (t.region r).slot
  entering : ∀ r ∈ t.regions, (t'.region r).entering.map (·.map Handle.position) =
    (t.region r).entering.map (·.map Handle.position)
  leavingRet : ∀ r ∈ t.regions, (t'.region r).leavingRet.map Handle.position =
    (t.region r).leavingRet.map Handle.position
  accessed : ∀ r ∈ t.regions, (Query.accessed r t').1 = (Query.accessed r t).1
  recursive : ∀ r ∈ t.regions, (Query.recursive r t').1 = (Query.recursive r t).1
  callees : ∀ r ∈ t.regions, (Query.callees r t').1 = (Query.callees r t).1
  depth : ∀ r ∈ t.regions, (Query.depth r t').1 = (Query.depth r t).1

namespace FullyBuilt

/-- The slots of a region, by its outline. -/
theorem accessedSlots_eq (ht : t.FullyBuilt m) (hr : m.IsRegion r) : (t.region r).accessedSlots =
    Region.ascending ((m.outline r).flatMap fun x => x.2.accessedSlots) := by
  rw [Region.accessedSlots, ht.members_eq hr, Method.outline, List.flatMap_map]
  rfl

theorem bind_ownerOf (ht : t.FullyBuilt m) (p : Nat) :
    (m.body.handle? p).bind t.ownerOf = if p < m.body.size then ownerIn m.seeds p else none := by
  split
  · next hp =>
    have howns : t.method.body.owns ⟨m.body, p, hp⟩ = true :=
      Body.owns_iff.2 (congrArg Method.body ht.method_eq).symm
    rw [Body.handle?_of_lt hp, Option.bind_some, ownerOf, if_pos howns, ht.spans_eq]
  · next hp => rw [Body.handle?, dif_neg hp, Option.bind_none]

theorem region_top (ht : t.FullyBuilt m) : (t.region .top).slot = none ∧
    (t.region .top).entering = .error .topEntering ∧
    (t.region .top).leavingRet = .error .topRet := by
  have htop : (t.region .top).isTop = true := (ht.isTop_iff m.isRegion_top).2 rfl
  refine ⟨congrArg Region.slot (ht.forget_region_eq .top), ?_, ?_⟩
  · rw [Region.entering, if_pos htop]
  · rw [Region.leavingRet, if_pos htop]

theorem entering_sub (ht : t.FullyBuilt m) (hl : m.IsLeader l) :
    (t.region (.sub l.position)).entering.map (·.map Handle.position) =
      .ok (m.callsOf l.position) := by
  rw [ht.entering_eq hl, Method.callersList]
  exact congrArg Except.ok (Body.map_position_filterMap_handle? Method.callsOf_lt)

/-- The position of the `ret` of a subroutine, by its outline. -/
theorem leavingRet_sub (ht : t.FullyBuilt m) (hl : m.IsLeader l) :
    (t.region (.sub l.position)).leavingRet.map Handle.position =
      ((m.outline (.sub l.position)).filter fun x => x.2.isRet).head?.elim
        (.error .retUnsettled) fun x => .ok x.1 := by
  have hret : (t.region (.sub l.position)).ret = (m.retsList l).head? :=
    congrArg Region.ret (ht.region_sub hl)
  rw [Region.leavingRet, ht.isTop_sub hl, hret, ← Method.map_retsList, List.head?_map]
  cases (m.retsList l).head? with
  | none => rfl
  | some ret => rfl

/-- The slot of a region, the calls that enter it and the `ret` that leaves it stay the same. -/
theorem bounds_eq (ht : t.FullyBuilt m) (ht' : t'.FullyBuilt m') (hm : m.SameStructure m')
    (hr : m.IsRegion r) :
    (t'.region r).slot = (t.region r).slot ∧
      (t'.region r).entering.map (·.map Handle.position) =
        (t.region r).entering.map (·.map Handle.position) ∧
      (t'.region r).leavingRet.map Handle.position =
        (t.region r).leavingRet.map Handle.position := by
  cases r with
  | top =>
    obtain ⟨hslot, hentering, hret⟩ := ht.region_top
    obtain ⟨hslot', hentering', hret'⟩ := ht'.region_top
    rw [hslot, hslot', hentering, hentering', hret, hret']
    exact ⟨rfl, rfl, rfl⟩
  | sub p =>
    obtain ⟨l, hl, rfl⟩ := hr
    obtain ⟨l', hll'⟩ := hm.exists_twins' hl.body_eq
    have hl' : m'.IsLeader l' := (hm.isLeader_iff hll').2 hl
    have hsame : l'.instruction.slot = l.instruction.slot := congrArg Instruction.Gist.slot
      (hm.gist_eq hl.isRegion hll' (Method.leader_mem_extent hl.body_eq))
    have hslot : (t.region (.sub l.position)).slot = l.instruction.slot.map Int.ofNat :=
      congrArg Region.slot (ht.region_sub hl)
    have hslot' : (t'.region (.sub l'.position)).slot = l'.instruction.slot.map Int.ofNat :=
      congrArg Region.slot (ht'.region_sub hl')
    rw [← hll'.position, ht'.entering_sub hl', ht'.leavingRet_sub hl', hslot', hsame,
      hll'.position, ht.entering_sub hl, ht.leavingRet_sub hl, hslot, hm.calls,
      hm.outline_eq hl.isRegion]
    exact ⟨rfl, rfl, rfl⟩
  | loose i => exact hr.elim

/-- The tables of methods with the same structure say the same. -/
theorem agrees (ht : t.FullyBuilt m) (ht' : t'.FullyBuilt m') (hm : m.SameStructure m') :
    t.Agrees t' := by
  have hregion {r : RegionRef} (hr : r ∈ t.regions) : m.IsRegion r := ht.mem_regions_iff.1 hr
  have hregion' {r : RegionRef} (hr : m.IsRegion r) : m'.IsRegion r := hm.isRegion_iff.2 hr
  have hslots {r : RegionRef} (hr : m.IsRegion r) :
      (t'.region r).accessedSlots = (t.region r).accessedSlots := by
    rw [ht.accessedSlots_eq hr, ht'.accessedSlots_eq (hregion' hr), hm.outline_eq hr]
  constructor
  case leaders => rw [ht.leaders_eq, ht'.leaders_eq, hm.leaders]
  case owner =>
    intro p
    rw [ht.method_eq, ht'.method_eq, ht.bind_ownerOf, ht'.bind_ownerOf, hm.size, hm.seeds_eq]
  case slot => exact fun r hr => (ht.bounds_eq ht' hm (hregion hr)).1
  case entering => exact fun r hr => (ht.bounds_eq ht' hm (hregion hr)).2.1
  case leavingRet => exact fun r hr => (ht.bounds_eq ht' hm (hregion hr)).2.2
  case accessed =>
    intro r hr
    rw [(Query.yields_accessed ht.coherent r).fst, (Query.yields_accessed ht'.coherent r).fst,
      ht.accessedOf_eq (hregion hr), ht'.accessedOf_eq (hregion' (hregion hr)), hslots (hregion hr)]
  case recursive =>
    intro r hr
    have hcalled : (m.callGraph r).reachable.map (fun p => (t'.region (.sub p)).accessedSlots) =
        (m.callGraph r).reachable.map fun p => (t.region (.sub p)).accessedSlots :=
      List.map_congr_left fun p hp => hslots (Method.isRegion_of_mem_reachable (hregion hr) hp)
    rw [(Query.yields_recursive ht.coherent r).fst, (Query.yields_recursive ht'.coherent r).fst,
      ht.recursiveOf_eq (hregion hr), ht'.recursiveOf_eq (hregion' (hregion hr)),
      hm.callGraph_eq (hregion hr), hslots (hregion hr), hcalled]
  case callees =>
    intro r hr
    rw [(ht.yields_callees (hregion hr)).fst, (ht'.yields_callees (hregion' (hregion hr))).fst,
      hm.calleesFrom_eq (hregion hr)]
  case depth =>
    intro r hr
    rw [(Query.yields_depth ht.coherent r).fst, (Query.yields_depth ht'.coherent r).fst,
      ht.depthOf_eq (hregion hr), ht'.depthOf_eq (hregion' (hregion hr)),
      hm.callGraph_eq (hregion hr)]

end FullyBuilt

end Table

end BytecodeRegions
