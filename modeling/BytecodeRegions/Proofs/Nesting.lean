import BytecodeRegions.Proofs.Acceptance
import BytecodeRegions.Proofs.Table.Questions
import Mathlib.Data.Finset.Card

/-!
# Nesting depth

The nesting depth of a region is the length of the longest chain of calls that starts there, counted
along the calls that the table itself answers with. There is no such length exactly where a circle
of calls can be reached. The depth is found by peeling layers off the call graph, and it obeys the
recursion that one would write down for it: a region that calls nothing has depth zero, and any
other one is one deeper than the deepest of its callees.

From the top level no circle is reached, since the slots on a chain of calls are distinct; for the
same reason a chain has no more calls than there are slots to return by.

## Main definitions

* `Table.CallPathFrom`: the chains of calls from a region.
* `Table.DepthLongest`: the nesting depth of a region is the length of the longest chain.
* `Table.returnSlots`: the slots that the subroutines return by.

## Main results

* `CallGraph.depth?_eq_some_iff`: the depth of a call graph, by the lengths of its chains.
* `Table.depth_eq_longest`: the nesting depth of every region.
-/

namespace BytecodeRegions

namespace CallGraph

variable {g : CallGraph} {d n : Nat}

/-- A chain can be cut short. -/
theorem exists_chain_of_le (hn : ∃ path, g.Chain path ∧ path.length = n) (hd : d ≤ n) :
    ∃ path, g.Chain path ∧ path.length = d := by
  cases d with
  | zero => exact ⟨[], .nil, rfl⟩
  | succ d =>
    obtain ⟨k, rfl⟩ : ∃ k, n = k + 1 := ⟨n - 1, by omega⟩
    obtain ⟨c, hc, hdeep⟩ := exists_chain_succ_iff.1 hn
    exact exists_chain_succ_iff.2 ⟨c, hc, hdeep.mono (by omega)⟩

/-- The nesting depth is `d` when there is a chain of `d` calls and none that has one call more. -/
theorem depth?_eq_some_iff (hg : g.WellFormed) : g.depth? = some d ↔
    (∃ path, g.Chain path ∧ path.length = d) ∧ ¬∃ path, g.Chain path ∧ path.length = d + 1 := by
  constructor
  · intro hd
    obtain ⟨hlong, hle⟩ := chain_of_depth?_eq_some hg hd
    refine ⟨hlong, ?_⟩
    rintro ⟨path, hpath, hlen⟩
    have := hle path hpath
    omega
  · rintro ⟨⟨path, hpath, hlen⟩, hnone⟩
    cases hdepth : g.depth? with
    | none => exact absurd ((depth?_eq_none_iff hg).1 hdepth (d + 1)) hnone
    | some e =>
      obtain ⟨hlong, hle⟩ := chain_of_depth?_eq_some hg hdepth
      have hde : d ≤ e := hlen ▸ hle path hpath
      have hed : ¬d + 1 ≤ e := fun h => hnone (exists_chain_of_le hlong h)
      rw [Nat.le_antisymm (by omega) hde]

end CallGraph

/-- The region that a chain of calls from a given region ends in. The chain has the leaders of the
called subroutines, the last one first. -/
def RegionRef.endOf (r : RegionRef) : List Nat → RegionRef
  | [] => r
  | p :: _ => .sub p

namespace Method

variable {m : Method} {r : RegionRef} {c d k n : Nat} {path : List Nat}

/-- What is called further on does not depend on where the call graph is seen from. -/
theorem deep_callGraph_iff (s : RegionRef) :
    (m.callGraph r).Deep n c ↔ (m.callGraph s).Deep n c := by
  induction n generalizing c with
  | zero => exact Iff.rfl
  | succ n ih => exact exists_congr fun p => and_congr_right fun _ => ih

theorem exists_chain_callGraph_iff (hc : c ∈ m.leaders) :
    (∃ path, (m.callGraph (.sub c)).Chain path ∧ path.length = n) ↔ (m.callGraph r).Deep n c := by
  cases n with
  | zero => exact iff_of_true ⟨[], .nil, rfl⟩ trivial
  | succ n =>
    rw [CallGraph.exists_chain_succ_iff, CallGraph.Deep, callees_callGraph hc]
    exact exists_congr fun p => and_congr_right fun _ => deep_callGraph_iff r

/-- The nesting depth of a subroutine is the greatest number of further calls. -/
theorem depth?_callGraph_sub_iff (hc : c ∈ m.leaders) : (m.callGraph (.sub c)).depth? = some k ↔
    (m.callGraph r).Deep k c ∧ ¬(m.callGraph r).Deep (k + 1) c := by
  rw [CallGraph.depth?_eq_some_iff (wellFormed_callGraph (r := .sub c) (mem_leaders_iff.1 hc)),
    exists_chain_callGraph_iff hc, exists_chain_callGraph_iff hc]

/-- A region is deeper than each of its callees. -/
theorem exists_depth?_lt (hr : m.IsRegion r) (hd : (m.callGraph r).depth? = some d)
    (hc : c ∈ m.calleesFrom r) : ∃ k < d, (m.callGraph (.sub c)).depth? = some k := by
  have hleader := mem_leaders_of_mem_calleesFrom hr hc
  have hbound : ¬(m.callGraph r).Deep d c := fun hdeep =>
    ((CallGraph.depth?_eq_some_iff (wellFormed_callGraph hr)).1 hd).2
      (CallGraph.exists_chain_succ_iff.2 ⟨c, hc, hdeep⟩)
  have hwf := wellFormed_callGraph (r := .sub c) (mem_leaders_iff.1 hleader)
  cases hk : (m.callGraph (.sub c)).depth? with
  | none =>
    have hlong := (CallGraph.depth?_eq_none_iff hwf).1 hk d
    exact absurd ((exists_chain_callGraph_iff hleader).1 hlong) hbound
  | some k =>
    have hdeep := ((depth?_callGraph_sub_iff (r := r) hleader).1 hk).1
    refine ⟨k, ?_, rfl⟩
    by_contra hge
    exact hbound (hdeep.mono (by omega))

/-- A region that is not of depth zero is one deeper than one of its callees. -/
theorem exists_depth?_eq (hr : m.IsRegion r) (hd : (m.callGraph r).depth? = some (d + 1)) :
    ∃ c ∈ m.calleesFrom r, (m.callGraph (.sub c)).depth? = some d := by
  obtain ⟨hlong, hnone⟩ := (CallGraph.depth?_eq_some_iff (wellFormed_callGraph hr)).1 hd
  obtain ⟨c, hc, hdeep⟩ := CallGraph.exists_chain_succ_iff.1 hlong
  have hleader := mem_leaders_of_mem_calleesFrom hr hc
  refine ⟨c, hc, (depth?_callGraph_sub_iff (r := r) hleader).2 ⟨hdeep, fun hmore => hnone ?_⟩⟩
  exact CallGraph.exists_chain_succ_iff.2 ⟨c, hc, hmore⟩

theorem isRegion_endOf (hr : m.IsRegion r) (hpath : (m.callGraph r).Chain path) :
    m.IsRegion (r.endOf path) := by
  cases path with
  | nil => exact hr
  | cons p path =>
    have hp := hpath.mem_leaders (wellFormed_callGraph hr) p List.mem_cons_self
    rw [leaders_callGraph] at hp
    exact mem_leaders_iff.1 hp

theorem calledAfter_endOf (hr : m.IsRegion r) (hpath : (m.callGraph r).Chain path) :
    (m.callGraph r).calledAfter path = m.calleesFrom (r.endOf path) := by
  cases path with
  | nil => rfl
  | cons p path => exact callees_callGraph (mem_leaders_iff.2 (isRegion_endOf hr hpath))

end Method

namespace Table

variable {t : Table} {m : Method} {settings : Settings} {r : RegionRef} {path : List Nat}

/-- The chains of calls from a region, the last call first. -/
inductive CallPathFrom (t : Table) (r : RegionRef) : List Nat → Prop
  | nil : CallPathFrom t r []
  | cons {p : Nat} {path : List Nat} (hpath : CallPathFrom t r path)
      (hp : t.Calls (r.endOf path) p) : CallPathFrom t r (p :: path)

/-- The slots that the subroutines return by. -/
def returnSlots (t : Table) : Finset (Option Nat) :=
  (t.leaders.map t.exitSlot).toFinset

/-- The nesting depth of a region, as the table answers it, is the length of the longest chain of
calls from there, and there is none exactly where a circle of calls is reached. -/
structure DepthLongest (t : Table) (r : RegionRef) : Prop where
  endless_iff : (Query.depth r t).1 = .error .endless ↔ t.ReachesCircle r
  longest : ¬t.ReachesCircle r → ∃ d, (Query.depth r t).1 = .ok d ∧
    (∃ path, t.CallPathFrom r path ∧ path.length = d) ∧
    ∀ path, t.CallPathFrom r path → path.length ≤ d
  idle : (∀ p, ¬t.Calls r p) → (Query.depth r t).1 = .ok 0
  /-- Each callee is less deep. -/
  callee : ∀ d, (Query.depth r t).1 = .ok d → ∀ c, t.Calls r c →
    ∃ k < d, (Query.depth (.sub c) t).1 = .ok k
  /-- The deepest callee is less deep by one. -/
  deepest : ∀ d, (Query.depth r t).1 = .ok (d + 1) →
    ∃ c, t.Calls r c ∧ (Query.depth (.sub c) t).1 = .ok d

namespace FullyBuilt

variable (ht : t.FullyBuilt m)

include ht

theorem callPathFrom_iff_chain (hr : m.IsRegion r) :
    t.CallPathFrom r path ↔ (m.callGraph r).Chain path := by
  constructor
  · intro hpath
    induction hpath with
    | nil => exact .nil
    | cons _ hp ih =>
      rw [ht.calls_iff (Method.isRegion_endOf hr ih), ← Method.calledAfter_endOf hr ih] at hp
      exact ih.cons hp
  · intro hpath
    induction hpath with
    | nil => exact .nil
    | cons hpath hp ih =>
      rw [Method.calledAfter_endOf hr hpath, ← ht.calls_iff (Method.isRegion_endOf hr hpath)] at hp
      exact ih.cons hp

theorem fst_depth (hr : m.IsRegion r) :
    (Query.depth r t).1 = (m.callGraph r).depth?.elim (.error .endless) .ok := by
  rw [(Query.yields_depth ht.coherent r).fst, ht.depthOf_eq hr]

theorem fst_depth_eq_ok_iff (hr : m.IsRegion r) {d : Nat} :
    (Query.depth r t).1 = .ok d ↔ (m.callGraph r).depth? = some d := by
  rw [ht.fst_depth hr]
  cases (m.callGraph r).depth? <;> simp

theorem depthLongest (hr : m.IsRegion r) : t.DepthLongest r := by
  have hwf := Method.wellFormed_callGraph hr
  have hcallee (c : Nat) (hc : t.Calls r c) : c ∈ m.calleesFrom r := (ht.calls_iff hr).1 hc
  have hregion (c : Nat) (hc : c ∈ m.calleesFrom r) : m.IsRegion (.sub c) :=
    Method.isRegion_of_mem_calleesFrom hr hc
  have hlongest (d : Nat) (hd : (m.callGraph r).depth? = some d) :
      (∃ path, t.CallPathFrom r path ∧ path.length = d) ∧
        ∀ path, t.CallPathFrom r path → path.length ≤ d := by
    simpa only [ht.callPathFrom_iff_chain hr] using CallGraph.chain_of_depth?_eq_some hwf hd
  constructor
  case endless_iff =>
    rw [ht.reachesCircle_iff_circular hr, ← CallGraph.depth?_eq_none_iff_circular hwf,
      ht.fst_depth hr]
    cases (m.callGraph r).depth? <;> simp
  case longest =>
    intro hcircle
    rw [ht.reachesCircle_iff_circular hr, ← CallGraph.depth?_eq_none_iff_circular hwf] at hcircle
    obtain ⟨d, hd⟩ := Option.ne_none_iff_exists'.1 hcircle
    exact ⟨d, (ht.fst_depth_eq_ok_iff hr).2 hd, hlongest d hd⟩
  case idle =>
    intro hnone
    rw [ht.fst_depth_eq_ok_iff hr, CallGraph.depth?_eq_some_iff hwf]
    refine ⟨⟨[], .nil, rfl⟩, fun hlong => ?_⟩
    obtain ⟨c, hc, -⟩ := CallGraph.exists_chain_succ_iff.1 hlong
    exact hnone c ((ht.calls_iff hr).2 hc)
  case callee =>
    intro d hd c hc
    obtain ⟨k, hk, hdepth⟩ :=
      Method.exists_depth?_lt hr ((ht.fst_depth_eq_ok_iff hr).1 hd) (hcallee c hc)
    exact ⟨k, hk, (ht.fst_depth_eq_ok_iff (hregion c (hcallee c hc))).2 hdepth⟩
  case deepest =>
    intro d hd
    obtain ⟨c, hc, hdepth⟩ := Method.exists_depth?_eq hr ((ht.fst_depth_eq_ok_iff hr).1 hd)
    exact ⟨c, (ht.calls_iff hr).2 hc, (ht.fst_depth_eq_ok_iff (hregion c hc)).2 hdepth⟩

/-- The slot that a subroutine returns by is the one that its leader stores to. -/
theorem exitSlot_position {l : Handle} (hl : m.IsLeader l) :
    t.exitSlot l.position = l.instruction.slot := by
  obtain ⟨ret, s, -, hleaving, hret, hs⟩ := ht.exists_ret hl
  rw [exitSlot, hleaving, hs, ← hret]
  rfl

/-- Where slots are distinct along calls, a chain of calls from the top level has no more calls than
there are slots to return by. -/
theorem length_le_returnSlots (hslots : m.SlotsDistinct) (hpath : t.CallPathFrom .top path) :
    path.length ≤ t.returnSlots.card := by
  obtain ⟨chain, hchain, rfl⟩ :=
    Method.chain_callGraph_iff.1 ((ht.callPathFrom_iff_chain m.isRegion_top).1 hpath)
  have hmap : (chain.map Handle.position).map t.exitSlot =
      chain.map fun l => l.instruction.slot := by
    rw [List.map_map]
    exact List.map_congr_left fun l hl => ht.exitSlot_position (hchain.isLeader l hl)
  have hnodup : ((chain.map Handle.position).map t.exitSlot).Nodup := hmap ▸ hslots chain hchain
  have hsubset : ((chain.map Handle.position).map t.exitSlot).toFinset ⊆ t.returnSlots := by
    intro s hs
    obtain ⟨p, hp, rfl⟩ := List.mem_map.1 (List.mem_toFinset.1 hs)
    obtain ⟨l, hl, rfl⟩ := List.mem_map.1 hp
    refine List.mem_toFinset.2 (List.mem_map_of_mem ?_)
    rw [ht.leaders_eq]
    exact Method.mem_leaders_iff.2 ⟨l, hchain.isLeader l hl, rfl⟩
  calc (chain.map Handle.position).length
      = ((chain.map Handle.position).map t.exitSlot).length := (List.length_map _).symm
    _ = ((chain.map Handle.position).map t.exitSlot).toFinset.card :=
        (List.toFinset_card_of_nodup hnodup).symm
    _ ≤ t.returnSlots.card := Finset.card_le_card hsubset

end FullyBuilt

/-- In the table of an accepted method, the nesting depth of every region is the length of the
longest chain of calls from there. The top level always has one, and it is at most the number of
slots that the subroutines return by. -/
theorem depth_eq_longest (ht : build m settings = .ok t) :
    (∀ r ∈ t.regions, t.DepthLongest r) ∧
      ∃ d, (Query.depth .top t).1 = .ok d ∧ d ≤ t.returnSlots.card := by
  have hbuilt := FullyBuilt.of_build ht
  have hslots := (finished_of_build_eq_ok ht).1.slots
  have htop : t.DepthLongest .top := hbuilt.depthLongest m.isRegion_top
  refine ⟨fun r hr => hbuilt.depthLongest (hbuilt.mem_regions_iff.1 hr), ?_⟩
  have hcircle : ¬t.ReachesCircle .top := by
    rw [hbuilt.reachesCircle_iff_circular m.isRegion_top]
    exact hslots.not_circular
  obtain ⟨d, hd, ⟨path, hpath, rfl⟩, -⟩ := htop.longest hcircle
  exact ⟨path.length, hd, hbuilt.length_le_returnSlots hslots hpath⟩

/-- Two nested subroutines make the top level two calls deep, which is as deep as their two slots
allow. -/
theorem depth_eq_longest_nested : ∃ t, build (.nested 2) {} = .ok t ∧
    (∀ r ∈ t.regions, t.DepthLongest r) ∧ (Query.depth .top t).1 = .ok 2 ∧
      2 ≤ t.returnSlots.card ∧ ∃ path, t.CallPathFrom .top path ∧ path.length = 2 := by
  obtain ⟨t, ht, -, -, hdepth⟩ := build_nested_two
  obtain ⟨hlongest, d, hd, hle⟩ := depth_eq_longest ht
  rw [hd] at hdepth
  obtain rfl : d = 2 := Option.some.inj hdepth
  have htop : t.DepthLongest .top := hlongest .top List.mem_cons_self
  have hcircle : ¬t.ReachesCircle .top := by
    rw [← htop.endless_iff, hd]
    exact nofun
  obtain ⟨d, hd', hpath, -⟩ := htop.longest hcircle
  obtain rfl : d = 2 := Except.ok.inj (hd'.symm.trans hd)
  exact ⟨t, ht, hlongest, hd, hle, hpath⟩

end Table

end BytecodeRegions
