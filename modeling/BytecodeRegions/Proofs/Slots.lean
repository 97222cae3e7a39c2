import BytecodeRegions.Proofs.Runs
import BytecodeRegions.Proofs.Table.Questions

/-!
# The slots that runs use

The slots of a subroutine and of all it calls are collected from regions, without running anything.
They are compared with the slots that runs use: a run enters the subroutine with some calls on the
stack and never returns past them. Each of its places is in the subroutine or in one that it calls,
directly or not, since the calls above the floor lead from region to region. So no run uses a slot
that was not collected. Where calls from the subroutine never go round in a circle, each callee can
run to its `ret`, so every place of every subroutine that is called is reached, and every slot that
was collected is used by some run.

## Main definitions

* `Method.Leads`: the calls above a floor lead from one region to another.
* `Table.Uses`: a run of a subroutine uses a slot.

## Main results

* `Method.exists_leads`: the invariant of runs over a floor.
* `Method.exists_runOver`: without circles, every place of what is called is reached.
* `Table.recursive_exact`: the collected slots are those that runs use.
-/

namespace BytecodeRegions

open Config (RunOver)

namespace Method

variable {m : Method} {c c' : Config} {r s : RegionRef} {h j l : Handle}
  {floor stack : List Handle} {p n : Nat}

theorem isRegion_of_reaches (hl : m.IsLeader l)
    (hreaches : Reaches (m.callGraph r).callees l.position p) : m.IsRegion (.sub p) := by
  refine mem_leaders_iff.1 (hreaches.closed (P := (· ∈ m.leaders)) (fun a b _ hb => ?_) ?_)
  · rw [← leaders_callGraph (r := .top)]
    exact (wellFormed_callGraph m.isRegion_top).callees_mem a b hb
  · exact mem_leaders_iff.2 hl.isRegion

/-! ### Runs stay in what is called -/

/-- The calls above a floor lead from one region to another: each of them is in the region that
those below it lead to. -/
inductive Leads (m : Method) (r : RegionRef) (floor : List Handle) : List Handle → RegionRef → Prop
  | floor : Leads m r floor floor r
  | call {j l : Handle} {stack : List Handle} {s : RegionRef} (hstack : Leads m r floor stack s)
      (hj : j ∈ m.extent s) (hjsr : j.instruction.isJsr = true) (hl : j.target? = some l) :
      Leads m r floor (j :: stack) (.sub l.position)

/-- A step that does not return past the floor stays in the region that the stack leads to. -/
theorem exists_leads_of_move (hmove : c.Move c') (hfloor : floor <:+ c'.stack)
    (hc : ∃ s, m.Leads r floor c.stack s ∧ c.place ∈ m.extent s) :
    ∃ s, m.Leads r floor c'.stack s ∧ c'.place ∈ m.extent s := by
  obtain ⟨s, hstack, hplace⟩ := hc
  cases hmove with
  | @call h l stack hjsr hl =>
    have hleader : m.IsLeader l := ⟨h, body_eq_of_mem_extent hplace, hjsr, hl⟩
    exact ⟨_, hstack.call hplace hjsr hl, leader_mem_extent hleader.body_eq⟩
  | ret hret hk =>
    cases hstack with
    | floor =>
      -- the call that is popped belongs to the floor
      exact absurd hfloor.length_le (Nat.not_succ_le_self _)
    | call hstack hj hjsr _ =>
      exact ⟨_, hstack, extent_closed hj ((Handle.mem_successors_of_isJsr hjsr).2 hk)⟩
  | flow _ _ hk => exact ⟨s, hstack, extent_closed hplace hk⟩

/-- A run over a floor is always in the region that its stack leads to. -/
theorem exists_leads (hrun : RunOver floor ⟨h, floor⟩ c) (hh : h ∈ m.extent r) :
    ∃ s, m.Leads r floor c.stack s ∧ c.place ∈ m.extent s := by
  induction hrun with
  | refl => exact ⟨r, .floor, hh⟩
  | tail _ hmove ih => exact exists_leads_of_move hmove.1 hmove.2 ih

/-- From a subroutine, a stack leads to this subroutine or to one that it calls, directly or not. -/
theorem Leads.exists_reaches (hl : m.IsLeader l)
    (hstack : m.Leads (.sub l.position) floor stack s) :
    ∃ p, s = .sub p ∧ Reaches (m.callGraph r).callees l.position p := by
  induction hstack with
  | floor => exact ⟨l.position, rfl, .refl _⟩
  | @call j k stack s _ hj hjsr hk ih =>
    obtain ⟨p, rfl, hreaches⟩ := ih
    obtain ⟨i, hi, rfl⟩ := isRegion_of_reaches hl hreaches
    have hcall : m.Calls (.sub i.position) k := ⟨j, hj, hjsr, hk⟩
    exact ⟨k.position, rfl, hreaches.tail (hcall.mem_callees hi.isRegion)⟩

/-! ### Runs get everywhere -/

/-- What is called further on has no more calls ahead. -/
theorem not_deep_of_reaches {g : CallGraph} {q : Nat} (hpq : Reaches g.callees p q)
    (hp : ¬g.Deep n p) : ¬g.Deep n q := by
  induction hpq with
  | refl => exact hp
  | tail _ hc ih => exact fun hdeep => ih (CallGraph.Deep.of_succ ⟨_, hc, hdeep⟩)

/-- A run that gets to a call gets to every place of the subroutine that is called. -/
theorem runOver_into (hreturns : m.SubroutinesReturn) (hrun : RunOver floor c ⟨j, stack⟩)
    (hfloor : floor <:+ stack) (hjsr : j.instruction.isJsr = true) (hl : j.target? = some l)
    (hleader : m.IsLeader l) (hn : ¬(m.callGraph r).Deep n l.position)
    (hh : h ∈ m.extent (.sub l.position)) : RunOver floor c ⟨h, j :: stack⟩ := by
  have hfloor' : floor <:+ j :: stack := hfloor.trans (List.suffix_cons j stack)
  have hinside := runOver_of_mem_extent hreturns hleader hn hh (j :: stack)
  exact (hrun.tail ⟨.call hjsr hl, hfloor'⟩).trans (hinside.lower hfloor')

/-- A subroutine from which there are not arbitrarily many further calls gets to every place of what
it calls, directly or not. The induction is along the calls. -/
theorem exists_runOver (hreturns : m.SubroutinesReturn) (hl : m.IsLeader l)
    (hn : ¬(m.callGraph r).Deep n l.position)
    (hreaches : Reaches (m.callGraph r).callees l.position p) (hh : h ∈ m.extent (.sub p))
    (floor : List Handle) :
    ∃ stack, floor <:+ stack ∧ RunOver floor ⟨l, floor⟩ ⟨h, stack⟩ := by
  induction hreaches generalizing h with
  | refl => exact ⟨floor, List.suffix_rfl, runOver_of_mem_extent hreturns hl hn hh floor⟩
  | @tail p q hp hq ih =>
    have hregion : m.IsRegion (.sub p) := isRegion_of_reaches hl hp
    have hcallee : q ∈ m.calleesFrom (.sub p) := by
      rwa [callees_callGraph (mem_leaders_iff.2 hregion)] at hq
    obtain ⟨k, hcall, rfl⟩ := (mem_calleesFrom_iff hregion).1 hcallee
    have hleader := hcall.isLeader
    obtain ⟨j, hj, hjsr, hk⟩ := hcall
    obtain ⟨stack, hfloor, hrun⟩ := ih hj
    refine ⟨j :: stack, hfloor.trans (List.suffix_cons j stack), ?_⟩
    exact runOver_into hreturns hrun hfloor hjsr hk hleader (not_deep_of_reaches (hp.tail hq) hn) hh

/-- Where calls from a subroutine never go round in a circle, there are not arbitrarily many. -/
theorem exists_not_deep (hl : m.IsLeader l)
    (hcircle : ¬(m.callGraph (.sub l.position)).Circular) :
    ∃ n, ¬(m.callGraph (.sub l.position)).Deep n l.position := by
  have hwf := wellFormed_callGraph hl.isRegion
  rw [← CallGraph.depth?_eq_none_iff_circular hwf] at hcircle
  obtain ⟨d, hd⟩ := Option.ne_none_iff_exists'.1 hcircle
  refine ⟨d + 1, ?_⟩
  rintro ⟨c, hc, hdeep⟩
  rw [callees_callGraph (mem_leaders_iff.2 hl.isRegion)] at hc
  obtain ⟨path, hpath, hlen⟩ := CallGraph.exists_chain_succ_iff.2 ⟨c, hc, hdeep⟩
  have hle := (CallGraph.chain_of_depth?_eq_some hwf hd).2 path hpath
  omega

/-- What is called from the top level reaches no circle where slots on chains of calls are
distinct. -/
theorem SlotsDistinct.not_circular_of_chain (hslots : m.SlotsDistinct) {path : List Nat}
    (hpath : (m.callGraph .top).Chain (p :: path)) : ¬(m.callGraph (.sub p)).Circular := by
  have hp : p ∈ m.leaders := by
    rw [← leaders_callGraph (r := .top)]
    exact hpath.mem_leaders (wellFormed_callGraph m.isRegion_top) p List.mem_cons_self
  rintro ⟨c, hc, q, hcq, hqq⟩
  obtain ⟨d, hd, hdp⟩ := hpath.exists_reaches
  have hpc : (m.callGraph .top).Calls p c := by
    rw [CallGraph.Calls, callees_callGraph hp]
    exact hc
  exact hslots.not_circular ⟨d, hd, q, (hdp.tail hpc).trans hcq, hqq⟩

end Method

/-! ### Slots -/

namespace Table

variable {t : Table} {m : Method} {settings : Settings} {p s : Nat} {l : Handle}

/-- A run that starts at the entry of a subroutine, with a floor of calls on the stack that it never
returns past, gets to an instruction that accesses a slot. -/
def Uses (t : Table) (p : Nat) (floor : List Handle) (s : Nat) : Prop :=
  ∃ c, RunOver floor ⟨(t.region (.sub p)).entry, floor⟩ c ∧ s ∈ c.place.instruction.accessedSlots

namespace FullyBuilt

/-- The slots of a region are those that its places access. -/
theorem mem_accessedSlots_iff {r : RegionRef} (ht : t.FullyBuilt m) (hr : m.IsRegion r) :
    s ∈ (t.region r).accessedSlots ↔ ∃ h ∈ m.extent r, s ∈ h.instruction.accessedSlots := by
  rw [Region.accessedSlots, Region.mem_ascending_iff, ht.members_eq hr, List.mem_flatMap]
  simp only [Method.mem_membersOf_iff hr]

/-- The slots of a subroutine and of all it calls are those that the places of what it calls access,
its own places included. -/
theorem exists_recursiveOf_iff (ht : t.FullyBuilt m) (hl : m.IsLeader l) :
    ∃ slots, t.recursiveOf (t.region (.sub l.position)) = .ok slots ∧ ∀ s, s ∈ slots ↔
      ∃ p, Reaches (m.callGraph (.sub l.position)).callees l.position p ∧
        ∃ h ∈ m.extent (.sub p), s ∈ h.instruction.accessedSlots := by
  refine ⟨_, ht.recursiveOf_eq hl.isRegion, fun s => ?_⟩
  have hcallees : (m.callGraph (.sub l.position)).callees l.position =
      m.calleesFrom (.sub l.position) :=
    Method.callees_callGraph (Method.mem_leaders_iff.2 hl.isRegion)
  rw [Region.mem_ascending_iff, List.mem_append, ht.mem_accessedSlots_iff hl.isRegion,
    List.mem_flatten]
  constructor
  · rintro (hown | ⟨slots, hslots, hs⟩)
    · exact ⟨l.position, .refl _, hown⟩
    · obtain ⟨p, hp, rfl⟩ := List.mem_map.1 hslots
      rw [ht.mem_accessedSlots_iff (Method.isRegion_of_mem_reachable hl.isRegion hp)] at hs
      obtain ⟨c, hc, hcp⟩ := (Method.mem_reachable_callGraph_iff hl.isRegion).1 hp
      exact ⟨p, .head (hcallees ▸ hc) hcp, hs⟩
  · rintro ⟨p, hp, hs⟩
    rcases hp.cases_head with rfl | ⟨c, hc, hcp⟩
    · exact .inl hs
    · have hreachable : p ∈ (m.callGraph (.sub l.position)).reachable :=
        (Method.mem_reachable_callGraph_iff hl.isRegion).2 ⟨c, hcallees ▸ hc, hcp⟩
      refine .inr ⟨_, List.mem_map_of_mem hreachable, ?_⟩
      exact (ht.mem_accessedSlots_iff (Method.isRegion_of_reaches hl hp)).2 hs

end FullyBuilt

/-- The slots that the table of an accepted method gives for a subroutine and all it calls are
exact: whatever is below the subroutine on the stack, every slot that a run of it uses is among
them, and each of them is used by some run unless the subroutine reaches a circle of calls, which it
does not if it is called from the top level, directly or not. -/
theorem recursive_exact (ht : build m settings = .ok t) (hp : p ∈ t.leaders) :
    ∃ slots, (Query.recursive (.sub p) t).1 = .ok slots ∧
      (∀ floor s, t.Uses p floor s → s ∈ slots) ∧
      (¬t.ReachesCircle (.sub p) → ∀ floor, ∀ s ∈ slots, t.Uses p floor s) ∧
      ∀ path, t.CallPath (p :: path) → ¬t.ReachesCircle (.sub p) := by
  have hbuilt := FullyBuilt.of_build ht
  have hm := (finished_of_build_eq_ok ht).1
  rw [hbuilt.leaders_eq, Method.mem_leaders_iff] at hp
  obtain ⟨l, hl, rfl⟩ := hp
  have hentry : (t.region (.sub l.position)).entry = l :=
    congrArg Region.entry (hbuilt.region_sub hl)
  obtain ⟨slots, hslots, hmem⟩ := hbuilt.exists_recursiveOf_iff hl
  rw [hbuilt.reachesCircle_iff_circular hl.isRegion]
  refine ⟨slots, ?_, fun floor s huses => ?_, fun hcircle floor s hs => ?_, fun path hpath => ?_⟩
  · rw [(Query.yields_recursive hbuilt.coherent _).fst, hslots]
  · obtain ⟨c, hrun, hs⟩ := huses
    rw [hentry] at hrun
    obtain ⟨r, hstack, hplace⟩ := Method.exists_leads hrun (Method.leader_mem_extent hl.body_eq)
    obtain ⟨p, rfl, hreaches⟩ := hstack.exists_reaches (r := .sub l.position) hl
    exact (hmem s).2 ⟨p, hreaches, c.place, hplace, hs⟩
  · obtain ⟨n, hn⟩ := Method.exists_not_deep hl hcircle
    obtain ⟨p, hreaches, h, hh, hs⟩ := (hmem s).1 hs
    obtain ⟨stack, -, hrun⟩ := Method.exists_runOver hm.returns hl hn hreaches hh floor
    exact ⟨⟨h, stack⟩, hentry.symm ▸ hrun, hs⟩
  · exact hm.slots.not_circular_of_chain (hbuilt.callPath_iff_chain.1 hpath)

/-- The outer one of two nested subroutines is called from the top level, and its runs use its own
slot, that of the inner one, and no other. -/
theorem recursive_exact_nested : ∃ t, build (.nested 2) {} = .ok t ∧ 4 ∈ t.leaders ∧
    t.CallPath [4] ∧ (Query.recursive (.sub 4) t).1 = .ok [1, 2] ∧
      ∀ floor s, t.Uses 4 floor s ↔ s ∈ [1, 2] := by
  have heval : (build (.nested 2) {}).toOption.map (fun t => (t.leaders,
      (Query.callees .top t).1.toOption, (Query.recursive (.sub 4) t).1.toOption)) =
    some ([4, 7], some [4], some [1, 2]) := by cbv
  obtain ⟨t, ht, -⟩ := build_nested_two
  rw [ht] at heval
  obtain ⟨hleaders, hrest⟩ := Prod.mk.inj (Option.some.inj heval)
  obtain ⟨hcallees, hrecursive⟩ := Prod.mk.inj hrest
  have hp : 4 ∈ t.leaders := by
    rw [hleaders]
    decide
  have hpath : t.CallPath [4] := by
    refine .cons .nil ⟨[4], ?_, List.mem_singleton_self 4⟩
    change (Query.callees .top t).1 = .ok [4]
    cases hc : (Query.callees .top t).1 with
    | error f => rw [hc] at hcallees; cases hcallees
    | ok cs => rw [hc] at hcallees; cases hcallees; rfl
  obtain ⟨slots, hslots, hsound, hexact, hcircle⟩ := recursive_exact ht hp
  rw [hslots] at hrecursive
  obtain rfl : slots = [1, 2] := Option.some.inj hrecursive
  refine ⟨t, ht, hp, hpath, hslots, fun floor s => ⟨hsound floor s, ?_⟩⟩
  exact hexact (hcircle [] hpath) floor s

end Table

end BytecodeRegions
