import BytecodeRegions.Proofs.CallGraph.Clash
import BytecodeRegions.Proofs.Table.Memory
import BytecodeRegions.Proofs.Table.Stages
import Mathlib.Data.Option.Basic

/-!
# Calls between the regions of a settled table

The call graph of a settled table is that of the method: its chains are the chains of calls, and the
slot of a subroutine is the one its leader stores to. So the nesting depth is the length of the
longest chain of calls, and the search for a clash finds the first chain that takes a slot twice.

## Main definitions

* `Method.calleesFrom`, `Method.callGraph`: the calls of a method, from the extents of its regions.

## Main results

* `Method.chain_callGraph_iff`: the chains of the call graph.
* `Table.graphOf_settledStage`: the call graph of a settled table.
* `Table.recursion_cases`: the last step passes or gives evidence.
* `Table.depthOf_settledStage`: the nesting depth.
-/

namespace BytecodeRegions

namespace Method

variable {m : Method} {r : RegionRef} {p : Nat} {l : Handle} {path : List Handle}

/-- The leaders of the subroutines that a region calls, in ascending order. -/
def calleesFrom (m : Method) (r : RegionRef) : List Nat :=
  let calls := (m.membersOf r).filter (·.instruction.isJsr)
  Region.ascending ((calls.filterMap Handle.target?).map (·.position))

theorem mem_calleesFrom_iff (hr : m.IsRegion r) :
    p ∈ m.calleesFrom r ↔ ∃ l, m.Calls r l ∧ l.position = p := by
  simp only [calleesFrom, Region.mem_ascending_iff, List.mem_map, List.mem_filterMap,
    List.mem_filter, mem_membersOf_iff hr]
  constructor
  · rintro ⟨l, ⟨j, ⟨hj, hjsr⟩, ht⟩, rfl⟩
    exact ⟨l, ⟨j, hj, hjsr, ht⟩, rfl⟩
  · rintro ⟨l, ⟨j, hj, hjsr, ht⟩, rfl⟩
    exact ⟨l, ⟨j, ⟨hj, hjsr⟩, ht⟩, rfl⟩

theorem mem_leaders_of_mem_calleesFrom (hr : m.IsRegion r) (hp : p ∈ m.calleesFrom r) :
    p ∈ m.leaders := by
  obtain ⟨l, hl, rfl⟩ := (mem_calleesFrom_iff hr).1 hp
  exact mem_leaders_iff.2 ⟨l, hl.isLeader, rfl⟩

theorem isRegion_of_mem_calleesFrom (hr : m.IsRegion r) (hp : p ∈ m.calleesFrom r) :
    m.IsRegion (.sub p) :=
  mem_leaders_iff.1 (mem_leaders_of_mem_calleesFrom hr hp)

/-- The call graph of a method, seen from a region. -/
def callGraph (m : Method) (r : RegionRef) : CallGraph where
  root := m.calleesFrom r
  subs := m.leaders.map fun p => (p, m.calleesFrom (.sub p))

theorem leaders_callGraph : (m.callGraph r).leaders = m.leaders := by
  rw [CallGraph.leaders, callGraph, List.map_map]
  exact List.map_id _

private theorem lookup_map_mk (f : Nat → List Nat) (ps : List Nat) (p : Nat) :
    (ps.map fun q => (q, f q)).lookup p = if p ∈ ps then some (f p) else none := by
  induction ps with
  | nil => rfl
  | cons q ps ih =>
    rw [List.map_cons, List.lookup_cons, ih]
    by_cases hpq : p = q
    · simp [hpq]
    · simp [hpq, beq_eq_false_iff_ne.2 hpq]

theorem callees_callGraph (hp : p ∈ m.leaders) :
    (m.callGraph r).callees p = m.calleesFrom (.sub p) := by
  rw [CallGraph.callees, callGraph, lookup_map_mk, if_pos hp, Option.getD_some]

theorem callees_callGraph_of_notMem (hp : p ∉ m.leaders) : (m.callGraph r).callees p = [] := by
  rw [CallGraph.callees, callGraph, lookup_map_mk, if_neg hp, Option.getD_none]

theorem wellFormed_callGraph (hr : m.IsRegion r) : (m.callGraph r).WellFormed where
  nodup := by
    rw [leaders_callGraph]
    exact m.nodup_leaders
  root_mem c hc := by
    rw [leaders_callGraph]
    exact mem_leaders_of_mem_calleesFrom hr hc
  callees_mem p c hc := by
    rw [leaders_callGraph]
    by_cases hp : p ∈ m.leaders
    · rw [callees_callGraph hp] at hc
      exact mem_leaders_of_mem_calleesFrom (r := .sub p) (mem_leaders_iff.1 hp) hc
    · rw [callees_callGraph_of_notMem hp] at hc
      cases hc

theorem sorted_callGraph (m : Method) (r : RegionRef) : (m.callGraph r).Sorted where
  root := Region.pairwise_ascending _
  callees p := by
    by_cases hp : p ∈ m.leaders
    · rw [callees_callGraph hp]
      exact Region.pairwise_ascending _
    · rw [callees_callGraph_of_notMem hp]
      exact .nil

/-- The subroutines that a region calls, directly or not. -/
theorem mem_reachable_callGraph_iff (hr : m.IsRegion r) : p ∈ (m.callGraph r).reachable ↔
    ∃ c ∈ m.calleesFrom r, Reaches (m.callGraph r).callees c p :=
  mem_reach_iff (fun a _ b hb => (wellFormed_callGraph hr).callees_mem a b hb)
    (wellFormed_callGraph hr).root_mem

theorem isRegion_of_mem_reachable (hr : m.IsRegion r) (hp : p ∈ (m.callGraph r).reachable) :
    m.IsRegion (.sub p) := by
  have hwf := wellFormed_callGraph hr
  obtain ⟨c, hc, hcp⟩ := (mem_reachable_callGraph_iff hr).1 hp
  have hmem : p ∈ (m.callGraph r).leaders :=
    hcp.closed (fun a b _ hb => hwf.callees_mem a b hb) (hwf.root_mem c hc)
  rw [leaders_callGraph] at hmem
  exact mem_leaders_iff.1 hmem

/-! ### Chains of calls -/

theorem calledAfter_callGraph (hpath : m.CallChain path) :
    (m.callGraph .top).calledAfter (path.map Handle.position) = m.calleesFrom (.ofChain path) := by
  cases hpath with
  | nil => rfl
  | cons _ hl => exact callees_callGraph (mem_leaders_iff.2 ⟨_, hl.isLeader, rfl⟩)

/-- The chains of the call graph are the chains of calls, by the positions of their leaders. -/
theorem chain_callGraph_iff {ps : List Nat} : (m.callGraph .top).Chain ps ↔
    ∃ path, m.CallChain path ∧ path.map Handle.position = ps := by
  constructor
  · intro hps
    induction hps with
    | nil => exact ⟨[], .nil, rfl⟩
    | cons _ hc ih =>
      obtain ⟨path, hpath, rfl⟩ := ih
      rw [calledAfter_callGraph hpath, mem_calleesFrom_iff hpath.isRegion] at hc
      obtain ⟨l, hl, rfl⟩ := hc
      exact ⟨l :: path, hpath.cons hl, rfl⟩
  · rintro ⟨path, hpath, rfl⟩
    induction hpath with
    | nil => exact .nil
    | cons hpath hl ih =>
      refine .cons ih ?_
      rw [calledAfter_callGraph hpath, mem_calleesFrom_iff hpath.isRegion]
      exact ⟨_, hl, rfl⟩

/-- A chain of calls is given by the positions of its leaders. -/
theorem CallChain.eq_of_map_position {path' : List Handle} (hpath : m.CallChain path)
    (hpath' : m.CallChain path')
    (heq : path.map Handle.position = path'.map Handle.position) : path = path' := by
  induction hpath generalizing path' with
  | nil => exact (List.map_eq_nil_iff.1 heq.symm).symm
  | cons _ hl ih =>
    cases hpath' with
    | nil => cases heq
    | cons hpath' hl' =>
      obtain ⟨hp, heq⟩ := List.cons.inj heq
      have hbody := hl.isLeader.body_eq.trans hl'.isLeader.body_eq.symm
      rw [Handle.eq_of_position hbody hp, ih hpath' heq]

/-- Where slots are distinct, a chain has at most as many calls as there are leaders. -/
theorem SlotsDistinct.length_le (hslots : m.SlotsDistinct) (hpath : m.CallChain path) :
    path.length ≤ m.leaderHandles.length :=
  (hslots path hpath).of_map.length_le_of_subset fun l hl =>
    mem_leaderHandles_iff.2 (hpath.isLeader l hl)

/-- The first `ret` of a subroutine that returns as it should is its only one. -/
theorem head?_retsList (hl : m.IsLeader l) (hret : m.ReturnsOnce l) :
    ∃ ret, (m.retsList l).head? = some ret ∧ m.retsOf l = {ret} ∧
      ret.instruction.slot = l.instruction.slot := by
  obtain ⟨ret, hrets, hslot⟩ := hret
  refine ⟨ret, ?_, hrets, hslot⟩
  have hmem (h : Handle) : h ∈ m.retsList l ↔ h = ret := by
    rw [mem_retsList_iff hl, hrets, Set.mem_singleton_iff]
  cases hlist : m.retsList l with
  | nil =>
    have := (hmem ret).2 rfl
    rw [hlist] at this
    cases this
  | cons first others =>
    have := (hmem first).1 (by rw [hlist]; exact List.mem_cons_self)
    rw [this, List.head?_cons]

end Method

/-! ### The settled table -/

namespace Table

variable {m : Method} {settings : Settings} {r : RegionRef} {l : Handle} {path : List Handle}

theorem getSubroutine_settledStage (hl : m.IsLeader l) (hvalid : m.ValidEntry l) :
    (settledStage m settings).getSubroutine l = .ok (.sub l.position) := by
  have hsub : ((settledStage m settings).sub? l.position).isSome = true := by
    rw [settledStage, sub?_stage hl, Option.isSome_some]
  have howns : (settledStage m settings).method.body.owns l = true := Body.owns_iff.2 hl.body_eq
  have hfirst : l ≠ (settledStage m settings).top.entry := hvalid.1
  rw [getSubroutine, if_neg hfirst, howns, hsub]
  rfl

theorem calleesOf_settledStage (hentries : m.EntriesValid) (hr : m.IsRegion r) :
    (settledStage m settings).calleesOf ((settledStage m settings).region r) =
      .ok (m.calleesFrom r) := by
  have hmembers : ((settledStage m settings).region r).members = m.membersOf r :=
    members_region_stage hr
  have htargets : (((m.membersOf r).filter (·.instruction.isJsr)).filterMap Handle.target?).mapM
      (settledStage m settings).getSubroutine = .ok _ := mapM_eq_ok fun l hl => by
    obtain ⟨j, hj, ht⟩ := List.mem_filterMap.1 hl
    obtain ⟨hj, hjsr⟩ := List.mem_filter.1 hj
    have hcall : m.Calls r l := ⟨j, (Method.mem_membersOf_iff hr).1 hj, hjsr, ht⟩
    exact getSubroutine_settledStage hcall.isLeader (hentries l hcall.isLeader)
  simp only [calleesOf, hmembers, htargets]
  rfl

/-- The call graph of a settled table is that of the method. -/
theorem graphOf_settledStage (hentries : m.EntriesValid) (hr : m.IsRegion r) :
    (settledStage m settings).graphOf ((settledStage m settings).region r) =
      .ok (m.callGraph r) := by
  have hleaders : (settledStage m settings).leaders = m.leaders := leaders_stage
  have hsubs : (m.leaders.mapM fun p => return (p, ← ((settledStage m settings).calleesOf
      ((settledStage m settings).region (.sub p))).mapError Fault.misuse)) =
      Except.ok (m.leaders.map fun p => (p, m.calleesFrom (.sub p))) := mapM_eq_ok fun p hp => by
    rw [calleesOf_settledStage (r := .sub p) hentries (Method.mem_leaders_iff.1 hp)]
    rfl
  rw [graphOf, calleesOf_settledStage hentries hr, hleaders, hsubs]
  rfl

theorem ret_region_settledStage (hl : m.IsLeader l) :
    ((settledStage m settings).region (.sub l.position)).ret = (m.retsList l).head? := by
  rw [settledStage, region_stage_sub hl, Method.subroutine]

/-- The slot of a subroutine is the one that its leader stores to. -/
theorem retSlot_settledStage (settings : Settings) (hl : m.IsLeader l) (hvalid : m.ValidEntry l)
    (hret : m.ReturnsOnce l) :
    some ((settledStage m settings).retSlot l.position) = l.instruction.slot := by
  obtain ⟨ret, hhead, -, hslot⟩ := Method.head?_retsList hl hret
  obtain ⟨s, hs⟩ := Option.isSome_iff_exists.1 (Instruction.isSome_slot_of_storesAddress hvalid.2)
  rw [retSlot, ret_region_settledStage hl, hhead, Option.bind_some, hslot, hs, Option.getD_some]

theorem map_retSlot_settledStage (settings : Settings) (hentries : m.EntriesValid)
    (hreturns : m.SubroutinesReturn) (hpath : ∀ l ∈ path, m.IsLeader l) :
    ((path.map Handle.position).map (settledStage m settings).retSlot).map some =
      path.map fun l => l.instruction.slot := by
  rw [List.map_map, List.map_map]
  refine List.map_congr_left fun l hl => ?_
  have hleader := hpath l hl
  exact retSlot_settledStage settings hleader (hentries l hleader) (hreturns l hleader)

theorem nodup_map_retSlot_iff (settings : Settings) (hentries : m.EntriesValid)
    (hreturns : m.SubroutinesReturn) (hpath : ∀ l ∈ path, m.IsLeader l) :
    ((path.map Handle.position).map (settledStage m settings).retSlot).Nodup ↔
      (path.map fun l => l.instruction.slot).Nodup := by
  rw [← map_retSlot_settledStage settings hentries hreturns hpath]
  exact (List.nodup_map_iff (Option.some_injective _)).symm

/-- Chains that clash are chains that take a slot twice. -/
theorem clashes_iff (hentries : m.EntriesValid) (hreturns : m.SubroutinesReturn)
    (hpath : m.CallChain path) :
    CallGraph.Clashes (settledStage m settings).retSlot (path.map Handle.position) ↔
      m.ClashChain path := by
  have hleader := hpath.isLeader
  cases hpath with
  | nil => exact Iff.rfl
  | @cons l path hpath hl =>
    obtain ⟨hleader, hleaders⟩ := List.forall_mem_cons.1 hleader
    have hslots := map_retSlot_settledStage settings hentries hreturns hleaders
    rw [List.map_cons, CallGraph.Clashes, Method.ClashChain, and_iff_right (hpath.cons hl),
      nodup_map_retSlot_iff settings hentries hreturns hleaders, ← hslots,
      ← retSlot_settledStage settings hleader (hentries l hleader)
        (hreturns l hleader),
      List.mem_map_of_injective (Option.some_injective _)]

theorem clash?_settledStage_eq_none_iff (hentries : m.EntriesValid)
    (hreturns : m.SubroutinesReturn) :
    (m.callGraph .top).clash? (settledStage m settings).retSlot = none ↔ m.SlotsDistinct := by
  rw [CallGraph.clash?_eq_none_iff (Method.wellFormed_callGraph m.isRegion_top)]
  constructor
  · intro hall path hpath
    rw [← nodup_map_retSlot_iff settings hentries hreturns hpath.isLeader]
    exact hall _ (Method.chain_callGraph_iff.2 ⟨path, hpath, rfl⟩)
  · intro hall chain hchain
    obtain ⟨path, hpath, rfl⟩ := Method.chain_callGraph_iff.1 hchain
    exact (nodup_map_retSlot_iff settings hentries hreturns hpath.isLeader).2 (hall path hpath)

/-- Where the last call of a chain takes a slot again, the search for the holder of the slot finds a
subroutine on the chain. -/
theorem exists_holder (settings : Settings) (hentries : m.EntriesValid)
    (hreturns : m.SubroutinesReturn) {x : Clash}
    (hpath : m.CallChain (l :: path)) (hcallee : x.callee = l.position)
    (hmap : x.path = path.map Handle.position)
    (hslot : l.instruction.slot ∈ path.map fun k => k.instruction.slot) :
    ∃ holder ∈ path, x.holder? (settledStage m settings).retSlot = some holder.position ∧
      holder.instruction.slot = l.instruction.slot := by
  have hsame (k : Handle) (hk : k ∈ path) : (settledStage m settings).retSlot k.position =
      (settledStage m settings).retSlot x.callee ↔ k.instruction.slot = l.instruction.slot := by
    have hleader := hpath.isLeader l List.mem_cons_self
    have hleader' := hpath.isLeader k (List.mem_cons_of_mem l hk)
    rw [← Option.some_inj, hcallee,
      retSlot_settledStage settings hleader (hentries l hleader) (hreturns l hleader),
      retSlot_settledStage settings hleader' (hentries k hleader') (hreturns k hleader')]
  obtain ⟨k, hk, hkl⟩ := List.mem_map.1 hslot
  rw [Clash.holder?, hmap, List.find?_map]
  cases hfind : path.find? ((fun p => (settledStage m settings).retSlot p ==
      (settledStage m settings).retSlot x.callee) ∘ Handle.position) with
  | none => exact absurd (beq_iff_eq.2 ((hsame k hk).2 hkl)) (List.find?_eq_none.1 hfind k hk)
  | some holder =>
    have hmem := List.mem_of_find?_eq_some hfind
    have hfound := List.find?_some hfind
    exact ⟨holder, hmem, rfl, (hsame holder hmem).1 (beq_iff_eq.1 hfound)⟩

/-- The violation of a clash names the called subroutine, the one that holds its slot, and the
caller, and the `ret` instructions of the first two. -/
theorem clashViolation_settledStage (settings : Settings) {x : Clash} {holder : Handle}
    (hreturns : m.SubroutinesReturn) (hpath : m.CallChain (l :: path))
    (hcallee : x.callee = l.position) (hmap : x.path = path.map Handle.position)
    (hholder : m.IsLeader holder)
    (hfind : x.holder? (settledStage m settings).retSlot = some holder.position) :
    let v := (settledStage m settings).clashViolation .top m.name x
    (∃ ret ∈ m.retsOf l, ∃ ret' ∈ m.retsOf holder,
      v.instructions = [ret.position, ret'.position].eraseDups) ∧
    v.regions = [.sub l.position, .sub holder.position, .ofChain path].eraseDups.map m.note := by
  have hl : m.IsLeader l := hpath.isLeader l List.mem_cons_self
  have hcaller : x.path.head?.elim .top RegionRef.sub = RegionRef.ofChain path := by
    rw [hmap]
    cases path <;> rfl
  have hregion : m.IsRegion (.ofChain path) := by
    cases hpath with
    | cons hpath _ => exact hpath.isRegion
  obtain ⟨ret, hhead, hrets, -⟩ := Method.head?_retsList hl (hreturns l hl)
  obtain ⟨ret', hhead', hrets', -⟩ := Method.head?_retsList hholder (hreturns holder hholder)
  intro v
  refine ⟨⟨ret, by rw [hrets]; rfl, ret', by rw [hrets']; rfl, ?_⟩, ?_⟩
  · simp only [v, clashViolation, hfind, hcallee, Option.elim_some, ret_region_settledStage hl,
      ret_region_settledStage hholder, hhead, hhead']
    rfl
  · simp only [v, clashViolation, hfind, hcallee, hcaller, Option.elim_some]
    refine List.map_congr_left fun r hr => note_region_stage ?_
    simp only [List.mem_eraseDups, List.mem_cons, List.not_mem_nil, or_false] at hr
    rcases hr with rfl | rfl | rfl
    · exact hl.isRegion
    · exact hholder.isRegion
    · exact hregion

/-- The last step passes, or reports the first chain of calls that takes a slot twice. -/
theorem recursion_cases (hentries : m.EntriesValid) (hreturns : m.SubroutinesReturn)
    (settings : Settings) :
    m.SlotsDistinct ∧ (settledStage m settings).recursionOf .top m.name = .ok () ∨
      ∃ v l holder path, (settledStage m settings).recursionOf .top m.name = .error (.violation v) ∧
        v.method = m.name ∧ m.ClashEvidence v l holder path := by
  rw [recursionOf, graphOf_settledStage hentries m.isRegion_top]
  have hwf : (m.callGraph .top).WellFormed := Method.wellFormed_callGraph m.isRegion_top
  cases hx : (m.callGraph .top).clash? (settledStage m settings).retSlot with
  | none =>
    refine .inl ⟨(clash?_settledStage_eq_none_iff hentries hreturns).1 hx, ?_⟩
    simp only [bind, Except.bind, hx]
  | some x =>
    obtain ⟨hchain, hclash⟩ := CallGraph.clashes_of_clash?_eq_some hwf hx
    obtain ⟨chain, hcalls, hmap⟩ := Method.chain_callGraph_iff.1 hchain
    cases hcalls with
    | nil => cases hmap
    | @cons l path hpath hl =>
      obtain ⟨hcallee, hpositions⟩ := List.cons.inj hmap
      have hcalls := hpath.cons hl
      rw [← hmap, clashes_iff hentries hreturns hcalls] at hclash
      obtain ⟨holder, hmem, hfind, hsame⟩ := exists_holder settings hentries hreturns
        hcalls hcallee.symm hpositions.symm hclash.2.2
      have hleader := hpath.isLeader holder hmem
      obtain ⟨hinstructions, hregions⟩ := clashViolation_settledStage settings
        hreturns hcalls hcallee.symm hpositions.symm hleader hfind
      refine .inr ⟨(settledStage m settings).clashViolation .top m.name x, l, holder, path, ?_, rfl,
        hclash, hmem, hsame, fun chain hchain hne => ?_, rfl, hinstructions, hregions⟩
      · simp only [bind, Except.bind, hx]
      · have hcalls' : m.CallChain chain := by
          cases chain with
          | nil => exact hchain.elim
          | cons => exact hchain.1
        rw [List.map_reverse, List.map_reverse, hmap]
        refine CallGraph.lex_of_clash?_eq_some hwf (m.sorted_callGraph .top) hx
          (Method.chain_callGraph_iff.2 ⟨chain, hcalls', rfl⟩)
          ((clashes_iff hentries hreturns hcalls').2 hchain) fun heq => hne ?_
        exact hcalls'.eq_of_map_position hcalls (heq.trans hmap.symm)

/-- The nesting depth is the length of the longest chain of calls. -/
theorem depthOf_settledStage (hentries : m.EntriesValid) (hslots : m.SlotsDistinct)
    (settings : Settings) : ∃ d, (settledStage m settings).depthOf .top = .ok d ∧
      (∃ path, m.CallChain path ∧ path.length = d) ∧
        ∀ path, m.CallChain path → path.length ≤ d := by
  have hwf : (m.callGraph .top).WellFormed := Method.wellFormed_callGraph m.isRegion_top
  have hdepth : (settledStage m settings).depthOf .top =
      (m.callGraph .top).depth?.elim (.error .endless) .ok := by
    rw [depthOf, ite_self, graphOf_settledStage hentries m.isRegion_top]
    rfl
  cases hd : (m.callGraph .top).depth? with
  | none =>
    obtain ⟨ps, hps, hlen⟩ :=
      (CallGraph.depth?_eq_none_iff hwf).1 hd (m.leaderHandles.length + 1)
    obtain ⟨path, hpath, rfl⟩ := Method.chain_callGraph_iff.1 hps
    have hle := hslots.length_le hpath
    rw [List.length_map] at hlen
    omega
  | some d =>
    obtain ⟨⟨ps, hps, hlen⟩, hle⟩ := CallGraph.chain_of_depth?_eq_some hwf hd
    obtain ⟨path, hpath, rfl⟩ := Method.chain_callGraph_iff.1 hps
    refine ⟨d, by rw [hdepth, hd]; rfl, ⟨path, hpath, by rwa [List.length_map] at hlen⟩, ?_⟩
    intro path hpath
    have := hle _ (Method.chain_callGraph_iff.2 ⟨path, hpath, rfl⟩)
    rwa [List.length_map] at this

end Table

end BytecodeRegions
