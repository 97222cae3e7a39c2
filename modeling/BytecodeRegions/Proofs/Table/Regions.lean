import BytecodeRegions.Proofs.CallGraph.Circle
import BytecodeRegions.Proofs.Table.Outcome

/-!
# Tables whose regions are built

After the first six steps the regions of a table are complete. What may still happen to it is that
it is sealed and that it remembers answers. Through all of this it answers the same when it is asked
whom a region calls, so its chains and circles of calls are those of the call graph of the method.

## Main definitions

* `Table.regionsOf`: the first six steps.
* `Table.FullyBuilt`: a table that passed them.
* `Table.Calls`, `Table.CallPath`, `Table.ReachesCircle`: calls, chains of calls and circles of
  calls, as the table answers.
* `Table.exitSlot`: the slot that a subroutine returns by.

## Main results

* `Table.regionsOf_eq_ok_iff`: which methods get past the first six steps.
* `Table.FullyBuilt.callPath_iff_chain`, `Table.FullyBuilt.reachesCircle_iff_circular`: the answers
  and the call graph.
-/

namespace BytecodeRegions

/-- The region that a chain of calls ends in, given by the leaders of the called subroutines, the
last one first. -/
def RegionRef.ofPath : List Nat → RegionRef
  | [] => .top
  | p :: _ => .sub p

theorem Method.isRegion_ofPath {m : Method} {path : List Nat}
    (hpath : (m.callGraph .top).Chain path) : m.IsRegion (.ofPath path) := by
  cases path with
  | nil => trivial
  | cons p path =>
    have hp := hpath.mem_leaders (wellFormed_callGraph m.isRegion_top) p List.mem_cons_self
    rw [leaders_callGraph] at hp
    exact mem_leaders_iff.1 hp

theorem Method.calledAfter_ofPath {m : Method} {path : List Nat}
    (hpath : (m.callGraph .top).Chain path) :
    (m.callGraph .top).calledAfter path = m.calleesFrom (.ofPath path) := by
  cases path with
  | nil => rfl
  | cons p path => exact callees_callGraph (mem_leaders_iff.2 (isRegion_ofPath hpath))

theorem Query.Yields.fst {α : Type} {q : Query α} {t : Table} {v : Except Fault α}
    (h : q.Yields t v) : (q t).1 = v := by
  obtain ⟨t', hq, -⟩ := h
  rw [hq]

namespace Table

open Relation

/-- The table of a method after the first six steps, with its calls not checked yet. -/
def regionsOf (m : Method) (settings : Settings) : Except Fault Table := do
  let t ← opened m settings
  let t ← t.partitioned
  let t ← t.settled
  t.unprotected
  return t

/-- A table passed the first six steps for a method. Since then it may have been sealed, and it may
remember answers as long as they are right. -/
structure FullyBuilt (t : Table) (m : Method) : Prop where
  regions : regionsOf m t.settings = .ok { t.forget with isSealed := false }
  coherent : t.Coherent

/-- A region calls a subroutine when it names it among its callees. -/
def Calls (t : Table) (r : RegionRef) (p : Nat) : Prop :=
  ∃ cs, (Query.callees r t).1 = .ok cs ∧ p ∈ cs

/-- The chains of calls from the top level, the last call first. -/
inductive CallPath (t : Table) : List Nat → Prop
  | nil : CallPath t []
  | cons {p : Nat} {path : List Nat} (hpath : CallPath t path) (hp : t.Calls (.ofPath path) p) :
      CallPath t (p :: path)

/-- A region calls, directly or not, a subroutine that calls itself, directly or not. -/
def ReachesCircle (t : Table) (r : RegionRef) : Prop :=
  ∃ c p, t.Calls r c ∧ ReflTransGen (fun a b => t.Calls (.sub a) b) c p ∧
    TransGen (fun a b => t.Calls (.sub a) b) p p

/-- The slot of the `ret` that leaves a subroutine. -/
def exitSlot (t : Table) (p : Nat) : Option Nat :=
  (t.region (.sub p)).leavingRet.toOption.bind fun h => h.instruction.slot

variable {t t' : Table} {m : Method} {settings : Settings} {r : RegionRef} {p : Nat}
  {path : List Nat} {l : Handle}

/-! ### The first six steps -/

/-- The methods that get past the first six steps are those that keep the rules up to then. -/
theorem regionsOf_eq_ok_iff : regionsOf m settings = .ok t ↔
    (m.EntriesValid ∧ m.RegionsDisjoint ∧ m.SubroutinesReturn ∧ m.HandlersClear) ∧
      settledStage m settings = t := by
  rcases opened_cases m settings with ⟨hentries, hopen⟩ | ⟨v, l, hopen, -, he⟩
  case inr =>
    rw [regionsOf, hopen]
    exact iff_of_false nofun fun h => he.not_entriesValid h.1.1
  rcases partitioned_cases m settings with ⟨hregions, hfill⟩ | ⟨v, r, s, h, hfill, -, he⟩
  case inr =>
    simp only [regionsOf, hopen, hfill, bind, Except.bind]
    exact iff_of_false nofun fun h => he.not_regionsDisjoint h.1.2.1
  rcases settled_cases hentries settings with ⟨hreturns, hsettle⟩ | ⟨v, l, hsettle, -, he⟩
  case inr =>
    simp only [regionsOf, hopen, hfill, hsettle, bind, Except.bind]
    exact iff_of_false nofun fun h => he.not_subroutinesReturn h.1.2.2.1
  have hnote (r : RegionRef) (hr : m.IsRegion r) :
      ((settledStage m settings).region r).note = m.note r := note_region_stage hr
  rcases unprotected_cases (t := settledStage m settings) rfl hregions hnote with
    ⟨hhandlers, hprotect⟩ | ⟨v, x, h, l, hprotect, -, he⟩
  case inr =>
    simp only [regionsOf, hopen, hfill, hsettle, hprotect, bind, Except.bind]
    exact iff_of_false nofun fun h => he.not_handlersClear h.1.2.2.2
  simp only [regionsOf, hopen, hfill, hsettle, hprotect, bind, Except.bind, pure, Except.pure,
    Except.ok.injEq]
  exact (and_iff_right ⟨hentries, hregions, hreturns, hhandlers⟩).symm

namespace FullyBuilt

theorem of_regionsOf (ht : regionsOf m settings = .ok t) : t.FullyBuilt m := by
  obtain ⟨-, rfl⟩ := regionsOf_eq_ok_iff.1 ht
  exact ⟨by rw [forget_settledStage]; exact ht, coherent_settledStage m settings⟩

theorem of_build (ht : build m settings = .ok t) : t.FullyBuilt m := by
  obtain ⟨hm, hcoherent, hforget⟩ := finished_of_build_eq_ok ht
  have hsettings : t.settings = settings := congrArg Table.settings hforget
  refine ⟨?_, hcoherent⟩
  rw [hsettings, hforget, regionsOf_eq_ok_iff]
  exact ⟨⟨hm.entries, hm.regions, hm.returns, hm.handlers⟩, rfl⟩

/-- Answering questions keeps a table fully built. -/
theorem congr (ht : t.FullyBuilt m) (hcoherent : t'.Coherent) (hforget : t'.forget = t.forget) :
    t'.FullyBuilt m := by
  have hsettings : t'.forget.settings = t.forget.settings := congrArg Table.settings hforget
  refine ⟨?_, hcoherent⟩
  change regionsOf m t'.forget.settings = _
  rw [hsettings, hforget]
  exact ht.regions

variable (ht : t.FullyBuilt m)

include ht

theorem entries : m.EntriesValid :=
  (regionsOf_eq_ok_iff.1 ht.regions).1.1

theorem disjoint : m.RegionsDisjoint :=
  (regionsOf_eq_ok_iff.1 ht.regions).1.2.1

theorem returns : m.SubroutinesReturn :=
  (regionsOf_eq_ok_iff.1 ht.regions).1.2.2.1

theorem stage : settledStage m t.settings = { t.forget with isSealed := false } :=
  (regionsOf_eq_ok_iff.1 ht.regions).2

theorem method_eq : t.method = m :=
  (congrArg Table.method ht.stage).symm

theorem spans_eq : t.spans = m.seeds :=
  (congrArg Table.spans ht.stage).symm

theorem ownerOf_eq_some_iff {h : Handle} :
    t.ownerOf h = some r ↔ m.IsRegion r ∧ h ∈ m.extent r := by
  obtain rfl := ht.method_eq
  exact Table.ownerOf_eq_some_iff ht.spans_eq ht.disjoint

theorem leaders_eq : t.leaders = m.leaders := by
  have hleaders := congrArg Table.leaders ht.stage
  rw [settledStage, leaders_stage] at hleaders
  rw [← forget_leaders, hleaders]
  rfl

theorem regions_eq : t.regions = m.regionRefs := by
  rw [Table.regions, ht.leaders_eq, Method.regionRefs]

theorem mem_regions_iff : r ∈ t.regions ↔ m.IsRegion r := by
  rw [ht.regions_eq, Method.mem_regionRefs_iff]

theorem forget_region_eq (r : RegionRef) :
    (t.region r).forget = (settledStage m t.settings).region r := by
  rw [← forget_region, ht.stage]
  rfl

theorem members_eq (hr : m.IsRegion r) : (t.region r).members = m.membersOf r :=
  (congrArg Region.members (ht.forget_region_eq r)).trans (members_region_stage hr)

theorem region_sub (hl : m.IsLeader l) : (t.region (.sub l.position)).forget =
    m.subroutine (m.membersOf (.sub l.position)) (m.retsList l).head? l := by
  rw [ht.forget_region_eq, settledStage, region_stage_sub hl]

theorem isTop_sub (hl : m.IsLeader l) : (t.region (.sub l.position)).isTop = false :=
  congrArg Region.isTop (ht.region_sub hl)

/-- The calls of a subroutine are those that target its entry. -/
theorem calls_eq (hl : m.IsLeader l) : (t.region (.sub l.position)).calls = m.callersList l :=
  congrArg Region.calls (ht.region_sub hl)

theorem entering_eq (hl : m.IsLeader l) :
    (t.region (.sub l.position)).entering = .ok (m.callersList l) := by
  rw [Region.entering, ht.isTop_sub hl, ht.calls_eq hl]
  rfl

/-- The `ret` of a subroutine is there, and it reads the slot that the leader stores to. -/
theorem exists_ret (hl : m.IsLeader l) : ∃ ret s, (t.region (.sub l.position)).ret = some ret ∧
    (t.region (.sub l.position)).leavingRet = .ok ret ∧ ret.instruction.slot = some s ∧
      l.instruction.slot = some s := by
  obtain ⟨ret, hhead, -, hsame⟩ := Method.head?_retsList hl (ht.returns l hl)
  obtain ⟨s, hs⟩ := Option.isSome_iff_exists.1
    (Instruction.isSome_slot_of_storesAddress (ht.entries l hl).2)
  have hret : (t.region (.sub l.position)).ret = some ret :=
    (congrArg Region.ret (ht.region_sub hl)).trans hhead
  refine ⟨ret, s, hret, ?_, hsame.trans hs, hs⟩
  rw [Region.leavingRet, ht.isTop_sub hl, hret]
  rfl

/-! ### Calls -/

theorem calleesOf_eq (hr : m.IsRegion r) : t.calleesOf (t.region r) = .ok (m.calleesFrom r) := by
  rw [← forget_calleesOf, ht.forget_region_eq, ← calleesOf_settledStage ht.entries hr, ht.stage]
  rfl

theorem graphOf_eq (hr : m.IsRegion r) : t.graphOf (t.region r) = .ok (m.callGraph r) := by
  rw [← forget_graphOf, ht.forget_region_eq, ← graphOf_settledStage ht.entries hr, ht.stage]
  rfl

theorem yields_callees (hr : m.IsRegion r) :
    (Query.callees r).Yields t (.ok (m.calleesFrom r)) := by
  have h := Query.yields_callees ht.coherent r
  rwa [ht.calleesOf_eq hr] at h

theorem calls_iff (hr : m.IsRegion r) : t.Calls r p ↔ p ∈ m.calleesFrom r := by
  rw [Calls, (ht.yields_callees hr).fst]
  simp only [Except.ok.injEq, exists_eq_left']

theorem callPath_iff_chain : t.CallPath path ↔ (m.callGraph .top).Chain path := by
  constructor
  · intro hpath
    induction hpath with
    | nil => exact .nil
    | cons _ hp ih =>
      rw [ht.calls_iff (Method.isRegion_ofPath ih), ← Method.calledAfter_ofPath ih] at hp
      exact ih.cons hp
  · intro hpath
    induction hpath with
    | nil => exact .nil
    | cons hpath hp ih =>
      rw [Method.calledAfter_ofPath hpath, ← ht.calls_iff (Method.isRegion_ofPath hpath)] at hp
      exact ih.cons hp

theorem calls_of_mem_callees {q : Nat} (hq : (m.callGraph r).Calls p q) :
    t.Calls (.sub p) q := by
  by_cases hp : p ∈ m.leaders
  · rw [CallGraph.Calls, Method.callees_callGraph hp] at hq
    exact (ht.calls_iff (r := .sub p) (Method.mem_leaders_iff.1 hp)).2 hq
  · rw [CallGraph.Calls, Method.callees_callGraph_of_notMem hp] at hq
    cases hq

theorem mem_callees_of_calls {q : Nat} (hp : p ∈ m.leaders) (hq : t.Calls (.sub p) q) :
    (m.callGraph r).Calls p q ∧ q ∈ m.leaders := by
  have hregion : m.IsRegion (.sub p) := Method.mem_leaders_iff.1 hp
  rw [ht.calls_iff hregion] at hq
  refine ⟨?_, Method.mem_leaders_of_mem_calleesFrom hregion hq⟩
  rwa [CallGraph.Calls, Method.callees_callGraph hp]

private theorem reflTransGen_calls {q : Nat} (hp : p ∈ m.leaders)
    (hpq : ReflTransGen (fun a b => t.Calls (.sub a) b) p q) :
    ReflTransGen (m.callGraph r).Calls p q ∧ q ∈ m.leaders := by
  induction hpq with
  | refl => exact ⟨.refl, hp⟩
  | tail _ h ih =>
    obtain ⟨hcall, hmem⟩ := ht.mem_callees_of_calls ih.2 h
    exact ⟨ih.1.tail hcall, hmem⟩

private theorem transGen_calls {q : Nat} (hp : p ∈ m.leaders)
    (hpq : TransGen (fun a b => t.Calls (.sub a) b) p q) :
    TransGen (m.callGraph r).Calls p q := by
  obtain ⟨c, hpc, hcq⟩ := TransGen.head'_iff.1 hpq
  obtain ⟨hcall, hc⟩ := ht.mem_callees_of_calls hp hpc
  exact TransGen.head' hcall (ht.reflTransGen_calls hc hcq).1

/-- The circles that a region reaches are those of the call graph seen from it. -/
theorem reachesCircle_iff_circular (hr : m.IsRegion r) :
    t.ReachesCircle r ↔ (m.callGraph r).Circular := by
  constructor
  · rintro ⟨c, p, hc, hcp, hpp⟩
    rw [ht.calls_iff hr] at hc
    obtain ⟨hreach, hp⟩ := ht.reflTransGen_calls (r := r)
      (Method.mem_leaders_of_mem_calleesFrom hr hc) hcp
    exact ⟨c, hc, p, hreach, ht.transGen_calls hp hpp⟩
  · rintro ⟨c, hc, p, hcp, hpp⟩
    have hcalls (a b : Nat) (hab : (m.callGraph r).Calls a b) : t.Calls (.sub a) b :=
      ht.calls_of_mem_callees hab
    exact ⟨c, p, (ht.calls_iff hr).2 hc, ReflTransGen.mono hcalls _ _ hcp,
      TransGen.mono hcalls _ _ hpp⟩

theorem exitSlot_eq (hp : p ∈ m.leaders) : t.exitSlot p = some (t.retSlot p) := by
  obtain ⟨l, hl, rfl⟩ := Method.mem_leaders_iff.1 hp
  obtain ⟨ret, s, hret, hleaving, hs, -⟩ := ht.exists_ret hl
  rw [exitSlot, retSlot, hleaving, hret, Option.bind_some, hs]
  exact hs

end FullyBuilt

end Table

end BytecodeRegions
