import BytecodeRegions.Proofs.Acceptance
import BytecodeRegions.Proofs.Table.Questions
import Mathlib.Algebra.BigOperators.Group.Finset.Basic
import Mathlib.Algebra.Order.BigOperators.Group.Multiset

/-!
# The figures of a table

A table counts its instructions in several ways: by the positions that its regions own, by the
members of each region, and by what is left over. Since every instruction is a member of one region
or dead, the figures add up, and each region is as large as the number of instructions that are
said to be its own.

## Main definitions

* `Table.owners`, `Table.ownedBy`: the owner of every instruction, and how many a region owns.
* `Statistics.Accounts`: the figures account for every instruction once.

## Main results

* `Table.FullyBuilt.sum_ownedBy`: every instruction has one owner or is dead.
* `Table.FullyBuilt.ownedBy_eq`: a region owns as many instructions as it has members.
* `Table.statistics_accounts`: the figures of an accepted method add up.
-/

namespace BytecodeRegions

/-- The owner of every instruction, if it has one, from the first instruction to the last. -/
def Table.owners (t : Table) : List (Option RegionRef) :=
  t.method.body.handles.map t.ownerOf

/-- The number of instructions that a region is said to own. -/
def Table.ownedBy (t : Table) (r : RegionRef) : Nat :=
  t.owners.countP (· = some r)

/-- The figures of a table account for every instruction once. -/
structure Statistics.Accounts (s : Statistics) (t : Table) : Prop where
  /-- All instructions of the method are counted. -/
  size : s.instructions = t.method.body.size
  /-- Every instruction is one of the top level, of one subroutine, or dead. -/
  total : s.instructions = s.topLevel + (s.perSubroutine.map Prod.snd).sum + s.dead
  /-- The instructions of the regions are the reachable ones. -/
  reachable : s.reachable = s.topLevel + (s.perSubroutine.map Prod.snd).sum
  /-- The dead instructions are those that the table lists. -/
  dead : s.dead = t.dead.length
  /-- There is one entry for each subroutine. -/
  entries : s.perSubroutine.map Prod.fst = t.leaders ∧ t.leaders.Nodup
  /-- The top level has its first instruction. -/
  topLevel : 1 ≤ s.topLevel ∧ s.topLevel = t.ownedBy .top
  /-- A subroutine has its leader and its `ret`. -/
  subroutine : ∀ p n, (p, n) ∈ s.perSubroutine → 2 ≤ n ∧ n = t.ownedBy (.sub p)

namespace Body

variable {b : Body} {h : Handle}

theorem mem_handles_iff : h ∈ b.handles ↔ h.body = b := by
  rw [handles, mem_filterMap_handle?_iff, mem_positions_iff]
  exact and_iff_left_of_imp Handle.position_lt

theorem nodup_handles (b : Body) : b.handles.Nodup :=
  nodup_filterMap_handle? (fun _ hp => mem_positions_iff.1 hp) List.nodup_range

theorem map_position_handles (b : Body) : b.handles.map Handle.position = b.positions :=
  map_position_filterMap_handle? fun _ hp => mem_positions_iff.1 hp

end Body

/-- Where all values of a list are among different ones, the numbers of times that each of these
occurs add up to the length of the list. -/
theorem sum_map_countP_eq_length {α : Type} [DecidableEq α] {values l : List α}
    (hnodup : values.Nodup) (hl : ∀ a ∈ l, a ∈ values) :
    (values.map fun a => l.countP (· = a)).sum = l.length := by
  have hcard : ∑ a ∈ values.toFinset, (l : Multiset α).count a = (l : Multiset α).card :=
    Multiset.sum_count_eq_card fun a ha => List.mem_toFinset.2 (hl a ha)
  simp only [Multiset.coe_count, Multiset.coe_card] at hcard
  rw [← List.sum_toFinset _ hnodup, ← hcard]
  rfl

namespace Method

/-- A subroutine that returns has two places at least: it starts by storing its return address and
ends by reading it. -/
theorem two_le_length_membersOf {m : Method} {l : Handle} (hl : m.IsLeader l)
    (hentry : m.ValidEntry l) (hreturn : m.ReturnsOnce l) :
    2 ≤ (m.membersOf (.sub l.position)).length := by
  obtain ⟨ret, hrets, -⟩ := hreturn
  have hret : ret ∈ m.retsOf l := hrets ▸ rfl
  have hne : l ≠ ret := by
    rintro rfl
    have hstore : l.instruction.opcode.kind = .store :=
      eq_of_beq (Bool.and_eq_true_iff.1 hentry.2).1
    have hkind : l.instruction.opcode.kind = .ret := eq_of_beq hret.2
    rw [hstore] at hkind
    cases hkind
  have hsubset : [l, ret] ⊆ m.membersOf (.sub l.position) := by
    intro h hh
    rw [mem_membersOf_iff hl.isRegion]
    rcases List.mem_pair.1 hh with rfl | rfl
    · exact leader_mem_extent hl.body_eq
    · exact hret.1
  have hnodup : [l, ret].Nodup :=
    List.nodup_cons.2 ⟨by simpa using hne, List.nodup_singleton ret⟩
  exact hnodup.length_le_of_subset hsubset

end Method

namespace Table

variable {t : Table} {m : Method} {settings : Settings} {r : RegionRef} {p : Nat}

theorem owners_eq (t : Table) : t.owners = t.method.body.positions.map (ownerIn t.spans) := by
  rw [owners, ← Body.map_position_handles, List.map_map]
  refine List.map_congr_left fun h hh => ?_
  exact if_pos (Body.owns_iff.2 (Body.mem_handles_iff.1 hh))

theorem length_owners (t : Table) : t.owners.length = t.method.body.size := by
  rw [owners_eq, List.length_map, Body.positions, List.length_range]

/-- Every position has an owner or is dead. -/
theorem ownedCount_add_length_dead (t : Table) :
    t.ownedCount + t.dead.length = t.method.body.size := by
  have hcount := List.length_eq_countP_add_countP (fun p => (ownerIn t.spans p).isSome)
    (l := t.method.body.positions)
  rw [Body.positions, List.length_range] at hcount
  rw [ownedCount, dead, ← List.countP_eq_length_filter, hcount, Body.positions]
  refine congrArg _ (List.countP_congr fun p _ => ?_)
  simp

theorem length_dead (t : Table) : t.dead.length = t.owners.countP (· = none) := by
  rw [dead, owners_eq, List.countP_map, ← List.countP_eq_length_filter]
  refine List.countP_congr fun p _ => ?_
  rw [Option.isNone_iff_eq_none, Function.comp_apply, decide_eq_true_iff]

namespace FullyBuilt

variable (ht : t.FullyBuilt m)

include ht

/-- A region owns as many instructions as it has members. -/
theorem ownedBy_eq (hr : m.IsRegion r) : t.ownedBy r = (m.membersOf r).length := by
  have hperm : (m.body.handles.filter fun h => t.ownerOf h = some r).Perm (m.membersOf r) := by
    refine (List.perm_ext_iff_of_nodup ?_ (m.nodup_membersOf r)).2 fun h => ?_
    · exact m.body.nodup_handles.filter _
    · rw [List.mem_filter, Body.mem_handles_iff, decide_eq_true_iff, ht.ownerOf_eq_some_iff,
        Method.mem_membersOf_iff hr, and_iff_right hr]
      exact and_iff_right_of_imp Method.body_eq_of_mem_extent
  rw [ownedBy, owners, ht.method_eq, List.countP_map, List.countP_eq_length_filter]
  exact hperm.length_eq

/-- Every instruction has one region for its owner or is dead. -/
theorem sum_ownedBy : t.dead.length + (m.regionRefs.map t.ownedBy).sum = m.body.size := by
  -- dead instructions are counted as those whose owner is `none`
  have hnodup : (none :: m.regionRefs.map some).Nodup :=
    List.nodup_cons.2 ⟨by simp, m.nodup_regionRefs.map (Option.some_injective _)⟩
  have howners : ∀ o ∈ t.owners, o ∈ none :: m.regionRefs.map some := by
    intro o ho
    obtain ⟨h, -, rfl⟩ := List.mem_map.1 ho
    cases hr : t.ownerOf h with
    | none => exact List.mem_cons_self
    | some r =>
      have hregion := Method.mem_regionRefs_iff.2 (ht.ownerOf_eq_some_iff.1 hr).1
      exact List.mem_cons_of_mem _ (List.mem_map_of_mem hregion)
  have hsum := sum_map_countP_eq_length hnodup howners
  rw [List.map_cons, List.sum_cons, List.map_map, ← length_dead, length_owners,
    ht.method_eq] at hsum
  exact hsum

theorem ownedCount_eq : t.ownedCount = (m.regionRefs.map t.ownedBy).sum := by
  have hsum := ht.sum_ownedBy
  have hdead := t.ownedCount_add_length_dead
  rw [ht.method_eq] at hdead
  omega

theorem top_size_eq : t.top.size = t.ownedBy .top := by
  rw [ht.ownedBy_eq m.isRegion_top, ← ht.members_eq m.isRegion_top]
  rfl

theorem sizes_eq : (t.subs.map fun r => (r.entry.position, r.size)) =
    m.leaders.map fun p => (p, t.ownedBy (.sub p)) := by
  have hsubs : t.subs.map Region.forget = m.leaderHandles.map fun l =>
      m.subroutine (m.membersOf (.sub l.position)) (m.retsList l).head? l :=
    (congrArg Table.subs ht.stage).symm
  have hsizes := congrArg (List.map fun r : Region => (r.entry.position, r.size)) hsubs
  rw [List.map_map, List.map_map] at hsizes
  rw [← Method.map_position_leaderHandles, List.map_map]
  refine hsizes.trans (List.map_congr_left fun l hl => ?_)
  rw [Function.comp_apply, Function.comp_apply,
    ht.ownedBy_eq (Method.mem_leaderHandles_iff.1 hl).isRegion]
  rfl

/-- Figures with these numbers account for every instruction; the nesting depth does not matter. -/
theorem accounts {s : Statistics} (hsize : s.instructions = t.method.body.size)
    (hreachable : s.reachable = t.ownedCount) (htop : s.topLevel = t.top.size)
    (hsubs : s.perSubroutine = t.subs.map fun r => (r.entry.position, r.size)) : s.Accounts t := by
  rw [ht.sizes_eq] at hsubs
  rw [ht.top_size_eq] at htop
  have hreachable' : s.reachable = s.topLevel + (s.perSubroutine.map Prod.snd).sum := by
    rw [hreachable, ht.ownedCount_eq, Method.regionRefs, List.map_cons, List.sum_cons, htop, hsubs,
      List.map_map, List.map_map]
    rfl
  have hcount := t.ownedCount_add_length_dead
  have hdead : s.dead = t.dead.length := by
    rw [Statistics.dead]
    omega
  refine ⟨hsize, ?_, hreachable', hdead, ⟨?_, ?_⟩, ⟨?_, htop⟩, fun p n hpn => ?_⟩
  · omega
  · rw [hsubs, List.map_map, ht.leaders_eq]
    exact List.map_id _
  · rw [ht.leaders_eq]
    exact m.nodup_leaders
  · have hmem := (Method.mem_membersOf_iff m.isRegion_top).2 m.first_mem_extent
    rw [htop, ht.ownedBy_eq m.isRegion_top]
    exact List.length_pos_of_mem hmem
  · rw [hsubs] at hpn
    obtain ⟨q, hq, heq⟩ := List.mem_map.1 hpn
    obtain ⟨rfl, rfl⟩ := Prod.mk.inj heq
    obtain ⟨l, hl, rfl⟩ := Method.mem_leaders_iff.1 hq
    refine ⟨?_, rfl⟩
    rw [ht.ownedBy_eq hl.isRegion]
    exact Method.two_le_length_membersOf hl (ht.entries l hl) (ht.returns l hl)

end FullyBuilt

/-- The figures of an accepted method are there, and they account for every instruction once. -/
theorem statistics_accounts (ht : build m settings = .ok t) :
    ∃ s, (Query.statistics t).1 = .ok s ∧ s.Accounts t := by
  have hbuilt := FullyBuilt.of_build ht
  have hslots := (finished_of_build_eq_ok ht).1.slots
  obtain ⟨d, hd, -⟩ := Query.gives_depth m.isRegion_top hslots.not_circular t hbuilt
  rw [(Query.yields_statistics hbuilt.coherent).fst, statisticsOf,
    ← (Query.yields_depth hbuilt.coherent .top).fst, hd.fst]
  exact ⟨_, rfl, hbuilt.accounts rfl rfl rfl rfl⟩

/-- Two nested subroutines, after which one instruction is dead. -/
theorem statistics_accounts_nested : ∃ t s, build (.nested 2) {} = .ok t ∧
    (Query.statistics t).1 = .ok s ∧ s.Accounts t ∧ s.instructions = 10 ∧ s.topLevel = 4 ∧
      s.perSubroutine = [(4, 3), (7, 2)] ∧ s.dead = 1 := by
  have heval : (build (.nested 2) {}).toOption.map (fun t => (Query.statistics t).1.toOption.map
      fun s => (s.instructions, s.topLevel, s.perSubroutine, s.dead)) =
    some (some (10, 4, [(4, 3), (7, 2)], 1)) := by cbv
  obtain ⟨t, ht, -⟩ := build_nested_two
  obtain ⟨s, hs, haccounts⟩ := statistics_accounts ht
  rw [ht] at heval
  have hfigures : (Query.statistics t).1.toOption.map
      (fun s => (s.instructions, s.topLevel, s.perSubroutine, s.dead)) =
    some (10, 4, [(4, 3), (7, 2)], 1) := Option.some.inj heval
  rw [hs] at hfigures
  obtain ⟨hsize, hrest⟩ := Prod.mk.inj (Option.some.inj hfigures)
  obtain ⟨htop, hrest⟩ := Prod.mk.inj hrest
  obtain ⟨hsubs, hdead⟩ := Prod.mk.inj hrest
  exact ⟨t, s, ht, hs, haccounts, hsize, htop, hsubs, hdead⟩

end Table

end BytecodeRegions
