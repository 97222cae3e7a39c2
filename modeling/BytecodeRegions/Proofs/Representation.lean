import BytecodeRegions.Proofs.Acceptance

/-!
# What a table represents

The table of an accepted method says what the method is: its leaders are the targets of calls, its
regions have exactly the places reached from where they are entered, owners and dead places agree
with the members, and every subroutine knows its calls, its slot and its only `ret`.

## Main definitions

* `Table.Represents`: the representation invariant.

## Main results

* `Table.represents_of_build`: the table of an accepted method represents it.
-/

namespace BytecodeRegions

namespace Table

/-- What a table says about the subroutine of a leader: its calls are all calls of the leader, and
its slot is both the one that the leader stores to and the one that its only `ret` reads. -/
structure RepresentsSub (t : Table) (m : Method) (l : Handle) : Prop where
  entering : ∃ calls, (t.region (.sub l.position)).entering = .ok calls ∧
    ∀ j, j ∈ calls ↔ j ∈ m.callersOf l
  slot : ∃ ret s, (t.region (.sub l.position)).leavingRet = .ok ret ∧
    (t.region (.sub l.position)).slot = some (Int.ofNat s) ∧
    l.instruction.slot = some s ∧ ret.instruction.slot = some s ∧
    ∀ h, h ∈ (t.region (.sub l.position)).members ∧ h.instruction.isRet = true ↔ h = ret

/-- The representation invariant of a table. -/
structure Represents (t : Table) (m : Method) : Prop where
  /-- The leaders are the targets of calls. -/
  leaders : ∀ p, p ∈ t.leaders ↔ ∃ l, m.IsLeader l ∧ l.position = p
  /-- The members of a region are the places reached from where it is entered. -/
  members : ∀ r ∈ t.regions, ∀ h, h ∈ (t.region r).members ↔ h ∈ m.extent r
  /-- A place is a member of one region at most. -/
  member_once : ∀ r ∈ t.regions, ∀ s ∈ t.regions, ∀ h, h ∈ (t.region r).members →
    h ∈ (t.region s).members → r = s
  /-- The owner of a place is the region that it is a member of. -/
  owner : ∀ h r, t.ownerOf h = some r ↔ r ∈ t.regions ∧ h ∈ (t.region r).members
  /-- The places without owner are the dead ones. -/
  dead : ∀ h, h.body = m.body → (t.ownerOf h = none ↔ h.position ∈ t.dead)
  /-- Every subroutine has its calls, its slot and its `ret`. -/
  subs : ∀ l, m.IsLeader l → t.RepresentsSub m l
  /-- Every call enters one subroutine. -/
  call_once : ∀ j, j.body = m.body → j.instruction.isJsr = true → ∃! p, p ∈ t.leaders ∧
    ∃ calls, (t.region (.sub p)).entering = .ok calls ∧ j ∈ calls

variable {t : Table} {m : Method} {settings : Settings} {l h : Handle}

theorem representsSub_of_forget (ht : t.forget = finished m settings) (hl : m.IsLeader l)
    (hvalid : m.ValidEntry l) (hret : m.ReturnsOnce l) : t.RepresentsSub m l := by
  have hregion := region_sub_of_forget ht hl
  have htop : (t.region (.sub l.position)).isTop = false := congrArg Region.isTop hregion
  have hcalls : (t.region (.sub l.position)).calls = m.callersList l :=
    congrArg Region.calls hregion
  have hslot : (t.region (.sub l.position)).slot = l.instruction.slot.map Int.ofNat :=
    congrArg Region.slot hregion
  have hhead : (t.region (.sub l.position)).ret = (m.retsList l).head? :=
    congrArg Region.ret hregion
  obtain ⟨ret, hfirst, hrets, hsame⟩ := Method.head?_retsList hl hret
  obtain ⟨s, hs⟩ := Option.isSome_iff_exists.1 (Instruction.isSome_slot_of_storesAddress hvalid.2)
  refine ⟨⟨_, by rw [Region.entering, htop]; rfl, fun j => ?_⟩, ret, s, ?_, ?_, hs, ?_, fun h => ?_⟩
  · rw [hcalls, Method.mem_callersList_iff hl.body_eq]
  · rw [Region.leavingRet, htop, hhead, hfirst]
    rfl
  · rw [hslot, hs, Option.map_some]
  · rw [hsame, hs]
  · have hmem : h ∈ m.retsOf l ↔ h = ret := by rw [hrets, Set.mem_singleton_iff]
    rw [members_of_forget ht hl.isRegion]
    exact hmem

/-- A place of the method without owner is dead. -/
theorem ownerOf_eq_none_iff (hh : h.body = t.method.body) :
    t.ownerOf h = none ↔ h.position ∈ t.dead := by
  rw [ownerOf, if_pos (Body.owns_iff.2 hh), dead, List.mem_filter, Body.mem_positions_iff,
    and_iff_right (Handle.position_lt hh), Option.isNone_iff_eq_none]

theorem represents_of_forget (ht : t.forget = finished m settings) (hm : m.Orderly) :
    t.Represents m := by
  have hregion (r : RegionRef) : r ∈ t.regions ↔ m.IsRegion r := by
    rw [regions_of_forget ht, Method.mem_regionRefs_iff]
  have hleader (p : Nat) : p ∈ t.leaders ↔ ∃ l, m.IsLeader l ∧ l.position = p := by
    rw [leaders_of_forget ht, Method.mem_leaders_iff]
  have hsubs (l : Handle) (hl : m.IsLeader l) : t.RepresentsSub m l :=
    representsSub_of_forget ht hl (hm.entries l hl) (hm.returns l hl)
  constructor
  case leaders => exact hleader
  case subs => exact hsubs
  case members =>
    intro r hr h
    exact members_of_forget ht ((hregion r).1 hr)
  case member_once =>
    intro r hr s hs h hhr hhs
    rw [hregion] at hr hs
    rw [members_of_forget ht hr] at hhr
    rw [members_of_forget ht hs] at hhs
    by_contra hne
    exact Set.notMem_empty h (hm.regions r s hr hs hne ▸ ⟨hhr, hhs⟩)
  case owner =>
    intro h r
    rw [ownerOf_of_forget ht hm.regions, hregion]
    exact and_congr_right fun hr => (members_of_forget ht hr).symm
  case dead =>
    intro h hh
    rw [← method_of_forget ht] at hh
    exact ownerOf_eq_none_iff hh
  case call_once =>
    intro j hj hjsr
    obtain ⟨l, hl⟩ := Handle.exists_target?_of_isJsr hjsr
    have hleads : m.IsLeader l := ⟨j, hj, hjsr, hl⟩
    obtain ⟨calls, hentering, hcalls⟩ := (hsubs l hleads).entering
    refine ⟨l.position, ⟨(hleader _).2 ⟨l, hleads, rfl⟩, calls, hentering, ?_⟩, ?_⟩
    · exact (hcalls j).2 ⟨hj, hjsr, hl⟩
    · rintro p ⟨hp, calls', hentering', hmem⟩
      obtain ⟨l', hl', rfl⟩ := (hleader p).1 hp
      obtain ⟨calls'', hentering'', hcalls'⟩ := (hsubs l' hl').entering
      obtain rfl : calls'' = calls' := Except.ok.inj (hentering''.symm.trans hentering')
      have htarget := ((hcalls' j).1 hmem).2.2
      rw [Option.some.inj (htarget.symm.trans hl)]

/-- The table of an accepted method represents the method. -/
theorem represents_of_build (ht : build m settings = .ok t) : t.Represents m := by
  obtain ⟨hm, -, hforget⟩ := finished_of_build_eq_ok ht
  exact represents_of_forget hforget hm

/-- The table of two nested subroutines represents them; the last instruction is dead. -/
theorem nested_represented : ∃ t, build (.nested 2) {} = .ok t ∧ t.Represents (.nested 2) ∧
    t.leaders = [4, 7] ∧ t.dead = [9] := by
  obtain ⟨t, ht, hleaders, hdead, -⟩ := build_nested_two
  exact ⟨t, ht, represents_of_build ht, hleaders, hdead⟩

end Table

end BytecodeRegions
