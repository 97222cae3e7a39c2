import BytecodeRegions.Proofs.Safety

/-!
# The slots of all that is called

The slots of a region and of all it calls are collected by a search: a list of regions to look at is
worked off from its end, and a region that was not seen yet adds its own slots to those collected
and its callees to the list. In which order callees are added is left open here. The regions seen
are always called from the region at the start, and what they call is seen or still on the list, so
once the list is empty, they are all that is called; and since there are only so many regions, the
list gets empty, also where calls go round in a circle. Whatever the order, the slots are in the end
those that the table answers with.

## Main definitions

* `Table.CallsInto`: a region is another one, or called from it, directly or not.
* `Table.Touches`: a member of a region reads or writes a slot.
* `Search`, `Search.Start`, `Search.Step`: the search, with callees in any order.
* `Search.Invariant`: what holds all through a search.
* `Table.CollectsClosure`: slots are those of all that is called.

## Main results

* `Search.Invariant.step`, `Search.Invariant.run`: the invariant is kept.
* `Search.Invariant.mem_slots_iff`: what a search comes to, whatever the order.
* `Table.FullyBuilt.acc_search`: every search ends.
* `Table.recursive_closure`: the slots that a table gives for a region and all it calls.
-/

namespace BytecodeRegions

open Relation (ReflTransGen)

theorem Opcode.width_eq_two_iff {op : Opcode} :
    op.width = 2 ↔ op.localType = some .long ∨ op.localType = some .double := by
  rw [width]
  cases op.localType with
  | none => simp
  | some type => cases type <;> simp [LocalType.width]

theorem Instruction.mem_accessedSlots_iff {i : Instruction Link} {n : Nat} :
    n ∈ i.accessedSlots ↔ ∃ s, i.slot = some s ∧ (n = s ∨
      (i.opcode.localType = some .long ∨ i.opcode.localType = some .double) ∧ n = s + 1) := by
  rw [accessedSlots, ← Opcode.width_eq_two_iff]
  cases i.slot with
  | none => simp
  | some s =>
    by_cases hwidth : i.opcode.width = 2
    · simp [hwidth]
    · simp [hwidth]

namespace Table

/-- A region is the region `r` itself, or called from it, directly or not. -/
def CallsInto (t : Table) (r s : RegionRef) : Prop :=
  ReflTransGen (fun a b => ∃ p, b = .sub p ∧ t.Calls a p) r s

/-- A member of a region reads or writes a slot: its own, or the next one if the value is a long or
a double. -/
def Touches (t : Table) (r : RegionRef) (n : Nat) : Prop :=
  ∃ h ∈ (t.region r).members, ∃ s, h.instruction.slot = some s ∧ (n = s ∨
    (h.instruction.opcode.localType = some .long ∨ h.instruction.opcode.localType = some .double) ∧
      n = s + 1)

/-- The callees of a region, one after another in some order. -/
def EnumeratesCallees (t : Table) (r : RegionRef) (order : List RegionRef) : Prop :=
  ∃ cs, (Query.callees r t).1 = .ok cs ∧ order.Perm (cs.map .sub)

theorem EnumeratesCallees.mem_iff {t : Table} {r s : RegionRef} {order : List RegionRef}
    (horder : t.EnumeratesCallees r order) : s ∈ order ↔ ∃ p, s = .sub p ∧ t.Calls r p := by
  obtain ⟨cs, hcs, hperm⟩ := horder
  rw [hperm.mem_iff, List.mem_map]
  constructor
  · rintro ⟨p, hp, rfl⟩
    exact ⟨p, rfl, cs, hcs, hp⟩
  · rintro ⟨p, rfl, cs', hcs', hp⟩
    obtain rfl := Except.ok.inj (hcs.symm.trans hcs')
    exact ⟨p, hp, rfl⟩

end Table

/-- A search through what is called. -/
structure Search where
  /-- The regions that were looked at. -/
  seen : List RegionRef
  /-- The slots that were collected. -/
  slots : List Nat
  /-- The regions to look at, the next one last. -/
  work : List RegionRef

namespace Search

/-- A search starts at a region with its slots and its callees. -/
inductive Start (t : Table) (r : RegionRef) : Search → Prop
  | intro {own : List Nat} {work : List RegionRef} (hown : (Query.accessed r t).1 = .ok own)
      (hwork : t.EnumeratesCallees r work) : Start t r ⟨[r], own, work⟩

/-- The next region is dropped if it was seen; otherwise it is seen from now on, and adds its slots
and its callees. -/
inductive Step (t : Table) : Search → Search → Prop
  | skip {seen work : List RegionRef} {slots : List Nat} {s : RegionRef} (hs : s ∈ seen) :
      Step t ⟨seen, slots, work ++ [s]⟩ ⟨seen, slots, work⟩
  | visit {seen work more : List RegionRef} {slots own : List Nat} {s : RegionRef} (hs : s ∉ seen)
      (hown : (Query.accessed s t).1 = .ok own) (hmore : t.EnumeratesCallees s more) :
      Step t ⟨seen, slots, work ++ [s]⟩ ⟨s :: seen, slots ++ own, work ++ more⟩

/-- What holds all through a search from a region. -/
structure Invariant (t : Table) (r : RegionRef) (x : Search) : Prop where
  root : r ∈ x.seen
  seen : ∀ s ∈ x.seen, t.CallsInto r s
  work : ∀ s ∈ x.work, t.CallsInto r s
  closed : ∀ s ∈ x.seen, ∀ p, t.Calls s p → .sub p ∈ x.seen ∨ .sub p ∈ x.work
  slots : ∀ n, n ∈ x.slots ↔ ∃ s ∈ x.seen, ∃ own, (Query.accessed s t).1 = .ok own ∧ n ∈ own

variable {t : Table} {m : Method} {r s : RegionRef} {x y : Search} {n p : Nat}

/-! ### The invariant -/

namespace Invariant

theorem start (hx : Start t r x) : x.Invariant t r := by
  obtain ⟨hown, hwork⟩ := hx
  constructor
  case root => exact List.mem_singleton_self r
  case seen =>
    intro s hs
    rw [List.mem_singleton.1 hs]
    exact .refl
  case work => exact fun s hs => .single (hwork.mem_iff.1 hs)
  case closed =>
    intro s hs p hp
    rw [List.mem_singleton.1 hs] at hp
    exact .inr (hwork.mem_iff.2 ⟨p, rfl, hp⟩)
  case slots =>
    simp only [List.mem_singleton, exists_eq_left, hown, Except.ok.injEq, exists_eq_left',
      implies_true]

/-- One step of a search keeps the invariant. -/
theorem step (hx : x.Invariant t r) (hstep : Step t x y) : y.Invariant t r := by
  cases hstep with
  | @skip seen work slots s hs =>
    refine ⟨hx.root, hx.seen, fun a ha => hx.work a (List.mem_append_left _ ha), ?_, hx.slots⟩
    intro a ha p hp
    rcases hx.closed a ha p hp with hseen | hwork
    · exact .inl hseen
    -- a callee that waited at the end of the list is dropped because it was seen
    rcases List.mem_append.1 hwork with hwork | hlast
    · exact .inr hwork
    · exact .inl (List.mem_singleton.1 hlast ▸ hs)
  | @visit seen work more slots own s hs hown hmore =>
    have hcalled : t.CallsInto r s :=
      hx.work s (List.mem_append_right _ (List.mem_singleton_self s))
    constructor
    case root => exact List.mem_cons_of_mem s hx.root
    case seen => exact List.forall_mem_cons.2 ⟨hcalled, hx.seen⟩
    case work =>
      intro a ha
      rcases List.mem_append.1 ha with ha | ha
      · exact hx.work a (List.mem_append_left _ ha)
      · exact hcalled.tail (hmore.mem_iff.1 ha)
    case closed =>
      intro a ha p hp
      rcases List.mem_cons.1 ha with rfl | ha
      · exact .inr (List.mem_append_right _ (hmore.mem_iff.2 ⟨p, rfl, hp⟩))
      rcases hx.closed a ha p hp with hseen | hwork
      · exact .inl (List.mem_cons_of_mem s hseen)
      rcases List.mem_append.1 hwork with hwork | hlast
      · exact .inr (List.mem_append_left _ hwork)
      · exact .inl (List.mem_singleton.1 hlast ▸ List.mem_cons_self)
    case slots =>
      intro n
      rw [List.mem_append, hx.slots, List.exists_mem_cons_iff, hown]
      simp only [Except.ok.injEq, exists_eq_left']
      exact or_comm

theorem run (hx : x.Invariant t r) (hrun : ReflTransGen (Step t) x y) : y.Invariant t r := by
  induction hrun with
  | refl => exact hx
  | tail _ hstep ih => exact ih.step hstep

/-- Once nothing is left to look at, the regions seen are all that is called. -/
theorem mem_seen_iff (hx : x.Invariant t r) (hwork : x.work = []) :
    s ∈ x.seen ↔ t.CallsInto r s := by
  refine ⟨hx.seen s, fun hs => ?_⟩
  induction hs with
  | refl => exact hx.root
  | tail _ hcall ih =>
    obtain ⟨p, rfl, hp⟩ := hcall
    refine (hx.closed _ ih p hp).resolve_right ?_
    rw [hwork]
    exact List.not_mem_nil

theorem mem_slots_iff (hx : x.Invariant t r) (hwork : x.work = []) : n ∈ x.slots ↔
    ∃ s own, t.CallsInto r s ∧ (Query.accessed s t).1 = .ok own ∧ n ∈ own := by
  simp only [hx.slots, hx.mem_seen_iff hwork]
  constructor
  · rintro ⟨s, hs, own, hown, hn⟩
    exact ⟨s, own, hs, hown, hn⟩
  · rintro ⟨s, own, hs, hown, hn⟩
    exact ⟨s, hs, own, hown, hn⟩

end Invariant

/-! ### Every search ends -/

/-- The regions of a table that were not looked at yet. -/
def unseen (t : Table) (x : Search) : List RegionRef :=
  t.regions.filter fun s => s ∉ x.seen

/-- Each step leaves fewer regions unseen, or as many and less work. -/
theorem Step.decreases (hstep : Step t x y) (hwork : ∀ s ∈ x.work, s ∈ t.regions) :
    Prod.Lex (· < ·) (· < ·) ((y.unseen t).length, y.work.length)
      ((x.unseen t).length, x.work.length) := by
  cases hstep with
  | skip hs => exact .right _ (by simp)
  | @visit seen work more slots own s hs hown hmore =>
    refine .left _ _ ?_
    have hmem : s ∈ unseen t ⟨seen, slots, work ++ [s]⟩ :=
      List.mem_filter.2 ⟨hwork s (by simp), by simpa using hs⟩
    have hfilter : unseen t ⟨s :: seen, slots ++ own, work ++ more⟩ =
        (unseen t ⟨seen, slots, work ++ [s]⟩).filter (· ≠ s) := by
      simp only [unseen, List.filter_filter, List.mem_cons, not_or, Bool.decide_and]
    rw [hfilter, List.length_filter_lt_length_iff_exists]
    exact ⟨s, hmem, by simp⟩

end Search

namespace Table

variable {t : Table} {m : Method} {settings : Settings} {r s : RegionRef} {n p : Nat}

namespace FullyBuilt

variable (ht : t.FullyBuilt m)

include ht

theorem isRegion_of_calls (hr : m.IsRegion r) (hp : t.Calls r p) : m.IsRegion (.sub p) := by
  rw [ht.calls_iff hr] at hp
  exact Method.isRegion_of_mem_calleesFrom hr hp

theorem isRegion_of_callsInto (hr : m.IsRegion r) (hs : t.CallsInto r s) : m.IsRegion s := by
  induction hs with
  | refl => exact hr
  | tail _ hcall ih =>
    obtain ⟨p, rfl, hp⟩ := hcall
    exact ht.isRegion_of_calls ih hp

/-- What a region calls, directly or not, is what is found in the call graph. -/
theorem callsInto_iff (hr : m.IsRegion r) :
    t.CallsInto r s ↔ s = r ∨ ∃ p ∈ (m.callGraph r).reachable, s = .sub p := by
  simp only [Method.mem_reachable_callGraph_iff hr]
  constructor
  · intro hs
    induction hs with
    | refl => exact .inl rfl
    | @tail b c _ hcall ih =>
      obtain ⟨p, rfl, hp⟩ := hcall
      rcases ih with rfl | ⟨q, ⟨c, hc, hcq⟩, rfl⟩
      · exact .inr ⟨p, ⟨p, (ht.calls_iff hr).1 hp, .refl p⟩, rfl⟩
      · have hreachable := (Method.mem_reachable_callGraph_iff hr).2 ⟨c, hc, hcq⟩
        have hq : q ∈ m.leaders :=
          Method.mem_leaders_iff.2 (Method.isRegion_of_mem_reachable hr hreachable)
        exact .inr ⟨p, ⟨c, hc, hcq.tail (ht.mem_callees_of_calls hq hp).1⟩, rfl⟩
  · rintro (rfl | ⟨p, ⟨c, hc, hcp⟩, rfl⟩)
    · exact .refl
    induction hcp with
    | refl => exact .single ⟨c, rfl, (ht.calls_iff hr).2 hc⟩
    | tail _ hq ih => exact ih.tail ⟨_, rfl, ht.calls_of_mem_callees hq⟩

/-! ### Answers -/

theorem accessed_eq (hr : m.IsRegion r) :
    (Query.accessed r t).1 = .ok (t.region r).accessedSlots := by
  rw [(Query.yields_accessed ht.coherent r).fst, ht.accessedOf_eq hr]

theorem exists_enumeratesCallees (hr : m.IsRegion r) : ∃ order, t.EnumeratesCallees r order :=
  ⟨_, _, (ht.yields_callees hr).fst, .refl _⟩

/-- The slots of a region and of all it calls are the slots of each of these. -/
theorem mem_recursive_iff (hr : m.IsRegion r) : ∃ slots, (Query.recursive r t).1 = .ok slots ∧
    ∀ n, n ∈ slots ↔ ∃ s own, t.CallsInto r s ∧ (Query.accessed s t).1 = .ok own ∧ n ∈ own := by
  refine ⟨_, (Query.yields_recursive ht.coherent r).fst.trans (ht.recursiveOf_eq hr), fun n => ?_⟩
  rw [Region.mem_ascending_iff, List.mem_append, List.mem_flatten]
  constructor
  · rintro (hn | ⟨slots, hslots, hn⟩)
    · exact ⟨r, _, .refl, ht.accessed_eq hr, hn⟩
    · obtain ⟨p, hp, rfl⟩ := List.mem_map.1 hslots
      exact ⟨.sub p, _, (ht.callsInto_iff hr).2 (.inr ⟨p, hp, rfl⟩),
        ht.accessed_eq (Method.isRegion_of_mem_reachable hr hp), hn⟩
  · rintro ⟨s, own, hs, hown, hn⟩
    rw [ht.accessed_eq (ht.isRegion_of_callsInto hr hs)] at hown
    obtain rfl := Except.ok.inj hown
    rcases (ht.callsInto_iff hr).1 hs with rfl | ⟨p, hp, rfl⟩
    · exact .inl hn
    · exact .inr ⟨_, List.mem_map_of_mem hp, hn⟩

/-- The slots of a region are those that its members read or write. -/
theorem mem_accessed_iff (hr : m.IsRegion r) : ∃ own, (Query.accessed r t).1 = .ok own ∧
    ∀ n, n ∈ own ↔ t.Touches r n := by
  refine ⟨_, ht.accessed_eq hr, fun n => ?_⟩
  rw [Region.accessedSlots, Region.mem_ascending_iff, List.mem_flatMap]
  simp only [Instruction.mem_accessedSlots_iff, Touches]

theorem touches_exitSlot (hp : m.IsRegion (.sub p)) :
    ∃ n, t.exitSlot p = some n ∧ t.Touches (.sub p) n := by
  obtain ⟨l, hl, rfl⟩ := hp
  obtain ⟨ret, s, -, hleaving, hslot, hstore⟩ := ht.exists_ret hl
  refine ⟨s, ?_, l, ?_, s, hstore, .inl rfl⟩
  · rw [exitSlot, hleaving]
    exact hslot
  · rw [ht.members_eq hl.isRegion, Method.mem_membersOf_iff hl.isRegion]
    exact Method.leader_mem_extent hl.body_eq

/-! ### Searches -/

theorem exists_start (hr : m.IsRegion r) : ∃ x, Search.Start t r x := by
  obtain ⟨order, horder⟩ := ht.exists_enumeratesCallees hr
  exact ⟨_, .intro (ht.accessed_eq hr) horder⟩

/-- As long as there is a region to look at, a search goes on. -/
theorem exists_step {x : Search} (hr : m.IsRegion r) (hx : x.Invariant t r) (hwork : x.work ≠ []) :
    ∃ y, Search.Step t x y := by
  obtain ⟨seen, slots, work⟩ := x
  obtain ⟨work, s, rfl⟩ := List.eq_nil_or_concat' work |>.resolve_left hwork
  by_cases hs : s ∈ seen
  · exact ⟨_, .skip hs⟩
  · have hregion := ht.isRegion_of_callsInto hr (hx.work s (by simp))
    obtain ⟨order, horder⟩ := ht.exists_enumeratesCallees hregion
    exact ⟨_, .visit hs (ht.accessed_eq hregion) horder⟩

/-- No search goes on forever. -/
theorem acc_search {x : Search} (hr : m.IsRegion r) (hx : x.Invariant t r) :
    Acc (flip (Search.Step t)) x := by
  have hwf : WellFounded (InvImage (Prod.Lex (· < ·) (· < ·)) fun x : Search =>
      ((x.unseen t).length, x.work.length)) :=
    InvImage.wf _ (WellFounded.prod_lex Nat.lt_wfRel.wf Nat.lt_wfRel.wf)
  -- the measure goes down as long as the work is on regions of the table, which the invariant says
  induction x using hwf.induction with
  | _ x ih =>
    refine ⟨x, fun y hstep => ih y ?_ (hx.step hstep)⟩
    refine Search.Step.decreases hstep fun s hs => ?_
    exact ht.mem_regions_iff.2 (ht.isRegion_of_callsInto hr (hx.work s hs))

end FullyBuilt

/-- Slots are those of a region and of all it calls. -/
structure CollectsClosure (t : Table) (r : RegionRef) (slots : List Nat) : Prop where
  /-- They are the slots of the region and of each one that it calls, directly or not. -/
  closure : ∀ n, n ∈ slots ↔
    ∃ s own, t.CallsInto r s ∧ (Query.accessed s t).1 = .ok own ∧ n ∈ own
  /-- The slots of each of these regions are those that its members read or write. -/
  accessed : ∀ s, t.CallsInto r s → ∃ own, (Query.accessed s t).1 = .ok own ∧
    ∀ n, n ∈ own ↔ t.Touches s n
  /-- What a callee collects is among them. -/
  callees : ∀ p, t.Calls r p → ∃ inner, (Query.recursive (.sub p) t).1 = .ok inner ∧ inner ⊆ slots
  /-- The slot that a called subroutine returns by is among them. -/
  exits : ∀ p, t.CallsInto r (.sub p) → ∃ n ∈ slots, t.exitSlot p = some n
  /-- There are searches from the region. -/
  start : ∃ x, Search.Start t r x
  /-- Every search ends, whatever the order in which callees are looked at. -/
  ends : ∀ x, Search.Start t r x → Acc (flip (Search.Step t)) x
  /-- A search goes on as long as there is a region to look at, and comes to these slots. -/
  search : ∀ x y, Search.Start t r x → ReflTransGen (Search.Step t) x y →
    (y.work ≠ [] → ∃ z, Search.Step t y z) ∧ (y.work = [] → ∀ n, n ∈ y.slots ↔ n ∈ slots)

/-- The slots that the table of an accepted method gives for a region and all it calls are there for
every region, on a circle of calls or not, and they are the closure of its own slots along calls. -/
theorem recursive_closure (ht : build m settings = .ok t) (hr : r ∈ t.regions) :
    ∃ slots, (Query.recursive r t).1 = .ok slots ∧ t.CollectsClosure r slots := by
  have hbuilt := FullyBuilt.of_build ht
  rw [hbuilt.mem_regions_iff] at hr
  obtain ⟨slots, hslots, hmem⟩ := hbuilt.mem_recursive_iff hr
  refine ⟨slots, hslots, hmem, ?accessed, ?callees, ?exits, hbuilt.exists_start hr, ?ends, ?search⟩
  case accessed => exact fun s hs => hbuilt.mem_accessed_iff (hbuilt.isRegion_of_callsInto hr hs)
  case callees =>
    intro p hp
    obtain ⟨inner, hinner, hmem'⟩ := hbuilt.mem_recursive_iff (hbuilt.isRegion_of_calls hr hp)
    refine ⟨inner, hinner, fun n hn => ?_⟩
    obtain ⟨s, own, hs, hown, hn⟩ := (hmem' n).1 hn
    exact (hmem n).2 ⟨s, own, .head ⟨p, rfl, hp⟩ hs, hown, hn⟩
  case exits =>
    intro p hp
    have hregion := hbuilt.isRegion_of_callsInto hr hp
    obtain ⟨n, hn, htouches⟩ := hbuilt.touches_exitSlot hregion
    obtain ⟨own, hown, haccessed⟩ := hbuilt.mem_accessed_iff hregion
    exact ⟨n, (hmem n).2 ⟨_, own, hp, hown, (haccessed n).2 htouches⟩, hn⟩
  case ends => exact fun x hx => hbuilt.acc_search hr (.start hx)
  case search =>
    intro x y hx hrun
    have hy := (Search.Invariant.start hx).run hrun
    refine ⟨hbuilt.exists_step hr hy, fun hwork n => ?_⟩
    rw [hy.mem_slots_iff hwork, hmem]

/-- Of two dead subroutines that call each other, each has the slots of both. -/
theorem recursive_closure_circling : ∃ t, build .circling {} = .ok t ∧ .sub 1 ∈ t.regions ∧
    (Query.recursive (.sub 1) t).1 = .ok [1, 2] ∧ t.CollectsClosure (.sub 1) [1, 2] := by
  have heval : (build .circling {}).toOption.map
      (fun t => (t.leaders, (Query.recursive (.sub 1) t).1.toOption)) =
    some ([1, 4], some [1, 2]) := by cbv
  cases ht : build .circling {} with
  | error f => rw [ht] at heval; cases heval
  | ok t =>
    rw [ht] at heval
    obtain ⟨hleaders, hrecursive⟩ := Prod.mk.inj (Option.some.inj heval)
    have hr : .sub 1 ∈ t.regions := by
      rw [regions, hleaders]
      decide
    obtain ⟨slots, hslots, hclosure⟩ := recursive_closure ht hr
    rw [hslots] at hrecursive
    obtain rfl : slots = [1, 2] := Option.some.inj hrecursive
    exact ⟨t, rfl, hr, hslots, hclosure⟩

end Table

end BytecodeRegions
