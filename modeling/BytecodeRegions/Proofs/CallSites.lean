import BytecodeRegions.Proofs.Acceptance
import BytecodeRegions.Proofs.DotText
import BytecodeRegions.Proofs.Table.Questions

/-!
# Diagrams and call sites

Which regions call which is found by looking through the members of each region; the calls of a
subroutine were attached to it before there were any members, those in dead code included. A diagram
of calls takes its edges from the one and the positions on them from the other. Here the two are
shown to agree: on the edge between two regions are exactly the calls of the second one that the
first one owns, so that a call that is owned is on one edge, and a dead one on none.

## Main definitions

* `Diagram.Faithful`: a diagram shows the call sites of a table.

## Main results

* `Method.mem_sites_iff`: the positions on an edge.
* `Method.nodup_edges`: one edge for each region and each subroutine that it calls.
* `Table.dot_faithful`: the diagram of an accepted method, as it is written.
-/

namespace BytecodeRegions

open Diagram (Edge Node)

/-! ### The edges of a method -/

namespace Method

variable {m : Method} {r s : RegionRef} {j l : Handle} {p q : Nat}

theorem mem_edges_iff {e : Edge} :
    e ∈ m.edges ↔ ∃ r p, m.IsRegion r ∧ p ∈ m.calleesFrom r ∧ e = m.edge r p := by
  simp only [edges, List.mem_flatMap, mem_regionRefs_iff, List.mem_map]
  constructor
  · rintro ⟨r, hr, p, hp, rfl⟩
    exact ⟨r, p, hr, hp, rfl⟩
  · rintro ⟨r, p, hr, hp, rfl⟩
    exact ⟨r, hr, p, hp, rfl⟩

/-- The calls on an edge are those of the subroutine in the region. -/
theorem mem_sites_iff (hr : m.IsRegion r) (hl : m.IsLeader l) : q ∈ m.sites r l.position ↔
    ∃ j ∈ m.extent r, j.position = q ∧ j.instruction.isJsr = true ∧ j.target? = some l := by
  have hcallers (j : Handle) : j ∈ (m.callsOf l.position).filterMap m.body.handle? ↔
      j ∈ m.callersOf l := mem_callersList_iff hl.body_eq
  simp only [sites, List.mem_map, List.mem_filter, hcallers, decide_eq_true_iff,
    mem_membersOf_iff hr]
  constructor
  · rintro ⟨j, ⟨⟨-, hjsr, ht⟩, hj⟩, rfl⟩
    exact ⟨j, hj, rfl, hjsr, ht⟩
  · rintro ⟨j, hj, rfl, hjsr, ht⟩
    exact ⟨j, ⟨⟨body_eq_of_mem_extent hj, hjsr, ht⟩, hj⟩, rfl⟩

theorem pairwise_sites (m : Method) (r : RegionRef) (l : Handle) :
    (m.sites r l.position).Pairwise (· < ·) :=
  List.pairwise_map.2 ((m.pairwise_callersList l).filter _)

theorem sites_ne_nil (hr : m.IsRegion r) (hp : p ∈ m.calleesFrom r) : m.sites r p ≠ [] := by
  obtain ⟨l, hcall, rfl⟩ := (mem_calleesFrom_iff hr).1 hp
  have hl := hcall.isLeader
  obtain ⟨j, hj, hjsr, ht⟩ := hcall
  exact List.ne_nil_of_mem ((mem_sites_iff hr hl).2 ⟨j, hj, rfl, hjsr, ht⟩)

theorem nodup_calleesFrom (m : Method) (r : RegionRef) : (m.calleesFrom r).Nodup :=
  (Region.pairwise_ascending _).imp Nat.ne_of_lt

/-- There is one edge for each region and each subroutine that it calls. -/
theorem nodup_edges (m : Method) : (m.edges.map fun e => (e.caller, e.callee)).Nodup := by
  rw [edges, List.map_flatMap, List.nodup_flatMap]
  constructor
  · intro r _
    rw [List.map_map]
    refine (m.nodup_calleesFrom r).map fun p q hpq => ?_
    exact RegionRef.sub.inj (Prod.mk.inj hpq).2
  · refine m.nodup_regionRefs.imp fun {r s} hrs pair hpair hpair' => ?_
    simp only [List.map_map, List.mem_map, Function.comp_apply] at hpair hpair'
    obtain ⟨p, -, rfl⟩ := hpair
    obtain ⟨q, -, heq⟩ := hpair'
    exact hrs (Prod.mk.inj heq).1.symm

theorem label_injective {m : Method} {r s : RegionRef} (hr : m.IsRegion r) (hs : m.IsRegion s)
    (hrs : (m.note r).label = (m.note s).label) : r = s := by
  have htop (p : Nat) : "top-level" ≠ "sub@" ++ Text.decimalNat p := by
    intro heq
    have hchars := congrArg String.toList heq
    simp [String.toList_append] at hchars
  cases r with
  | loose i => exact hr.elim
  | top =>
    cases s with
    | loose i => exact hs.elim
    | top => rfl
    | sub q => exact absurd hrs (htop q)
  | sub p =>
    cases s with
    | loose i => exact hs.elim
    | top => exact absurd hrs.symm (htop p)
    | sub q => rw [Text.decimalNat_injective ((String.append_right_inj _).1 hrs)]

theorem legible_label (m : Method) (r : RegionRef) : Diagram.Legible (m.note r).label := by
  have htop : Diagram.Legible "top-level" := ⟨by decide, by decide⟩
  cases r with
  | top => exact htop
  | sub p =>
    have hfree {c : Char} (hc : c.isDigit = false) (hword : c ∉ "sub@".toList) :
        c ∉ (m.note (.sub p)).label.toList := by
      rw [note, String.toList_append, List.mem_append, not_or]
      exact ⟨hword, Diagram.notMem_decimalNat hc p⟩
    exact ⟨hfree rfl (by decide), hfree rfl (by decide)⟩
  | loose i => exact htop

theorem legibleLabels {d : Diagram} (hnodes : d.nodes.map (fun n => (n.region, n.label)) =
      m.regionRefs.map fun r => (r, (m.note r).label)) (hedges : d.edges = m.edges) :
    d.LegibleLabels := by
  have hedge {e : Edge} (he : e ∈ d.edges) : ∃ r p, e = m.edge r p := by
    rw [hedges, mem_edges_iff] at he
    obtain ⟨r, p, -, -, rfl⟩ := he
    exact ⟨r, p, rfl⟩
  constructor
  case node =>
    intro n hn
    have hmem : (n.region, n.label) ∈ d.nodes.map fun n => (n.region, n.label) :=
      List.mem_map_of_mem hn
    rw [hnodes] at hmem
    obtain ⟨r, -, heq⟩ := List.mem_map.1 hmem
    rw [← (Prod.mk.inj heq).2]
    exact m.legible_label r
  case caller =>
    intro e he
    obtain ⟨r, p, rfl⟩ := hedge he
    exact m.legible_label r
  case callee =>
    intro e he
    obtain ⟨r, p, rfl⟩ := hedge he
    exact m.legible_label (.sub p)

end Method

/-! ### Faithful diagrams -/

/-- A diagram shows who calls whom in a table, and from where. -/
structure Diagram.Faithful (d : Diagram) (t : Table) : Prop where
  /-- There is one node for each region. -/
  nodes : d.nodes.map (fun n => (n.region, n.label)) =
    t.regions.map fun r => (r, (t.region r).label)
  /-- Nodes have labels of their own. -/
  nodes_nodup : (d.nodes.map Node.label).Nodup
  /-- No two edges have the same ends. -/
  edges_nodup : (d.edges.map fun e => (e.caller, e.callee)).Nodup
  /-- There is an edge for each region and each subroutine that it calls, and no other. -/
  exists_edge_iff : ∀ r s, (∃ e ∈ d.edges, e.caller = r ∧ e.callee = s) ↔
    r ∈ t.regions ∧ ∃ p, s = .sub p ∧ t.Calls r p
  /-- An edge is labelled by the regions at its ends. -/
  labels : ∀ e ∈ d.edges, e.callerLabel = (t.region e.caller).label ∧
    e.calleeLabel = (t.region e.callee).label
  /-- The calls on an edge are in order. -/
  sites_ascending : ∀ e ∈ d.edges, e.sites.Pairwise (· < ·)
  /-- There is a call on every edge. -/
  sites_ne_nil : ∀ e ∈ d.edges, e.sites ≠ []
  /-- The calls on an edge are those that the one end owns and that target the leader of the
  other. -/
  mem_sites_iff : ∀ e ∈ d.edges, ∀ q, q ∈ e.sites ↔ ∃ j l, j.position = q ∧
    j.instruction.isJsr = true ∧ j.target? = some l ∧ t.ownerOf j = some e.caller ∧
      e.callee = .sub l.position
  /-- A call that is owned is on one edge, from its owner to the region of its target. -/
  owned : ∀ j r, j.instruction.isJsr = true → t.ownerOf j = some r → ∃ l, j.target? = some l ∧
    ∃ e ∈ d.edges, e.caller = r ∧ e.callee = .sub l.position ∧ j.position ∈ e.sites ∧
      ∀ e' ∈ d.edges, j.position ∈ e'.sites → e' = e
  /-- What is dead is on no edge. -/
  dead : ∀ q ∈ t.dead, ∀ e ∈ d.edges, q ∉ e.sites

namespace Table

variable {t : Table} {m : Method} {settings : Settings} {d : Diagram} {r s : RegionRef}
  {j l : Handle} {p q n : Nat}

namespace FullyBuilt

variable (ht : t.FullyBuilt m)

include ht

/-- The calls on an edge, by their owners. -/
theorem mem_sites_iff (hr : m.IsRegion r) (hl : m.IsLeader l) : q ∈ m.sites r l.position ↔
    ∃ j k, j.position = q ∧ j.instruction.isJsr = true ∧ j.target? = some k ∧
      t.ownerOf j = some r ∧ RegionRef.sub l.position = .sub k.position := by
  rw [Method.mem_sites_iff hr hl]
  simp only [ht.ownerOf_eq_some_iff]
  constructor
  · rintro ⟨j, hj, hq, hjsr, ht⟩
    exact ⟨j, l, hq, hjsr, ht, ⟨hr, hj⟩, rfl⟩
  · rintro ⟨j, k, hq, hjsr, ht, ⟨-, hj⟩, hk⟩
    have hbody : k.body = l.body := (Handle.target?_eq_some_iff.1 ht).1.trans
      ((Method.body_eq_of_mem_extent hj).trans hl.body_eq.symm)
    obtain rfl : k = l := Handle.eq_of_position hbody (RegionRef.sub.inj hk).symm
    exact ⟨j, hj, hq, hjsr, ht⟩

/-- The edges of a method can be told by the calls on them: each call has one owner and one
target. -/
theorem edge_eq_of_mem_sites (hr : m.IsRegion r) (hp : p ∈ m.calleesFrom r) (hs : m.IsRegion s)
    (hq : q ∈ m.calleesFrom s) (hn : n ∈ m.sites r p) (hn' : n ∈ m.sites s q) :
    m.edge r p = m.edge s q := by
  obtain ⟨k, hk, rfl⟩ := (Method.mem_calleesFrom_iff hr).1 hp
  obtain ⟨l, hl, rfl⟩ := (Method.mem_calleesFrom_iff hs).1 hq
  obtain ⟨i, hi, rfl, -, hik⟩ := (Method.mem_sites_iff hr hk.isLeader).1 hn
  obtain ⟨j, hj, hji, -, hjl⟩ := (Method.mem_sites_iff hs hl.isLeader).1 hn'
  -- calls at the same position of the method are the same call
  have hbody := (Method.body_eq_of_mem_extent hj).trans (Method.body_eq_of_mem_extent hi).symm
  obtain rfl : j = i := Handle.eq_of_position hbody hji
  have howner := ht.ownerOf_eq_some_iff.2 ⟨hr, hi⟩
  rw [ht.ownerOf_eq_some_iff.2 ⟨hs, hj⟩] at howner
  obtain rfl : s = r := Option.some.inj howner
  obtain rfl : k = l := Option.some.inj (hik.symm.trans hjl)
  rfl

/-- A call that is owned is on one edge. -/
theorem exists_edge_of_ownerOf (hjsr : j.instruction.isJsr = true) (howner : t.ownerOf j = some r) :
    ∃ l, j.target? = some l ∧ m.edge r l.position ∈ m.edges ∧ j.position ∈ m.sites r l.position ∧
      ∀ e ∈ m.edges, j.position ∈ e.sites → e = m.edge r l.position := by
  obtain ⟨hr, hj⟩ := ht.ownerOf_eq_some_iff.1 howner
  obtain ⟨l, hl⟩ := Handle.exists_target?_of_isJsr hjsr
  have hcall : m.Calls r l := ⟨j, hj, hjsr, hl⟩
  have hp : l.position ∈ m.calleesFrom r := (Method.mem_calleesFrom_iff hr).2 ⟨l, hcall, rfl⟩
  have hsite : j.position ∈ m.sites r l.position :=
    (Method.mem_sites_iff hr hcall.isLeader).2 ⟨j, hj, rfl, hjsr, hl⟩
  refine ⟨l, hl, Method.mem_edges_iff.2 ⟨r, _, hr, hp, rfl⟩, hsite, fun e he hsite' => ?_⟩
  obtain ⟨s, q, hs, hq, rfl⟩ := Method.mem_edges_iff.1 he
  exact ht.edge_eq_of_mem_sites hs hq hr hp hsite' hsite

/-- What is dead is on no edge. -/
theorem notMem_sites_of_mem_dead (hr : m.IsRegion r) (hl : m.IsLeader l) (hq : q ∈ t.dead) :
    q ∉ m.sites r l.position := by
  intro hsite
  obtain ⟨j, hj, rfl, -⟩ := (Method.mem_sites_iff hr hl).1 hsite
  have howner : ownerIn m.seeds j.position = some r := (Method.ownerIn_seeds_iff ht.disjoint).2
    ⟨hr, (Method.mem_reachedFrom_iff hr (Method.body_eq_of_mem_extent hj)).2 hj⟩
  have hnone := (List.mem_filter.1 hq).2
  rw [ht.spans_eq, howner] at hnone
  cases hnone

theorem faithful (hnodes : d.nodes.map (fun n => (n.region, n.label)) =
      m.regionRefs.map fun r => (r, (m.note r).label)) (hedges : d.edges = m.edges) :
    d.Faithful t := by
  have hedge {e : Edge} (he : e ∈ d.edges) :
      ∃ r p, m.IsRegion r ∧ p ∈ m.calleesFrom r ∧ e = m.edge r p := by
    rwa [hedges, Method.mem_edges_iff] at he
  have hcallee {r : RegionRef} {p : Nat} (hr : m.IsRegion r) (hp : p ∈ m.calleesFrom r) :
      m.IsRegion (.sub p) := Method.isRegion_of_mem_calleesFrom hr hp
  constructor
  case nodes =>
    rw [hnodes, ht.regions_eq]
    refine List.map_congr_left fun r hr => ?_
    rw [ht.label_eq (Method.mem_regionRefs_iff.1 hr)]
  case nodes_nodup =>
    have hlabels : d.nodes.map Node.label = m.regionRefs.map fun r => (m.note r).label := by
      have hsnd := congrArg (List.map Prod.snd) hnodes
      rwa [List.map_map, List.map_map] at hsnd
    rw [hlabels]
    refine m.nodup_regionRefs.map_on fun r hr s hs hrs => ?_
    rw [Method.mem_regionRefs_iff] at hr hs
    exact Method.label_injective hr hs hrs
  case edges_nodup =>
    rw [hedges]
    exact m.nodup_edges
  case exists_edge_iff =>
    intro r s
    rw [ht.mem_regions_iff]
    constructor
    · rintro ⟨e, he, rfl, rfl⟩
      obtain ⟨r, p, hr, hp, rfl⟩ := hedge he
      exact ⟨hr, p, rfl, (ht.calls_iff hr).2 hp⟩
    · rintro ⟨hr, p, rfl, hp⟩
      rw [ht.calls_iff hr] at hp
      refine ⟨m.edge r p, ?_, rfl, rfl⟩
      rw [hedges]
      exact Method.mem_edges_iff.2 ⟨r, p, hr, hp, rfl⟩
  case labels =>
    intro e he
    obtain ⟨r, p, hr, hp, rfl⟩ := hedge he
    exact ⟨(ht.label_eq hr).symm, (ht.label_eq (hcallee hr hp)).symm⟩
  case sites_ascending =>
    intro e he
    obtain ⟨r, p, hr, hp, rfl⟩ := hedge he
    obtain ⟨l, hl, rfl⟩ := hcallee hr hp
    exact m.pairwise_sites r l
  case sites_ne_nil =>
    intro e he
    obtain ⟨r, p, hr, hp, rfl⟩ := hedge he
    exact Method.sites_ne_nil hr hp
  case mem_sites_iff =>
    intro e he q
    obtain ⟨r, p, hr, hp, rfl⟩ := hedge he
    obtain ⟨l, hl, rfl⟩ := hcallee hr hp
    exact ht.mem_sites_iff hr hl
  case owned =>
    intro j r hjsr howner
    obtain ⟨l, hl, hmem, hsite, hunique⟩ := ht.exists_edge_of_ownerOf hjsr howner
    rw [← hedges] at hmem hunique
    exact ⟨l, hl, m.edge r l.position, hmem, rfl, rfl, hsite, hunique⟩
  case dead =>
    intro q hq e he
    obtain ⟨r, p, hr, hp, rfl⟩ := hedge he
    obtain ⟨l, hl, rfl⟩ := hcallee hr hp
    exact ht.notMem_sites_of_mem_dead hr hl hq

end FullyBuilt

/-- The diagram of calls of an accepted method is there, and it is faithful to the call sites. As
long as its title takes one line, its nodes and edges can be read off line by line. -/
theorem dot_faithful (ht : build m settings = .ok t) : ∃ d : Diagram,
    (Query.diagram t).1 = .ok d ∧ d.Faithful t ∧ ∀ title,
      (Query.dot title t).1 = .ok (d.text title) ∧ ((∀ s ∈ title, '\n' ∉ s.toList) →
        Diagram.writtenNodes (d.text title) = d.nodes.map Node.label ∧
          Diagram.writtenEdges (d.text title) = d.edges.map Edge.written) := by
  have hbuilt := FullyBuilt.of_build ht
  obtain ⟨d, hd, hnodes, hedges⟩ := Query.gives_diagram t hbuilt
  have hfaithful := hbuilt.faithful hnodes hedges
  have hlegible := Method.legibleLabels hnodes hedges
  refine ⟨d, hd.fst, hfaithful, fun title => ⟨?_, fun htitle => ⟨?_, ?_⟩⟩⟩
  · exact (hd.bind (w := fun d => .ok (d.text title)) fun _ _ _ ht' _ => Query.yields_pure ht').fst
  · exact Diagram.writtenNodes_text hlegible htitle
  · exact Diagram.writtenEdges_text hlegible hfaithful.sites_ne_nil htitle

/-- Two nested subroutines: the top level calls the outer one and that one the inner one. -/
theorem dot_faithful_nested : ∃ (t : Table) (d : Diagram), build (.nested 2) {} = .ok t ∧
    d.Faithful t ∧ d.edges.map Edge.written =
      [⟨"top-level", "sub@4", ["0"]⟩, ⟨"sub@4", "sub@7", ["5"]⟩] ∧
    Diagram.writtenEdges (d.text (some "calls")) = d.edges.map Edge.written := by
  have heval : (build (.nested 2) {}).toOption.map (fun t =>
      (Query.diagram t).1.toOption.map fun d => d.edges.map Edge.written) =
    some (some [⟨"top-level", "sub@4", ["0"]⟩, ⟨"sub@4", "sub@7", ["5"]⟩]) := by cbv
  obtain ⟨t, ht, -⟩ := build_nested_two
  obtain ⟨d, hd, hfaithful, htext⟩ := dot_faithful ht
  obtain ⟨-, hread⟩ := htext (some "calls")
  rw [ht] at heval
  have hwritten : (Query.diagram t).1.toOption.map (fun d => d.edges.map Edge.written) =
    some [⟨"top-level", "sub@4", ["0"]⟩, ⟨"sub@4", "sub@7", ["5"]⟩] := Option.some.inj heval
  rw [hd] at hwritten
  exact ⟨t, d, ht, hfaithful, Option.some.inj hwritten, (hread (by decide)).2⟩

end Table

end BytecodeRegions
