import BytecodeRegions.Proofs.Ascending
import BytecodeRegions.Proofs.Evidence
import BytecodeRegions.Table.Build
import Mathlib.Data.List.Pairwise

/-!
# Leaders, reached positions and shared positions

The lists that a table is built from, read as what they stand for: the leaders are the targets of
calls, the positions reached from a region are those of its extent, and the search for a shared
position finds the first region that meets an earlier one.

## Main definitions

* `Method.regionRefs`: the regions in their order.
* `Method.reachedFrom`: the positions reached from a region.

## Main results

* `Method.mem_leaderHandles_iff`, `Method.mem_callsOf_iff`, `Method.mem_reachedFrom_iff`: what the
  lists hold.
* `Method.ownerIn_seeds_iff`: the owner of a position where nothing is shared.
* `Method.sharing?_eq_none_iff`, `Method.sharing?_eq_some`: what the search for a shared position
  finds.
-/

namespace BytecodeRegions

namespace RegionRef.Before

variable {r s u : RegionRef}

theorem ne (h : r.Before s) : r ≠ s := by
  cases h with
  | top_sub => exact nofun
  | sub_sub hpq => exact fun heq => Nat.ne_of_lt hpq (RegionRef.sub.inj heq)

theorem asymm (h : r.Before s) : ¬s.Before r := by
  cases h with
  | top_sub => exact nofun
  | sub_sub hpq => rintro ⟨⟩; omega

theorem trans (hrs : r.Before s) (hsu : s.Before u) : r.Before u := by
  cases hsu with
  | top_sub => cases hrs
  | sub_sub hqu =>
    cases hrs with
    | top_sub => exact .top_sub _
    | sub_sub hpq => exact .sub_sub (Nat.lt_trans hpq hqu)

end RegionRef.Before

namespace Method

variable {m : Method} {r s : RegionRef} {h l : Handle} {p q : Nat}

/-! ### Leaders and their calls -/

theorem pairwise_positions (b : Body) : b.positions.Pairwise (· < ·) :=
  List.pairwise_lt_range

theorem mem_leaders_iff : p ∈ m.leaders ↔ ∃ l, m.IsLeader l ∧ l.position = p := by
  simp only [leaders, List.mem_filter, Body.mem_positions_iff, List.contains_iff_mem,
    List.mem_filterMap, Array.mem_toList_iff]
  constructor
  · rintro ⟨hp, i, hi, hip⟩
    split at hip
    · next hjsr =>
      obtain ⟨q, hq, rfl⟩ := Array.mem_iff_getElem.1 hi
      refine ⟨⟨m.body, p, hp⟩, ⟨⟨m.body, q, hq⟩, rfl, hjsr, ?_⟩, rfl⟩
      exact Handle.target?_eq_some_iff.2 ⟨rfl, hip⟩
    · cases hip
  · rintro ⟨l, hl, rfl⟩
    refine ⟨Handle.position_lt hl.body_eq, ?_⟩
    obtain ⟨j, hj, hjsr, ht⟩ := hl
    refine ⟨j.instruction, Array.mem_of_getElem? (Handle.getElem?_position hj), ?_⟩
    rw [if_pos hjsr, (Handle.target?_eq_some_iff.1 ht).2]

theorem leaders_lt : ∀ p ∈ m.leaders, p < m.body.size := by
  intro p hp
  obtain ⟨l, hl, rfl⟩ := mem_leaders_iff.1 hp
  exact Handle.position_lt hl.body_eq

theorem pairwise_leaders (m : Method) : m.leaders.Pairwise (· < ·) :=
  (pairwise_positions m.body).filter _

/-- The places of the leaders are the leaders. -/
theorem mem_leaderHandles_iff : l ∈ m.leaderHandles ↔ m.IsLeader l := by
  rw [leaderHandles, Body.mem_filterMap_handle?_iff, mem_leaders_iff]
  constructor
  · rintro ⟨hb, l', hl', hp⟩
    exact Handle.eq_of_position (hl'.body_eq.trans hb.symm) hp ▸ hl'
  · intro hl
    exact ⟨hl.body_eq, l, hl, rfl⟩

theorem nodup_leaders (m : Method) : m.leaders.Nodup :=
  (pairwise_leaders m).imp Nat.ne_of_lt

theorem map_position_leaderHandles (m : Method) :
    m.leaderHandles.map Handle.position = m.leaders :=
  Body.map_position_filterMap_handle? leaders_lt

theorem pairwise_leaderHandles (m : Method) :
    m.leaderHandles.Pairwise fun a b => a.position < b.position := by
  rw [← List.pairwise_map (R := (· < ·)), map_position_leaderHandles]
  exact pairwise_leaders m

theorem mem_callsOf_iff (hl : l.body = m.body) :
    p ∈ m.callsOf l.position ↔ ∃ j ∈ m.callersOf l, j.position = p := by
  simp only [callsOf, List.mem_filter, Body.mem_positions_iff, callsAt, instruction?,
    Option.any_eq_true, Bool.and_eq_true, beq_iff_eq]
  constructor
  · rintro ⟨hp, i, hi, hjsr, ht⟩
    have hj := Handle.getElem?_position (b := m.body) (h := ⟨m.body, p, hp⟩) rfl
    obtain rfl : i = (⟨m.body, p, hp⟩ : Handle).instruction := Option.some.inj (hi.symm.trans hj)
    exact ⟨⟨m.body, p, hp⟩, ⟨rfl, hjsr, Handle.target?_eq_some_iff.2 ⟨hl, ht⟩⟩, rfl⟩
  · rintro ⟨j, ⟨hj, hjsr, ht⟩, rfl⟩
    refine ⟨Handle.position_lt hj, j.instruction, Handle.getElem?_position hj, hjsr, ?_⟩
    exact (Handle.target?_eq_some_iff.1 ht).2

theorem callsOf_lt : ∀ p ∈ m.callsOf q, p < m.body.size := by
  intro p hp
  exact Body.mem_positions_iff.1 (List.mem_filter.1 hp).1

theorem listsPositions_callsOf (hl : l.body = m.body) :
    ListsPositions (m.callsOf l.position) (m.callersOf l) :=
  ⟨(pairwise_positions m.body).filter _, fun _ => mem_callsOf_iff hl⟩

/-! ### Regions and what they reach -/

/-- The regions in their order. -/
def regionRefs (m : Method) : List RegionRef :=
  .top :: m.leaders.map .sub

theorem mem_regionRefs_iff : r ∈ m.regionRefs ↔ m.IsRegion r := by
  cases r with
  | top => exact iff_of_true List.mem_cons_self trivial
  | sub p => simp [regionRefs, IsRegion, mem_leaders_iff]
  | loose i => simp [regionRefs, IsRegion]

theorem pairwise_regionRefs (m : Method) : m.regionRefs.Pairwise RegionRef.Before := by
  refine List.pairwise_cons.2 ⟨fun r hr => ?_, ?_⟩
  · obtain ⟨p, -, rfl⟩ := List.mem_map.1 hr
    exact .top_sub p
  · exact List.pairwise_map.2 ((pairwise_leaders m).imp .sub_sub)

/-- The positions reached from a region, in ascending order. -/
def reachedFrom (m : Method) : RegionRef → List Nat
  | .top => m.reached m.topRoots
  | .sub p => m.reached [p]
  | .loose _ => []

/-- A region with the positions reached from it. -/
def spanOf (m : Method) (r : RegionRef) : Span :=
  ⟨r, m.reachedFrom r⟩

theorem seeds_eq (m : Method) : m.seeds = m.regionRefs.map m.spanOf := by
  simp only [seeds, regionRefs, List.map_cons, List.map_map]
  rfl

theorem topRoots_lt : ∀ p ∈ m.topRoots, p < m.body.size := by
  intro p hp
  rcases List.mem_cons.1 hp with rfl | hp
  · exact m.nonempty
  · obtain ⟨x, hx, rfl⟩ := List.mem_map.1 hp
    exact Handle.position_lt (Body.owns_iff.1 (List.mem_filter.1 hx).2)

theorem mem_topRoots_iff (hh : h.body = m.body) : h.position ∈ m.topRoots ↔ h ∈ m.entries .top := by
  simp only [topRoots, List.mem_cons, List.mem_map, List.mem_filter, Body.owns_iff]
  constructor
  · rintro (h0 | ⟨x, ⟨hx, hb⟩, hp⟩)
    · exact ⟨hh, .inl (Handle.eq_of_position hh h0)⟩
    · exact ⟨hh, .inr ⟨x, hx, Handle.eq_of_position (hb.trans hh.symm) hp⟩⟩
  · rintro ⟨-, rfl | ⟨x, hx, rfl⟩⟩
    · exact .inl rfl
    · exact .inr ⟨x, ⟨hx, hh⟩, rfl⟩

private theorem exists_reaches_iff {roots : List Nat} {S : Set Handle}
    (hS : ∀ e : Handle, e.body = m.body → (e.position ∈ roots ↔ e ∈ S))
    (hbody : ∀ e ∈ S, e.body = m.body) (hroots : ∀ p ∈ roots, p < m.body.size)
    (hh : h.body = m.body) : h.position ∈ m.reached roots ↔ h ∈ reachSet S := by
  rw [mem_reached_iff hroots]
  constructor
  · rintro ⟨p, hp, hr⟩
    refine ⟨⟨m.body, p, hroots p hp⟩, (hS _ rfl).1 hp, ?_⟩
    exact Handle.reaches_iff.2 ⟨hh, hr⟩
  · rintro ⟨e, he, hr⟩
    have hb := hbody e he
    refine ⟨e.position, (hS e hb).2 he, ?_⟩
    exact hb ▸ (Handle.reaches_iff.1 hr).2

/-- What is reached from a region is its extent. -/
theorem mem_reachedFrom_iff (hr : m.IsRegion r) (hh : h.body = m.body) :
    h.position ∈ m.reachedFrom r ↔ h ∈ m.extent r := by
  cases r with
  | top => exact exists_reaches_iff (fun _ => mem_topRoots_iff) (fun _ he => he.1) topRoots_lt hh
  | sub p =>
    obtain ⟨l, hl, rfl⟩ := hr
    refine exists_reaches_iff (fun e he => ?_) (fun _ he => he.1) ?_ hh
    · rw [List.mem_singleton]
      exact ⟨fun hp => ⟨he, hp⟩, fun hp => hp.2⟩
    · rintro p hp
      rw [List.mem_singleton.1 hp]
      exact Handle.position_lt hl.body_eq
  | loose i => exact hr.elim

theorem reachedFrom_lt : ∀ p ∈ m.reachedFrom r, p < m.body.size := by
  intro p hp
  cases r with
  | top => exact Body.mem_positions_iff.1 (List.mem_filter.1 hp).1
  | sub q => exact Body.mem_positions_iff.1 (List.mem_filter.1 hp).1
  | loose i => cases hp

theorem pairwise_reachedFrom (m : Method) (r : RegionRef) :
    (m.reachedFrom r).Pairwise (· < ·) := by
  cases r with
  | top => exact (pairwise_positions m.body).filter _
  | sub q => exact (pairwise_positions m.body).filter _
  | loose i => exact List.Pairwise.nil

/-! ### Owners -/

/-- The owner of a position is the first region that reaches it. -/
theorem ownerIn_map_spanOf (rs : List RegionRef) :
    ownerIn (rs.map m.spanOf) p = rs.find? fun r => (m.reachedFrom r).contains p := by
  rw [ownerIn, List.find?_map, Option.map_map]
  exact Option.map_id_apply

theorem ownerIn_map_spanOf_eq_none_iff {rs : List RegionRef} :
    ownerIn (rs.map m.spanOf) p = none ↔ ∀ r ∈ rs, p ∉ m.reachedFrom r := by
  simp only [ownerIn_map_spanOf, List.find?_eq_none, List.contains_iff_mem]

theorem mem_of_ownerIn_map_spanOf {rs : List RegionRef}
    (hr : ownerIn (rs.map m.spanOf) p = some r) : r ∈ rs ∧ p ∈ m.reachedFrom r := by
  rw [ownerIn_map_spanOf] at hr
  have hp := List.find?_some hr
  exact ⟨List.mem_of_find?_eq_some hr, List.contains_iff_mem.1 hp⟩

/-! ### Sharing -/

/-- Two regions reach no common position. -/
def Apart (m : Method) (r s : RegionRef) : Prop :=
  ∀ p ∈ m.reachedFrom s, p ∉ m.reachedFrom r

instance : Std.Symm m.Apart where
  symm _ _ hap p hps hpr := hap p hpr hps

theorem overlap?_eq_none_iff {rs : List RegionRef} :
    overlap? (rs.map m.spanOf) (m.spanOf s) = none ↔ ∀ r ∈ rs, m.Apart r s := by
  simp only [overlap?, List.findSome?_eq_none_iff, Option.map_eq_none_iff,
    ownerIn_map_spanOf_eq_none_iff, Apart]
  exact ⟨fun h r hr p hp => h p hp r hr, fun h p hp r hr => h r hr p hp⟩

/-- An overlap is the first position that an earlier region reaches too. -/
theorem overlap?_eq_some {rs : List RegionRef}
    (h : overlap? (rs.map m.spanOf) (m.spanOf s) = some (p, r)) :
    r ∈ rs ∧ p ∈ m.reachedFrom r ∧ p ∈ m.reachedFrom s ∧
      ∀ r' ∈ rs, ∀ q ∈ m.reachedFrom r', q ∈ m.reachedFrom s → p ≤ q := by
  obtain ⟨before, a, after, heq, ha, hbefore⟩ := List.findSome?_eq_some_iff.1 h
  obtain ⟨r₀, hr₀, hpr⟩ := Option.map_eq_some_iff.1 ha
  cases hpr
  obtain ⟨hmem, hp⟩ := mem_of_ownerIn_map_spanOf hr₀
  have hs : m.reachedFrom s = before ++ p :: after := heq
  have hsorted := pairwise_reachedFrom m s
  rw [hs, List.pairwise_append] at hsorted
  refine ⟨hmem, hp, by simp [hs], fun r' hr' q hq hqs => ?_⟩
  rw [hs, List.mem_append, List.mem_cons] at hqs
  rcases hqs with hqs | rfl | hqs
  · have hnone := ownerIn_map_spanOf_eq_none_iff.1 (Option.map_eq_none_iff.1 (hbefore q hqs))
    exact absurd hq (hnone r' hr')
  · exact Nat.le_refl q
  · exact Nat.le_of_lt ((List.pairwise_cons.1 hsorted.2.1).1 q hqs)

/-- A region that meets none of the regions in front of it can be put behind them. -/
theorem pairwise_apart_concat {pre : List RegionRef} (hpre : pre.Pairwise m.Apart)
    (hs : overlap? (pre.map m.spanOf) (m.spanOf s) = none) : (pre ++ [s]).Pairwise m.Apart := by
  rw [List.pairwise_append]
  refine ⟨hpre, List.pairwise_singleton _ s, fun r hr s' hs' => ?_⟩
  rw [List.mem_singleton.1 hs']
  exact overlap?_eq_none_iff.1 hs r hr

theorem sharingFrom_eq_none_iff {pre : List RegionRef} (hpre : pre.Pairwise m.Apart)
    (later : List RegionRef) :
    sharingFrom (pre.map m.spanOf) (later.map m.spanOf) = none ↔
      (pre ++ later).Pairwise m.Apart := by
  induction later generalizing pre with
  | nil => simpa [sharingFrom] using hpre
  | cons s later ih =>
    rw [List.map_cons, sharingFrom]
    cases h : overlap? (pre.map m.spanOf) (m.spanOf s) with
    | none =>
      have hrest := ih (pairwise_apart_concat hpre h)
      rw [List.map_append, List.append_assoc] at hrest
      exact hrest
    | some x =>
      refine iff_of_false (by simp) fun hall => ?_
      rw [overlap?_eq_none_iff.2 fun r hr =>
        (List.pairwise_append.1 hall).2.2 r hr s List.mem_cons_self] at h
      cases h

theorem sharingFrom_eq_some (pre : List RegionRef) (hpre : pre.Pairwise m.Apart)
    {later : List RegionRef} {x : Sharing}
    (hx : sharingFrom (pre.map m.spanOf) (later.map m.spanOf) = some x) :
    ∃ mid after, later = mid ++ x.second :: after ∧ (pre ++ mid).Pairwise m.Apart ∧
      overlap? ((pre ++ mid).map m.spanOf) (m.spanOf x.second) = some (x.position, x.first) := by
  induction later generalizing pre with
  | nil => cases hx
  | cons s later ih =>
    rw [List.map_cons, sharingFrom] at hx
    cases h : overlap? (pre.map m.spanOf) (m.spanOf s) with
    | none =>
      rw [h] at hx
      obtain ⟨mid, after, rfl, hmid, hover⟩ :=
        ih _ (pairwise_apart_concat hpre h) (by rw [List.map_append]; exact hx)
      rw [List.append_assoc] at hmid hover
      exact ⟨s :: mid, after, rfl, hmid, hover⟩
    | some y =>
      obtain ⟨p, r⟩ := y
      rw [h] at hx
      cases hx
      exact ⟨[], later, rfl, by rwa [List.append_nil], by rwa [List.append_nil]⟩

/-- Two regions reach no common position when their extents do not meet. -/
theorem apart_iff (hr : m.IsRegion r) (hs : m.IsRegion s) :
    m.Apart r s ↔ m.extent r ∩ m.extent s = ∅ := by
  rw [Set.eq_empty_iff_forall_notMem]
  constructor
  · rintro hap h ⟨hhr, hhs⟩
    have hb := body_eq_of_mem_extent hhr
    exact hap _ ((mem_reachedFrom_iff hs hb).2 hhs) ((mem_reachedFrom_iff hr hb).2 hhr)
  · intro hdisj p hps hpr
    let h : Handle := ⟨m.body, p, reachedFrom_lt p hps⟩
    exact hdisj h ⟨(mem_reachedFrom_iff hr rfl).1 hpr, (mem_reachedFrom_iff hs rfl).1 hps⟩

theorem nodup_regionRefs (m : Method) : m.regionRefs.Nodup :=
  (pairwise_regionRefs m).imp RegionRef.Before.ne

/-- Nothing is found when no two regions meet. -/
theorem sharing?_eq_none_iff : m.sharing? = none ↔ m.RegionsDisjoint := by
  have hiff := sharingFrom_eq_none_iff (m := m) .nil m.regionRefs
  rw [sharing?, seeds_eq]
  refine hiff.trans ⟨fun hall r s hr hs hne => ?_, fun hall => ?_⟩
  · rw [← apart_iff hr hs]
    exact List.Pairwise.forall hall (mem_regionRefs_iff.2 hr) (mem_regionRefs_iff.2 hs) hne
  · refine (nodup_regionRefs m).pairwise_of_forall_ne fun r hr s hs hne => ?_
    rw [mem_regionRefs_iff] at hr hs
    exact (apart_iff hr hs).2 (hall r s hr hs hne)

/-- The regions in front of a region are those before it. -/
theorem mem_front_iff {front back : List RegionRef} (heq : m.regionRefs = front ++ s :: back) :
    r ∈ front ↔ m.IsRegion r ∧ r.Before s := by
  have hsorted := pairwise_regionRefs m
  rw [heq, List.pairwise_append] at hsorted
  obtain ⟨-, hback, hfront⟩ := hsorted
  rw [← mem_regionRefs_iff, heq, List.mem_append, List.mem_cons]
  refine ⟨fun hr => ⟨.inl hr, hfront r hr s List.mem_cons_self⟩, ?_⟩
  rintro ⟨hr | rfl | hr, hrs⟩
  · exact hr
  · exact absurd rfl hrs.ne
  · exact absurd ((List.pairwise_cons.1 hback).1 r hr) hrs.asymm

/-- What is found is the first region that meets an earlier one, the first place of it that an
earlier region has, and the only earlier region that has this place. -/
theorem sharing?_eq_some {x : Sharing} (hx : m.sharing? = some x) :
    m.IsRegion x.first ∧ m.IsRegion x.second ∧ x.first.Before x.second ∧
    (∃ h ∈ m.extent x.first ∩ m.extent x.second, h.position = x.position ∧
      (∀ r, m.IsRegion r → r.Before x.second → ∀ k ∈ m.extent r ∩ m.extent x.second,
        h.position ≤ k.position) ∧
      ∀ r, m.IsRegion r → r.Before x.second → h ∈ m.extent r → r = x.first) ∧
    ∀ r s, m.IsRegion r → m.IsRegion s → r.Before s → s.Before x.second →
      m.extent r ∩ m.extent s = ∅ := by
  rw [sharing?, seeds_eq] at hx
  obtain ⟨front, back, heq, hfront, hover⟩ := sharingFrom_eq_some [] .nil hx
  have hmem (r : RegionRef) : r ∈ front ↔ m.IsRegion r ∧ r.Before x.second := mem_front_iff heq
  obtain ⟨hfirst, hpfirst, hpsecond, hlowest⟩ := overlap?_eq_some hover
  obtain ⟨hregion, hbefore⟩ := (hmem _).1 hfirst
  have hsecond : m.IsRegion x.second := by simp [← mem_regionRefs_iff, heq]
  -- the regions in front of the second one are apart, so a place of theirs has one region
  have hapart (r s : RegionRef) (hr : r ∈ front) (hs : s ∈ front) (hne : r ≠ s) : m.Apart r s :=
    List.Pairwise.forall hfront hr hs hne
  refine ⟨hregion, hsecond, hbefore, ?_, fun r s hr hs hrs hsx => ?_⟩
  · have hlt := reachedFrom_lt _ hpsecond
    refine ⟨⟨m.body, x.position, hlt⟩, ⟨?_, ?_⟩, rfl, fun r hr hrx k hk => ?_,
      fun r hr hrx hh => ?_⟩
    · exact (mem_reachedFrom_iff hregion rfl).1 hpfirst
    · exact (mem_reachedFrom_iff hsecond rfl).1 hpsecond
    · have hb := body_eq_of_mem_extent hk.1
      exact hlowest r ((hmem r).2 ⟨hr, hrx⟩) _ ((mem_reachedFrom_iff hr hb).2 hk.1)
        ((mem_reachedFrom_iff hsecond hb).2 hk.2)
    · by_contra hne
      refine hapart x.first r hfirst ((hmem r).2 ⟨hr, hrx⟩) (Ne.symm hne) x.position ?_ hpfirst
      exact (mem_reachedFrom_iff hr (h := ⟨m.body, x.position, hlt⟩) rfl).2 hh
  · rw [← apart_iff hr hs]
    exact hapart r s ((hmem r).2 ⟨hr, hrs.trans hsx⟩) ((hmem s).2 ⟨hs, hsx⟩) hrs.ne

/-- Where nothing is shared, a position is owned by the region that reaches it. -/
theorem ownerIn_seeds_iff (hm : m.RegionsDisjoint) :
    ownerIn m.seeds p = some r ↔ m.IsRegion r ∧ p ∈ m.reachedFrom r := by
  rw [seeds_eq]
  constructor
  · intro hr
    obtain ⟨hmem, hp⟩ := mem_of_ownerIn_map_spanOf hr
    exact ⟨mem_regionRefs_iff.1 hmem, hp⟩
  · rintro ⟨hr, hp⟩
    cases hs : ownerIn (m.regionRefs.map m.spanOf) p with
    | none => exact absurd hp (ownerIn_map_spanOf_eq_none_iff.1 hs r (mem_regionRefs_iff.2 hr))
    | some s =>
      obtain ⟨hmem, hps⟩ := mem_of_ownerIn_map_spanOf hs
      have hs := mem_regionRefs_iff.1 hmem
      by_contra hne
      have hdisj := hm r s hr hs fun heq => hne (congrArg some heq.symm)
      exact (apart_iff hr hs).2 hdisj p hps hp

end Method

end BytecodeRegions
