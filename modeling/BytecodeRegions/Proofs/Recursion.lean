import BytecodeRegions.Proofs.Acceptance
import BytecodeRegions.Proofs.Table.Regions

/-!
# The check for recursive calls

The check walks down the calls from the top level and keeps the slots in use on the way. It comes to
an end on every call graph, refuses a table exactly when some chain of calls holds a slot twice, and
then reports the first such chain, the subroutine on it that holds the slot already, and nothing
else. Chains are those that the table itself answers with, so the check and the queries agree.

## Main definitions

* `Table.ClashPath`, `Table.FirstClash`: chains that take a slot again, and the first one.
* `Table.ReportsClash`: what a violation says about a chain.
* `Table.Judged`: the outcome of the check is right.

## Main results

* `Table.judged_checkRecursion`: the check is sound and complete, with the first evidence.
-/

namespace BytecodeRegions

namespace Table

/-- The last subroutine of a chain returns by the slot of an earlier one, and the chain up to there
has slots that are all distinct. -/
def ClashPath (t : Table) : List Nat → Prop
  | [] => False
  | p :: path => t.CallPath (p :: path) ∧ (path.map t.exitSlot).Nodup ∧
      t.exitSlot p ∈ path.map t.exitSlot

/-- Of all chains that take a slot again, the one that is first in the lexicographic order of
leaders from the top level on: it ends with a call of `callee`, and `holder` on it has the slot. -/
structure FirstClash (t : Table) (callee holder : Nat) (path : List Nat) : Prop where
  clash : t.ClashPath (callee :: path)
  first : ∀ chain, t.ClashPath chain → chain ≠ callee :: path →
    List.Lex (· < ·) (callee :: path).reverse chain.reverse
  holds : ∀ p, p = holder ↔ p ∈ path ∧ t.exitSlot p = t.exitSlot callee

/-- A violation spells out a chain of calls from the top level on, and names the callee, the holder
of its slot and the caller, none of them twice. -/
structure ReportsClash (t : Table) (v : Violation) (callee holder : Nat) (path : List Nat) :
    Prop where
  rule : v.rule = .recursiveCall
  chain : ∃ opening, v.detail = opening ++ "maybe even a recursive call? Call path: " ++
    " -> ".intercalate
      ("top-level" :: (callee :: path).reverse.map fun p => "sub@" ++ Text.decimalNat p)
  regions : ∃ named : List RegionRef, named.Nodup ∧
    (∀ r, r ∈ named ↔ r = .sub callee ∨ r = .sub holder ∨ r = .ofPath path) ∧
    v.regions = named.map fun r => (t.region r).note

/-- The outcome of a check for recursive calls is the right one for a table. -/
structure Judged (t : Table) (method : String) (outcome : Except Fault Unit) : Prop where
  slots : ∀ path, t.CallPath path → ∀ p ∈ path, ∃ s, t.exitSlot p = some s
  passed_iff : outcome = .ok () ↔ ∀ path, t.CallPath path → (path.map t.exitSlot).Nodup
  refused_iff : (∃ v, outcome = .error (.violation v) ∧ v.rule = .recursiveCall) ↔
    ∃ path, t.CallPath path ∧ ¬(path.map t.exitSlot).Nodup
  evidence : ∀ f, outcome = .error f → ∃ v callee holder path, f = .violation v ∧
    v.method = method ∧ t.FirstClash callee holder path ∧ t.ReportsClash v callee holder path

variable {t : Table} {m : Method} {p : Nat} {path : List Nat}

namespace FullyBuilt

variable (ht : t.FullyBuilt m)

include ht

theorem mem_leaders_of_callPath (hpath : t.CallPath path) : ∀ p ∈ path, p ∈ m.leaders := by
  have hchain := ht.callPath_iff_chain.1 hpath
  rw [← Method.leaders_callGraph (r := .top)]
  exact hchain.mem_leaders (Method.wellFormed_callGraph m.isRegion_top)

theorem map_exitSlot (hpath : ∀ p ∈ path, p ∈ m.leaders) :
    path.map t.exitSlot = (path.map t.retSlot).map some := by
  rw [List.map_map]
  exact List.map_congr_left fun p hp => ht.exitSlot_eq (hpath p hp)

theorem nodup_map_exitSlot_iff (hpath : ∀ p ∈ path, p ∈ m.leaders) :
    (path.map t.exitSlot).Nodup ↔ (path.map t.retSlot).Nodup := by
  rw [ht.map_exitSlot hpath]
  exact List.nodup_map_iff (Option.some_injective _)

/-- The chains that take a slot again are the clashes of the call graph. -/
theorem clashPath_iff : t.ClashPath path ↔
    (m.callGraph .top).Chain path ∧ CallGraph.Clashes t.retSlot path := by
  cases path with
  | nil => exact iff_of_false id fun h => h.2
  | cons p path =>
    rw [ClashPath, CallGraph.Clashes, ht.callPath_iff_chain]
    refine and_congr_right fun hchain => ?_
    have hmem := ht.mem_leaders_of_callPath (ht.callPath_iff_chain.2 hchain)
    obtain ⟨hp, hpath⟩ := List.forall_mem_cons.1 hmem
    rw [ht.nodup_map_exitSlot_iff hpath, ht.exitSlot_eq hp, ht.map_exitSlot hpath,
      List.mem_map_of_injective (Option.some_injective _)]

theorem label_sub (hp : p ∈ m.leaders) :
    (t.region (.sub p)).label = "sub@" ++ Text.decimalNat p := by
  obtain ⟨l, hl, rfl⟩ := Method.mem_leaders_iff.1 hp
  have hlabel := congrArg Region.label (ht.region_sub hl)
  exact hlabel

theorem label_top : (t.region .top).label = "top-level" := by
  have hlabel := congrArg Region.label (ht.forget_region_eq .top)
  exact hlabel

/-- The first subroutine from the end that holds the slot of the callee is the only one. -/
theorem exists_holder {x : Clash} (hx : t.ClashPath (x.callee :: x.path)) :
    ∃ holder, x.holder? t.retSlot = some holder ∧
      ∀ p, p = holder ↔ p ∈ x.path ∧ t.exitSlot p = t.exitSlot x.callee := by
  obtain ⟨hcallee, hmem⟩ := List.forall_mem_cons.1 (ht.mem_leaders_of_callPath hx.1)
  have hsame (p : Nat) (hp : p ∈ x.path) :
      t.exitSlot p = t.exitSlot x.callee ↔ t.retSlot p = t.retSlot x.callee := by
    rw [ht.exitSlot_eq (hmem p hp), ht.exitSlot_eq hcallee, Option.some_inj]
  obtain ⟨p, hp, hslot⟩ := List.mem_map.1 hx.2.2
  cases hfind : x.holder? t.retSlot with
  | none =>
    have hne := List.find?_eq_none.1 hfind p hp
    exact absurd (beq_iff_eq.2 ((hsame p hp).1 hslot)) hne
  | some holder =>
    have hholder : holder ∈ x.path := List.mem_of_find?_eq_some hfind
    have hfound := List.find?_some hfind
    have heq : t.exitSlot holder = t.exitSlot x.callee :=
      (hsame holder hholder).2 (beq_iff_eq.1 hfound)
    refine ⟨holder, rfl, fun q => ⟨?_, fun hq => ?_⟩⟩
    · rintro rfl
      exact ⟨hholder, heq⟩
    · -- the slots on the chain are distinct, so no other subroutine on it has this one
      exact List.inj_on_of_nodup_map hx.2.1 hq.1 hholder (hq.2.trans heq.symm)

theorem reportsClash_clashViolation (method : String) {x : Clash} {holder : Nat}
    (hx : t.ClashPath (x.callee :: x.path)) (hholder : x.holder? t.retSlot = some holder) :
    t.ReportsClash (t.clashViolation .top method x) x.callee holder x.path where
  rule := rfl
  chain := by
    have hmem := ht.mem_leaders_of_callPath hx.1
    have hlabels : ((RegionRef.top :: (x.callee :: x.path).reverse.map .sub).map fun r =>
        (t.region r).label) =
        "top-level" :: (x.callee :: x.path).reverse.map fun p => "sub@" ++ Text.decimalNat p := by
      rw [List.map_cons, ht.label_top, List.map_map]
      refine congrArg _ (List.map_congr_left fun p hp => ht.label_sub (hmem p ?_))
      exact List.mem_reverse.1 hp
    rw [← hlabels]
    exact ⟨_, rfl⟩
  regions := by
    refine ⟨[RegionRef.sub x.callee, .sub holder, .ofPath x.path].eraseDups, nodup_eraseDups _,
      fun r => ?_, ?_⟩
    · simp only [List.mem_eraseDups, List.mem_cons, List.not_mem_nil, or_false]
    · have hcaller : x.path.head?.elim .top RegionRef.sub = .ofPath x.path := by
        cases x.path <;> rfl
      rw [clashViolation, hholder, hcaller]
      rfl

theorem clash?_eq_none_iff : (m.callGraph .top).clash? t.retSlot = none ↔
    ∀ path, t.CallPath path → (path.map t.exitSlot).Nodup := by
  rw [CallGraph.clash?_eq_none_iff (Method.wellFormed_callGraph m.isRegion_top)]
  refine forall_congr' fun path => ?_
  rw [← ht.callPath_iff_chain]
  refine forall_congr' fun hpath => ?_
  exact (ht.nodup_map_exitSlot_iff (ht.mem_leaders_of_callPath hpath)).symm

/-- The check comes to the search for a clash in the call graph of the top level. -/
theorem fst_checkRecursion (method : String) : (Query.checkRecursion .top method t).1 =
    ((m.callGraph .top).clash? t.retSlot).elim (.ok ())
      fun x => .error (.violation (t.clashViolation .top method x)) := by
  rw [(Query.yields_checkRecursion ht.coherent .top method).fst, recursionOf,
    ht.graphOf_eq m.isRegion_top]
  simp only [bind, Except.bind]
  cases (m.callGraph .top).clash? t.retSlot <;> rfl

end FullyBuilt

/-- The check for recursive calls judges every table whose regions are built, whatever its calls. -/
theorem judged_checkRecursion (ht : t.FullyBuilt m) (method : String) :
    t.Judged method (Query.checkRecursion .top method t).1 := by
  have hwf := Method.wellFormed_callGraph m.isRegion_top
  have hmem (path : List Nat) (hpath : t.CallPath path) : ∀ p ∈ path, p ∈ m.leaders :=
    ht.mem_leaders_of_callPath hpath
  rw [ht.fst_checkRecursion method]
  have hslots (path : List Nat) (hpath : t.CallPath path) (p : Nat) (hp : p ∈ path) :
      ∃ s, t.exitSlot p = some s := ⟨_, ht.exitSlot_eq (hmem path hpath p hp)⟩
  cases hx : (m.callGraph .top).clash? t.retSlot with
  | none =>
    have hall := ht.clash?_eq_none_iff.1 hx
    exact ⟨hslots, iff_of_true rfl hall,
      iff_of_false nofun fun ⟨path, hpath, hdup⟩ => hdup (hall path hpath), nofun⟩
  | some x =>
    obtain ⟨hchain, hclash⟩ := CallGraph.clashes_of_clash?_eq_some hwf hx
    have hpath : t.ClashPath (x.callee :: x.path) := ht.clashPath_iff.2 ⟨hchain, hclash⟩
    obtain ⟨holder, hholder, hholds⟩ := ht.exists_holder hpath
    have hdup : ¬((x.callee :: x.path).map t.exitSlot).Nodup := fun hnodup =>
      (List.nodup_cons.1 hnodup).1 hpath.2.2
    have hreports := ht.reportsClash_clashViolation method hpath hholder
    refine ⟨hslots, iff_of_false nofun fun hall => hdup (hall _ hpath.1),
      iff_of_true ⟨_, rfl, hreports.rule⟩ ⟨_, hpath.1, hdup⟩, ?_⟩
    rintro f ⟨⟩
    refine ⟨_, x.callee, holder, x.path, rfl, rfl, ⟨hpath, fun chain hchain hne => ?_, hholds⟩,
      hreports⟩
    obtain ⟨hchain, hclash⟩ := ht.clashPath_iff.1 hchain
    exact CallGraph.lex_of_clash?_eq_some hwf (m.sorted_callGraph .top) hx hchain hclash hne

/-- Two nested subroutines with one slot are built up and then refused, as they have to be. -/
theorem nested_judged : ∃ t v, regionsOf (.nested 1) {} = .ok t ∧ t.leaders = [4, 7] ∧
    (Query.checkRecursion .top "nested" t).1 = .error (.violation v) ∧
    v.rule = .recursiveCall ∧ t.Judged "nested" (Query.checkRecursion .top "nested" t).1 := by
  have heval : (regionsOf (.nested 1) {}).toOption.map (fun t => (t.leaders,
      (Query.checkRecursion .top "nested" t).1.mapError Fault.rule?)) =
    some ([4, 7], .error (some .recursiveCall)) := by cbv
  cases ht : regionsOf (.nested 1) {} with
  | error f => rw [ht] at heval; cases heval
  | ok t =>
    rw [ht] at heval
    obtain ⟨hleaders, hrule⟩ := Prod.mk.inj (Option.some.inj heval)
    have hjudged := judged_checkRecursion (.of_regionsOf ht) "nested"
    cases hcheck : (Query.checkRecursion .top "nested" t).1 with
    | ok => rw [hcheck] at hrule; cases hrule
    | error f =>
      rw [hcheck] at hjudged hrule
      obtain ⟨v, callee, holder, path, rfl, -⟩ := hjudged.evidence f rfl
      exact ⟨t, v, rfl, hleaders, hcheck, Option.some.inj (Except.error.inj hrule),
        hcheck ▸ hjudged⟩

end Table

end BytecodeRegions
