import BytecodeRegions.Proofs.Table.Calls

/-!
# The outcome of building a table

All steps together: a method that keeps every rule gets a table, which is the finished one up to
what it remembers, and any other method is refused with the evidence for the first rule that it
breaks. Nothing else can happen, so no method gets stuck on an operation that makes no sense or on a
circle of calls.

## Main definitions

* `Method.Orderly`: the rules as they are checked.
* `Table.finished`: the table of a method that keeps them.

## Main results

* `Table.build_cases`: the outcome of building a table.
-/

namespace BytecodeRegions

/-- The rules as they are checked. -/
structure Method.Orderly (m : Method) : Prop where
  entries : m.EntriesValid
  regions : m.RegionsDisjoint
  returns : m.SubroutinesReturn
  handlers : m.HandlersClear
  slots : m.SlotsDistinct

namespace Table

variable {m : Method} {settings : Settings}

/-- The sealed table of a method, with nothing remembered. -/
def finished (m : Method) (settings : Settings) : Table :=
  { settledStage m settings with isSealed := true }

theorem forget_settledStage (m : Method) (settings : Settings) :
    (settledStage m settings).forget = settledStage m settings := by
  rw [forget, settledStage, stage, List.map_map]
  rfl

theorem forget_finished (m : Method) (settings : Settings) :
    (finished m settings).forget = finished m settings := by
  have hforget := forget_settledStage m settings
  exact congrArg (fun t : Table => { t with isSealed := true }) hforget

theorem coherent_settledStage (m : Method) (settings : Settings) :
    (settledStage m settings).Coherent := by
  rw [← forget_settledStage]
  exact coherent_forget _

theorem coherent_finished (m : Method) (settings : Settings) : (finished m settings).Coherent := by
  rw [← forget_finished]
  exact coherent_forget _

theorem fst_checkRecursion_settledStage (m : Method) (settings : Settings) :
    (Query.checkRecursion .top m.name (settledStage m settings)).1 =
      (settledStage m settings).recursionOf .top m.name := by
  obtain ⟨t, hq, -⟩ := Query.yields_checkRecursion (coherent_settledStage m settings) .top m.name
  rw [hq]

/-- The figures that a verbose build asks for are there, and asking leaves the table finished. -/
theorem statistics_finished (hentries : m.EntriesValid) (hslots : m.SlotsDistinct)
    (settings : Settings) : ∃ s t, Query.statistics (finished m settings) = (.ok s, t) ∧
      t.Coherent ∧ t.forget = finished m settings := by
  obtain ⟨t, hq, hcoherent, hforget⟩ := Query.yields_statistics (coherent_finished m settings)
  obtain ⟨d, hd, -⟩ := depthOf_settledStage hentries hslots settings
  have hdepth : (finished m settings).depthOf .top = .ok d := hd
  rw [statisticsOf, hdepth] at hq
  exact ⟨_, t, hq, hcoherent, hforget.trans (forget_finished m settings)⟩

/-- The last lines of a build: the table is sealed, and its figures are asked for if it is to be
verbose. -/
theorem build_eq_ok (hm : m.Orderly) (hopen : opened m settings = .ok (openStage m settings))
    (hfill : (openStage m settings).partitioned = .ok (filledStage m settings))
    (hsettle : (filledStage m settings).settled = .ok (settledStage m settings))
    (hprotect : (settledStage m settings).unprotected = .ok ())
    (hcheck : (settledStage m settings).recursionOf .top m.name = .ok ()) :
    ∃ t, build m settings = .ok t ∧ t.Coherent ∧ t.forget = finished m settings := by
  have hquery := (fst_checkRecursion_settledStage m settings).trans hcheck
  simp only [build, hopen, hfill, hsettle, hprotect, hquery, bind, Except.bind]
  split
  · obtain ⟨s, t, hq, hcoherent, hforget⟩ := statistics_finished hm.entries hm.slots settings
    refine ⟨t, ?_, hcoherent, hforget⟩
    rw [finished] at hq
    rw [hq]
    rfl
  · exact ⟨_, rfl, coherent_finished m settings, forget_finished m settings⟩

/-- A method that keeps every rule gets its table, and any other one is refused with evidence. -/
theorem build_cases (m : Method) (settings : Settings) :
    m.Orderly ∧ (∃ t, build m settings = .ok t ∧ t.Coherent ∧ t.forget = finished m settings) ∨
      ∃ v, build m settings = .error (.violation v) ∧ v.method = m.name ∧ m.Refuted v := by
  rcases opened_cases m settings with ⟨hentries, hopen⟩ | ⟨v, l, hopen, hname, he⟩
  case inr => exact .inr ⟨v, by rw [build, hopen]; rfl, hname, .entry he⟩
  rcases partitioned_cases m settings with ⟨hregions, hfill⟩ | ⟨v, r, s, h, hfill, hname, he⟩
  case inr =>
    refine .inr ⟨v, ?_, hname, .sharing hentries he⟩
    simp only [build, hopen, hfill, bind, Except.bind]
  rcases settled_cases hentries settings with ⟨hreturns, hsettle⟩ | ⟨v, l, hsettle, hname, he⟩
  case inr =>
    refine .inr ⟨v, ?_, hname, .returning hentries hregions he⟩
    simp only [build, hopen, hfill, hsettle, bind, Except.bind]
  have hnote (r : RegionRef) (hr : m.IsRegion r) :
      ((settledStage m settings).region r).note = m.note r := note_region_stage hr
  rcases unprotected_cases (t := settledStage m settings) rfl hregions hnote with
    ⟨hhandlers, hprotect⟩ | ⟨v, x, h, l, hprotect, hname, he⟩
  case inr =>
    refine .inr ⟨v, ?_, hname, .protection hentries hregions hreturns he⟩
    simp only [build, hopen, hfill, hsettle, hprotect, bind, Except.bind]
  rcases recursion_cases hentries hreturns settings with
    ⟨hslots, hcheck⟩ | ⟨v, l, holder, path, hcheck, hname, he⟩
  case inr =>
    refine .inr ⟨v, ?_, hname, .clash hentries hregions hreturns hhandlers he⟩
    have hquery := (fst_checkRecursion_settledStage m settings).trans hcheck
    simp only [build, hopen, hfill, hsettle, hprotect, hquery, bind, Except.bind]
  have hm : m.Orderly := ⟨hentries, hregions, hreturns, hhandlers, hslots⟩
  exact .inl ⟨hm, build_eq_ok hm hopen hfill hsettle hprotect hcheck⟩

/-- A table that was built is finished up to what it remembers, and the method keeps every rule. -/
theorem finished_of_build_eq_ok {t : Table} (ht : build m settings = .ok t) :
    m.Orderly ∧ t.Coherent ∧ t.forget = finished m settings := by
  rcases build_cases m settings with ⟨hm, t', ht', hcoherent, hforget⟩ | ⟨v, hv, -⟩
  · obtain rfl : t' = t := Except.ok.inj (ht'.symm.trans ht)
    exact ⟨hm, hcoherent, hforget⟩
  · cases hv.symm.trans ht

/-! ### Finished tables -/

section Finished

variable {t : Table} {r : RegionRef} {l h : Handle} (ht : t.forget = finished m settings)

include ht

theorem method_of_forget : t.method = m :=
  congrArg Table.method ht

theorem spans_of_forget : t.spans = m.seeds :=
  congrArg Table.spans ht

theorem leaders_of_forget : t.leaders = m.leaders := by
  rw [← forget_leaders, ht]
  change (settledStage m settings).leaders = m.leaders
  exact leaders_stage

theorem regions_of_forget : t.regions = m.regionRefs := by
  rw [regions, leaders_of_forget ht, Method.regionRefs]

theorem region_of_forget (r : RegionRef) :
    (t.region r).forget = (settledStage m settings).region r := by
  rw [← forget_region, ht]
  rfl

theorem members_of_forget (hr : m.IsRegion r) :
    h ∈ (t.region r).members ↔ h ∈ m.extent r := by
  have hmembers : (t.region r).members = m.membersOf r :=
    (congrArg Region.members (region_of_forget ht r)).trans (members_region_stage hr)
  rw [hmembers, Method.mem_membersOf_iff hr]

theorem region_sub_of_forget (hl : m.IsLeader l) :
    (t.region (.sub l.position)).forget =
      m.subroutine (m.membersOf (.sub l.position)) (m.retsList l).head? l := by
  rw [region_of_forget ht, settledStage, region_stage_sub hl]

theorem getSubroutine_of_forget (hl : m.IsLeader l) (hvalid : m.ValidEntry l) :
    t.getSubroutine l = .ok (.sub l.position) := by
  rw [← forget_getSubroutine, ht]
  change (settledStage m settings).getSubroutine l = .ok (.sub l.position)
  exact getSubroutine_settledStage hl hvalid

theorem ownerOf_of_forget (hm : m.RegionsDisjoint) :
    t.ownerOf h = some r ↔ m.IsRegion r ∧ h ∈ m.extent r := by
  obtain rfl := method_of_forget ht
  exact ownerOf_eq_some_iff (spans_of_forget ht) hm

end Finished

end Table

end BytecodeRegions
