import BytecodeRegions.Proofs.Acceptance
import BytecodeRegions.Proofs.Table.Questions
import Mathlib.Tactic.FinCases

/-!
# No fault but a violation

Building the table of a method fails only with a violation of one of the concrete rules, and a table
that was built answers whatever it is asked, in whatever order. What is refused is refused for good
reason: the top level has neither calls that enter it nor a `ret`, only leaders start subroutines,
and the depth of a region that reaches a circle of calls has no end. Only calls in dead code can
close such a circle in a method that is accepted.

The fallbacks of the construction are never taken either: every call has a place to go, and every
leader and every `ret` has a slot.

## Main definitions

* `Method.Grounded`: what the construction takes for granted.
* `Table.Responsive`: what a table answers and what it refuses.
* `Method.circling`: a method with a circle of calls in dead code.

## Main results

* `Table.build_safe`: building and checking a method, and every question after it.
-/

namespace BytecodeRegions

/-- What the construction takes for granted about a method: a call has a target in the method, a
place that stores an address has a slot, and so has the `ret` of every subroutine once it is
settled. -/
structure Method.Grounded (m : Method) (settings : Settings) : Prop where
  call : ∀ j : Handle, j.body = m.body → j.instruction.isJsr = true →
    ∃ l, j.target? = some l ∧ l.body = m.body
  entry : ∀ l : Handle, l.instruction.storesAddress = true → ∃ s, l.instruction.slot = some s
  ret : ∀ t, Table.regionsOf m settings = .ok t → ∀ p ∈ t.leaders, ∃ s, t.exitSlot p = some s

theorem Method.grounded (m : Method) (settings : Settings) : m.Grounded settings := by
  constructor
  case call =>
    intro j hj hjsr
    obtain ⟨l, hl⟩ := Handle.exists_target?_of_isJsr hjsr
    exact ⟨l, hl, (Handle.target?_eq_some_iff.1 hl).1.trans hj⟩
  case entry =>
    intro l hl
    exact Option.isSome_iff_exists.1 (Instruction.isSome_slot_of_storesAddress hl)
  case ret =>
    intro t ht p hp
    have hbuilt := Table.FullyBuilt.of_regionsOf ht
    exact ⟨_, hbuilt.exitSlot_eq (hbuilt.leaders_eq ▸ hp)⟩

/-- Evidence against a method is about one of the concrete rules. -/
theorem Method.Refuted.rule_ne_structural {m : Method} {v : Violation} (hv : m.Refuted v) :
    v.rule ≠ .structural := by
  cases hv with
  | entry he => simp [he.rule]
  | sharing _ he => simp [he.rule]
  | returning _ _ he => rcases he.fault.rets with ⟨h, -⟩ | ⟨h, -⟩ | ⟨h, -⟩ <;> simp [h]
  | protection _ _ _ he => simp [he.rule]
  | clash _ _ _ _ he => simp [he.rule]

namespace Table

/-- What a table answers. It refuses the calls and the `ret` of the top level, the subroutine of a
place that is no leader, and the depth of a region that reaches a circle of calls, and nothing
else. -/
structure Responsive (t : Table) : Prop where
  answer_iff : ∀ q : Question, q.IsAbout t →
    ((∃ a, (q.ask t).1 = .ok a) ↔ ¬∃ r, q = .depth r ∧ t.ReachesCircle r)
  endless : ∀ r ∈ t.regions, t.ReachesCircle r → (Query.depth r t).1 = .error .endless
  entering_iff : ∀ r ∈ t.regions, (∃ calls, (t.region r).entering = .ok calls) ↔ r ≠ .top
  leavingRet_iff : ∀ r ∈ t.regions, (∃ ret, (t.region r).leavingRet = .ok ret) ↔ r ≠ .top
  getSubroutine_iff : ∀ h : Handle, (∃ r, t.getSubroutine h = .ok r) ↔
    h.body = t.method.body ∧ h.position ∈ t.leaders

namespace FullyBuilt

variable {t : Table} {m : Method} {r : RegionRef} {h l : Handle}

theorem getSubroutine_eq (ht : t.FullyBuilt m) (hl : m.IsLeader l) :
    t.getSubroutine l = .ok (.sub l.position) := by
  rw [← forget_getSubroutine, ← getSubroutine_settledStage hl (ht.entries l hl), ht.stage]
  rfl

theorem exists_getSubroutine_iff (ht : t.FullyBuilt m) :
    (∃ r, t.getSubroutine h = .ok r) ↔ h.body = t.method.body ∧ h.position ∈ t.leaders := by
  constructor
  · rintro ⟨r, hr⟩
    rw [getSubroutine] at hr
    split at hr
    · cases hr
    split at hr
    · next howns =>
      obtain ⟨hbody, hsub⟩ := Bool.and_eq_true_iff.1 howns
      obtain ⟨x, hx, hposition⟩ := List.find?_isSome.1 hsub
      exact ⟨Body.owns_iff.1 hbody, List.mem_map.2 ⟨x, hx, by simpa using hposition⟩⟩
    · cases hr
  · rintro ⟨hbody, hp⟩
    rw [ht.leaders_eq, Method.mem_leaders_iff] at hp
    obtain ⟨l, hl, hposition⟩ := hp
    obtain rfl : l = h := by
      refine Handle.eq_of_position ?_ hposition
      rw [hl.body_eq, hbody, ht.method_eq]
    exact ⟨_, ht.getSubroutine_eq hl⟩

theorem responsive (ht : t.FullyBuilt m) (hslots : m.SlotsDistinct)
    (hw : ∀ s, m.Accesses s → Text.isWritable s = true) : t.Responsive := by
  have htop (r : RegionRef) (hr : r ∈ t.regions) : (t.region r).isTop = true ↔ r = .top :=
    ht.isTop_iff (ht.mem_regions_iff.1 hr)
  constructor
  case answer_iff =>
    intro q hq
    rcases q.yields ht hslots hw hq with ⟨⟨a, ha⟩, hcircle⟩ | ⟨hask, hcircle⟩
    · exact iff_of_true ⟨a, ha.fst⟩ fun ⟨r, hr, hreaches⟩ => hcircle r hr hreaches
    · refine iff_of_false ?_ (not_not_intro hcircle)
      rintro ⟨a, ha⟩
      cases hask.fst.symm.trans ha
  case endless =>
    intro r hr hcircle
    have hregion := ht.mem_regions_iff.1 hr
    rw [ht.reachesCircle_iff_circular hregion] at hcircle
    exact (Query.yields_depth_of_circular ht hregion hcircle).fst
  case entering_iff =>
    intro r hr
    rw [ne_eq, ← htop r hr]
    refine ⟨?_, exists_entering⟩
    rintro ⟨calls, hcalls⟩ h
    rw [Region.entering, if_pos h] at hcalls
    cases hcalls
  case leavingRet_iff =>
    intro r hr
    rw [ne_eq, ← htop r hr]
    refine ⟨?_, ht.exists_leavingRet (ht.mem_regions_iff.1 hr)⟩
    rintro ⟨ret, hret⟩ h
    rw [Region.leavingRet, if_pos h] at hret
    cases hret
  case getSubroutine_iff => exact fun h => ht.exists_getSubroutine_iff

end FullyBuilt

/-- A method whose slots can be written gets a sealed table that answers whatever it is asked, one
question after another, or it breaks one of the concrete rules; checking it says the same. -/
theorem build_safe (m : Method) (settings : Settings)
    (hw : ∀ s, m.Accesses s → Text.isWritable s = true) :
    m.Grounded settings ∧
    ((∃ t, build m settings = .ok t ∧ t.isSealed = true ∧
        (∃ verdict, check m settings = .ok verdict ∧ verdict.table? = some t ∧
          verdict.diagnostics = []) ∧
        ∀ earlier : List Question, (∀ q ∈ earlier, q.IsAbout t) → (t.after earlier).Responsive) ∨
      ∃ v, build m settings = .error (.violation v) ∧ v.rule ≠ .structural ∧
        ∃ verdict, check m settings = .ok verdict ∧ verdict.table? = none ∧
          verdict.diagnostics = [v.diagnostic]) := by
  refine ⟨m.grounded settings, ?_⟩
  rcases build_cases m settings with ⟨hm, t, ht, -, hforget⟩ | ⟨v, hv, -, hrefuted⟩
  · refine .inl ⟨t, ht, congrArg Table.isSealed hforget, ⟨.accepted t, ?_, rfl, rfl⟩, ?_⟩
    · rw [check, ht, verdict]
    · intro earlier hearlier
      obtain ⟨hbuilt, -⟩ := (FullyBuilt.of_build ht).after hm.slots hw hearlier
      exact hbuilt.responsive hm.slots hw
  · refine .inr ⟨v, hv, hrefuted.rule_ne_structural, .rejected v, ?_, rfl, rfl⟩
    rw [check, hv, verdict]

end Table

/-! ### A circle of calls in dead code -/

namespace Method

/-- Code that returns at once. After it stand two subroutines that call each other. -/
def circlingCode : Body where
  stamp := 0
  code := #[.leave, .astore 1, .jsr 4, .ret 1, .astore 2, .jsr 1, .ret 2]
  jumps := by decide

/-- The method of that code. -/
def circling : Method where
  name := "circling"
  body := circlingCode
  handlers := []
  nonempty := by decide

end Method

/-- Two dead subroutines that call each other are accepted, and the table that comes of it answers
everything but their depth, however often it is asked. -/
theorem Table.circling_safe : ∃ t, build .circling { verbose := true } = .ok t ∧
    t.isSealed = true ∧ t.ReachesCircle (.sub 1) ∧
      (t.after [.depth (.sub 1), .statistics, .summary]).Responsive := by
  have hslots : Method.circling.body.code.all (fun i => i.accessedSlots.all Text.isWritable) := by
    cbv
  have hw (s : Nat) (hs : Method.circling.Accesses s) : Text.isWritable s = true := by
    obtain ⟨i, hi, hs⟩ := hs
    exact List.all_eq_true.1 (Array.all_eq_true_iff_forall_mem.1 hslots i hi) s hs
  have heval : (build .circling { verbose := true }).toOption.map
      (fun t => (t.leaders, ((Question.depth (.sub 1)).ask t).1.toOption)) =
    some ([1, 4], none) := by cbv
  obtain ⟨-, ⟨t, ht, hsealed, -, hanswers⟩ | ⟨v, hv, -⟩⟩ :=
    build_safe .circling { verbose := true } hw
  · rw [ht] at heval
    obtain ⟨hleaders, hdepth⟩ := Prod.mk.inj (Option.some.inj heval)
    have hregions : t.regions = [.top, .sub 1, .sub 4] := by rw [regions, hleaders]; rfl
    have habout (q : Question) (hq : q ∈ [.depth (.sub 1), .statistics, .summary]) :
        q.IsAbout t := by
      intro r hr
      rw [hregions]
      fin_cases hq <;> cases hr
      decide
    refine ⟨t, ht, hsealed, ?_, hanswers _ habout⟩
    have hfirst : t.Responsive := hanswers [] (List.forall_mem_nil _)
    by_contra hcircle
    obtain ⟨a, ha⟩ := (hfirst.answer_iff (.depth (.sub 1)) (habout _ List.mem_cons_self)).2 <| by
      rintro ⟨r, ⟨⟩, hr⟩
      exact hcircle hr
    rw [ha] at hdepth
    cases hdepth
  · rw [hv] at heval
    cases heval

end BytecodeRegions
