import BytecodeRegions.Proofs.Acceptance
import BytecodeRegions.Proofs.Mirror

/-!
# Methods that come to the same

Methods that mirror each other are treated in the same way at every step of building their tables.
So they come to the same: both get tables and the tables say the same, or both are refused, for the
same rule, in the same words and with the same evidence.

## Main definitions

* `Violation.Matches`: two violations say the same.
* `ComesToSame`: two steps give results that are related or violations that match.
* `Table.examined`: the steps that can refuse a method.

## Main results

* `Table.comesToSame_opened`, `Table.comesToSame_partitioned`, `Table.comesToSame_settled`,
  `Table.comesToSame_unprotected`, `Table.comesToSame_recursionOf`: the steps.
* `Table.comesToSame_of_mirrors`: methods that mirror each other come to the same.
-/

namespace BytecodeRegions

/-! ### Matching outcomes -/

/-- Two violations are about the same rule, with the same evidence and in the same words. -/
structure Violation.Matches (v v' : Violation) : Prop where
  rule : v'.rule = v.rule
  evidence : v'.evidence = v.evidence
  diagnostic : v'.diagnostic = v.diagnostic

theorem Violation.Matches.refl (v : Violation) : v.Matches v :=
  ⟨rfl, rfl, rfl⟩

theorem Violation.Matches.handler {v : Violation} {x x' : Handler} (hv : v.handler = some x)
    (hx : Violation.handlerJson x' = Violation.handlerJson x) :
    v.Matches { v with handler := some x' } := by
  have hevidence : ({ v with handler := some x' } : Violation).evidence = v.evidence := by
    rw [Violation.evidence, Violation.evidence, hv, Option.toList_some, Option.toList_some,
      List.map_singleton, List.map_singleton, hx]
  refine ⟨rfl, hevidence, ?_⟩
  rw [Violation.diagnostic, Violation.diagnostic, hevidence]
  rfl

/-- Two steps come to the same: both give results, which are related, or both are stopped by
violations that match. -/
inductive ComesToSame {α β : Type} (R : α → β → Prop) : Except Fault α → Except Fault β → Prop
  | ok {a : α} {b : β} (h : R a b) : ComesToSame R (.ok a) (.ok b)
  | violation {v v' : Violation} (h : v.Matches v') :
      ComesToSame R (.error (.violation v)) (.error (.violation v'))

namespace ComesToSame

variable {α β γ δ : Type} {R : α → β → Prop} {S : γ → δ → Prop} {x : Except Fault α}
  {y : Except Fault β}

theorem bind {f : α → Except Fault γ} {g : β → Except Fault δ} (h : ComesToSame R x y)
    (hfg : ∀ a b, x = .ok a → y = .ok b → R a b → ComesToSame S (f a) (g b)) :
    ComesToSame S (x >>= f) (y >>= g) := by
  cases h with
  | ok hab => exact hfg _ _ rfl rfl hab
  | violation hv => exact .violation hv

theorem mapM {f : α → Except Fault γ} {g : β → Except Fault δ} {as : List α} {bs : List β}
    (h : List.Forall₂ (fun a b => ComesToSame S (f a) (g b)) as bs) :
    ComesToSame (List.Forall₂ S) (as.mapM f) (bs.mapM g) := by
  induction h with
  | nil => exact .ok .nil
  | cons hab _ ih =>
    rw [List.mapM_cons, List.mapM_cons]
    refine hab.bind fun c d _ _ hcd => ih.bind fun cs ds _ _ hcds => ?_
    exact .ok (.cons hcd hcds)

end ComesToSame

/-! ### Steps -/

/-- The first leader that cannot start a subroutine is reported in the same way. -/
theorem Method.Mirrors.entryViolation?_eq {m m' : Method} (hm : m.Mirrors m') :
    m'.entryViolation? = m.entryViolation? := by
  have hstarts (l l' : Handle) (hl : Twins m m' l l') :
      (!startsSubroutine l') = !startsSubroutine l := by
    have hstores : l'.instruction.storesAddress = l.instruction.storesAddress :=
      congrArg (fun g => g.opcode.storesAddress) (hm.gist_eq hl)
    rw [startsSubroutine, startsSubroutine, hl.position, hstores]
  rw [entryViolation?, entryViolation?]
  have hrel := find?_forall₂ hm.forall₂_leaderHandles hstarts
  generalize m.leaderHandles.find? (fun h => !startsSubroutine h) = first at hrel ⊢
  generalize m'.leaderHandles.find? (fun h => !startsSubroutine h) = first' at hrel ⊢
  cases hrel with
  | none => rfl
  | some hl =>
    rw [Option.map_some, Option.map_some, badEntry, badEntry, hm.text_eq hl, hl.position, hm.name,
      hm.sameStructure.calls]

/-- The `ret` of a subroutine is settled, or refused, in the same way. -/
theorem Region.Twins.comesToSame_settleRet {m m' : Method} {x x' : Region}
    (hx : Region.Twins m m' x x') (hm : m.Mirrors m') (htop : x.isTop = false) {s : Int}
    (hslot : x.slot = some s) :
    ComesToSame (fun _ _ => True) (x.settleRet m.name) (x'.settleRet m'.name) := by
  have hrets := hx.forall₂_rets hm
  have hposition := hx.entry.position
  simp only [settleRet, hx.isTop, hx.slot, htop, hslot, hm.name]
  generalize x.rets = rets at hrets ⊢
  generalize x'.rets = rets' at hrets ⊢
  cases hrets with
  | nil =>
    have heq : x'.noRet m.name = x.noRet m.name := by
      rw [noRet, noRet, hposition, hx.note_eq]
    exact .violation (heq ▸ .refl _)
  | @cons ret ret' others others' hret hothers =>
    cases hothers with
    | nil =>
      have heq : x'.wrongRet m.name ret' s = x.wrongRet m.name ret s := by
        rw [wrongRet, wrongRet, hposition, hx.note_eq, hm.text_eq hret, hret.position]
      simp only [hm.slot_eq hret]
      split
      · exact .ok trivial
      · exact .violation (heq ▸ .refl _)
    | @cons second second' others others' hsecond hothers =>
      have hpositions := (Method.forall₂_twins_iff.1 (.cons hret (.cons hsecond hothers))).2.2
      have heq : x'.manyRets m.name ret' second' others' =
          x.manyRets m.name ret second others := by
        rw [manyRets, manyRets, hposition, hx.note_eq, hm.text_eq hret, hm.text_eq hsecond,
          hpositions]
      exact .violation (heq ▸ .refl _)

namespace Table

variable {m m' : Method} {t : Table} {settings : Settings}

theorem opened_eq_ok (hentries : m.entryViolation? = none) (settings : Settings) :
    opened m settings = .ok (openStage m settings) := by
  rcases opened_cases m settings with ⟨-, hopen⟩ | ⟨v, l, -, -, he⟩
  · exact hopen
  · rw [Method.entryViolation?, Option.map_eq_none_iff, List.find?_eq_none] at hentries
    have hstarts := hentries l (Method.mem_leaderHandles_iff.2 he.leader.isLeader)
    rw [Bool.not_eq_true', Bool.not_eq_false, startsSubroutine_iff he.leader.isLeader] at hstarts
    exact absurd hstarts he.leader.holds

theorem of_opened_eq_ok (ht : opened m settings = .ok t) :
    m.EntriesValid ∧ openStage m settings = t := by
  rcases opened_cases m settings with ⟨hentries, hopen⟩ | ⟨v, l, hopen, -⟩
  · exact ⟨hentries, Except.ok.inj (hopen.symm.trans ht)⟩
  · cases hopen.symm.trans ht

theorem of_partitioned_eq_ok (ht : (openStage m settings).partitioned = .ok t) :
    filledStage m settings = t := by
  rcases partitioned_cases m settings with ⟨-, hfill⟩ | ⟨v, r, s, h, hfill, -⟩
  · exact Except.ok.inj (hfill.symm.trans ht)
  · cases hfill.symm.trans ht

theorem of_settled_eq_ok (hentries : m.EntriesValid)
    (ht : (filledStage m settings).settled = .ok t) : settledStage m settings = t := by
  rcases settled_cases hentries settings with ⟨-, hsettle⟩ | ⟨v, l, hsettle, -⟩
  · exact Except.ok.inj (hsettle.symm.trans ht)
  · cases hsettle.symm.trans ht

/-- Steps 1 to 3 come to the same. -/
theorem comesToSame_opened (hm : m.Mirrors m') (settings : Settings) :
    ComesToSame (fun _ _ => True) (opened m settings) (opened m' settings) := by
  cases hv : m.entryViolation? with
  | none =>
    rw [opened_eq_ok hv, opened_eq_ok (hm.entryViolation?_eq.trans hv)]
    exact .ok trivial
  | some v =>
    rw [opened, opened, hm.entryViolation?_eq, hv]
    exact .violation (.refl v)

theorem sharedViolation_eq (hm : m.Mirrors m') (settings : Settings) (x : Method.Sharing) :
    (openStage m' settings).sharedViolation x = (openStage m settings).sharedViolation x := by
  have htwins := twins_region_openStage hm settings
  have htext : (m'.body.handle? x.position).elim "" Handle.text =
      (m.body.handle? x.position).elim "" Handle.text := by
    have hrel := hm.rel_handle? x.position
    generalize m.body.handle? x.position = h at hrel ⊢
    generalize m'.body.handle? x.position = h' at hrel ⊢
    cases hrel with
    | none => rfl
    | some hh => exact hm.text_eq hh
  have hmethod {m : Method} : (openStage m settings).method = m := rfl
  simp only [sharedViolation, (htwins _).label_eq, (htwins _).note_eq, hmethod, hm.name, htext]

/-- Step 4 comes to the same. -/
theorem comesToSame_partitioned (hm : m.Mirrors m') (settings : Settings) :
    ComesToSame (fun _ _ => True) (openStage m settings).partitioned
      (openStage m' settings).partitioned := by
  have hsharing : m'.sharing? = m.sharing? := by
    rw [Method.sharing?, Method.sharing?, hm.sameStructure.seeds_eq]
  cases hx : m.sharing? with
  | none =>
    have hok {m : Method} (h : m.sharing? = none) :
        (openStage m settings).partitioned = .ok (filledStage m settings) := by
      rcases partitioned_cases m settings with ⟨-, hfill⟩ | ⟨v, r, s, h, -, -, he⟩
      · exact hfill
      · exact absurd (Method.sharing?_eq_none_iff.1 ‹_›) he.not_regionsDisjoint
    rw [hok hx, hok (hsharing.trans hx)]
    exact .ok trivial
  | some x =>
    have herror {m : Method} (h : m.sharing? = some x) : (openStage m settings).partitioned =
        .error (.violation ((openStage m settings).sharedViolation x)) := by
      have hmethod : (openStage m settings).method = m := rfl
      simp only [partitioned, hmethod, h]
      rfl
    rw [herror hx, herror (hsharing.trans hx), sharedViolation_eq hm]
    exact .violation (.refl _)

/-- Step 5 comes to the same. -/
theorem comesToSame_settled (hm : m.Mirrors m') (hentries : m.EntriesValid) (settings : Settings) :
    ComesToSame (fun _ _ => True) (filledStage m settings).settled
      (filledStage m' settings).settled := by
  have hsubs : ComesToSame (List.Forall₂ fun _ _ => True)
      ((filledStage m settings).subs.mapM (·.settleRet m.name))
      ((filledStage m' settings).subs.mapM (·.settleRet m'.name)) := by
    refine .mapM (List.forall₂_map_left_iff.2 (List.forall₂_map_right_iff.2 ?_))
    have hleaders := (List.forall₂_and_left _ _).2
      ⟨fun l hl => Method.mem_leaderHandles_iff.1 hl, hm.forall₂_leaderHandles⟩
    refine hleaders.imp fun l l' hl => ?_
    obtain ⟨s, hs⟩ := Option.isSome_iff_exists.1
      (Instruction.isSome_slot_of_storesAddress (hentries l hl.1).2)
    have hmembers := hm.forall₂_membersOf (.sub l.position)
    rw [hl.2.position]
    exact (twins_subroutine hm hl.2 hmembers .none).comesToSame_settleRet hm rfl
      (congrArg (Option.map Int.ofNat) hs)
  exact hsubs.bind fun _ _ _ _ _ => .ok trivial

/-- The first protected place of a subroutine is the same. -/
theorem rel_protection? (hm : m.Mirrors m') (settings : Settings) :
    Option.Rel (fun x x' => m.TwinHandler m' x.1 x'.1 ∧ m.Twins m' x.2.1 x'.2.1 ∧ x'.2.2 = x.2.2)
      (settledStage m settings).protection? (settledStage m' settings).protection? := by
  refine findSome?_forall₂ hm.handlers fun x x' hx => ?_
  refine findSome?_forall₂ hx.forall₂_covered fun h h' hh => ?_
  have howner : (settledStage m' settings).ownerOf h' = (settledStage m settings).ownerOf h := by
    have howns : (settledStage m settings).method.body.owns h = true := Body.owns_iff.2 hh.left
    have howns' : (settledStage m' settings).method.body.owns h' = true := Body.owns_iff.2 hh.right
    have hspans : (settledStage m' settings).spans = (settledStage m settings).spans :=
      hm.sameStructure.seeds_eq
    rw [ownerOf, ownerOf, if_pos howns, if_pos howns', hspans, hh.position]
  rw [howner]
  split
  · exact .some ⟨hx, hh, rfl⟩
  · exact .none

/-- Step 6 comes to the same. -/
theorem comesToSame_unprotected (hm : m.Mirrors m') (settings : Settings) :
    ComesToSame (fun _ _ => True) (settledStage m settings).unprotected
      (settledStage m' settings).unprotected := by
  have hrel := rel_protection? hm settings
  rw [unprotected, unprotected]
  generalize (settledStage m settings).protection? = found at hrel ⊢
  generalize (settledStage m' settings).protection? = found' at hrel ⊢
  cases hrel with
  | none => exact .ok trivial
  | @some found found' hfound =>
    obtain ⟨x, h, r⟩ := found
    obtain ⟨x', h', r'⟩ := found'
    obtain ⟨hx : m.TwinHandler m' x x', hh : m.Twins m' h h', rfl : r' = r⟩ := hfound
    have hnote := (twins_region_settledStage hm settings r').note_eq
    have hmethod {m : Method} : (settledStage m settings).method = m := rfl
    have heq : (settledStage m' settings).protectedViolation x' h' r' =
        { (settledStage m settings).protectedViolation x h r' with handler := some x' } := by
      simp only [protectedViolation, hmethod, hm.name, hnote, hh.position, hm.text_eq hh,
        hx.text_eq]
    refine .violation ?_
    rw [heq]
    exact .handler rfl hx.handlerJson_eq

/-- Step 7 comes to the same. -/
theorem comesToSame_recursionOf (hm : m.Mirrors m') (hentries : m.EntriesValid)
    (hentries' : m'.EntriesValid) (settings : Settings) :
    ComesToSame (fun _ _ => True) ((settledStage m settings).recursionOf .top m.name)
      ((settledStage m' settings).recursionOf .top m'.name) := by
  have htwins := twins_region_settledStage hm settings
  have hslots : (settledStage m' settings).retSlot = (settledStage m settings).retSlot := by
    funext p
    rw [retSlot, retSlot, (htwins (.sub p)).bind_slot_ret hm]
  rw [recursionOf, recursionOf, graphOf_settledStage hentries m.isRegion_top,
    graphOf_settledStage hentries' m'.isRegion_top, hm.sameStructure.callGraph_eq m.isRegion_top,
    hslots]
  simp only [bind, Except.bind]
  split
  · next x _ =>
    have heq : (settledStage m' settings).clashViolation .top m'.name x =
        (settledStage m settings).clashViolation .top m.name x := by
      simp only [clashViolation, hslots, (htwins _).map_position_ret, (htwins _).slot,
        (htwins _).callPositions_eq, (htwins _).label_eq, (htwins _).note_eq, hm.name]
    rw [heq]
    exact .violation (.refl _)
  · exact .ok trivial

/-- The first six steps come to the same. -/
theorem comesToSame_regionsOf (hm : m.Mirrors m') (settings : Settings) :
    ComesToSame (fun _ _ => True) (regionsOf m settings) (regionsOf m' settings) := by
  -- a step that succeeds gives the next stage, so both sides go on from stages that are known
  refine (comesToSame_opened hm settings).bind fun t t' ht ht' _ => ?_
  obtain ⟨hentries, rfl⟩ := of_opened_eq_ok ht
  obtain ⟨hentries', rfl⟩ := of_opened_eq_ok ht'
  refine (comesToSame_partitioned hm settings).bind fun t t' ht ht' _ => ?_
  obtain rfl := of_partitioned_eq_ok ht
  obtain rfl := of_partitioned_eq_ok ht'
  refine (comesToSame_settled hm hentries settings).bind fun t t' ht ht' _ => ?_
  obtain rfl := of_settled_eq_ok hentries ht
  obtain rfl := of_settled_eq_ok hentries' ht'
  exact (comesToSame_unprotected hm settings).bind fun _ _ _ _ _ => .ok trivial

/-- The steps that can refuse a method, with no table kept. -/
def examined (m : Method) (settings : Settings) : Except Fault Unit := do
  let t ← regionsOf m settings
  t.recursionOf .top m.name

theorem comesToSame_examined (hm : m.Mirrors m') (settings : Settings) :
    ComesToSame (fun _ _ => True) (examined m settings) (examined m' settings) := by
  refine (comesToSame_regionsOf hm settings).bind fun t t' ht ht' _ => ?_
  obtain ⟨⟨hentries, -⟩, rfl⟩ := regionsOf_eq_ok_iff.1 ht
  obtain ⟨⟨hentries', -⟩, rfl⟩ := regionsOf_eq_ok_iff.1 ht'
  exact comesToSame_recursionOf hm hentries hentries' settings

/-- A method that passes the steps gets a table. -/
theorem exists_build_of_examined (h : examined m settings = .ok ()) :
    ∃ t, build m settings = .ok t := by
  rw [Method.exists_build_eq_ok_iff]
  rw [examined] at h
  cases hregions : regionsOf m settings with
  | error f =>
    rw [hregions] at h
    cases h
  | ok t =>
    obtain ⟨⟨hentries, hdisjoint, hreturns, hhandlers⟩, rfl⟩ := regionsOf_eq_ok_iff.1 hregions
    rw [hregions] at h
    rcases recursion_cases hentries hreturns settings with ⟨hslots, -⟩ | ⟨v, l, k, path, hcheck, -⟩
    · exact ⟨hentries, hdisjoint, hreturns, hhandlers, hslots⟩
    · cases hcheck.symm.trans h

/-- A method is refused with what the first failing step says. -/
theorem build_eq_error_of_examined {f : Fault} (h : examined m settings = .error f) :
    build m settings = .error f := by
  obtain ⟨rest, hbuild⟩ : ∃ rest : Table → Except Fault Table, build m settings =
      regionsOf m settings >>= fun t =>
        (Query.checkRecursion .top m.name t).1 >>= fun _ => rest t :=
    ⟨_, by simp only [build, regionsOf, bind_assoc, pure_bind]; rfl⟩
  rw [examined] at h
  rw [hbuild]
  cases hregions : regionsOf m settings with
  | error g =>
    rw [hregions] at h
    cases h
    rfl
  | ok t =>
    obtain ⟨-, rfl⟩ := regionsOf_eq_ok_iff.1 hregions
    rw [hregions] at h
    have hcheck := (fst_checkRecursion_settledStage m settings).trans h
    exact congrArg (· >>= fun _ => rest (settledStage m settings)) hcheck

/-- Methods that mirror each other come to the same: both get tables and the tables say the same,
or both are refused for the same rule, in the same words and with the same evidence. -/
theorem comesToSame_of_mirrors (hm : m.Mirrors m') (settings : Settings) :
    ComesToSame Agrees (build m settings) (build m' settings) := by
  have hsteps := comesToSame_examined hm settings
  generalize hx : examined m settings = x at hsteps
  generalize hx' : examined m' settings = x' at hsteps
  cases hsteps with
  | ok _ =>
    obtain ⟨t, ht⟩ := exists_build_of_examined hx
    obtain ⟨t', ht'⟩ := exists_build_of_examined hx'
    rw [ht, ht']
    exact .ok ((FullyBuilt.of_build ht).agrees (.of_build ht') hm.sameStructure)
  | violation hv =>
    rw [build_eq_error_of_examined hx, build_eq_error_of_examined hx']
    exact .violation hv

end Table

end BytecodeRegions
