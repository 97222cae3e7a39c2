import BytecodeRegions.Proofs.Lifecycle

/-!
# Changing a table that is built

Once a table is built and sealed, almost every operation on its regions is refused or changes
nothing: slots are set, no members are added any more, and a `ret` that is settled again is the
same. What is left is attaching a call, which asks for the slot of the region and not for its entry.
So a call can be attached to a subroutine that it does not enter, if the subroutine that it does
enter has the same slot.

The table of a method is therefore read-only exactly when its subroutines have different slots. In
any case nothing but calls can be added.

## Main definitions

* `Table.Attempts`: operations on regions of a table with places of its method.
* `Table.ReadOnly`: no operation changes a region.
* `Region.Augments`, `Table.Augmented`: nothing but calls was added.
* `Method.OwnSlots`: different subroutines have different slots.

## Main results

* `Region.Lawful.makes_closed`: what an operation can do to a finished region of a closed table.
* `Table.FullyBuilt.augmented_afterEvents`: nothing but calls is added to the regions of a table.
* `Table.readOnly_iff`: the tables that are read-only.
-/

namespace BytecodeRegions

namespace Region

variable {r r' r'' : Region} {op : Operation} {m : Method}

/-- The places that an operation is about are places of a method. -/
def Operation.IsOf (m : Method) : Operation → Prop
  | setSlot _ => True
  | addEntering call => call.body = m.body
  | addMember h => h.body = m.body
  | settleRet _ => True

/-- On a finished region of a closed table, an operation can only add a call that fits. -/
theorem Lawful.makes_closed (hr : r.Lawful) (hdone : r.isTop = true ∨ r.ret.isSome = true)
    (h : r.Makes true op r') : r' = r ∨ ∃ call, op = .addEntering call ∧ call ∉ r.calls ∧
      r.Fits call ∧ r' = { r with calls := r.calls ++ [call] } := by
  cases h with
  | setSlot s htop hslot =>
    obtain ⟨ret, hret⟩ := Option.isSome_iff_exists.1
      (hdone.resolve_left (Bool.eq_false_iff.1 htop))
    obtain ⟨n, -, hn⟩ := hr.retSlot ret hret
    exact absurd (hslot.symm.trans hn) nofun
  | addEntering call s hcall hslot htarget =>
    by_cases hmem : call ∈ r.calls
    · exact .inl (by rw [if_pos hmem])
    · exact .inr ⟨call, rfl, hmem, fits_of_targetSlot hcall hslot htarget, by rw [if_neg hmem]⟩
  | addMember h hclosed => cases hclosed
  | settleRet method s ret htop hslot hrets hret =>
    obtain ⟨ret', hret'⟩ := Option.isSome_iff_exists.1
      (hdone.resolve_left (Bool.eq_false_iff.1 htop))
    have hsame : ret = ret' := List.singleton_inj.1 (hrets.symm.trans (hr.rets ret' hret'))
    exact .inl (by rw [hsame, ← hret'])

/-- Two regions have the same slot, calls, members and `ret`. -/
structure SameParts (r r' : Region) : Prop where
  slot : r'.slot = r.slot
  calls : r'.calls = r.calls
  members : r'.members = r.members
  ret : r'.ret = r.ret

/-- A region differs from another one only in additional calls, which are places of a method. -/
structure Augments (m : Method) (r r' : Region) : Prop where
  rest : r' = { r with calls := r'.calls }
  kept : r.calls ⊆ r'.calls
  added : ∀ call ∈ r'.calls, call ∈ r.calls ∨ call.body = m.body

theorem Augments.refl (r : Region) : Augments m r r :=
  ⟨rfl, List.Subset.refl _, fun _ h => .inl h⟩

theorem Augments.trans (h : Augments m r r') (h' : Augments m r' r'') : Augments m r r'' where
  rest := by rw [h'.rest, h.rest]
  kept := List.Subset.trans h.kept h'.kept
  added call hcall := (h'.added call hcall).elim (h.added call) .inr

theorem augments_makes (hr : r.Lawful) (hdone : r.isTop = true ∨ r.ret.isSome = true)
    (hop : op.IsOf m) (h : r.Makes true op r') : Augments m r r' := by
  obtain rfl | ⟨call, rfl, -, -, rfl⟩ := hr.makes_closed hdone h
  · exact .refl r'
  · refine ⟨rfl, List.subset_append_left _ _, fun j hj => ?_⟩
    rcases List.mem_append.1 hj with hj | hj
    · exact .inl hj
    · exact .inr (List.mem_singleton.1 hj ▸ hop)

end Region

/-- Different subroutines have different slots. -/
def Method.OwnSlots (m : Method) : Prop :=
  ∀ l l', m.IsLeader l → m.IsLeader l' → l.instruction.slot = l'.instruction.slot → l = l'

namespace Table

open Region (Operation Augments)

/-- An operation is tried on a region of a table, with places of its method. -/
inductive Attempts (t : Table) : Event → Prop
  | change {ref : RegionRef} {op : Operation} (href : ref ∈ t.regions) (hop : op.IsOf t.method) :
      Attempts t (.change ref op)

/-- No operation changes a region: whatever was tried before, it is refused, or all regions keep
their slots, calls, members and `ret` instructions. So the calls of a subroutine stay those that
target its entry. -/
structure ReadOnly (t : Table) : Prop where
  unchanged : ∀ es, (∀ e ∈ es, t.Attempts e) → ∀ e, t.Attempts e →
    (∃ f, (e.run (t.afterEvents es)).1 = .error f) ∨ ∀ ref ∈ t.regions,
      ((t.afterEvents es).region ref).SameParts ((e.run (t.afterEvents es)).2.region ref)
  entering : ∀ es, (∀ e ∈ es, t.Attempts e) → ∀ l, t.method.IsLeader l →
    ∃ calls, ((t.afterEvents es).region (.sub l.position)).entering = .ok calls ∧
      ∀ j, j ∈ calls ↔ j ∈ t.method.callersOf l

/-- What holds of the table `u` that has come of the table `t` by operations on its regions: nothing
but calls was added, and the calls fit. -/
structure Augmented (t u : Table) : Prop where
  closed : u.isSealed = true
  lawful : ∀ ref ∈ t.regions, (u.region ref).Lawful
  regions : ∀ ref ∈ t.regions, Augments t.method (t.region ref) (u.region ref)

variable {t u : Table} {m : Method} {settings : Settings} {ref : RegionRef} {e : Event}
  {es : List Event} {l : Handle}

theorem isSealed_modify (t : Table) (ref : RegionRef) (f : Region → Region) :
    (t.modify ref f).isSealed = t.isSealed := by
  cases ref <;> rfl

theorem isSealed_of_build (ht : build m settings = .ok t) : t.isSealed = true :=
  congrArg Table.isSealed (finished_of_build_eq_ok ht).2.2

namespace FullyBuilt

variable (ht : t.FullyBuilt m)

include ht

/-- A region is the top level or has a `ret`. -/
theorem isTop_or_isSome_ret (href : ref ∈ t.regions) :
    (t.region ref).isTop = true ∨ (t.region ref).ret.isSome = true := by
  cases ref with
  | top => exact .inl (congrArg Region.isTop (ht.forget_region_eq .top))
  | sub p =>
    obtain ⟨l, hl, rfl⟩ := ht.mem_regions_iff.1 href
    obtain ⟨ret, s, hret, -⟩ := ht.exists_ret hl
    exact .inr (by rw [hret]; rfl)
  | loose i => exact (ht.mem_regions_iff.1 href).elim

theorem slot_eq (hl : m.IsLeader l) :
    (t.region (.sub l.position)).slot = l.instruction.slot.map Int.ofNat :=
  congrArg Region.slot (ht.region_sub hl)

theorem augmented_self (hclosed : t.isSealed = true) : t.Augmented t where
  closed := hclosed
  lawful _ href := ht.lawful (ht.mem_regions_iff.1 href)
  regions _ _ := .refl _

/-- A region with additional calls is still finished. -/
theorem finished_of_augments (href : ref ∈ t.regions) {r : Region}
    (hr : Augments t.method (t.region ref) r) : r.isTop = true ∨ r.ret.isSome = true := by
  rw [hr.rest]
  exact ht.isTop_or_isSome_ret href

/-- An operation adds nothing but calls. -/
theorem augmented_run (hu : t.Augmented u) (he : t.Attempts e) : t.Augmented (e.run u).2 := by
  obtain ⟨-, hop⟩ := he
  constructor
  case closed =>
    obtain ⟨f, hrun⟩ | ⟨r, -, hrun⟩ := u.run_change_cases _ _
    · rw [hrun]
      exact hu.closed
    · rw [hrun]
      exact (isSealed_modify u _ _).trans hu.closed
  case lawful => exact fun ref href => (lawful_run (hu.lawful ref href) _).1
  case regions =>
    intro ref href
    have hdone := ht.finished_of_augments href (hu.regions ref href)
    obtain hsame | hmakes := u.region_run_change _ _ ref
    · rw [hsame]
      exact hu.regions ref href
    · rw [hu.closed] at hmakes
      exact (hu.regions ref href).trans
        (Region.augments_makes (hu.lawful ref href) hdone hop hmakes)

/-- However many operations are tried, nothing but calls is added. -/
theorem augmented_afterEvents (hu : t.Augmented u) (hes : ∀ e ∈ es, t.Attempts e) :
    t.Augmented (u.afterEvents es) := by
  induction es generalizing u with
  | nil => exact hu
  | cons e es ih =>
    obtain ⟨he, hes⟩ := List.forall_mem_cons.1 hes
    exact ih (ht.augmented_run hu he) hes

/-- A call that fits a subroutine enters it, if subroutines have slots of their own. -/
theorem mem_calls_of_fits (hslots : m.OwnSlots) (hl : m.IsLeader l) {call : Handle}
    (hbody : call.body = m.body)
    (hfits : (t.region (.sub l.position)).Fits call) :
    call ∈ (t.region (.sub l.position)).calls := by
  obtain ⟨hjsr, l', s, htarget, hs, hslot⟩ := hfits
  have hl' : m.IsLeader l' := ⟨call, hbody, hjsr, htarget⟩
  rw [ht.slot_eq hl] at hslot
  obtain ⟨s', hs', heq⟩ := Option.map_eq_some_iff.1 hslot
  have hsame : l = l' := hslots l l' hl hl' (by rw [hs, hs', Int.ofNat.inj heq])
  rw [ht.calls_eq hl, Method.mem_callersList_iff hl.body_eq]
  exact ⟨hbody, hjsr, hsame ▸ htarget⟩

/-- If subroutines have slots of their own, an operation changes no region. -/
theorem region_run_eq (hslots : m.OwnSlots) (hclosed : u.isSealed = true)
    (hsame : ∀ ref ∈ t.regions, u.region ref = t.region ref) (he : t.Attempts e)
    (href : ref ∈ t.regions) : (e.run u).2.region ref = t.region ref := by
  obtain ⟨-, hop⟩ := he
  obtain hkept | hmakes := u.region_run_change _ _ ref
  · exact hkept.trans (hsame ref href)
  rw [hclosed, hsame ref href] at hmakes
  have hregion := ht.mem_regions_iff.1 href
  have hlawful := ht.lawful hregion
  obtain hkept | ⟨call, rfl, hnew, hfits, -⟩ :=
    hlawful.makes_closed (ht.isTop_or_isSome_ret href) hmakes
  · exact hkept
  cases ref with
  | top =>
    have htop : (t.region .top).isTop = true := congrArg Region.isTop (ht.forget_region_eq .top)
    obtain ⟨-, l, s, -, -, hslot⟩ := hfits
    exact absurd ((hlawful.top htop).1.symm.trans hslot) nofun
  | sub p =>
    obtain ⟨l, hl, rfl⟩ := hregion
    exact absurd (ht.mem_calls_of_fits hslots hl (ht.method_eq ▸ hop) hfits) hnew
  | loose i => exact hregion.elim

/-- If subroutines have slots of their own, operations change no region, however many are tried. -/
theorem region_afterEvents_eq (hslots : m.OwnSlots) (hu : t.Augmented u)
    (hsame : ∀ ref ∈ t.regions, u.region ref = t.region ref) (hes : ∀ e ∈ es, t.Attempts e) :
    ∀ ref ∈ t.regions, (u.afterEvents es).region ref = t.region ref := by
  induction es generalizing u with
  | nil => exact hsame
  | cons e es ih =>
    obtain ⟨he, hes⟩ := List.forall_mem_cons.1 hes
    exact ih (ht.augmented_run hu he)
      (fun ref href => ht.region_run_eq hslots hu.closed hsame he href) hes

theorem readOnly_of_ownSlots (hclosed : t.isSealed = true) (hslots : m.OwnSlots) : t.ReadOnly := by
  have hself := ht.augmented_self hclosed
  have hsame (es : List Event) (hes : ∀ e ∈ es, t.Attempts e) :
      ∀ ref ∈ t.regions, (t.afterEvents es).region ref = t.region ref :=
    ht.region_afterEvents_eq hslots hself (fun _ _ => rfl) hes
  constructor
  case unchanged =>
    intro es hes e he
    refine .inr fun ref href => ?_
    have hclosed' := (ht.augmented_afterEvents hself hes).closed
    rw [ht.region_run_eq hslots hclosed' (hsame es hes) he href, hsame es hes ref href]
    exact ⟨rfl, rfl, rfl, rfl⟩
  case entering =>
    intro es hes l hl
    rw [ht.method_eq] at hl ⊢
    rw [hsame es hes _ (ht.mem_regions_iff.2 hl.isRegion)]
    have htop : (t.region (.sub l.position)).isTop = false :=
      congrArg Region.isTop (ht.region_sub hl)
    refine ⟨_, by rw [Region.entering, htop]; rfl, fun j => ?_⟩
    rw [ht.calls_eq hl, Method.mem_callersList_iff hl.body_eq]

/-- A call of one subroutine can be attached to another one that has the same slot. -/
theorem run_addEntering {l' call : Handle} (hl : m.IsLeader l) (hcall : call ∈ m.callersOf l')
    (hslot : l.instruction.slot = l'.instruction.slot) (hne : l ≠ l') :
    ((Event.change (.sub l.position) (.addEntering call)).run t).1 = .ok () ∧
      (((Event.change (.sub l.position) (.addEntering call)).run t).2.region
        (.sub l.position)).calls = m.callersList l ++ [call] := by
  obtain ⟨hbody, hjsr, htarget⟩ := hcall
  obtain ⟨s, hs⟩ := Option.isSome_iff_exists.1
    (Instruction.isSome_slot_of_storesAddress (ht.entries l hl).2)
  have hnew : call ∉ m.callersList l := by
    rw [Method.mem_callersList_iff hl.body_eq]
    rintro ⟨-, -, htarget'⟩
    exact hne (Option.some.inj (htarget'.symm.trans htarget))
  have hregion : (t.region (.sub l.position)).slot = some (Int.ofNat s) := by
    rw [ht.slot_eq hl, hs]
    rfl
  have hfits : Region.targetSlot call = some (Int.ofNat s) := by
    rw [Region.targetSlot, htarget, Option.bind_some, ← hslot, hs]
    rfl
  have hposition : (t.region (.sub l.position)).entry.position = l.position :=
    congrArg (fun r => r.entry.position) (ht.region_sub hl)
  obtain ⟨r, hmakes, hentry, hcalls⟩ : ∃ r,
      (t.region (.sub l.position)).Makes t.isSealed (.addEntering call) r ∧
        r.entry.position = l.position ∧ r.calls = m.callersList l ++ [call] := by
    refine ⟨_, .addEntering call _ hjsr hregion hfits, hposition, ?_⟩
    rw [ht.calls_eq hl, if_neg hnew]
  have hmem : l.position ∈ t.leaders := ht.leaders_eq ▸ Method.mem_leaders_iff.2 hl.isRegion
  rw [run_change_of_makes hmakes]
  exact ⟨rfl, (congrArg Region.calls (region_modify_sub hmem hentry)).trans hcalls⟩

/-- The table of a method whose subroutines share a slot is not read-only. -/
theorem ownSlots_of_readOnly (hreadOnly : t.ReadOnly) : m.OwnSlots := by
  intro l l' hl hl' hslot
  by_contra hne
  obtain ⟨call, hcall⟩ := hl'
  obtain ⟨hok, hcalls⟩ := ht.run_addEntering hl hcall hslot hne
  have hattempt : t.Attempts (.change (.sub l.position) (.addEntering call)) :=
    .change (ht.mem_regions_iff.2 hl.isRegion) (hcall.1.trans (congrArg _ ht.method_eq.symm))
  obtain ⟨f, herror⟩ | hsame := hreadOnly.unchanged [] (List.forall_mem_nil _) _ hattempt
  · exact absurd (hok.symm.trans herror) nofun
  · have hkept := (hsame _ (ht.mem_regions_iff.2 hl.isRegion)).calls
    have hlength := congrArg List.length (hcalls.symm.trans (hkept.trans (ht.calls_eq hl)))
    rw [List.length_append, List.length_singleton] at hlength
    omega

end FullyBuilt

/-- The table of an accepted method is read-only exactly when different subroutines have different
slots. In any case operations add nothing to its regions but calls that fit their slots. -/
theorem readOnly_iff (ht : build m settings = .ok t) :
    (t.ReadOnly ↔ m.OwnSlots) ∧
      ∀ es, (∀ e ∈ es, t.Attempts e) → t.Augmented (t.afterEvents es) := by
  have hbuilt := FullyBuilt.of_build ht
  have hclosed := isSealed_of_build ht
  refine ⟨⟨hbuilt.ownSlots_of_readOnly, hbuilt.readOnly_of_ownSlots hclosed⟩, fun es hes => ?_⟩
  exact hbuilt.augmented_afterEvents (hbuilt.augmented_self hclosed) hes

theorem ownSlots_nested : (Method.nested 2).OwnSlots := by
  have hleaders : (Method.nested 2).leaders = [4, 7] := by cbv
  have hcases (l : Handle) (hl : (Method.nested 2).IsLeader l) :
      l = Method.nestedAt 2 4 ∨ l = Method.nestedAt 2 7 := by
    have hmem : l.position ∈ (Method.nested 2).leaders := Method.mem_leaders_iff.2 hl.isRegion
    rw [hleaders, List.mem_pair] at hmem
    exact hmem.imp (Handle.eq_of_position hl.body_eq) (Handle.eq_of_position hl.body_eq)
  intro l l' hl hl' hslot
  obtain rfl | rfl := hcases l hl <;> obtain rfl | rfl := hcases l' hl'
  · rfl
  · exact absurd hslot (by decide)
  · exact absurd hslot (by decide)
  · rfl

/-- The table of two nested subroutines, which have slots of their own, is read-only. -/
theorem readOnly_iff_nested : ∃ t, build (.nested 2) {} = .ok t ∧ t.ReadOnly ∧
    t.Attempts (.change (.sub 4) (.addEntering (Method.nestedAt 2 5))) ∧
    t.Augmented (t.afterEvents [.change (.sub 4) (.addEntering (Method.nestedAt 2 5))]) := by
  obtain ⟨t, ht, hleaders, -⟩ := build_nested_two
  have hmethod : t.method = .nested 2 := (FullyBuilt.of_build ht).method_eq
  have hregion : RegionRef.sub 4 ∈ t.regions := by
    rw [regions, hleaders]
    decide
  have hattempt : t.Attempts (.change (.sub 4) (.addEntering (Method.nestedAt 2 5))) :=
    .change hregion (congrArg Method.body hmethod.symm)
  obtain ⟨hiff, haugmented⟩ := readOnly_iff ht
  exact ⟨t, ht, hiff.2 ownSlots_nested, hattempt,
    haugmented _ (List.forall_mem_singleton.2 hattempt)⟩

end Table

/-! ### Subroutines that share a slot -/

namespace Method

/-- Code that calls two subroutines one after the other, which keep their return addresses in one
slot. -/
def siblingsCode : Body where
  stamp := 0
  code := #[.jsr 3, .jsr 5, .leave, .astore 1, .ret 1, .astore 1, .ret 1]
  jumps := by decide

/-- A place of that code. -/
def siblingsAt (p : Fin 7) : Handle where
  body := siblingsCode
  position := p
  inside := p.isLt

/-- The method of that code. -/
def siblings : Method where
  name := "siblings"
  body := siblingsCode
  handlers := []
  nonempty := by decide

end Method

namespace Table

/-- The second call of two subroutines that share a slot can be attached to the first subroutine,
though the table is built and the call enters the other one. -/
theorem siblings_not_readOnly : ∃ t, build .siblings {} = .ok t ∧
    (t.region (.sub 3)).callPositions = [0] ∧
    ((t.afterEvents [.change (.sub 3) (.addEntering (Method.siblingsAt 1))]).region
      (.sub 3)).callPositions = [0, 1] ∧ ¬t.ReadOnly := by
  have heval : (build .siblings {}).toOption.map (fun t =>
      (t.leaders, (t.region (.sub 3)).callPositions,
        ((Event.change (.sub 3) (.addEntering (Method.siblingsAt 1))).run t).1.isOk,
        (((Event.change (.sub 3) (.addEntering (Method.siblingsAt 1))).run t).2.region
          (.sub 3)).callPositions)) = some ([3, 5], [0], true, [0, 1]) := by cbv
  cases ht : build .siblings {} with
  | error f => rw [ht] at heval; cases heval
  | ok t =>
    rw [ht] at heval
    simp only [Except.toOption, Option.map_some, Option.some.injEq, Prod.mk.injEq] at heval
    obtain ⟨hleaders, hbefore, hok, hafter⟩ := heval
    refine ⟨t, rfl, hbefore, hafter, fun hreadOnly => ?_⟩
    have hregion : RegionRef.sub 3 ∈ t.regions := by
      rw [regions, hleaders]
      decide
    have hmethod : t.method = .siblings := (FullyBuilt.of_build ht).method_eq
    have hattempt : t.Attempts (.change (.sub 3) (.addEntering (Method.siblingsAt 1))) :=
      .change hregion (congrArg Method.body hmethod.symm)
    obtain ⟨f, herror⟩ | hsame := hreadOnly.unchanged [] (List.forall_mem_nil _) _ hattempt
    · change ((Event.change (.sub 3) (.addEntering (Method.siblingsAt 1))).run t).1 = _ at herror
      rw [herror] at hok
      cases hok
    · have hcalls := (hsame _ hregion).calls
      have hpositions :=
        congrArg (fun calls => (Region.byPosition calls).map Handle.position) hcalls
      exact absurd (hafter.symm.trans (hpositions.trans hbefore)) (by decide)

end Table

end BytecodeRegions
