import BytecodeRegions.Proofs.Acceptance
import BytecodeRegions.Proofs.Table.Regions

/-!
# The life of a region

A region may be changed by its four operations in any order, with operations that are refused in
between, while its table is opened and sealed and while other regions change. Each operation guards
what the others have established: the slot is set once and never again, calls are attached only when
they fit the slot, and members are added only until the `ret` is settled.

What an operation can do is said once (`Region.Makes`). A *lawful* region keeps within what the
guards are for, and a region *grows* when it keeps what it is and what it has settled. Every
operation leads from a lawful region to a lawful one that it grows into, and so does every history.

## Main definitions

* `Region.Operation`: the four operations.
* `Region.Makes`: what an operation does to a region when it is not refused.
* `Region.Lawful`, `Region.Grows`: the invariant, and what never changes back.
* `Table.Event`, `Table.afterEvents`: what may happen to a table, and the table after a history.
* `Table.Begins`: the regions that have just come to be.
* `Table.Regulated`: the law that a region is under through every history.

## Main results

* `Region.Lawful.makes`: an operation keeps a region lawful, and the region grows.
* `Table.lawful_afterEvents`: so does every history.
* `Table.regulated_of_begins`: every region is under the law from the beginning.
-/

namespace BytecodeRegions

/-! ### Operations -/

namespace Region

variable {r r' r'' : Region} {closed : Bool} {ret : Handle}

/-- The operations that put a region together. -/
inductive Operation where
  /-- Sets the slot. -/
  | setSlot (s : Int)
  /-- Attaches a call. -/
  | addEntering (call : Handle)
  /-- Adds a member. -/
  | addMember (h : Handle)
  /-- Settles the `ret`, for a method with a given name. -/
  | settleRet (method : String)

/-- What comes of an operation on a region of a table that is closed or not. -/
def Operation.apply : Operation → Bool → Region → Except Fault Region
  | setSlot s, _, r => (r.setSlot s).mapError .misuse
  | addEntering call, _, r => (r.addEntering call).mapError .misuse
  | addMember h, closed, r => (r.addMember closed h).mapError .misuse
  | settleRet method, _, r => r.settleRet method

variable {op : Operation}

/-- What an operation makes of a region when it is not refused. -/
inductive Makes (closed : Bool) (r : Region) : Operation → Region → Prop
  | setSlot (s : Int) (htop : r.isTop = false) (hslot : r.slot = none) :
      Makes closed r (.setSlot s) { r with slot := some s }
  | addEntering (call : Handle) (s : Int) (hcall : call.instruction.isJsr = true)
      (hslot : r.slot = some s) (htarget : targetSlot call = some s) :
      Makes closed r (.addEntering call)
        { r with calls := if call ∈ r.calls then r.calls else r.calls ++ [call] }
  | addMember (h : Handle) (hclosed : closed = false) (hret : r.ret = none) :
      Makes closed r (.addMember h)
        { r with members := if h ∈ r.members then r.members else r.members ++ [h] }
  | settleRet (method : String) (s : Int) (ret : Handle) (htop : r.isTop = false)
      (hslot : r.slot = some s) (hrets : r.rets = [ret])
      (hret : ret.instruction.slot.map Int.ofNat = some s) :
      Makes closed r (.settleRet method) { r with ret := some ret }

theorem setSlot_eq_ok_iff {s : Int} : r.setSlot s = .ok r' ↔
    r.isTop = false ∧ r.slot = none ∧ r' = { r with slot := some s } := by
  by_cases htop : r.isTop = true
  · simp [Region.setSlot, htop]
  cases hslot : r.slot with
  | none => simp [Region.setSlot, htop, hslot, eq_comm]
  | some _ => simp [Region.setSlot, htop, hslot]

theorem addEntering_eq_ok_iff {call : Handle} : r.addEntering call = .ok r' ↔
    ∃ s, call.instruction.isJsr = true ∧ r.slot = some s ∧ targetSlot call = some s ∧
      r' = { r with calls := if call ∈ r.calls then r.calls else r.calls ++ [call] } := by
  by_cases hcall : call.instruction.isJsr = true
  case neg => simp [Region.addEntering, hcall]
  cases hslot : r.slot with
  | none => simp [Region.addEntering, hcall, hslot]
  | some s =>
    by_cases htarget : targetSlot call = some s
    · simp [Region.addEntering, hcall, hslot, htarget, @eq_comm Region r']
    · simp [Region.addEntering, hcall, hslot, htarget]

theorem addMember_eq_ok_iff {h : Handle} : r.addMember closed h = .ok r' ↔
    closed = false ∧ r.ret = none ∧
      r' = { r with members := if h ∈ r.members then r.members else r.members ++ [h] } := by
  by_cases hclosed : closed = true
  · simp [Region.addMember, hclosed]
  cases hret : r.ret with
  | none => simp [Region.addMember, hclosed, hret, eq_comm]
  | some _ => simp [Region.addMember, hclosed, hret]

theorem settleRet_eq_ok_iff {method : String} : r.settleRet method = .ok r' ↔
    ∃ s ret, r.isTop = false ∧ r.slot = some s ∧ r.rets = [ret] ∧
      ret.instruction.slot.map Int.ofNat = some s ∧ r' = { r with ret := some ret } := by
  rw [Region.settleRet]
  constructor
  · intro h
    split at h
    next htop hslot =>
      split at h
      next => cases h
      next ret hrets =>
        split at h
        next hsame => exact ⟨_, ret, htop, hslot, hrets, hsame, (Except.ok.inj h).symm⟩
        next => cases h
      next => cases h
    next => cases h
  · rintro ⟨s, ret, htop, hslot, hrets, hsame, rfl⟩
    simp only [htop, hslot, hrets, if_pos hsame]

/-- An operation is accepted exactly when its guards hold. -/
theorem apply_eq_ok_iff : op.apply closed r = .ok r' ↔ r.Makes closed op r' := by
  cases op with
  | setSlot s =>
    rw [Operation.apply, mapError_eq_ok_iff, setSlot_eq_ok_iff]
    constructor
    · rintro ⟨htop, hslot, rfl⟩
      exact .setSlot s htop hslot
    · rintro ⟨⟩
      exact ⟨‹_›, ‹_›, rfl⟩
  | addEntering call =>
    rw [Operation.apply, mapError_eq_ok_iff, addEntering_eq_ok_iff]
    constructor
    · rintro ⟨s, hcall, hslot, htarget, rfl⟩
      exact .addEntering call s hcall hslot htarget
    · rintro ⟨⟩
      exact ⟨_, ‹_›, ‹_›, ‹_›, rfl⟩
  | addMember h =>
    rw [Operation.apply, mapError_eq_ok_iff, addMember_eq_ok_iff]
    constructor
    · rintro ⟨hclosed, hret, rfl⟩
      exact .addMember h hclosed hret
    · rintro ⟨⟩
      exact ⟨‹_›, ‹_›, rfl⟩
  | settleRet method =>
    rw [Operation.apply, settleRet_eq_ok_iff]
    constructor
    · rintro ⟨s, ret, htop, hslot, hrets, hret, rfl⟩
      exact .settleRet method s ret htop hslot hrets hret
    · rintro ⟨⟩
      exact ⟨_, _, ‹_›, ‹_›, ‹_›, ‹_›, rfl⟩

/-! ### The invariant -/

/-- A call fits a region: the slot that its target stores to is the slot of the region. -/
def Fits (r : Region) (call : Handle) : Prop :=
  call.instruction.isJsr = true ∧ ∃ l s, call.target? = some l ∧ l.instruction.slot = some s ∧
    r.slot = some (Int.ofNat s)

/-- A region keeps within what the guards of its operations are for. -/
structure Lawful (r : Region) : Prop where
  /-- The top level has no slot, no calls and no `ret`. -/
  top : r.isTop = true → r.slot = none ∧ r.calls = [] ∧ r.ret = none
  /-- The calls fit. -/
  calls : ∀ call ∈ r.calls, r.Fits call
  /-- The settled `ret` is the only one and reads the slot. -/
  rets : ∀ ret, r.ret = some ret → r.rets = [ret]
  retSlot : ∀ ret, r.ret = some ret → ∃ s, ret.instruction.slot = some s ∧
    r.slot = some (Int.ofNat s)

/-- A region became another one and kept what it was and what was settled. -/
structure Grows (r r' : Region) : Prop where
  entry : r'.entry = r.entry
  isTop : r'.isTop = r.isTop
  slot : ∀ s, r.slot = some s → r'.slot = some s
  calls : r.calls ⊆ r'.calls
  ret : ∀ ret, r.ret = some ret → r'.ret = some ret ∧ r'.members = r.members

theorem Grows.refl (r : Region) : r.Grows r :=
  ⟨rfl, rfl, fun _ hs => hs, List.Subset.refl _, fun _ hret => ⟨hret, rfl⟩⟩

theorem Grows.trans (h : r.Grows r') (h' : r'.Grows r'') : r.Grows r'' where
  entry := h'.entry.trans h.entry
  isTop := h'.isTop.trans h.isTop
  slot s hs := h'.slot s (h.slot s hs)
  calls := List.Subset.trans h.calls h'.calls
  ret ret hret := by
    obtain ⟨hkept, hmembers⟩ := h.ret ret hret
    obtain ⟨hkept', hmembers'⟩ := h'.ret ret hkept
    exact ⟨hkept', hmembers'.trans hmembers⟩

theorem lawful_new (entry : Handle) (isTop : Bool) : Lawful { entry, isTop } where
  top _ := ⟨rfl, rfl, rfl⟩
  calls := nofun
  rets := nofun
  retSlot := nofun

/-- The law does not depend on what is remembered. -/
theorem lawful_forget : r.forget.Lawful ↔ r.Lawful :=
  ⟨fun h => ⟨h.top, h.calls, h.rets, h.retSlot⟩, fun h => ⟨h.top, h.calls, h.rets, h.retSlot⟩⟩

theorem exists_of_map_ofNat {o : Option Nat} {s : Int} (h : o.map Int.ofNat = some s) :
    ∃ n, o = some n ∧ s = Int.ofNat n := by
  obtain ⟨n, hn, rfl⟩ := Option.map_eq_some_iff.1 h
  exact ⟨n, hn, rfl⟩

/-- A call whose target has the slot of the region fits. -/
theorem fits_of_targetSlot {call : Handle} {s : Int} (hcall : call.instruction.isJsr = true)
    (hslot : r.slot = some s) (htarget : targetSlot call = some s) : r.Fits call := by
  obtain ⟨n, hn, rfl⟩ := exists_of_map_ofNat htarget
  obtain ⟨l, hl, hn⟩ := Option.bind_eq_some_iff.1 hn
  exact ⟨hcall, l, n, hl, hn, hslot⟩

/-- An operation keeps a region lawful, and the region grows. -/
theorem Lawful.makes (hr : r.Lawful) (h : r.Makes closed op r') : r'.Lawful ∧ r.Grows r' := by
  cases h with
  | setSlot s htop hslot =>
    -- without a slot there is nothing yet that the slot could contradict
    have hcalls : r.calls = [] := List.eq_nil_iff_forall_not_mem.2 fun call hcall => by
      obtain ⟨-, l, n, -, -, hn⟩ := hr.calls call hcall
      exact absurd (hslot.symm.trans hn) nofun
    have hret : r.ret = none := Option.eq_none_iff_forall_ne_some.2 fun ret hret => by
      obtain ⟨n, -, hn⟩ := hr.retSlot ret hret
      exact absurd (hslot.symm.trans hn) nofun
    constructor
    · refine ⟨fun h => absurd (htop.symm.trans h) Bool.false_ne_true, ?_, hr.rets, ?_⟩
      · simp [hcalls]
      · simp [hret]
    · exact ⟨rfl, rfl, fun n hn => absurd (hslot.symm.trans hn) nofun, List.Subset.refl _,
        fun _ hret => ⟨hret, rfl⟩⟩
  | addEntering call s hcall hslot htarget =>
    constructor
    · refine ⟨fun h => ?_, fun j hj => ?_, hr.rets, hr.retSlot⟩
      · exact absurd ((hr.top h).1.symm.trans hslot) nofun
      · have hmem : j ∈ r.calls ∨ j = call := by
          dsimp only at hj
          split_ifs at hj
          · exact .inl hj
          · simpa using hj
        rcases hmem with hmem | rfl
        · exact hr.calls j hmem
        · exact fits_of_targetSlot hcall hslot htarget
    · refine ⟨rfl, rfl, fun _ hs => hs, ?_, fun _ hret => ⟨hret, rfl⟩⟩
      dsimp only
      split_ifs
      · exact List.Subset.refl _
      · exact List.subset_append_left _ _
  | addMember h hclosed hret =>
    have hnone (ret : Handle) : r.ret ≠ some ret := hret ▸ nofun
    exact ⟨⟨hr.top, hr.calls, fun ret h => absurd h (hnone ret), hr.retSlot⟩, rfl, rfl,
      fun _ hs => hs, List.Subset.refl _, fun ret h => absurd h (hnone ret)⟩
  | settleRet method s ret htop hslot hrets hret =>
    obtain ⟨n, hn, rfl⟩ := exists_of_map_ofNat hret
    constructor
    · refine ⟨fun h => absurd (htop.symm.trans h) Bool.false_ne_true, hr.calls, ?_, ?_⟩
      · rintro _ ⟨⟩
        exact hrets
      · rintro _ ⟨⟩
        exact ⟨n, hn, hslot⟩
    · refine ⟨rfl, rfl, fun _ hs => hs, List.Subset.refl _, fun ret' hret' => ⟨?_, rfl⟩⟩
      -- a `ret` that was settled before is the same one, since there is only one
      exact congrArg some (List.singleton_inj.1 (hrets.symm.trans (hr.rets ret' hret')))

theorem mem_rets_iff {h : Handle} : h ∈ r.rets ↔ h ∈ r.members ∧ h.instruction.isRet = true := by
  rw [Region.rets, byPosition, (List.mergeSort_perm _ _).mem_iff, List.mem_filter]

/-- Once the `ret` is settled, it is the only one among the members, and it stays when it is settled
again. -/
structure SettledBy (r : Region) (ret : Handle) : Prop where
  only : ∀ h, h ∈ r.members ∧ h.instruction.isRet = true ↔ h = ret
  slot : ∃ s, ret.instruction.slot = some s ∧ r.slot = some (Int.ofNat s)
  again : ∀ method, r.settleRet method = .ok r

theorem Lawful.settledBy (hr : r.Lawful) (hret : r.ret = some ret) : r.SettledBy ret where
  only h := by rw [← mem_rets_iff, hr.rets ret hret, List.mem_singleton]
  slot := hr.retSlot ret hret
  again method := by
    obtain ⟨s, hs, hslot⟩ := hr.retSlot ret hret
    have htop : r.isTop = false := Bool.eq_false_iff.2 fun h =>
      absurd ((hr.top h).1.symm.trans hslot) nofun
    refine settleRet_eq_ok_iff.2 ⟨_, ret, htop, hslot, hr.rets ret hret, by rw [hs]; rfl, ?_⟩
    rw [← hret]

end Region

/-! ### Histories of a table -/

namespace Table

open Region (Operation Lawful Grows)

/-- What may happen to a table. -/
inductive Event where
  /-- The table is sealed or opened. -/
  | setSealed (value : Bool)
  /-- An operation is tried on a region. -/
  | change (ref : RegionRef) (op : Operation)

/-- What an event does to a table. -/
def Event.run : Event → Query Unit
  | setSealed value => modifyGet fun t => ((), { t with isSealed := value })
  | change ref op => Query.change ref op.apply

/-- The table after a history, in which events may be refused. -/
def afterEvents (t : Table) (es : List Event) : Table :=
  es.foldl (fun t e => (e.run t).2) t

variable {t : Table} {ref : RegionRef} {r : Region} {op : Operation} {es : List Event} {e : Event}
  {m : Method} {settings : Settings} {l : Handle}

theorem afterEvents_append (t : Table) (es es' : List Event) :
    t.afterEvents (es ++ es') = (t.afterEvents es).afterEvents es' :=
  List.foldl_append

theorem run_change_of_error {f : Fault} (h : op.apply t.isSealed (t.region ref) = .error f) :
    (Event.change ref op).run t = (.error f, t) := by
  change (Query.ofFault (op.apply t.isSealed (t.region ref)) >>= fun r =>
    modifyGet fun t => ((), t.modify ref fun _ => r) : Query Unit) t = _
  rw [h]
  rfl

theorem run_change_of_makes (h : (t.region ref).Makes t.isSealed op r) :
    (Event.change ref op).run t = (.ok (), t.modify ref fun _ => r) := by
  change (Query.ofFault (op.apply t.isSealed (t.region ref)) >>= fun r =>
    modifyGet fun t => ((), t.modify ref fun _ => r) : Query Unit) t = _
  rw [Region.apply_eq_ok_iff.2 h]
  rfl

/-- An operation that is refused changes nothing; one that is accepted puts what it makes in the
place of the region. -/
theorem run_change_cases (t : Table) (ref : RegionRef) (op : Operation) :
    (∃ f, (Event.change ref op).run t = (.error f, t)) ∨
      ∃ r, (t.region ref).Makes t.isSealed op r ∧
        (Event.change ref op).run t = (.ok (), t.modify ref fun _ => r) := by
  cases happly : op.apply t.isSealed (t.region ref) with
  | error f => exact .inl ⟨f, run_change_of_error happly⟩
  | ok r =>
    have hmakes := Region.apply_eq_ok_iff.1 happly
    exact .inr ⟨r, hmakes, run_change_of_makes hmakes⟩

/-- What is refused changes nothing. -/
theorem run_of_error {f : Fault} (h : (e.run t).1 = .error f) : (e.run t).2 = t := by
  cases e with
  | setSealed value => cases h
  | change ref op =>
    obtain ⟨f', hrun⟩ | ⟨r, -, hrun⟩ := t.run_change_cases ref op
    · rw [hrun]
    · rw [hrun] at h
      cases h

/-- An operation that is tried on one region changes a region by that operation or not at all. -/
theorem region_run_change (t : Table) (ref' : RegionRef) (op : Operation) (ref : RegionRef) :
    ((Event.change ref' op).run t).2.region ref = t.region ref ∨
      (t.region ref).Makes t.isSealed op (((Event.change ref' op).run t).2.region ref) := by
  obtain ⟨f, hrun⟩ | ⟨r, hmakes, hrun⟩ := t.run_change_cases ref' op
  · exact .inl (by rw [hrun])
  rw [hrun]
  have hentry : r.entry = (t.region ref').entry := by cases hmakes <;> rfl
  have hkeep (x : Region) (hx : x.entry.position = (t.region ref').entry.position) :
      r.entry.position = x.entry.position := by rw [hentry, hx]
  obtain hsame | ⟨hnew, hold⟩ := region_modify_cases hkeep ref
  · exact .inl hsame
  · rw [hnew, hold]
    exact .inr hmakes

/-- An event keeps a region lawful, and the region grows. -/
theorem lawful_run (hr : (t.region ref).Lawful) (e : Event) :
    ((e.run t).2.region ref).Lawful ∧ (t.region ref).Grows ((e.run t).2.region ref) := by
  cases e with
  | setSealed value =>
    have hsame : ((Event.setSealed value).run t).2.region ref = t.region ref := by cases ref <;> rfl
    rw [hsame]
    exact ⟨hr, .refl _⟩
  | change ref' op =>
    obtain hsame | hmakes := t.region_run_change ref' op ref
    · rw [hsame]
      exact ⟨hr, .refl _⟩
    · exact hr.makes hmakes

/-- A history keeps a region lawful, and the region grows. -/
theorem lawful_afterEvents (hr : (t.region ref).Lawful) (es : List Event) :
    ((t.afterEvents es).region ref).Lawful ∧
      (t.region ref).Grows ((t.afterEvents es).region ref) := by
  induction es generalizing t with
  | nil => exact ⟨hr, .refl _⟩
  | cons e es ih =>
    obtain ⟨hrun, hgrows⟩ := lawful_run hr e
    obtain ⟨hafter, hgrows'⟩ := ih hrun
    exact ⟨hafter, hgrows.trans hgrows'⟩

/-! ### The law -/

/-- The law that a region is under, whatever happens to its table. -/
structure Regulated (t : Table) (ref : RegionRef) : Prop where
  /-- What is refused leaves the region, and all else, as it was. This is not a fact about the four
  operations: it holds of any operation, by the way in which `Query.change` runs it. -/
  refused : ∀ es e f, (Event.run e (t.afterEvents es)).1 = .error f →
    (Event.run e (t.afterEvents es)).2 = t.afterEvents es
  /-- The region stays at its entry, and stays what it is. -/
  identity : ∀ es, ((t.afterEvents es).region ref).entry = (t.region ref).entry ∧
    ((t.afterEvents es).region ref).isTop = (t.region ref).isTop
  /-- A slot that is set never changes. -/
  slot : ∀ es es' s, ((t.afterEvents es).region ref).slot = some s →
    ((t.afterEvents (es ++ es')).region ref).slot = some s
  /-- The top level never gets a slot, a call or a `ret`. -/
  top : (t.region ref).isTop = true → ∀ es, ((t.afterEvents es).region ref).slot = none ∧
    ((t.afterEvents es).region ref).calls = [] ∧ ((t.afterEvents es).region ref).ret = none
  /-- Every attached call fits the slot. -/
  calls : ∀ es, ∀ call ∈ ((t.afterEvents es).region ref).calls,
    ((t.afterEvents es).region ref).Fits call
  /-- Once the `ret` is settled, it and the members never change. -/
  settled : ∀ es ret, ((t.afterEvents es).region ref).ret = some ret →
    ((t.afterEvents es).region ref).SettledBy ret ∧
    ∀ es', ((t.afterEvents (es ++ es')).region ref).ret = some ret ∧
      ((t.afterEvents (es ++ es')).region ref).members = ((t.afterEvents es).region ref).members

theorem regulated_of_lawful (hr : (t.region ref).Lawful) : t.Regulated ref := by
  have hlawful (es : List Event) : ((t.afterEvents es).region ref).Lawful :=
    (lawful_afterEvents hr es).1
  have hgrows (es es' : List Event) : ((t.afterEvents es).region ref).Grows
      ((t.afterEvents (es ++ es')).region ref) := by
    rw [afterEvents_append]
    exact (lawful_afterEvents (hlawful es) es').2
  have hidentity (es : List Event) := (lawful_afterEvents hr es).2
  exact {
    refused := fun _ _ _ h => run_of_error h
    identity := fun es => ⟨(hidentity es).entry, (hidentity es).isTop⟩
    slot := fun es es' => (hgrows es es').slot
    top := fun htop es => (hlawful es).top ((hidentity es).isTop.trans htop)
    calls := fun es => (hlawful es).calls
    settled := fun es ret hret =>
      ⟨(hlawful es).settledBy hret, fun es' => (hgrows es es').ret ret hret⟩ }

/-- A region has just come to be: it was made by hand, or it is one of the regions of a table that
was just built. -/
inductive Begins : Table → RegionRef → Prop
  | made (t : Table) (entry : Handle) (isTop : Bool) :
      Begins (t.addLoose entry isTop).1 (t.addLoose entry isTop).2
  | built {m : Method} {settings : Settings} {t : Table} {ref : RegionRef}
      (ht : build m settings = .ok t) (href : ref ∈ t.regions) : Begins t ref

theorem region_addLoose (t : Table) (entry : Handle) (isTop : Bool) :
    (t.addLoose entry isTop).1.region (t.addLoose entry isTop).2 = { entry, isTop } := by
  simp [addLoose, region]

/-- The subroutine of a leader is lawful before its `ret` is settled, and so it is after that. -/
theorem lawful_subroutine (hl : m.IsLeader l) (hvalid : m.ValidEntry l) (hret : m.ReturnsOnce l) :
    (m.subroutine (m.membersOf (.sub l.position)) (m.retsList l).head? l).Lawful := by
  obtain ⟨s, hs⟩ := Option.isSome_iff_exists.1 (Instruction.isSome_slot_of_storesAddress hvalid.2)
  have hfilled : (m.subroutine (m.membersOf (.sub l.position)) none l).Lawful := by
    refine ⟨nofun, fun call hcall => ?_, nofun, nofun⟩
    obtain ⟨-, hjsr, htarget⟩ := (Method.mem_callersList_iff hl.body_eq).1 hcall
    exact ⟨hjsr, l, s, htarget, hs, congrArg (Option.map Int.ofNat) hs⟩
  obtain ⟨-, hsettle⟩ | ⟨hnot, -⟩ := settleRet_cases hl hvalid ""
  · have happly : (Operation.settleRet "").apply false
        (m.subroutine (m.membersOf (.sub l.position)) none l) = .ok _ := hsettle
    exact (hfilled.makes (Region.apply_eq_ok_iff.1 happly)).1
  · exact absurd hret hnot

theorem FullyBuilt.lawful (ht : t.FullyBuilt m) (hr : m.IsRegion ref) : (t.region ref).Lawful := by
  rw [← Region.lawful_forget]
  cases ref with
  | top =>
    rw [ht.forget_region_eq]
    exact ⟨fun _ => ⟨rfl, rfl, rfl⟩, nofun, nofun, nofun⟩
  | sub p =>
    obtain ⟨l, hl, rfl⟩ := hr
    rw [ht.region_sub hl]
    exact lawful_subroutine hl (ht.entries l hl) (ht.returns l hl)
  | loose i => exact hr.elim

theorem lawful_of_begins (h : t.Begins ref) : (t.region ref).Lawful := by
  cases h with
  | made t entry isTop =>
    rw [region_addLoose]
    exact Region.lawful_new entry isTop
  | built ht href =>
    have hbuilt := FullyBuilt.of_build ht
    exact hbuilt.lawful (hbuilt.mem_regions_iff.1 href)

/-- Every region is under the law from the beginning. -/
theorem regulated_of_begins (h : t.Begins ref) : t.Regulated ref :=
  regulated_of_lawful (lawful_of_begins h)

/-- A history that puts a region together from a call and a return. Another member is refused before
the table is opened, and the slot is not set a second time. -/
def Event.assembly (ref : RegionRef) (call refused ret : Handle) : List Event :=
  [.change ref (.setSlot 1), .change ref (.addEntering call), .change ref (.addMember refused),
    .setSealed false, .change ref (.addMember ret), .change ref (.setSlot 2),
    .change ref (.settleRet "nested")]

/-- A region that is made by hand, for the table of two nested subroutines, can be put together, and
it is under the law. -/
theorem regulated_of_begins_nested : ∃ (t : Table) (ref : RegionRef), t.Begins ref ∧
    t.Regulated ref ∧ ∃ es, ((t.afterEvents es).region ref).slot = some 1 ∧
      ((t.afterEvents es).region ref).calls.map Handle.position = [0] ∧
      ((t.afterEvents es).region ref).members.map Handle.position = [6] ∧
      ((t.afterEvents es).region ref).ret.map Handle.position = some 6 := by
  have heval : (build (.nested 2) {}).toOption.map (fun t =>
      let made := t.addLoose (Method.nestedAt 2 4) false
      let es := Event.assembly made.2 (Method.nestedAt 2 0) (Method.nestedAt 2 8)
        (Method.nestedAt 2 6)
      let r := (made.1.afterEvents es).region made.2
      (r.slot, r.calls.map Handle.position, r.members.map Handle.position,
        r.ret.map Handle.position)) = some (some 1, [0], [6], some 6) := by cbv
  obtain ⟨t, -, hfacts⟩ := Option.map_eq_some_iff.1 heval
  simp only [Prod.mk.injEq] at hfacts
  have hbegins := Begins.made t (Method.nestedAt 2 4) false
  exact ⟨_, _, hbegins, regulated_of_begins hbegins, _, hfacts⟩

end Table

end BytecodeRegions
