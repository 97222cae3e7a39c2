import BytecodeRegions.Proofs.Outcomes
import BytecodeRegions.Proofs.Table.Partition
import Mathlib.Data.Set.Insert

/-!
# The stages of a table

A table is built in stages: first the subroutines with their slots and calls, then the members of
all regions, then the `ret` of every subroutine. Each stage is reached from the one before it
exactly when the method keeps the rule that the stage checks; otherwise the violation that is
reported has the evidence for that rule.

## Main definitions

* `Method.membersOf`, `Method.callersList`, `Method.retsList`: what the regions are filled with.
* `Method.subroutine`, `Table.stage`: a subroutine and a table with given members.
* `Table.openStage`, `Table.filledStage`, `Table.settledStage`: the stages.

## Main results

* `Table.opened_cases`, `Table.partitioned_cases`, `Table.settled_cases`, `Table.unprotected_cases`:
  each step gives the next stage or evidence.
-/

namespace BytecodeRegions

namespace Region

variable {r : Region} {hs : List Handle}

/-- Different calls of the slot of a region are attached one after another. -/
theorem foldlM_addEntering (hslot : r.slot.isNone = false)
    (hjsr : ∀ h ∈ hs, h.instruction.isJsr = true) (htarget : ∀ h ∈ hs, targetSlot h = r.slot)
    (hnodup : (r.calls ++ hs).Nodup) :
    hs.foldlM (fun r h => r.addEntering h) r = .ok { r with calls := r.calls ++ hs } := by
  induction hs generalizing r with
  | nil => simp [pure, Except.pure]
  | cons h hs ih =>
    have hnew : h ∉ r.calls := fun hmem =>
      (List.nodup_append.1 hnodup).2.2 h hmem h List.mem_cons_self rfl
    have hadd : r.addEntering h = .ok { r with calls := r.calls ++ [h] } := by
      rw [addEntering, if_pos (hjsr h List.mem_cons_self), if_neg (by simp [hslot]),
        if_pos (htarget h List.mem_cons_self), if_neg hnew]
    have hrest := ih (r := { r with calls := r.calls ++ [h] }) hslot
      (fun k hk => hjsr k (List.mem_cons_of_mem h hk))
      (fun k hk => htarget k (List.mem_cons_of_mem h hk)) (by simpa using hnodup)
    rw [List.foldlM_cons, hadd]
    exact hrest.trans (by simp)

/-- Different members are added one after another to a region whose `ret` is open. -/
theorem foldlM_addMember (hret : r.ret = none) (hnodup : (r.members ++ hs).Nodup) :
    hs.foldlM (fun r h => r.addMember false h) r = .ok { r with members := r.members ++ hs } := by
  induction hs generalizing r with
  | nil => simp [pure, Except.pure]
  | cons h hs ih =>
    have hnew : h ∉ r.members := fun hmem =>
      (List.nodup_append.1 hnodup).2.2 h hmem h List.mem_cons_self rfl
    have hadd : r.addMember false h = .ok { r with members := r.members ++ [h] } := by
      rw [addMember, if_neg Bool.false_ne_true, if_neg (by simp [hret]), if_neg hnew]
    have hrest := ih (r := { r with members := r.members ++ [h] }) hret (by simpa using hnodup)
    rw [List.foldlM_cons, hadd]
    exact hrest.trans (by simp)

end Region

theorem Instruction.isSome_slot_of_storesAddress {i : Instruction Link}
    (hi : i.storesAddress = true) : i.slot.isSome = true := by
  have hkind : i.opcode.kind = .store := eq_of_beq (Bool.and_eq_true_iff.1 hi).1
  rw [i.slot_isSome, Opcode.accessesLocal, hkind]
  rfl

/-! ### Subroutines by stages -/

namespace Method

variable {m : Method} {r : RegionRef} {h l : Handle}

/-- The places of a region in order. -/
def membersOf (m : Method) (r : RegionRef) : List Handle :=
  (m.reachedFrom r).filterMap m.body.handle?

theorem mem_membersOf_iff (hr : m.IsRegion r) : h ∈ m.membersOf r ↔ h ∈ m.extent r := by
  rw [membersOf, Body.mem_filterMap_handle?_iff]
  constructor
  · rintro ⟨hb, hp⟩
    exact (mem_reachedFrom_iff hr hb).1 hp
  · intro hh
    have hb := body_eq_of_mem_extent hh
    exact ⟨hb, (mem_reachedFrom_iff hr hb).2 hh⟩

theorem pairwise_membersOf (m : Method) (r : RegionRef) :
    (m.membersOf r).Pairwise fun a b => a.position < b.position := by
  have hsorted := pairwise_reachedFrom m r
  rwa [← Body.map_position_filterMap_handle? reachedFrom_lt, List.pairwise_map] at hsorted

theorem nodup_membersOf (m : Method) (r : RegionRef) : (m.membersOf r).Nodup :=
  (pairwise_membersOf m r).imp fun hlt heq => Nat.ne_of_lt hlt (congrArg Handle.position heq)

/-- The calls of the subroutine of a leader in order. -/
def callersList (m : Method) (l : Handle) : List Handle :=
  (m.callsOf l.position).filterMap m.body.handle?

theorem mem_callersList_iff (hl : l.body = m.body) : h ∈ m.callersList l ↔ h ∈ m.callersOf l := by
  rw [callersList, Body.mem_filterMap_handle?_iff, mem_callsOf_iff hl]
  constructor
  · rintro ⟨hb, j, hj, hp⟩
    exact Handle.eq_of_position (hj.1.trans hb.symm) hp ▸ hj
  · intro hh
    exact ⟨hh.1, h, hh, rfl⟩

theorem pairwise_callersList (m : Method) (l : Handle) :
    (m.callersList l).Pairwise fun a b => a.position < b.position := by
  have hsorted : (m.callsOf l.position).Pairwise (· < ·) := (pairwise_positions m.body).filter _
  rwa [← Body.map_position_filterMap_handle? callsOf_lt, List.pairwise_map] at hsorted

theorem nodup_callersList (m : Method) (l : Handle) : (m.callersList l).Nodup :=
  (pairwise_callersList m l).imp fun hlt heq => Nat.ne_of_lt hlt (congrArg Handle.position heq)

/-- The `ret` instructions of the subroutine of a leader in order. -/
def retsList (m : Method) (l : Handle) : List Handle :=
  (m.membersOf (.sub l.position)).filter (·.instruction.isRet)

theorem mem_retsList_iff (hl : m.IsLeader l) : h ∈ m.retsList l ↔ h ∈ m.retsOf l := by
  rw [retsList, List.mem_filter, mem_membersOf_iff hl.isRegion]
  rfl

theorem pairwise_retsList (m : Method) (l : Handle) :
    (m.retsList l).Pairwise fun a b => a.position < b.position :=
  (pairwise_membersOf m _).filter _

theorem retsOf_of_retsList_eq_nil (hl : m.IsLeader l) (hlist : m.retsList l = []) :
    m.retsOf l = ∅ := by
  ext h
  rw [← mem_retsList_iff hl, hlist]
  simp

theorem retsOf_of_retsList_eq_singleton {ret : Handle} (hl : m.IsLeader l)
    (hlist : m.retsList l = [ret]) : m.retsOf l = {ret} := by
  ext h
  rw [← mem_retsList_iff hl, hlist, List.mem_singleton, Set.mem_singleton_iff]

theorem not_returnsOnce_of_retsList_eq {first second : Handle} {others : List Handle}
    (hl : m.IsLeader l) (hlist : m.retsList l = first :: second :: others) :
    ¬m.ReturnsOnce l := by
  rintro ⟨ret, hret, -⟩
  have hmem (h : Handle) (hh : h ∈ m.retsList l) : h = ret := by
    rw [mem_retsList_iff hl, hret] at hh
    exact hh
  have hfirst : first = ret := hmem first (by simp [hlist])
  have hsecond : second = ret := hmem second (by simp [hlist])
  have hsorted := m.pairwise_retsList l
  rw [hlist] at hsorted
  have hlt := (List.pairwise_cons.1 hsorted).1 second List.mem_cons_self
  rw [hfirst, hsecond] at hlt
  omega

/-- The subroutine of a leader, with given members and a given `ret`. -/
def subroutine (m : Method) (members : List Handle) (ret : Option Handle) (l : Handle) :
    Region where
  entry := l
  isTop := false
  slot := l.instruction.slot.map Int.ofNat
  members := members
  calls := m.callersList l
  ret := ret

theorem note_subroutine (hl : l.body = m.body) (members : List Handle) (ret : Option Handle) :
    (m.subroutine members ret l).note = m.note (.sub l.position) := by
  rw [note, Body.handle?_eq_some_iff.2 ⟨hl, rfl⟩]
  rfl

/-- A leader that comes first in the list of leaders with a property is the lowest one. -/
theorem lowestLeader_of_split {P : Handle → Prop} {front back : List Handle}
    (heq : m.leaderHandles = front ++ l :: back) (hfront : ∀ k ∈ front, ¬P k) (hl : P l) :
    m.LowestLeader P l where
  isLeader := by
    rw [← mem_leaderHandles_iff, heq]
    exact List.mem_append_right _ List.mem_cons_self
  holds := hl
  lowest k hk hPk := by
    have hsorted := pairwise_leaderHandles m
    rw [heq, List.pairwise_append] at hsorted
    have hmem := mem_leaderHandles_iff.2 hk
    rw [heq, List.mem_append, List.mem_cons] at hmem
    rcases hmem with hmem | rfl | hmem
    · exact absurd hPk (hfront k hmem)
    · exact Nat.le_refl _
    · exact Nat.le_of_lt ((List.pairwise_cons.1 hsorted.2.1).1 k hmem)

end Method

/-! ### Tables by stages -/

namespace Table

variable {m : Method} {settings : Settings} {members : RegionRef → List Handle}
  {ret : Handle → Option Handle} {spans : List Span} {r : RegionRef} {h l : Handle}

/-- The table of a method with given members of its regions, `ret` instructions and owners. -/
def stage (m : Method) (settings : Settings) (members : RegionRef → List Handle)
    (ret : Handle → Option Handle) (spans : List Span) : Table where
  method := m
  settings := settings
  isSealed := false
  top := { entry := m.first, isTop := true, members := members .top }
  subs := m.leaderHandles.map fun l => m.subroutine (members (.sub l.position)) (ret l) l
  loose := []
  spans := spans

/-- The table with slots and calls. -/
def openStage (m : Method) (settings : Settings) : Table :=
  stage m settings (fun _ => []) (fun _ => none) []

/-- The table with members. -/
def filledStage (m : Method) (settings : Settings) : Table :=
  stage m settings m.membersOf (fun _ => none) m.seeds

/-- The table with the `ret` of every subroutine. -/
def settledStage (m : Method) (settings : Settings) : Table :=
  stage m settings m.membersOf (fun l => (m.retsList l).head?) m.seeds

theorem leaders_stage : (stage m settings members ret spans).leaders = m.leaders := by
  rw [← Method.map_position_leaderHandles, leaders, stage, List.map_map]
  rfl

theorem sub?_stage (hl : m.IsLeader l) : (stage m settings members ret spans).sub? l.position =
    some (m.subroutine (members (.sub l.position)) (ret l) l) := by
  have hmem := Method.mem_leaderHandles_iff.2 hl
  have hfind : m.leaderHandles.find? (·.position == l.position) = some l := by
    cases hk : m.leaderHandles.find? (·.position == l.position) with
    | none => exact absurd (beq_self_eq_true _) (List.find?_eq_none.1 hk l hmem)
    | some k =>
      have hbody := (Method.mem_leaderHandles_iff.1 (List.mem_of_find?_eq_some hk)).body_eq
      have hpos := List.find?_some hk
      rw [Handle.eq_of_position (hbody.trans hl.body_eq.symm) (eq_of_beq hpos)]
  rw [sub?, stage, List.find?_map]
  exact congrArg (Option.map _) hfind

theorem region_stage_sub (hl : m.IsLeader l) :
    (stage m settings members ret spans).region (.sub l.position) =
      m.subroutine (members (.sub l.position)) (ret l) l := by
  rw [region, sub?_stage hl, Option.getD_some]

theorem members_region_stage (hr : m.IsRegion r) :
    ((stage m settings members ret spans).region r).members = members r := by
  cases r with
  | top => rfl
  | sub p =>
    obtain ⟨l, hl, rfl⟩ := hr
    rw [region_stage_sub hl, Method.subroutine]
  | loose i => exact hr.elim

/-- Regions are noted in the same way at every stage. -/
theorem note_region_stage (hr : m.IsRegion r) :
    ((stage m settings members ret spans).region r).note = m.note r := by
  cases r with
  | top => rfl
  | sub p =>
    obtain ⟨l, hl, rfl⟩ := hr
    rw [region_stage_sub hl, Method.note_subroutine hl.body_eq]
  | loose i => exact hr.elim

/-! ### Entries -/

theorem openSub_eq (l : Handle) : openSub l =
    .ok { entry := l, isTop := false, slot := l.instruction.slot.map Int.ofNat } := by
  rw [openSub]
  split
  · next s hs => rw [hs]; rfl
  · next hs => rw [hs]; rfl

/-- All calls of a subroutine that starts by storing its return address can be attached. -/
theorem attach_eq (hl : m.IsLeader l) (hvalid : m.ValidEntry l) :
    attach m { entry := l, isTop := false, slot := l.instruction.slot.map Int.ofNat } =
      .ok (m.subroutine [] none l) := by
  have hmem (j : Handle) (hj : j ∈ m.callersList l) : j ∈ m.callersOf l :=
    (Method.mem_callersList_iff hl.body_eq).1 hj
  refine Region.foldlM_addEntering ?_ (fun j hj => (hmem j hj).2.1) (fun j hj => ?_)
    (m.nodup_callersList l)
  · have hslot := Instruction.isSome_slot_of_storesAddress hvalid.2
    rw [← Option.not_isSome, Option.isSome_map, hslot]
    rfl
  · rw [Region.targetSlot, (hmem j hj).2.2, Option.bind_some]

theorem startsSubroutine_iff (hl : m.IsLeader l) :
    Method.startsSubroutine l = true ↔ m.ValidEntry l := by
  have hfirst : l.position ≠ 0 ↔ l ≠ m.first := by
    refine not_congr ⟨fun h0 => Handle.eq_of_position hl.body_eq h0, ?_⟩
    rintro rfl
    rfl
  rw [Method.startsSubroutine, Bool.and_eq_true, bne_iff_ne, hfirst]
  rfl

/-- The first step opens the subroutines, or reports the first leader at which none can start. -/
theorem opened_cases (m : Method) (settings : Settings) :
    m.EntriesValid ∧ opened m settings = .ok (openStage m settings) ∨
      ∃ v l, opened m settings = .error (.violation v) ∧ v.method = m.name ∧
        m.EntryEvidence v l := by
  rcases forall_or_first m.ValidEntry m.leaderHandles with hall | ⟨front, l, back, heq, hfront, hl⟩
  · have hvalid : m.EntriesValid := fun l hl => hall l (Method.mem_leaderHandles_iff.2 hl)
    have hnone : m.entryViolation? = none := by
      rw [Method.entryViolation?, Option.map_eq_none_iff, List.find?_eq_none]
      intro l hl
      rw [(startsSubroutine_iff (Method.mem_leaderHandles_iff.1 hl)).2 (hall l hl)]
      decide
    have hopen : m.leaderHandles.mapM openSub = .ok _ := mapM_eq_ok fun l _ => openSub_eq l
    have hattach : (m.leaderHandles.map _).mapM (attach m) = .ok _ :=
      (List.mapM_map ..).trans (mapM_eq_ok fun l hl =>
        attach_eq (Method.mem_leaderHandles_iff.1 hl) (hall l hl))
    refine .inl ⟨hvalid, ?_⟩
    simp only [opened, hnone, hopen, bind, Except.bind, Except.mapError, hattach]
    rfl
  · have hlowest : m.LowestLeader (fun l => ¬m.ValidEntry l) l :=
      Method.lowestLeader_of_split heq (fun k hk => not_not_intro (hfront k hk)) hl
    have hfind : (m.leaderHandles.find? fun h => !Method.startsSubroutine h) = some l := by
      refine List.find?_eq_some_iff_append.2 ⟨?_, front, back, heq, fun k hk => ?_⟩
      · rw [Bool.not_eq_true', ← Bool.not_eq_true, startsSubroutine_iff hlowest.isLeader]
        exact hl
      · have hk' : m.IsLeader k := Method.mem_leaderHandles_iff.1 (by simp [heq, hk])
        rw [(startsSubroutine_iff hk').2 (hfront k hk)]
        rfl
    refine .inr ⟨m.badEntry l, l, ?_, rfl, hlowest, rfl, ⟨_, rfl, ?_⟩, rfl⟩
    · rw [opened, Method.entryViolation?, hfind]
      rfl
    · exact Method.listsPositions_callsOf hlowest.isLeader.body_eq

/-! ### Members -/

/-- The members of a region whose `ret` is open can all be added. -/
theorem populate_eq {x : Region} (hmembers : x.members = []) (hret : x.ret = none)
    (r : RegionRef) : populate m (m.reachedFrom r) x = .ok { x with members := m.membersOf r } := by
  have hnodup : (x.members ++ m.membersOf r).Nodup := by
    rw [hmembers]
    exact m.nodup_membersOf r
  have hadd := Region.foldlM_addMember hret hnodup
  rwa [hmembers] at hadd

/-- The second step fills the regions, or reports the first region that meets an earlier one. -/
theorem partitioned_cases (m : Method) (settings : Settings) :
    m.RegionsDisjoint ∧ (openStage m settings).partitioned = .ok (filledStage m settings) ∨
      ∃ v r s h, (openStage m settings).partitioned = .error (.violation v) ∧ v.method = m.name ∧
        m.SharingEvidence v r s h := by
  have hmethod : (openStage m settings).method = m := rfl
  cases hx : m.sharing? with
  | none =>
    have htop : populate m (m.reached m.topRoots) (openStage m settings).top =
      .ok (filledStage m settings).top := populate_eq rfl rfl .top
    have hsubs : ((openStage m settings).subs.mapM fun r =>
        populate m (m.reached [r.entry.position]) r) = .ok (filledStage m settings).subs :=
      (List.mapM_map ..).trans (mapM_eq_ok fun l _ => populate_eq rfl rfl (.sub l.position))
    refine .inl ⟨Method.sharing?_eq_none_iff.1 hx, ?_⟩
    simp only [partitioned, hmethod, hx, htop, hsubs, bind, Except.bind, Except.mapError]
    rfl
  | some x =>
    obtain ⟨hfirst, hsecond, hbefore, ⟨h, hh, hp, hlowest, honly⟩, hearlier⟩ :=
      Method.sharing?_eq_some hx
    refine .inr ⟨(openStage m settings).sharedViolation x, x.first, x.second, h, ?_, rfl,
      hfirst, hsecond, hbefore, hh, hearlier, hlowest, honly, rfl, ?_, ?_⟩
    · simp only [partitioned, hmethod, hx]
      rfl
    · rw [hp, sharedViolation]
    · rw [sharedViolation]
      exact congrArg₂ (fun a b => [a, b]) (note_region_stage hfirst) (note_region_stage hsecond)

/-! ### Returns -/

/-- Settling the `ret` of a subroutine succeeds if it returns as it should; else the violation shows
how it does not. -/
theorem settleRet_cases (hl : m.IsLeader l) (hvalid : m.ValidEntry l) (name : String) :
    let filled := m.subroutine (m.membersOf (.sub l.position)) none l
    m.ReturnsOnce l ∧ filled.settleRet name = .ok { filled with ret := (m.retsList l).head? } ∨
      ¬m.ReturnsOnce l ∧ ∃ v, filled.settleRet name = .error (.violation v) ∧ v.method = name ∧
        m.ReturnFault v l := by
  intro filled
  obtain ⟨s, hs⟩ := Option.isSome_iff_exists.1 (Instruction.isSome_slot_of_storesAddress hvalid.2)
  have hslot : filled.slot = some (Int.ofNat s) := congrArg (Option.map Int.ofNat) hs
  have hrets : filled.rets = m.retsList l := Region.byPosition_of_pairwise (m.pairwise_retsList l)
  have hregions : [filled.note] = [m.note (.sub l.position)] := by
    rw [Method.note_subroutine hl.body_eq]
  have htop : filled.isTop = false := rfl
  simp only [Region.settleRet, htop, hslot, hrets]
  cases hlist : m.retsList l with
  | nil =>
    have hempty := Method.retsOf_of_retsList_eq_nil hl hlist
    refine .inr ⟨?_, _, rfl, rfl, .inl ⟨rfl, hempty, rfl⟩, hregions⟩
    rintro ⟨ret, hret, -⟩
    exact Set.singleton_ne_empty ret (hret.symm.trans hempty)
  | cons ret others =>
    cases others with
    | nil =>
      have hsingle := Method.retsOf_of_retsList_eq_singleton hl hlist
      have hiff : ret.instruction.slot.map Int.ofNat = some (Int.ofNat s) ↔
          ret.instruction.slot = l.instruction.slot := by
        rw [hs]
        cases ret.instruction.slot with
        | none => simp
        | some n => simp only [Option.map_some, Option.some.injEq, Int.ofNat.injEq]
      by_cases heq : ret.instruction.slot = l.instruction.slot
      · exact .inl ⟨⟨ret, hsingle, heq⟩, by simp only [if_pos (hiff.2 heq), List.head?_cons]⟩
      · refine .inr ⟨?_, filled.wrongRet name ret s, by simp only [if_neg (mt hiff.1 heq)]; rfl,
          rfl, .inr (.inr ⟨rfl, ret, hsingle, heq, rfl⟩), hregions⟩
        rintro ⟨ret', hret', heq'⟩
        rw [Set.singleton_eq_singleton_iff.1 (hsingle.symm.trans hret')] at heq
        exact heq heq'
    | cons second others =>
      refine .inr ⟨Method.not_returnsOnce_of_retsList_eq hl hlist, _, rfl, rfl,
        .inr (.inl ⟨rfl, ?_, ?_, fun p => ?_⟩), hregions⟩
      · simp [Region.manyRets]
      · have hsorted := m.pairwise_retsList l
        rw [hlist] at hsorted
        exact List.pairwise_map.2 hsorted
      · simp only [Region.manyRets, ← hlist, List.mem_map, Method.mem_retsList_iff hl]

/-- The third step settles every `ret`, or reports the first subroutine that does not return as it
should. -/
theorem settled_cases (hvalid : m.EntriesValid) (settings : Settings) :
    m.SubroutinesReturn ∧ (filledStage m settings).settled = .ok (settledStage m settings) ∨
      ∃ v l, (filledStage m settings).settled = .error (.violation v) ∧ v.method = m.name ∧
        m.ReturnEvidence v l := by
  have hcases (l : Handle) (hl : l ∈ m.leaderHandles) :=
    settleRet_cases (Method.mem_leaderHandles_iff.1 hl)
      (hvalid l (Method.mem_leaderHandles_iff.1 hl)) m.name
  have hok (l : Handle) (hl : l ∈ m.leaderHandles) (hret : m.ReturnsOnce l) :=
    ((hcases l hl).resolve_right fun h => h.1 hret).2
  rcases forall_or_first m.ReturnsOnce m.leaderHandles with
    hall | ⟨front, l, back, heq, hfront, hl⟩
  · refine .inl ⟨fun l hl => hall l (Method.mem_leaderHandles_iff.2 hl), ?_⟩
    have hsubs : (filledStage m settings).subs.mapM (·.settleRet m.name) =
        .ok (settledStage m settings).subs :=
      (List.mapM_map ..).trans (mapM_eq_ok fun l hl => hok l hl (hall l hl))
    rw [settled]
    exact congrArg (· >>= _) hsubs
  · have hlowest : m.LowestLeader (fun l => ¬m.ReturnsOnce l) l :=
      Method.lowestLeader_of_split heq (fun k hk => not_not_intro (hfront k hk)) hl
    obtain ⟨-, v, hv, hmethod, hfault⟩ :=
      (hcases l (by simp [heq])).resolve_left fun h => hl h.1
    refine .inr ⟨v, l, ?_, hmethod, hlowest, hfault⟩
    have hsubs : (filledStage m settings).subs.mapM (·.settleRet m.name) =
        .error (.violation v) := by
      refine (List.mapM_map ..).trans ?_
      rw [heq]
      exact mapM_eq_error (fun k hk => ⟨_, hok k (by simp [heq, hk]) (hfront k hk)⟩) hv
    rw [settled]
    exact congrArg (· >>= _) hsubs

/-! ### Protection -/

section Protection

variable {t : Table} {x y : Handler}

/-- A place of a subroutine that a handler covers. -/
def protectionAt? (t : Table) (x : Handler) (h : Handle) : Option (Handler × Handle × RegionRef) :=
  match t.ownerOf h with
  | some (.sub p) => some (x, h, .sub p)
  | _ => none

variable (hspans : t.spans = t.method.seeds) (hregions : t.method.RegionsDisjoint)

include hspans hregions

/-- Where nothing is shared, a place is owned by the region whose extent has it. -/
theorem ownerOf_eq_some_iff :
    t.ownerOf h = some r ↔ t.method.IsRegion r ∧ h ∈ t.method.extent r := by
  rw [ownerOf, hspans]
  constructor
  · intro hr
    split at hr
    · next hb =>
      obtain ⟨hregion, hp⟩ := (Method.ownerIn_seeds_iff hregions).1 hr
      exact ⟨hregion, (Method.mem_reachedFrom_iff hregion (Body.owns_iff.1 hb)).1 hp⟩
    · cases hr
  · rintro ⟨hregion, hh⟩
    have hb := Method.body_eq_of_mem_extent hh
    rw [if_pos (Body.owns_iff.2 hb), Method.ownerIn_seeds_iff hregions]
    exact ⟨hregion, (Method.mem_reachedFrom_iff hregion hb).2 hh⟩

theorem protectionAt?_eq_some_iff : t.protectionAt? x h = some (y, l, r) ↔
      x = y ∧ h = l ∧ ∃ k, t.method.IsLeader k ∧ h ∈ t.method.extent (.sub k.position) ∧
        .sub k.position = r := by
  rw [protectionAt?]
  constructor
  · intro heq
    split at heq
    · next p hp =>
      cases heq
      obtain ⟨⟨k, hk, rfl⟩, hh⟩ := (ownerOf_eq_some_iff hspans hregions).1 hp
      exact ⟨rfl, rfl, k, hk, hh, rfl⟩
    · cases heq
  · rintro ⟨rfl, rfl, k, hk, hh, rfl⟩
    rw [(ownerOf_eq_some_iff hspans hregions).2 ⟨hk.isRegion, hh⟩]

theorem protectionAt?_eq_none_iff : t.protectionAt? x h = none ↔
      ¬∃ k, t.method.IsLeader k ∧ h ∈ t.method.extent (.sub k.position) := by
  rw [← not_iff_not, not_not, ← Ne, Option.ne_none_iff_exists']
  constructor
  · rintro ⟨⟨y, l, r⟩, heq⟩
    obtain ⟨-, -, k, hk, hh, -⟩ := (protectionAt?_eq_some_iff hspans hregions).1 heq
    exact ⟨k, hk, hh⟩
  · rintro ⟨k, hk, hh⟩
    exact ⟨_, (protectionAt?_eq_some_iff hspans hregions).2 ⟨rfl, rfl, k, hk, hh, rfl⟩⟩

theorem findSome?_protectionAt?_eq_none_iff :
    x.covered.findSome? (t.protectionAt? x) = none ↔ t.method.protectedBy x = ∅ := by
  simp only [List.findSome?_eq_none_iff, protectionAt?_eq_none_iff hspans hregions,
    Set.eq_empty_iff_forall_notMem, Method.protectedBy, Set.mem_ofPred_eq, not_and]

/-- The fourth step passes, or reports the first handler that covers a place of a subroutine. -/
theorem unprotected_cases
    (hnote : ∀ r, t.method.IsRegion r → (t.region r).note = t.method.note r) :
    t.method.HandlersClear ∧ t.unprotected = .ok () ∨
      ∃ v x h l, t.unprotected = .error (.violation v) ∧ v.method = t.method.name ∧
        t.method.ProtectionEvidence v x h l := by
  have hdef : t.protection? =
    t.method.handlers.findSome? fun x => x.covered.findSome? (t.protectionAt? x) := rfl
  rw [unprotected]
  cases hx : t.protection? with
  | none =>
    rw [hdef, List.findSome?_eq_none_iff] at hx
    exact .inl ⟨fun x hmem => (findSome?_protectionAt?_eq_none_iff hspans hregions).1 (hx x hmem),
      rfl⟩
  | some found =>
    obtain ⟨y, l, r⟩ := found
    obtain ⟨earlier, x, later, hhandlers, hcovered, hearlier⟩ := List.findSome?_eq_some_iff.1 hx
    obtain ⟨front, h, back, heq, hfound, hfront⟩ := List.findSome?_eq_some_iff.1 hcovered
    obtain ⟨rfl, rfl, k, hk, hh, rfl⟩ := (protectionAt?_eq_some_iff hspans hregions).1 hfound
    have hsorted := Handle.pairwise_walkTo x.start x.stop
    rw [← Handler.covered, heq, List.pairwise_append] at hsorted
    refine .inr ⟨_, x, h, k, rfl, rfl, hk, hh, by simp [heq], ⟨earlier, later, hhandlers, ?_⟩, ?_,
      rfl, rfl, ?_, rfl⟩
    · intro y hy
      exact (findSome?_protectionAt?_eq_none_iff hspans hregions).1 (hearlier y hy)
    · rintro h' ⟨hcov, hsub⟩
      rw [heq, List.mem_append, List.mem_cons] at hcov
      rcases hcov with hcov | rfl | hcov
      · exact absurd hsub ((protectionAt?_eq_none_iff hspans hregions).1 (hfront h' hcov))
      · exact Nat.le_refl _
      · exact Nat.le_of_lt ((List.pairwise_cons.1 hsorted.2.1).1 h' hcov)
    · exact congrArg (fun note => [note]) (hnote _ hk.isRegion)

end Protection

end Table

end BytecodeRegions
