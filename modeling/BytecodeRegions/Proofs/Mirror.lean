import BytecodeRegions.Proofs.Table.Agreement
import Mathlib.Data.List.Sort

/-!
# Methods that mirror each other

Two methods mirror each other when they have the same name, instructions of the same gist at the
same positions, and handlers for the same positions. They need not be made of the same instructions:
the keys of a switch and targets that are not jumped to may differ, and their bodies are two.

Whatever tables are built from corresponds in two such methods: places, handlers, and regions with
their members, calls and `ret` instructions.

## Main definitions

* `Method.TwinHandler`, `Method.Mirrors`: handlers and methods that mirror each other.
* `Region.Twins`: regions that correspond.

## Main results

* `Method.Mirrors.sameStructure`: methods that mirror each other have the same structure.
* `Table.twins_region_stage`: at each stage their tables have regions that correspond.
-/

namespace BytecodeRegions

/-! ### Instructions with one gist -/

namespace Instruction

variable {i i' : Instruction Link}

theorem target?_eq_of_gist (h : i'.gist = i.gist) (htarget : i.opcode.hasTarget = true) :
    i'.target? = i.target? := by
  have hop : i'.opcode = i.opcode := congrArg Gist.opcode h
  have hgist := congrArg Gist.target h
  rwa [gist, gist, if_pos htarget, if_pos (hop ▸ htarget)] at hgist

/-- What follows an instruction depends on its gist. -/
theorem successorsOf_eq_of_gist {b b' : Body} (hsize : b'.size = b.size) (h : i'.gist = i.gist)
    (p : Nat) : b'.successorsOf p i' = b.successorsOf p i := by
  have hkind : i'.kind = i.kind := congrArg (fun g => g.opcode.kind) h
  have hcases : i'.casePositions = i.casePositions := congrArg Gist.cases h
  have hfollowing : b'.following p = b.following p := by rw [Body.following, Body.following, hsize]
  have htarget (hk : i.kind.hasTarget = true) : i'.target? = i.target? := target?_eq_of_gist h hk
  rw [Body.successorsOf, Body.successorsOf, hkind, hfollowing, hcases]
  cases hk : i.kind <;> rw [hk] at htarget <;> try rfl
  all_goals rw [htarget rfl]

end Instruction

namespace Method

variable {m m' : Method} {r : RegionRef} {h h' l l' : Handle} {p : Nat}

/-- Handlers of two methods have the same places and catch the same. -/
structure TwinHandler (m m' : Method) (x x' : Handler) : Prop where
  start : m.Twins m' x.start x'.start
  stop : m.Twins m' x.stop x'.stop
  entry : m.Twins m' x.entry x'.entry
  catchType : x'.catchType = x.catchType

/-- Two methods have the same name, instructions of the same gist, and the same handlers. -/
structure Mirrors (m m' : Method) : Prop where
  name : m'.name = m.name
  gists : m'.body.code.toList.map Instruction.gist = m.body.code.toList.map Instruction.gist
  handlers : List.Forall₂ (m.TwinHandler m') m.handlers m'.handlers

theorem Twins.samePlace (hh : Twins m m' h h') : m.SamePlace m' h h' :=
  ⟨hh.position, iff_of_true hh.right hh.left⟩

theorem TwinHandler.sameHandler {x x' : Handler} (hx : m.TwinHandler m' x x') :
    m.SameHandler m' x x' :=
  ⟨hx.start.samePlace, hx.stop.samePlace, hx.entry.samePlace⟩

/-- Places of two methods at the same positions correspond. -/
theorem forall₂_twins_iff {hs hs' : List Handle} : List.Forall₂ (Twins m m') hs hs' ↔
    (∀ h ∈ hs, h.body = m.body) ∧ (∀ h ∈ hs', h.body = m'.body) ∧
      hs'.map Handle.position = hs.map Handle.position := by
  constructor
  · intro hhs
    induction hhs with
    | nil => exact ⟨nofun, nofun, rfl⟩
    | cons hh _ ih =>
      refine ⟨List.forall_mem_cons.2 ⟨hh.left, ih.1⟩, List.forall_mem_cons.2 ⟨hh.right, ih.2.1⟩, ?_⟩
      rw [List.map_cons, List.map_cons, hh.position, ih.2.2]
  · rintro ⟨hleft, hright, hpositions⟩
    induction hs generalizing hs' with
    | nil =>
      obtain rfl := List.map_eq_nil_iff.1 hpositions
      exact .nil
    | cons h hs ih =>
      obtain ⟨h', hs', rfl, hposition, hrest⟩ := List.map_eq_cons_iff.1 hpositions
      obtain ⟨hh, hhs⟩ := List.forall_mem_cons.1 hleft
      obtain ⟨hh', hhs'⟩ := List.forall_mem_cons.1 hright
      exact .cons ⟨hh, hh', hposition⟩ (ih hhs hhs' hrest)

/-- The leaders, by the gists of the instructions. -/
theorem leaders_eq_gists (m : Method) : m.leaders = m.body.positions.filter
    ((m.body.code.toList.map Instruction.gist).filterMap Instruction.Gist.callee?).contains := by
  have htargets : (m.body.code.toList.filterMap fun i => if i.isJsr then i.target? else none) =
      (m.body.code.toList.map Instruction.gist).filterMap Instruction.Gist.callee? := by
    rw [List.filterMap_map]
    exact List.filterMap_congr fun i _ => (Instruction.callee?_gist i).symm
  rw [leaders, htargets]

/-- Whether a subroutine is called at a position, by the gist of the instruction there. -/
theorem callsAt_eq_gist (m : Method) (leader p : Nat) : m.callsAt leader p =
    ((m.instruction? p).map Instruction.gist).any fun g => g.callee? == some leader := by
  rw [callsAt, Option.any_map]
  congr 1
  funext i
  rw [Instruction.callee?_gist]
  cases i.isJsr <;> rfl

namespace Mirrors

variable (hm : m.Mirrors m')

include hm

theorem size_eq : m'.body.size = m.body.size := by
  have hlength := congrArg List.length hm.gists
  rwa [List.length_map, List.length_map, Array.length_toList, Array.length_toList] at hlength

theorem positions_eq : m'.body.positions = m.body.positions := by
  rw [Body.positions, Body.positions, hm.size_eq]

theorem map_instruction? (p : Nat) :
    (m'.instruction? p).map Instruction.gist = (m.instruction? p).map Instruction.gist := by
  have hp := congrArg (·[p]?) hm.gists
  simp only [List.getElem?_map, Array.getElem?_toList] at hp
  exact hp

theorem gist_eq (hh : Twins m m' h h') : h'.instruction.gist = h.instruction.gist := by
  have hsame := hm.map_instruction? h.position
  rw [instruction?, instruction?, ← hh.position, Handle.getElem?_position hh.right, hh.position,
    Handle.getElem?_position hh.left] at hsame
  exact Option.some.inj hsame

theorem successors_eq : m'.body.successors = m.body.successors := by
  funext p
  have hp := hm.map_instruction? p
  rw [Body.successors, Body.successors]
  cases hi : m.instruction? p with
  | none =>
    rw [hi, Option.map_none, Option.map_eq_none_iff] at hp
    rw [instruction?] at hi hp
    rw [hi, hp]
    rfl
  | some i =>
    rw [hi, Option.map_some, Option.map_eq_some_iff] at hp
    obtain ⟨i', hi', hgist⟩ := hp
    rw [instruction?] at hi hi'
    rw [hi, hi', Option.elim_some, Option.elim_some]
    exact Instruction.successorsOf_eq_of_gist hm.size_eq hgist p

theorem topRoots_eq : m'.topRoots = m.topRoots := by
  have hhandlers : List.Forall₂ (m.SameHandler m') m.handlers m'.handlers :=
    hm.handlers.imp fun _ _ hx => hx.sameHandler
  rw [topRoots, topRoots, map_position_entries hhandlers]

theorem reachedFrom_eq (r : RegionRef) : m'.reachedFrom r = m.reachedFrom r := by
  have hreached (roots : List Nat) : m'.reached roots = m.reached roots := by
    rw [reached, reached, hm.successors_eq, hm.positions_eq]
  cases r with
  | top => rw [reachedFrom, reachedFrom, hm.topRoots_eq, hreached]
  | sub p => exact hreached [p]
  | loose i => rfl

/-- Methods that mirror each other have the same structure. -/
theorem sameStructure : m.SameStructure m' where
  size := hm.size_eq
  leaders := by rw [leaders_eq_gists, leaders_eq_gists, hm.positions_eq, hm.gists]
  calls p := by
    rw [callsOf, callsOf, hm.positions_eq]
    refine List.filter_congr fun q _ => ?_
    rw [callsAt_eq_gist, callsAt_eq_gist, hm.map_instruction?]
  reached r _ := hm.reachedFrom_eq r
  gists _ _ p _ := hm.map_instruction? p

end Mirrors

end Method

/-! ### Places and handlers that correspond -/

/-- Where elements correspond, the first ones with a property do. -/
theorem find?_forall₂ {α β : Type} {R : α → β → Prop} {p : α → Bool} {q : β → Bool} {as : List α}
    {bs : List β} (h : List.Forall₂ R as bs) (hpq : ∀ a b, R a b → q b = p a) :
    Option.Rel R (as.find? p) (bs.find? q) := by
  induction h with
  | nil => exact .none
  | @cons a b as bs hab _ ih =>
    rw [List.find?_cons, List.find?_cons, hpq a b hab]
    cases p a with
    | true => exact .some hab
    | false => exact ih

/-- Where elements correspond, the first things found at them do. -/
theorem findSome?_forall₂ {α β γ δ : Type} {R : α → β → Prop} {S : γ → δ → Prop}
    {f : α → Option γ} {g : β → Option δ} {as : List α} {bs : List β} (h : List.Forall₂ R as bs)
    (hfg : ∀ a b, R a b → Option.Rel S (f a) (g b)) :
    Option.Rel S (as.findSome? f) (bs.findSome? g) := by
  induction h with
  | nil => exact .none
  | @cons a b as bs hab _ ih =>
    rw [List.findSome?_cons, List.findSome?_cons]
    have hrel := hfg a b hab
    generalize f a = found at hrel ⊢
    generalize g b = found' at hrel ⊢
    cases hrel with
    | none => exact ih
    | some h => exact .some h

/-- A handler with a range inside one body covers all positions of the range. -/
theorem Handler.mem_positions_covered_iff {x : Handler} (hx : x.stop.body = x.start.body)
    {p : Nat} : p ∈ x.covered.map Handle.position ↔ x.start.position ≤ p ∧ p ≤ x.stop.position := by
  simp only [covered, List.mem_map, Handle.mem_walkTo_iff hx x.ordered]
  constructor
  · rintro ⟨h, ⟨-, hrange⟩, rfl⟩
    exact hrange
  · intro hp
    have hsize : p < x.start.body.size := Nat.lt_of_le_of_lt hp.2 (Handle.position_lt hx)
    exact ⟨⟨x.start.body, p, hsize⟩, ⟨rfl, hp⟩, rfl⟩

namespace Method.Mirrors

variable {m m' : Method} {r : RegionRef} {h h' l l' : Handle} (hm : m.Mirrors m')

include hm

theorem text_eq (hh : Twins m m' h h') : h'.text = h.text := by
  have hline : h'.instruction.line = h.instruction.line :=
    congrArg Instruction.Gist.line (hm.gist_eq hh)
  rw [Handle.text, Handle.text, Body.lineAt, Body.lineAt, hh.position, hline]

theorem slot_eq (hh : Twins m m' h h') : h'.instruction.slot = h.instruction.slot :=
  congrArg Instruction.Gist.slot (hm.gist_eq hh)

/-- Places at the same positions of two such methods correspond. -/
theorem rel_handle? (p : Nat) :
    Option.Rel (Twins m m') (m.body.handle? p) (m'.body.handle? p) := by
  by_cases hp : p < m.body.size
  · have hp' : p < m'.body.size := hm.size_eq.symm ▸ hp
    rw [Body.handle?_of_lt hp, Body.handle?_of_lt hp']
    exact .some ⟨rfl, rfl, rfl⟩
  · have hp' : ¬p < m'.body.size := hm.size_eq.symm ▸ hp
    rw [Body.handle?, dif_neg hp, Body.handle?, dif_neg hp']
    exact .none

theorem forall₂_handle? (ps : List Nat) :
    List.Forall₂ (Twins m m') (ps.filterMap m.body.handle?) (ps.filterMap m'.body.handle?) := by
  refine List.rel_filterMap (R := (· = ·)) ?_ (List.forall₂_refl ps)
  rintro p _ rfl
  exact hm.rel_handle? p

theorem forall₂_leaderHandles : List.Forall₂ (Twins m m') m.leaderHandles m'.leaderHandles := by
  rw [leaderHandles, leaderHandles, hm.sameStructure.leaders]
  exact hm.forall₂_handle? m.leaders

theorem forall₂_membersOf (r : RegionRef) :
    List.Forall₂ (Twins m m') (m.membersOf r) (m'.membersOf r) := by
  rw [membersOf, membersOf, hm.reachedFrom_eq]
  exact hm.forall₂_handle? (m.reachedFrom r)

theorem forall₂_callersList (hl : Twins m m' l l') :
    List.Forall₂ (Twins m m') (m.callersList l) (m'.callersList l') := by
  rw [callersList, callersList, hl.position, hm.sameStructure.calls]
  exact hm.forall₂_handle? (m.callsOf l.position)

theorem forall₂_filter_isRet {hs hs' : List Handle} (hhs : List.Forall₂ (Twins m m') hs hs') :
    List.Forall₂ (Twins m m') (hs.filter (·.instruction.isRet))
      (hs'.filter (·.instruction.isRet)) := by
  refine List.rel_filter (fun h h' hh => ?_) hhs
  have hret : h'.instruction.isRet = h.instruction.isRet :=
    congrArg Instruction.Gist.isRet (hm.gist_eq hh)
  exact iff_of_eq (congrArg (· = true) hret.symm)

end Method.Mirrors

namespace Method.TwinHandler

variable {m m' : Method} {x x' : Handler} (hx : m.TwinHandler m' x x')

include hx

theorem text_eq : x'.text = x.text := by
  rw [Handler.text, Handler.text, Handler.typeText, Handler.typeText, hx.catchType,
    hx.start.position, hx.stop.position, hx.entry.position]

theorem handlerJson_eq : Violation.handlerJson x' = Violation.handlerJson x := by
  rw [Violation.handlerJson, Violation.handlerJson, hx.catchType, hx.start.position,
    hx.stop.position, hx.entry.position]

/-- Handlers that correspond cover the same positions. -/
theorem forall₂_covered : List.Forall₂ (Twins m m') x.covered x'.covered := by
  have hstop : x.stop.body = x.start.body := hx.stop.left.trans hx.start.left.symm
  have hstop' : x'.stop.body = x'.start.body := hx.stop.right.trans hx.start.right.symm
  refine forall₂_twins_iff.2 ⟨fun h hh => (Handle.le_of_mem_walkTo hh).1.trans hx.start.left,
    fun h hh => (Handle.le_of_mem_walkTo hh).1.trans hx.start.right, ?_⟩
  refine List.Pairwise.eq_of_mem_iff (List.pairwise_map.2 (Handle.pairwise_walkTo _ _))
    (List.pairwise_map.2 (Handle.pairwise_walkTo _ _)) fun p => ?_
  rw [Handler.mem_positions_covered_iff hstop, Handler.mem_positions_covered_iff hstop',
    hx.start.position, hx.stop.position]

end Method.TwinHandler

/-! ### Regions that correspond -/

namespace Region

variable {m m' : Method} {x x' : Region} {hs hs' : List Handle}

/-- Regions of two methods have the same places and the same slot. -/
structure Twins (m m' : Method) (x x' : Region) : Prop where
  entry : m.Twins m' x.entry x'.entry
  isTop : x'.isTop = x.isTop
  slot : x'.slot = x.slot
  members : List.Forall₂ (m.Twins m') x.members x'.members
  calls : List.Forall₂ (m.Twins m') x.calls x'.calls
  ret : Option.Rel (m.Twins m') x.ret x'.ret

theorem map_position_byPosition (hs : List Handle) : (byPosition hs).map Handle.position =
    (hs.map Handle.position).mergeSort fun a b => decide (a ≤ b) :=
  List.map_mergeSort fun _ _ _ _ => rfl

/-- Places that correspond do so when they are sorted, too. -/
theorem forall₂_byPosition (hhs : List.Forall₂ (m.Twins m') hs hs') :
    List.Forall₂ (m.Twins m') (byPosition hs) (byPosition hs') := by
  obtain ⟨hleft, hright, hpositions⟩ := Method.forall₂_twins_iff.1 hhs
  refine Method.forall₂_twins_iff.2 ⟨fun h hh => hleft h (List.mem_mergeSort.1 hh),
    fun h hh => hright h (List.mem_mergeSort.1 hh), ?_⟩
  rw [map_position_byPosition, map_position_byPosition, hpositions]

namespace Twins

variable (hx : Twins m m' x x')

include hx

theorem label_eq : x'.label = x.label := by
  rw [label, label, hx.isTop, hx.entry.position]

theorem note_eq : x'.note = x.note := by
  rw [note, note, hx.label_eq, hx.slot]

theorem callPositions_eq : x'.callPositions = x.callPositions :=
  (Method.forall₂_twins_iff.1 (forall₂_byPosition hx.calls)).2.2

theorem map_position_ret :
    x'.ret.toList.map Handle.position = x.ret.toList.map Handle.position := by
  have hret := hx.ret
  generalize x.ret = ret at hret ⊢
  generalize x'.ret = ret' at hret ⊢
  cases hret with
  | none => rfl
  | some hh => exact congrArg (fun p => [p]) hh.position

theorem bind_slot_ret (hm : m.Mirrors m') :
    (x'.ret.bind fun h => h.instruction.slot) = x.ret.bind fun h => h.instruction.slot := by
  have hret := hx.ret
  generalize x.ret = ret at hret ⊢
  generalize x'.ret = ret' at hret ⊢
  cases hret with
  | none => rfl
  | some hh => exact hm.slot_eq hh

theorem forall₂_rets (hm : m.Mirrors m') : List.Forall₂ (m.Twins m') x.rets x'.rets :=
  forall₂_byPosition (hm.forall₂_filter_isRet hx.members)

end Twins

end Region

namespace Table

variable {m m' : Method} {members members' : RegionRef → List Handle}
  {ret ret' : Handle → Option Handle} {spans spans' : List Span} {settings : Settings}

/-- Subroutines with members and `ret` instructions that correspond do so as a whole. -/
theorem twins_subroutine (hm : m.Mirrors m') {l l' : Handle} (hl : m.Twins m' l l')
    {hs hs' : List Handle} (hhs : List.Forall₂ (m.Twins m') hs hs') {x x' : Option Handle}
    (hx : Option.Rel (m.Twins m') x x') :
    Region.Twins m m' (m.subroutine hs x l) (m'.subroutine hs' x' l') where
  entry := hl
  isTop := rfl
  slot := congrArg (Option.map Int.ofNat) (hm.slot_eq hl)
  members := hhs
  calls := hm.forall₂_callersList hl
  ret := hx

/-- The regions of two tables correspond where their members and `ret` instructions do. -/
theorem twins_region_stage (hm : m.Mirrors m')
    (hmembers : ∀ r, List.Forall₂ (m.Twins m') (members r) (members' r))
    (hret : ∀ l l', m.Twins m' l l' → Option.Rel (m.Twins m') (ret l) (ret' l')) (r : RegionRef) :
    Region.Twins m m' ((stage m settings members ret spans).region r)
      ((stage m' settings members' ret' spans').region r) := by
  have htop : Region.Twins m m' (stage m settings members ret spans).top
      (stage m' settings members' ret' spans').top :=
    ⟨⟨rfl, rfl, rfl⟩, rfl, rfl, hmembers .top, .nil, .none⟩
  cases r with
  | top => exact htop
  | sub p =>
    -- a position at which no subroutine starts stands for the top level, on both sides
    have hsubs : List.Forall₂ (Region.Twins m m') (stage m settings members ret spans).subs
        (stage m' settings members' ret' spans').subs := by
      refine List.forall₂_map_left_iff.2 (List.forall₂_map_right_iff.2 ?_)
      refine hm.forall₂_leaderHandles.imp fun l l' hl => ?_
      rw [hl.position]
      exact twins_subroutine hm hl (hmembers _) (hret l l' hl)
    have hfound : Option.Rel (Region.Twins m m') ((stage m settings members ret spans).sub? p)
        ((stage m' settings members' ret' spans').sub? p) :=
      find?_forall₂ hsubs fun x x' hx => by rw [hx.entry.position]
    rw [region, region]
    generalize (stage m settings members ret spans).sub? p = found at hfound ⊢
    generalize (stage m' settings members' ret' spans').sub? p = found' at hfound ⊢
    cases hfound with
    | none => exact htop
    | some hx => exact hx
  | loose i => exact htop

theorem twins_region_openStage (hm : m.Mirrors m') (settings : Settings) (r : RegionRef) :
    Region.Twins m m' ((openStage m settings).region r) ((openStage m' settings).region r) :=
  twins_region_stage hm (fun _ => .nil) (fun _ _ _ => .none) r

theorem twins_region_settledStage (hm : m.Mirrors m') (settings : Settings) (r : RegionRef) :
    Region.Twins m m' ((settledStage m settings).region r)
      ((settledStage m' settings).region r) := by
  refine twins_region_stage hm hm.forall₂_membersOf (fun l l' hl => ?_) r
  have hrets : List.Forall₂ (m.Twins m') (m.retsList l) (m'.retsList l') := by
    rw [Method.retsList, Method.retsList, hl.position]
    exact hm.forall₂_filter_isRet (hm.forall₂_membersOf _)
  generalize m.retsList l = rets at hrets ⊢
  generalize m'.retsList l' = rets' at hrets ⊢
  cases hrets with
  | nil => exact .none
  | cons hret _ => exact .some hret

end Table

end BytecodeRegions
