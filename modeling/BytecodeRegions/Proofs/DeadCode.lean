import BytecodeRegions.Proofs.Acceptance
import BytecodeRegions.Proofs.Table.Agreement

/-!
# Dead code is inert

Positions that no region owns may hold anything but calls: a `ret`, a jump into a subroutine, an
access to any slot, whether or not a handler covers them. A method that differs from an accepted one
only in such positions is accepted too, and the two tables give the same answers. All that a table
is built from is read at positions that some region reaches, where the methods are the same, or is
read from calls, which the methods have in common.

## Main definitions

* `Method.DiffersIn`: a method differs from another in given positions only, and in no call.
* `Method.Avoids`: nothing that a region reaches is among given positions.

## Main results

* `Method.DiffersIn.reachedFrom_eq`, `Method.DiffersIn.sameStructure`: the same positions are
  reached, and the structure is the same.
* `Method.DiffersIn.orderly`: the rules are kept.
* `Table.dead_inert`: dead code has no influence on acceptance or answers.
-/

namespace BytecodeRegions

/-- Where the steps from everything that is reached are the same, the same is reached. -/
theorem Reaches.congr {α : Type} {next next' : α → List α} {a b : α}
    (hnext : ∀ x, Reaches next a x → next' x = next x) :
    Reaches next' a b ↔ Reaches next a b := by
  constructor
  · intro hab
    induction hab with
    | refl => exact .refl a
    | tail _ hc ih => exact ih.tail (hnext _ ih ▸ hc)
  · intro hab
    induction hab with
    | refl => exact .refl a
    | tail hb hc ih => exact ih.tail (hnext _ hb ▸ hc)

namespace Handle

variable {h k : Handle}

/-- A walk that does not meet its end goes through the end of the body. -/
theorem mem_walkTo_iff_of_body_ne {last : Handle} (hb : last.body ≠ h.body) :
    k ∈ h.walkTo last ↔ k.body = h.body ∧ h.position ≤ k.position := by
  refine ⟨le_of_mem_walkTo, ?_⟩
  rintro ⟨hkb, hhk⟩
  fun_induction walkTo h last with
  | case1 h ih =>
    rw [List.mem_cons]
    rcases Nat.eq_or_lt_of_le hhk with heq | hlt
    · exact .inl (eq_of_position hkb heq.symm)
    · have hsize : h.position + 1 < h.body.size := Nat.lt_of_le_of_lt hlt (position_lt hkb)
      have hne : h ≠ last := fun heq => hb (heq ▸ rfl)
      right
      rw [if_neg hne]
      split
      · next hnone =>
        rw [next?, Body.handle?_of_lt hsize] at hnone
        cases hnone
      · next j hj =>
        obtain ⟨hjb, hjp⟩ := next?_eq_some_iff.1 hj
        exact ih j hj (hjb ▸ hb) (hkb.trans hjb.symm) (by omega)

end Handle

namespace Method

variable {m m' : Method} {ps : List Nat} {r : RegionRef} {h h' : Handle} {p : Nat}

/-- A method is as long as another one, has the same handlers, has the same instructions but in
given positions, and has no call, and replaces none, where the instructions differ. -/
structure DiffersIn (m m' : Method) (ps : List Nat) : Prop where
  size : m'.body.size = m.body.size
  handlers : List.Forall₂ (m.SameHandler m') m.handlers m'.handlers
  same : ∀ p, p ∉ ps → m'.instruction? p = m.instruction? p
  calls : ∀ p, ∀ i ∈ m.instruction? p, ∀ i' ∈ m'.instruction? p, i' ≠ i →
    i.isJsr = false ∧ i'.isJsr = false

/-- Nothing that a region reaches is among given positions. -/
def Avoids (m : Method) (ps : List Nat) : Prop :=
  ∀ r, m.IsRegion r → ∀ p ∈ m.reachedFrom r, p ∉ ps

/-- Handlers that correspond cover places that correspond. -/
theorem SameHandler.mem_covered {x x' : Handler} (hx : m.SameHandler m' x x')
    (hh : Twins m m' h h') (hcovered : h' ∈ x'.covered) : h ∈ x.covered := by
  obtain ⟨hbody, -⟩ := Handle.le_of_mem_walkTo hcovered
  have hstart' : x'.start.body = m'.body := hbody.symm.trans hh.right
  have hstart : x.start.body = m.body := hx.start.own.1 hstart'
  rw [Handler.covered] at hcovered ⊢
  by_cases hstop' : x'.stop.body = m'.body
  · have hstop : x.stop.body = m.body := hx.stop.own.1 hstop'
    rw [Handle.mem_walkTo_iff (hstop'.trans hstart'.symm) x'.ordered, hh.position,
      hx.start.position, hx.stop.position] at hcovered
    rw [Handle.mem_walkTo_iff (hstop.trans hstart.symm) x.ordered]
    exact ⟨hh.left.trans hstart.symm, hcovered.2⟩
  · have hstop : ¬x.stop.body = m.body := fun hstop => hstop' (hx.stop.own.2 hstop)
    rw [Handle.mem_walkTo_iff_of_body_ne (hstart' ▸ hstop'), hh.position,
      hx.start.position] at hcovered
    rw [Handle.mem_walkTo_iff_of_body_ne (hstart ▸ hstop)]
    exact ⟨hh.left.trans hstart.symm, hcovered.2⟩

namespace DiffersIn

/-! ### Calls and leaders -/

section Calls

variable (hm : m.DiffersIn m' ps)

include hm

theorem positions_eq : m'.body.positions = m.body.positions := by
  rw [Body.positions, Body.positions, hm.size]

/-- What says nothing about instructions other than calls is the same everywhere. -/
theorem map_instruction? {α : Type} {f : Instruction Link → α} {a : α}
    (hf : ∀ i, i.isJsr = false → f i = a) (p : Nat) :
    (m'.instruction? p).map f = (m.instruction? p).map f := by
  rcases Nat.lt_or_ge p m.body.size with hp | hp
  · have hp' : p < m'.body.size := hm.size ▸ hp
    have hi : m.instruction? p = some m.body.code[p] := Array.getElem?_eq_getElem hp
    have hi' : m'.instruction? p = some m'.body.code[p] := Array.getElem?_eq_getElem hp'
    by_cases heq : m'.body.code[p] = m.body.code[p]
    · rw [hi, hi', heq]
    · obtain ⟨hjsr, hjsr'⟩ := hm.calls p _ hi _ hi' heq
      rw [hi, hi', Option.map_some, Option.map_some, hf _ hjsr, hf _ hjsr']
  · have hnone : m.instruction? p = none := Array.getElem?_eq_none hp
    have hnone' : m'.instruction? p = none := Array.getElem?_eq_none (hm.size.trans_le hp)
    rw [hnone, hnone']

theorem leaders_eq : m'.leaders = m.leaders := by
  have hmap : m'.body.code.toList.map (fun i => if i.isJsr then i.target? else none) =
      m.body.code.toList.map fun i => if i.isJsr then i.target? else none := by
    refine List.ext_getElem? fun p => ?_
    rw [List.getElem?_map, List.getElem?_map, Array.getElem?_toList, Array.getElem?_toList]
    exact hm.map_instruction? (a := none) (fun i hi => by rw [hi]; rfl) p
  have htargets := congrArg (List.filterMap id) hmap
  rw [List.filterMap_map, List.filterMap_map] at htargets
  rw [leaders, leaders, hm.positions_eq]
  exact congrArg (fun ts : List Nat => m.body.positions.filter ts.contains) htargets

theorem callsOf_eq (leader : Nat) : m'.callsOf leader = m.callsOf leader := by
  rw [callsOf, callsOf, hm.positions_eq]
  refine List.filter_congr fun p _ => ?_
  have hmap := hm.map_instruction? (f := fun i => i.isJsr && i.target? == some leader)
    (a := false) (fun i hi => by rw [hi]; rfl) p
  have hany := congrArg (Option.any id) hmap
  rwa [Option.any_map, Option.any_map] at hany

theorem isRegion_iff : m'.IsRegion r ↔ m.IsRegion r := by
  rw [← mem_regionRefs_iff, ← mem_regionRefs_iff, regionRefs, regionRefs, hm.leaders_eq]

theorem topRoots_eq : m'.topRoots = m.topRoots := by
  rw [topRoots, topRoots, map_position_entries hm.handlers]

end Calls

/-! ### What is reached -/

section Reached

variable (hm : m.DiffersIn m' ps) (hlive : m.Avoids ps)

include hm hlive

/-- Where the instructions are the same, the same positions follow. -/
theorem successors_eq (hr : m.IsRegion r) (hp : p ∈ m.reachedFrom r) :
    m'.body.successors p = m.body.successors p := by
  have hsame : m'.body.code[p]? = m.body.code[p]? := hm.same p (hlive r hr p hp)
  have hfollowing : m'.body.following = m.body.following := by
    funext q
    rw [Body.following, Body.following, hm.size]
  have hof : m'.body.successorsOf p = m.body.successorsOf p := by
    funext i
    rw [Body.successorsOf, Body.successorsOf, hfollowing]
  rw [Body.successors, Body.successors, hsame, hof]

/-- The same positions are reached from each region. -/
theorem reachedFrom_eq (hr : m.IsRegion r) : m'.reachedFrom r = m.reachedFrom r := by
  have key {roots : List Nat} (hroots : ∀ q ∈ roots, q < m.body.size)
      (hreached : m.reached roots = m.reachedFrom r) : m'.reached roots = m.reached roots := by
    have hroots' : ∀ q ∈ roots, q < m'.body.size := fun q hq => hm.size ▸ hroots q hq
    have hmem (p : Nat) : p ∈ m'.reached roots ↔ p ∈ m.reached roots := by
      rw [mem_reached_iff hroots', mem_reached_iff hroots]
      refine exists_congr fun q => and_congr_right fun hq => Reaches.congr fun x hx => ?_
      exact hm.successors_eq hlive hr (hreached ▸ (mem_reached_iff hroots).2 ⟨q, hq, hx⟩)
    simp only [reached, hm.positions_eq, List.mem_filter] at hmem ⊢
    refine List.filter_congr fun p hp => ?_
    have hcontains := hmem p
    rwa [and_iff_right hp, and_iff_right hp, ← Bool.eq_iff_iff] at hcontains
  cases r with
  | top =>
    rw [reachedFrom, hm.topRoots_eq]
    exact key topRoots_lt rfl
  | sub p =>
    refine key (fun q hq => ?_) rfl
    obtain ⟨l, hl, rfl⟩ := hr
    rw [List.mem_singleton.1 hq]
    exact Handle.position_lt hl.body_eq
  | loose i => exact hr.elim

/-- A method that differs from another one in dead positions only has the same structure. -/
theorem sameStructure : m.SameStructure m' where
  size := hm.size
  leaders := hm.leaders_eq
  calls := hm.callsOf_eq
  reached r hr := hm.reachedFrom_eq hlive hr
  gists r hr p hp := by rw [hm.same p (hlive r hr p hp)]

end Reached

/-! ### Places that correspond -/

section Twins

variable {l l' : Handle} (hm : m.DiffersIn m' ps)

include hm

theorem exists_twins (hh' : h'.body = m'.body) : ∃ h, Twins m m' h h' :=
  ⟨⟨m.body, h'.position, hm.size ▸ Handle.position_lt hh'⟩, rfl, hh', rfl⟩

variable (hlive : m.Avoids ps)

include hlive

theorem mem_extent_iff (hr : m.IsRegion r) (hh : Twins m m' h h') :
    h' ∈ m'.extent r ↔ h ∈ m.extent r := by
  rw [← mem_reachedFrom_iff (hm.isRegion_iff.2 hr) hh.right, ← mem_reachedFrom_iff hr hh.left,
    hh.position, hm.reachedFrom_eq hlive hr]

/-- The instructions at places that correspond are the same if a region reaches them. -/
theorem instruction_eq (hr : m.IsRegion r) (hh : Twins m m' h h') (hmem : h ∈ m.extent r) :
    h'.instruction = h.instruction := by
  have hp : h.position ∈ m.reachedFrom r := (mem_reachedFrom_iff hr hh.left).2 hmem
  have hsame : m'.body.code[h.position]? = m.body.code[h.position]? :=
    hm.same h.position (hlive r hr h.position hp)
  rw [← hh.position, Handle.getElem?_position hh.right, hh.position,
    Handle.getElem?_position hh.left] at hsame
  exact Option.some.inj hsame

/-! ### The rules -/

theorem entriesValid (hentries : m.EntriesValid) : m'.EntriesValid := by
  intro l' hl'
  obtain ⟨l, hll'⟩ := hm.exists_twins hl'.body_eq
  have hl : m.IsLeader l := ((hm.sameStructure hlive).isLeader_iff hll').1 hl'
  obtain ⟨hfirst, hstores⟩ := hentries l hl
  refine ⟨fun heq => hfirst ?_, ?_⟩
  · have hzero : l'.position = 0 := congrArg Handle.position heq
    exact Handle.eq_of_position hll'.left (hll'.position.symm.trans hzero)
  · rwa [hm.instruction_eq hlive hl.isRegion hll' (leader_mem_extent hll'.left)]

theorem regionsDisjoint (hregions : m.RegionsDisjoint) : m'.RegionsDisjoint := by
  rw [← sharing?_eq_none_iff, sharing?] at hregions ⊢
  rwa [(hm.sameStructure hlive).seeds_eq]

theorem mem_retsOf_iff {l l' : Handle} (hl : m.IsLeader l) (hll' : Twins m m' l l')
    (hh : Twins m m' h h') : h' ∈ m'.retsOf l' ↔ h ∈ m.retsOf l := by
  have hextent : h' ∈ m'.extent (.sub l'.position) ↔ h ∈ m.extent (.sub l.position) := by
    rw [hll'.position]
    exact hm.mem_extent_iff hlive hl.isRegion hh
  constructor
  · rintro ⟨hmem, hret⟩
    rw [hextent] at hmem
    exact ⟨hmem, hm.instruction_eq hlive hl.isRegion hh hmem ▸ hret⟩
  · rintro ⟨hmem, hret⟩
    exact ⟨hextent.2 hmem, (hm.instruction_eq hlive hl.isRegion hh hmem).symm ▸ hret⟩

theorem subroutinesReturn (hreturns : m.SubroutinesReturn) : m'.SubroutinesReturn := by
  intro l' hl'
  obtain ⟨l, hll'⟩ := hm.exists_twins hl'.body_eq
  have hl : m.IsLeader l := ((hm.sameStructure hlive).isLeader_iff hll').1 hl'
  obtain ⟨ret, hrets, hslot⟩ := hreturns l hl
  have hret : ret ∈ m.retsOf l := hrets ▸ rfl
  obtain ⟨ret', hret'⟩ := (hm.sameStructure hlive).exists_twins' (body_eq_of_mem_extent hret.1)
  refine ⟨ret', ?_, ?_⟩
  · ext h'
    rw [Set.mem_singleton_iff]
    constructor
    · intro hh'
      obtain ⟨h, hhh'⟩ := hm.exists_twins (body_eq_of_mem_extent hh'.1)
      have hh : h ∈ m.retsOf l := (hm.mem_retsOf_iff hlive hl hll' hhh').1 hh'
      rw [hrets, Set.mem_singleton_iff] at hh
      refine Handle.eq_of_position (hhh'.right.trans hret'.right.symm) ?_
      rw [hhh'.position, hret'.position, hh]
    · rintro rfl
      exact (hm.mem_retsOf_iff hlive hl hll' hret').2 hret
  · rw [hm.instruction_eq hlive hl.isRegion hret' hret.1,
      hm.instruction_eq hlive hl.isRegion hll' (leader_mem_extent hll'.left), hslot]

theorem handlersClear (hclear : m.HandlersClear) : m'.HandlersClear := by
  intro x' hx'
  refine Set.eq_empty_iff_forall_notMem.2 ?_
  rintro h' ⟨hcovered, l', hl', hmem⟩
  obtain ⟨l, hll'⟩ := hm.exists_twins hl'.body_eq
  obtain ⟨h, hhh'⟩ := hm.exists_twins (body_eq_of_mem_extent hmem)
  have hl : m.IsLeader l := ((hm.sameStructure hlive).isLeader_iff hll').1 hl'
  rw [hll'.position, hm.mem_extent_iff hlive hl.isRegion hhh'] at hmem
  obtain ⟨x, hx, hxx'⟩ := exists_of_forall₂ hm.handlers hx'
  exact Set.notMem_empty h (hclear x hx ▸ ⟨hxx'.mem_covered hhh' hcovered, l, hl, hmem⟩)

end Twins

/-! ### Calls between regions -/

section Graph

variable (hm : m.DiffersIn m' ps) (hlive : m.Avoids ps)

include hm hlive

theorem slotsDistinct (hslots : m.SlotsDistinct) : m'.SlotsDistinct := by
  intro path' hpath'
  have hchain := chain_callGraph_iff.2 ⟨path', hpath', rfl⟩
  rw [(hm.sameStructure hlive).callGraph_eq m.isRegion_top] at hchain
  obtain ⟨path, hpath, hpositions⟩ := chain_callGraph_iff.1 hchain
  -- the slots of a chain are read off the instructions at its positions
  have hread {n : Method} {path : List Handle} (hbody : ∀ l ∈ path, l.body = n.body) :
      path.map (fun l => l.instruction.slot) =
        (path.map Handle.position).map fun p => (n.instruction? p).bind (·.slot) := by
    rw [List.map_map]
    refine List.map_congr_left fun l hl => ?_
    rw [Function.comp_apply, instruction?, Handle.getElem?_position (hbody l hl), Option.bind_some]
  rw [hread fun l hl => (hpath'.isLeader l hl).body_eq, ← hpositions]
  have hsame : (path.map Handle.position).map (fun p => (m'.instruction? p).bind (·.slot)) =
      (path.map Handle.position).map fun p => (m.instruction? p).bind (·.slot) := by
    refine List.map_congr_left fun p hp => ?_
    obtain ⟨l, hl, rfl⟩ := List.mem_map.1 hp
    have hleader := hpath.isLeader l hl
    have hmem := leader_mem_extent hleader.body_eq
    rw [hm.same _ (hlive _ hleader.isRegion _
      ((mem_reachedFrom_iff hleader.isRegion hleader.body_eq).2 hmem))]
  rw [hsame, ← hread fun l hl => (hpath.isLeader l hl).body_eq]
  exact hslots path hpath

/-- A method that keeps the rules keeps them when dead code is replaced. -/
theorem orderly (horderly : m.Orderly) : m'.Orderly where
  entries := hm.entriesValid hlive horderly.entries
  regions := hm.regionsDisjoint hlive horderly.regions
  returns := hm.subroutinesReturn hlive horderly.returns
  handlers := hm.handlersClear hlive horderly.handlers
  slots := hm.slotsDistinct hlive horderly.slots

end Graph

end DiffersIn

end Method

/-! ### Two tables -/

namespace Table

variable {m m' : Method} {settings : Settings} {t t' : Table} {ps : List Nat} {r : RegionRef}

/-- The places that a region reaches are not dead. -/
theorem FullyBuilt.avoids_dead (ht : t.FullyBuilt m) : m.Avoids t.dead := by
  intro r hr p hp hdead
  rw [dead, List.mem_filter, Option.isNone_iff_eq_none, ht.spans_eq, Method.seeds_eq,
    Method.ownerIn_map_spanOf_eq_none_iff] at hdead
  exact hdead.2 r (Method.mem_regionRefs_iff.2 hr) hp

/-- Dead code is inert: a method that differs from an accepted one in dead positions only, where
neither has a call, is accepted, and its table says the same as that of the accepted one. -/
theorem dead_inert (ht : build m settings = .ok t) (hm : m.DiffersIn m' t.dead)
    (settings' : Settings) : ∃ t', build m' settings' = .ok t' ∧ t.Agrees t' := by
  have hbuilt := FullyBuilt.of_build ht
  have hlive := hbuilt.avoids_dead
  have horderly := hm.orderly hlive (finished_of_build_eq_ok ht).1
  obtain ⟨t', ht'⟩ := (Method.exists_build_eq_ok_iff m' settings').2 horderly
  exact ⟨t', ht', hbuilt.agrees (.of_build ht') (hm.sameStructure hlive)⟩

end Table

/-! ### A jump out of dead code -/

namespace Method

/-- A jump to the outer one of two nested subroutines. -/
def strayJump : Instruction Link :=
  .simple ⟨167, by decide⟩ none (some (.bound 4)) rfl

theorem nine_lt_nestedCode : 9 < (nestedCode 2).code.size :=
  Nat.lt_succ_self 9

/-- The code of two nested subroutines, with that jump in the place of the instruction that nothing
leads to. -/
def strayCode : Body where
  stamp := 1
  code := (nestedCode 2).code.set 9 strayJump nine_lt_nestedCode
  jumps := by
    intro i hi
    rw [Array.size_set]
    rcases Array.mem_or_eq_of_mem_set hi with hi | rfl
    · exact (nestedCode 2).jumps i hi
    · exact fun _ => ⟨⟨.bound 4, rfl, 4, by decide, rfl⟩, nofun⟩

/-- The method of that code, with a handler for the first two instructions. -/
def stray : Method where
  name := "nested"
  body := strayCode
  handlers := [.early strayCode (by decide)]
  nonempty := by decide

theorem stray_instruction? (p : Nat) :
    stray.instruction? p = if 9 = p then some strayJump else (nested 2).instruction? p :=
  Array.getElem?_set nine_lt_nestedCode

theorem differsIn_stray : (nested 2).DiffersIn stray [9] where
  size := Array.size_set nine_lt_nestedCode
  handlers := by
    have hplace (p : Nat) (hp : p < (nestedCode 2).size) (hp' : p < strayCode.size) :
        (nested 2).SamePlace stray ⟨nestedCode 2, p, hp⟩ ⟨strayCode, p, hp'⟩ :=
      ⟨rfl, iff_of_true rfl rfl⟩
    exact .cons ⟨hplace 0 _ _, hplace 1 _ _, hplace 2 _ _⟩ .nil
  same p hp := by
    have hne : ¬9 = p := fun heq => hp (List.mem_singleton.2 heq.symm)
    rw [stray_instruction?, if_neg hne]
  calls p i hi i' hi' hne := by
    rw [stray_instruction?] at hi'
    split at hi'
    · next heq =>
      subst heq
      cases hi
      cases hi'
      exact ⟨rfl, rfl⟩
    · exact absurd (Option.mem_unique hi' hi) hne

end Method

namespace Table

/-- A jump from dead code into a subroutine changes nothing. -/
theorem dead_inert_stray : ∃ t, build (.nested 2) {} = .ok t ∧ t.dead = [9] ∧
    (Method.nested 2).DiffersIn .stray t.dead ∧
      ∃ t', build .stray {} = .ok t' ∧ t.Agrees t' := by
  obtain ⟨t, ht, -, hdead, -⟩ := build_nested_two
  have hdiffers : (Method.nested 2).DiffersIn .stray t.dead := hdead ▸ Method.differsIn_stray
  exact ⟨t, ht, hdead, hdiffers, dead_inert ht hdiffers {}⟩

end Table

end BytecodeRegions
