import BytecodeRegions.Proofs.Representation
import Mathlib.Logic.Relation

/-!
# Runs with calls and returns

A run keeps the calls that it is inside of on a stack. A call is pushed and goes to its target, a
`ret` pops the last call and goes on after it, and an exception goes to the entry of its handler
without touching the stack. The table of a method only knows steps inside a region. Still it
describes all runs: the stack spells a chain of calls, and the run is at a place of the region that
the chain ends in. The other way round, every place of that region is reached with this chain on the
stack, since a subroutine that is called can always run to its `ret`.

## Main definitions

* `Config`: where a run is, with its stack.
* `Config.Move`, `Config.RunOver`: the steps without exceptions, and runs of them that never return
  past a given stack.
* `Method.Step`, `Method.Reachable`: the steps of runs, and what they lead to.
* `Method.Spells`, `Method.Located`: the stack has the calls of a chain, and the run is in the
  region that the chain ends in.
* `Table.Follows`: what a table says about where a run is.

## Main results

* `Method.Reachable.located`: the invariant of runs.
* `Method.runOver_of_mem_extent`: a subroutine gets to all its places where further calls come to an
  end.
* `Method.exists_reachable`: everything on a chain of calls is reached.
* `Table.describes_runs`: the table of an accepted method describes its runs.
-/

namespace BytecodeRegions

/-- Where a run is: a place, and the calls that it is inside of, the last one first. -/
structure Config where
  /-- The place. -/
  place : Handle
  /-- The calls. -/
  stack : List Handle

/-- The steps of a run without exceptions. -/
inductive Config.Move : Config → Config → Prop
  /-- A call goes to its target. -/
  | call {h l : Handle} {stack : List Handle} (hjsr : h.instruction.isJsr = true)
      (hl : h.target? = some l) : Move ⟨h, stack⟩ ⟨l, h :: stack⟩
  /-- A `ret` goes on after the last call. -/
  | ret {h j k : Handle} {stack : List Handle} (hret : h.instruction.isRet = true)
      (hk : j.next? = some k) : Move ⟨h, j :: stack⟩ ⟨k, stack⟩
  /-- Anything else goes to a place that may follow. -/
  | flow {h k : Handle} {stack : List Handle} (hjsr : h.instruction.isJsr = false)
      (hret : h.instruction.isRet = false) (hk : k ∈ h.successors) : Move ⟨h, stack⟩ ⟨k, stack⟩

namespace Method

variable {m : Method} {c c' : Config} {r : RegionRef} {h k l : Handle} {stack path : List Handle}

/-- The steps of a run. -/
inductive Step (m : Method) : Config → Config → Prop
  /-- The run moves on without an exception. -/
  | move {c c' : Config} (hmove : c.Move c') : Step m c c'
  /-- An exception goes to the entry of a handler that covers the place. -/
  | raise {h : Handle} {x : Handler} {stack : List Handle} (hx : x ∈ m.handlers)
      (hh : h ∈ x.covered) : Step m ⟨h, stack⟩ ⟨x.entry, stack⟩

/-- Where runs lead from the first instruction and from the entries of handlers. -/
inductive Reachable (m : Method) : Config → Prop
  | first : Reachable m ⟨m.first, []⟩
  | entry {x : Handler} (hx : x ∈ m.handlers) : Reachable m ⟨x.entry, []⟩
  | step {c c' : Config} (hc : Reachable m c) (hstep : m.Step c c') : Reachable m c'

/-! ### The invariant of runs -/

/-- The calls on a stack are the calls of a chain, each one in the region that the chain below it
ends in. -/
inductive Spells (m : Method) : List Handle → List Handle → Prop
  | nil : Spells m [] []
  | cons {j l : Handle} {stack path : List Handle} (hstack : Spells m stack path)
      (hj : j ∈ m.extent (.ofChain path)) (hjsr : j.instruction.isJsr = true)
      (hl : j.target? = some l) : Spells m (j :: stack) (l :: path)

theorem Spells.callChain (hstack : m.Spells stack path) : m.CallChain path := by
  induction hstack with
  | nil => exact .nil
  | cons _ hj hjsr hl ih => exact ih.cons ⟨_, hj, hjsr, hl⟩

theorem Spells.length_eq (hstack : m.Spells stack path) : stack.length = path.length := by
  induction hstack with
  | nil => rfl
  | cons _ _ _ _ ih => rw [List.length_cons, List.length_cons, ih]

/-- A call on the stack is in the region that is spelled below it. -/
theorem Spells.of_append {above below : List Handle} {j : Handle}
    (hstack : m.Spells (above ++ j :: below) path) :
    ∃ path', m.Spells below path' ∧ j ∈ m.extent (.ofChain path') := by
  induction above generalizing path with
  | nil =>
    cases hstack with
    | cons hstack hj _ _ => exact ⟨_, hstack, hj⟩
  | cons _ above ih =>
    cases hstack with
    | cons hstack _ _ _ => exact ih hstack

theorem Spells.map_target? (hstack : m.Spells stack path) :
    stack.map Handle.target? = path.map some := by
  induction hstack with
  | nil => rfl
  | cons _ _ _ hl ih => rw [List.map_cons, List.map_cons, hl, ih]

/-- The run is in the region that its stack spells. -/
def Located (m : Method) (c : Config) : Prop :=
  ∃ path, m.Spells c.stack path ∧ c.place ∈ m.extent (.ofChain path)

/-- Where nothing of a subroutine is protected, exceptions are thrown in the top level. -/
theorem HandlersClear.eq_nil (hclear : m.HandlersClear) (hpath : m.CallChain path) {x : Handler}
    (hx : x ∈ m.handlers) (hcovered : h ∈ x.covered) (hh : h ∈ m.extent (.ofChain path)) :
    path = [] := by
  cases hpath with
  | nil => rfl
  | @cons l path _ hl =>
    have hprotected : h ∈ m.protectedBy x := ⟨hcovered, l, hl.isLeader, hh⟩
    rw [hclear x hx] at hprotected
    cases hprotected

/-- A move keeps the run in the region that its stack spells: a call goes to the region of its
target, and a `ret` back to the region of the call. -/
theorem Located.move (hc : m.Located c) (hmove : c.Move c') : m.Located c' := by
  obtain ⟨path, hstack, hh⟩ := hc
  cases hmove with
  | @call h l stack hjsr hl =>
    have hleader : m.IsLeader l := ⟨h, body_eq_of_mem_extent hh, hjsr, hl⟩
    exact ⟨l :: path, hstack.cons hh hjsr hl, leader_mem_extent hleader.body_eq⟩
  | ret hret hk =>
    cases hstack with
    | cons hstack hj hjsr _ =>
      exact ⟨_, hstack, extent_closed hj ((Handle.mem_successors_of_isJsr hjsr).2 hk)⟩
  | flow _ _ hk => exact ⟨path, hstack, extent_closed hh hk⟩

/-- A step keeps the run in the region that its stack spells. -/
theorem Step.located (hm : m.OwnEntries) (hclear : m.HandlersClear) (hstep : m.Step c c')
    (hc : m.Located c) : m.Located c' := by
  cases hstep with
  | move hmove => exact hc.move hmove
  | raise hx hcovered =>
    obtain ⟨path, hstack, hh⟩ := hc
    obtain rfl := hclear.eq_nil hstack.callChain hx hcovered hh
    exact ⟨[], hstack, entry_mem_extent hx (hm _ hx)⟩

/-- A run is always in the region that its stack spells. -/
theorem Reachable.located (hm : m.OwnEntries) (hclear : m.HandlersClear) (hc : m.Reachable c) :
    m.Located c := by
  induction hc with
  | first => exact ⟨[], .nil, m.first_mem_extent⟩
  | entry hx => exact ⟨[], .nil, entry_mem_extent hx (hm _ hx)⟩
  | step _ hstep ih => exact hstep.located hm hclear ih

/-! ### Everything is reached -/

/-- Any number of steps. -/
abbrev Run (m : Method) : Config → Config → Prop :=
  Relation.ReflTransGen m.Step

theorem Reachable.run (hc : m.Reachable c) (hrun : m.Run c c') : m.Reachable c' := by
  induction hrun with
  | refl => exact hc
  | tail _ hstep ih => exact ih.step hstep

end Method

namespace Config

variable {c c' : Config} {floor : List Handle}

/-- Any number of steps without exceptions that never return past a floor: the calls of the floor
stay at the bottom of the stack. -/
abbrev RunOver (floor : List Handle) : Config → Config → Prop :=
  Relation.ReflTransGen fun c c' => c.Move c' ∧ floor <:+ c'.stack

theorem RunOver.run (hrun : RunOver floor c c') (m : Method) : m.Run c c' :=
  Relation.ReflTransGen.mono (fun _ _ h => .move h.1) _ _ hrun

/-- What stays over a floor stays over a lower one. -/
theorem RunOver.lower {floor' : List Handle} (hrun : RunOver floor c c') (hle : floor' <:+ floor) :
    RunOver floor' c c' :=
  Relation.ReflTransGen.mono (fun _ _ h => ⟨h.1, hle.trans h.2⟩) _ _ hrun

end Config

namespace Method

open Config (RunOver)

variable {m : Method} {c c' : Config} {r : RegionRef} {h k l : Handle} {stack path : List Handle}

/-- If every subroutine that is called from a region can run to its `ret`, then whatever is reached
inside the region is reached by a run that leaves the stack as it was. -/
theorem runOver_of_reaches (hcallee : ∀ j ∈ m.extent r, ∀ l,
      j.instruction.isJsr = true → j.target? = some l → ∀ stack, ∃ ret : Handle,
        ret.instruction.isRet = true ∧ RunOver stack ⟨l, stack⟩ ⟨ret, stack⟩)
    (hh : h ∈ m.extent r) (hk : Reaches Handle.successors h k) (stack : List Handle) :
    RunOver stack ⟨h, stack⟩ ⟨k, stack⟩ := by
  induction hk with
  | refl => exact .refl
  | @tail b k hb hk ih =>
    have hmem : b ∈ m.extent r := hb.closed (fun _ _ => extent_closed) hh
    refine ih.trans ?_
    cases hjsr : b.instruction.isJsr with
    | true =>
      -- the run goes through the whole callee and comes back
      obtain ⟨l, hl⟩ := Handle.exists_target?_of_isJsr hjsr
      obtain ⟨ret, hret, hrun⟩ := hcallee b hmem l hjsr hl (b :: stack)
      have hnext : b.next? = some k := (Handle.mem_successors_of_isJsr hjsr).1 hk
      have hinside := hrun.lower (List.suffix_cons b stack)
      exact (hinside.head ⟨.call hjsr hl, List.suffix_cons b stack⟩).tail
        ⟨.ret hret hnext, List.suffix_rfl⟩
    | false =>
      cases hret : b.instruction.isRet with
      | true =>
        rw [Handle.successors_of_isRet hret] at hk
        cases hk
      | false => exact .single ⟨.flow hjsr hret hk, List.suffix_rfl⟩

theorem Calls.mem_callees (hr : m.IsRegion (.sub l.position)) (hk : m.Calls (.sub l.position) k) :
    k.position ∈ (m.callGraph r).callees l.position := by
  rw [callees_callGraph (mem_leaders_iff.2 hr), mem_calleesFrom_iff hr]
  exact ⟨k, hk, rfl⟩

/-- A subroutine from which there are not arbitrarily many further calls gets to all its places. The
induction is on how many further calls there are. -/
theorem runOver_of_mem_extent (hreturns : m.SubroutinesReturn) {n : Nat} (hl : m.IsLeader l)
    (hn : ¬(m.callGraph r).Deep n l.position) (hh : h ∈ m.extent (.sub l.position))
    (stack : List Handle) : RunOver stack ⟨l, stack⟩ ⟨h, stack⟩ := by
  induction n generalizing l h stack with
  | zero => exact absurd trivial hn
  | succ n ih =>
    rw [extent_sub hl.body_eq] at hh
    obtain ⟨_, rfl, hreaches⟩ := hh
    refine runOver_of_reaches (fun j hj k hjsr hk stack => ?_) (leader_mem_extent hl.body_eq)
      hreaches stack
    have hcall : m.Calls (.sub _) k := ⟨j, hj, hjsr, hk⟩
    obtain ⟨ret, hrets, -⟩ := hreturns k hcall.isLeader
    obtain ⟨hret, hisRet⟩ : ret ∈ m.retsOf k := hrets ▸ rfl
    have hk : ¬(m.callGraph r).Deep n k.position := fun hdeep =>
      hn ⟨k.position, hcall.mem_callees hl.isRegion, hdeep⟩
    exact ⟨ret, hisRet, ih hcall.isLeader hk hret stack⟩

/-- A subroutine from which there are not arbitrarily many further calls can run to its `ret`. -/
theorem exists_runOver_ret (hreturns : m.SubroutinesReturn) {n : Nat} (hl : m.IsLeader l)
    (hn : ¬(m.callGraph r).Deep n l.position) (stack : List Handle) : ∃ ret : Handle,
      ret.instruction.isRet = true ∧ RunOver stack ⟨l, stack⟩ ⟨ret, stack⟩ := by
  obtain ⟨ret, hrets, -⟩ := hreturns l hl
  obtain ⟨hret, hisRet⟩ : ret ∈ m.retsOf l := hrets ▸ rfl
  exact ⟨ret, hisRet, runOver_of_mem_extent hreturns hl hn hret stack⟩

/-- In a region that a chain of calls ends in, runs get wherever flow inside the region does. -/
theorem CallChain.run_of_reaches (hreturns : m.SubroutinesReturn) (hslots : m.SlotsDistinct)
    (hpath : m.CallChain path) (hh : h ∈ m.extent (.ofChain path))
    (hk : Reaches Handle.successors h k) (stack : List Handle) :
    m.Run ⟨h, stack⟩ ⟨k, stack⟩ := by
  refine (runOver_of_reaches (fun j hj l hjsr hl => ?_) hh hk stack).run m
  have hchain : m.CallChain (l :: path) := hpath.cons ⟨j, hj, hjsr, hl⟩
  refine exists_runOver_ret hreturns (hchain.isLeader l List.mem_cons_self) (r := .top)
    (n := m.leaderHandles.length) fun hdeep => ?_
  -- further calls would make a chain longer than a chain can be
  obtain ⟨longer, hlonger, hlen⟩ :=
    (chain_callGraph_iff.2 ⟨l :: path, hchain, rfl⟩).exists_longer hdeep
  obtain ⟨path', hpath', rfl⟩ := chain_callGraph_iff.1 hlonger
  have hle := hslots.length_le hpath'
  rw [List.length_map] at hlen
  omega

/-- Every place of a region that a chain of calls ends in is reached with that chain on the
stack. -/
theorem exists_reachable (hreturns : m.SubroutinesReturn) (hslots : m.SlotsDistinct)
    (hpath : m.CallChain path) (hh : h ∈ m.extent (.ofChain path)) :
    ∃ stack, m.Reachable ⟨h, stack⟩ ∧ m.Spells stack path := by
  induction hpath generalizing h with
  | nil =>
    obtain ⟨e, he, hreaches⟩ := hh
    have hstart : m.Reachable ⟨e, []⟩ := by
      rcases he.2 with rfl | ⟨x, hx, rfl⟩
      · exact .first
      · exact .entry hx
    have hrun := CallChain.nil.run_of_reaches hreturns hslots (subset_reachSet _ he) hreaches []
    exact ⟨[], hstart.run hrun, .nil⟩
  | @cons l path hpath hl ih =>
    have hbody := hl.isLeader.body_eq
    obtain ⟨j, hj, hjsr, ht⟩ := hl
    obtain ⟨stack, hreach, hstack⟩ := ih hj
    have hchain : m.CallChain (l :: path) := hpath.cons ⟨j, hj, hjsr, ht⟩
    have hh' : h ∈ m.extent (.sub l.position) := hh
    rw [extent_sub hbody] at hh'
    obtain ⟨_, rfl, hreaches⟩ := hh'
    have hrun := hchain.run_of_reaches hreturns hslots (leader_mem_extent hbody) hreaches
      (j :: stack)
    exact ⟨j :: stack, (hreach.step (.move (.call hjsr ht))).run hrun, hstack.cons hj hjsr ht⟩

theorem CallChain.exists_mem_extent (hpath : m.CallChain path) :
    ∃ h, h ∈ m.extent (.ofChain path) := by
  cases hpath with
  | nil => exact ⟨m.first, m.first_mem_extent⟩
  | @cons l _ _ hl => exact ⟨l, leader_mem_extent hl.isLeader.body_eq⟩

end Method

/-! ### What a table says about runs -/

namespace Table

/-- The subroutine that a call enters. -/
def Enters (t : Table) (j : Handle) (r : RegionRef) : Prop :=
  ∃ l, j.target? = some l ∧ t.getSubroutine l = .ok r

/-- The region that a stack selects: the top level if it is empty, else the subroutine that the last
call enters. -/
def Selects (t : Table) : List Handle → RegionRef → Prop
  | [], r => r = .top
  | j :: _, r => t.Enters j r

/-- What a table says about where a run is. -/
structure Follows (t : Table) (c : Config) : Prop where
  /-- The place is owned by the region that the stack selects. -/
  place : ∃ r, t.Selects c.stack r ∧ t.ownerOf c.place = some r
  /-- Each call on the stack is owned by the region that the stack below it selects. -/
  stacked : ∀ above j below, c.stack = above ++ j :: below →
    ∃ r, t.Selects below r ∧ t.ownerOf j = some r
  /-- The subroutines on the stack have slots of their own. -/
  slots : ∃ rs, List.Forall₂ t.Enters c.stack rs ∧ (rs.map fun r => (t.region r).slot).Nodup
  /-- Inside a call, a `ret` is the one that leaves the current subroutine. -/
  leaving : c.stack ≠ [] → c.place.instruction.isRet = true →
    ∃ r, t.Selects c.stack r ∧ (t.region r).leavingRet = .ok c.place
  /-- Inside a call, no exception is caught. -/
  raising : ∀ x ∈ t.method.handlers, c.place ∈ x.covered → c.stack = []

variable {t : Table} {m : Method} {settings : Settings} {c : Config} {stack path : List Handle}

section Finished

variable (ht : t.forget = finished m settings)

include ht

theorem selects_of_spells (hentries : m.EntriesValid) (hstack : m.Spells stack path) :
    t.Selects stack (.ofChain path) := by
  cases hstack with
  | nil => rfl
  | @cons j l _ _ hstack hj hjsr hl =>
    have hleader : m.IsLeader l := ⟨j, Method.body_eq_of_mem_extent hj, hjsr, hl⟩
    exact ⟨l, hl, getSubroutine_of_forget ht hleader (hentries l hleader)⟩

theorem enters_of_spells (hentries : m.EntriesValid) (hstack : m.Spells stack path) :
    List.Forall₂ t.Enters stack (path.map fun l => .sub l.position) := by
  induction hstack with
  | nil => exact .nil
  | cons hstack hj hjsr hl ih =>
    exact .cons (selects_of_spells ht hentries (hstack.cons hj hjsr hl)) ih

/-- The subroutines on a chain of calls have slots of their own in the table. -/
theorem nodup_slots_of_callChain (hslots : m.SlotsDistinct) (hpath : m.CallChain path) :
    ((path.map fun l => RegionRef.sub l.position).map fun r => (t.region r).slot).Nodup := by
  have hslot (l : Handle) (hl : l ∈ path) :
      (t.region (.sub l.position)).slot = l.instruction.slot.map Int.ofNat :=
    congrArg Region.slot (region_sub_of_forget ht (hpath.isLeader l hl))
  have hmap : (path.map fun l => RegionRef.sub l.position).map (fun r => (t.region r).slot) =
      (path.map fun l => l.instruction.slot).map (Option.map Int.ofNat) := by
    rw [List.map_map, List.map_map]
    exact List.map_congr_left hslot
  rw [hmap]
  exact (hslots path hpath).map (Option.map_injective fun _ _ => Int.ofNat.inj)

/-- Where a run is in the region that its stack spells, the table follows it. -/
theorem follows_of_spells (hm : m.Orderly) (hstack : m.Spells c.stack path)
    (hplace : c.place ∈ m.extent (.ofChain path)) : t.Follows c := by
  have hpath := hstack.callChain
  have hselects := selects_of_spells ht hm.entries hstack
  constructor
  case place =>
    exact ⟨_, hselects, (ownerOf_of_forget ht hm.regions).2 ⟨hpath.isRegion, hplace⟩⟩
  case stacked =>
    intro above j below heq
    rw [heq] at hstack
    obtain ⟨path', hbelow, hj⟩ := hstack.of_append
    refine ⟨_, selects_of_spells ht hm.entries hbelow, ?_⟩
    exact (ownerOf_of_forget ht hm.regions).2 ⟨hbelow.callChain.isRegion, hj⟩
  case slots =>
    exact ⟨_, enters_of_spells ht hm.entries hstack,
      nodup_slots_of_callChain ht hm.slots hpath⟩
  case leaving =>
    intro hne hret
    refine ⟨_, hselects, ?_⟩
    cases hpath with
    | nil => exact absurd (List.length_eq_zero_iff.1 hstack.length_eq) hne
    | @cons l _ _ hl =>
      have hleader := hl.isLeader
      obtain ⟨ret, s, hleaving, -, -, -, honly⟩ :=
        (representsSub_of_forget ht hleader (hm.entries l hleader) (hm.returns l hleader)).slot
      rw [(honly c.place).1 ⟨(members_of_forget ht hleader.isRegion).2 hplace, hret⟩]
      exact hleaving
  case raising =>
    intro x hx hcovered
    rw [method_of_forget ht] at hx
    obtain rfl := hm.handlers.eq_nil hpath hx hcovered hplace
    exact List.length_eq_zero_iff.1 hstack.length_eq

/-- The nesting depth of a table is the length of the longest chain of calls. -/
theorem depth_of_forget (hcoherent : t.Coherent) (hm : m.Orderly) :
    ∃ d, (Query.depth .top t).1 = .ok d ∧ (∃ path, m.CallChain path ∧ path.length = d) ∧
      ∀ path, m.CallChain path → path.length ≤ d := by
  obtain ⟨d, hd, hlongest⟩ := depthOf_settledStage hm.entries hm.slots settings
  obtain ⟨t', hq, -⟩ := Query.yields_depth hcoherent .top
  refine ⟨d, ?_, hlongest⟩
  rw [hq, ← forget_depthOf, ht]
  exact hd

end Finished

/-- The table of an accepted method describes its runs: it follows each of them, its nesting depth
is the greatest height of the stack, and a run gets to a place inside a chain of calls exactly when
the table gives the place to the region that the chain ends in. -/
theorem describes_runs (hm : m.OwnEntries) (ht : build m settings = .ok t) :
    (∀ c, m.Reachable c → t.Follows c) ∧
    (∃ d, (Query.depth .top t).1 = .ok d ∧ (∀ c, m.Reachable c → c.stack.length ≤ d) ∧
      ∃ c, m.Reachable c ∧ c.stack.length = d) ∧
    ∀ path h, (∃ stack, m.Reachable ⟨h, stack⟩ ∧ stack.map Handle.target? = path.map some) ↔
      m.CallChain path ∧ t.ownerOf h = some (.ofChain path) := by
  obtain ⟨horderly, hcoherent, hforget⟩ := finished_of_build_eq_ok ht
  have hreaches {path h} (hpath : m.CallChain path) (hh : h ∈ m.extent (.ofChain path)) :=
    Method.exists_reachable horderly.returns horderly.slots hpath hh
  refine ⟨fun c hc => ?_, ?_, fun path h => ⟨?_, ?_⟩⟩
  · obtain ⟨path, hstack, hplace⟩ := hc.located hm horderly.handlers
    exact follows_of_spells hforget horderly hstack hplace
  · obtain ⟨d, hd, ⟨path, hpath, hlen⟩, hle⟩ := depth_of_forget hforget hcoherent horderly
    refine ⟨d, hd, fun c hc => ?_, ?_⟩
    · obtain ⟨path, hstack, -⟩ := hc.located hm horderly.handlers
      exact hstack.length_eq ▸ hle path hstack.callChain
    · obtain ⟨h, hh⟩ := hpath.exists_mem_extent
      obtain ⟨stack, hreach, hstack⟩ := hreaches hpath hh
      exact ⟨⟨h, stack⟩, hreach, hstack.length_eq.trans hlen⟩
  · rintro ⟨stack, hreach, htargets⟩
    obtain ⟨path', hstack, hplace⟩ := hreach.located hm horderly.handlers
    obtain rfl : path' = path := by
      rw [hstack.map_target?] at htargets
      exact List.map_injective_iff.2 (Option.some_injective _) htargets
    have hpath := hstack.callChain
    exact ⟨hpath, (ownerOf_of_forget hforget horderly.regions).2 ⟨hpath.isRegion, hplace⟩⟩
  · rintro ⟨hpath, howner⟩
    obtain ⟨-, hh⟩ := (ownerOf_of_forget hforget horderly.regions).1 howner
    obtain ⟨stack, hreach, hstack⟩ := hreaches hpath hh
    exact ⟨stack, hreach, hstack.map_target?⟩

/-- Runs of two nested subroutines are described, and they get two calls deep. -/
theorem nested_runs_described : (Method.nested 2).OwnEntries ∧ ∃ t, build (.nested 2) {} = .ok t ∧
    (∀ c, (Method.nested 2).Reachable c → t.Follows c ∧ c.stack.length ≤ 2) ∧
    ∃ c, (Method.nested 2).Reachable c ∧ c.stack.length = 2 := by
  obtain ⟨t, ht, -, -, hdepth⟩ := build_nested_two
  have hentries := (Method.constructed_nested 2).ownEntries
  obtain ⟨hfollows, ⟨d, hd, hle, hmax⟩, -⟩ := describes_runs hentries ht
  rw [hd] at hdepth
  obtain rfl : d = 2 := Option.some.inj hdepth
  exact ⟨hentries, t, ht, fun c hc => ⟨hfollows c hc, hle c hc⟩, hmax⟩

end Table

end BytecodeRegions
