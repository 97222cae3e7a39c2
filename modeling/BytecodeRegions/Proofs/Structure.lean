import BytecodeRegions.Proofs.Places
import BytecodeRegions.Region
import Mathlib.Data.Set.Basic

/-!
# The structure of subroutines, declared

What a method has to look like so that it splits into regions, said without any search: regions are
closures of their entries under the steps inside a region, and chains of calls are built one call
at a time. Leaders, that is, targets of calls, count even if the call is in dead code.

## Main definitions

* `reachSet`: the places reached from a set of places.
* `Method.IsLeader`, `Method.IsRegion`, `Method.extent`: the regions of a method and their places.
* `Method.Calls`, `Method.CallChain`: calls between regions, and chains of calls from the top level.
* `Method.WellStructured`: the whole structural constraint.
* `Method.Constructed`, `Method.OwnEntries`: the methods that can be put together, handlers
  registered one by one, and what this makes sure of.
-/

namespace BytecodeRegions

/-- The places reached from a set of places by any number of steps inside a region. -/
def reachSet (S : Set Handle) : Set Handle :=
  {h | ∃ r ∈ S, Reaches Handle.successors r h}

theorem subset_reachSet (S : Set Handle) : S ⊆ reachSet S :=
  fun h hh => ⟨h, hh, .refl h⟩

theorem reachSet_closed {S : Set Handle} {h k : Handle} (hh : h ∈ reachSet S)
    (hk : k ∈ h.successors) : k ∈ reachSet S := by
  obtain ⟨r, hr, hrh⟩ := hh
  exact ⟨r, hr, .tail hrh hk⟩

/-- The region that a chain of calls ends in. The chain has the leaders of the called subroutines,
the last one first, and the empty chain stays in the top level. -/
def RegionRef.ofChain : List Handle → RegionRef
  | [] => .top
  | l :: _ => .sub l.position

namespace Method

variable {m : Method} {r : RegionRef} {h k l : Handle}

/-- A *leader* is the target of a call of the method. -/
def IsLeader (m : Method) (l : Handle) : Prop :=
  ∃ j : Handle, j.body = m.body ∧ j.instruction.isJsr = true ∧ j.target? = some l

/-- The regions are the top level and one subroutine for each leader. -/
def IsRegion (m : Method) : RegionRef → Prop
  | .top => True
  | .sub p => ∃ l, m.IsLeader l ∧ l.position = p
  | .loose _ => False

/-- Where a region is entered: the top level at the first instruction and at the entries of the
handlers, a subroutine at its leader. Only places of the method count. -/
def entries (m : Method) : RegionRef → Set Handle
  | .top => {h | h.body = m.body ∧ (h = m.first ∨ ∃ x ∈ m.handlers, x.entry = h)}
  | .sub p => {h | h.body = m.body ∧ h.position = p}
  | .loose _ => ∅

/-- The places reached from where a region is entered. -/
def extent (m : Method) (r : RegionRef) : Set Handle :=
  reachSet (m.entries r)

/-- A region calls the subroutine of a leader when it has a call of it. -/
def Calls (m : Method) (r : RegionRef) (l : Handle) : Prop :=
  ∃ j ∈ m.extent r, j.instruction.isJsr = true ∧ j.target? = some l

/-- The chains of calls that start at the top level, the last call first. -/
inductive CallChain (m : Method) : List Handle → Prop
  | nil : CallChain m []
  | cons {l : Handle} {path : List Handle} (hpath : CallChain m path)
      (hl : m.Calls (.ofChain path) l) : CallChain m (l :: path)

/-- A subroutine may start at a place that stores a return address and is not the first one. -/
def ValidEntry (m : Method) (l : Handle) : Prop :=
  l ≠ m.first ∧ l.instruction.storesAddress = true

/-- The `ret` instructions of the subroutine of a leader. -/
def retsOf (m : Method) (l : Handle) : Set Handle :=
  {h | h ∈ m.extent (.sub l.position) ∧ h.instruction.isRet = true}

/-- The subroutine of a leader has exactly one `ret`, and it reads the slot that the leader stores
to. -/
def ReturnsOnce (m : Method) (l : Handle) : Prop :=
  ∃ ret : Handle, m.retsOf l = {ret} ∧ ret.instruction.slot = l.instruction.slot

/-- Subroutines start by storing their return address, and not at the first instruction. -/
def EntriesValid (m : Method) : Prop :=
  ∀ l, m.IsLeader l → m.ValidEntry l

/-- No place is reached from two regions. -/
def RegionsDisjoint (m : Method) : Prop :=
  ∀ r s, m.IsRegion r → m.IsRegion s → r ≠ s → m.extent r ∩ m.extent s = ∅

/-- Subroutines return at one place, by the slot they were entered with. -/
def SubroutinesReturn (m : Method) : Prop :=
  ∀ l, m.IsLeader l → m.ReturnsOnce l

/-- No place of a subroutine has a position in the range of a handler. -/
def Unprotected (m : Method) : Prop :=
  ∀ l, m.IsLeader l → ∀ h ∈ m.extent (.sub l.position), ∀ x ∈ m.handlers,
    ¬(x.start.position ≤ h.position ∧ h.position ≤ x.stop.position)

/-- Subroutines on a chain of calls have slots of their own. -/
def SlotsDistinct (m : Method) : Prop :=
  ∀ path, m.CallChain path → (path.map fun l => l.instruction.slot).Nodup

/-- The structural constraint on a method. -/
structure WellStructured (m : Method) : Prop where
  entries : m.EntriesValid
  regions : m.RegionsDisjoint
  returns : m.SubroutinesReturn
  handlers : m.Unprotected
  slots : m.SlotsDistinct

/-- The methods that can be put together: a named body that is not empty, then handlers one after
another. -/
inductive Constructed : Method → Prop
  | make {name : String} {b : Body} {m : Method} (hm : make? name b = some m) : Constructed m
  | addHandler {m m' : Method} {start stop entry : Target} {catchType : Option String}
      (hm : Constructed m) (hm' : m.addHandler start stop entry catchType = .ok m') :
      Constructed m'

/-- Exceptions stay in the method: the entry of every handler is a place of it. -/
def OwnEntries (m : Method) : Prop :=
  ∀ x ∈ m.handlers, x.entry.body = m.body

/-! ### Leaders and extents -/

theorem IsLeader.body_eq (hl : m.IsLeader l) : l.body = m.body := by
  obtain ⟨j, hj, -, ht⟩ := hl
  exact (Handle.target?_eq_some_iff.1 ht).1.trans hj

theorem isRegion_top (m : Method) : m.IsRegion .top :=
  trivial

theorem IsLeader.isRegion (hl : m.IsLeader l) : m.IsRegion (.sub l.position) :=
  ⟨l, hl, rfl⟩

theorem entries_sub (hl : l.body = m.body) : m.entries (.sub l.position) = {l} := by
  ext h
  refine ⟨fun hh => Handle.eq_of_position (hh.1.trans hl.symm) hh.2, ?_⟩
  rintro rfl
  exact ⟨hl, rfl⟩

/-- The extent of a subroutine is what is reached from its leader. -/
theorem extent_sub (hl : l.body = m.body) : m.extent (.sub l.position) = reachSet {l} := by
  rw [extent, entries_sub hl]

theorem extent_closed (hh : h ∈ m.extent r) (hk : k ∈ h.successors) : k ∈ m.extent r :=
  reachSet_closed hh hk

theorem first_mem_extent (m : Method) : m.first ∈ m.extent .top :=
  subset_reachSet _ ⟨rfl, .inl rfl⟩

theorem entry_mem_extent {x : Handler} (hx : x ∈ m.handlers) (hbody : x.entry.body = m.body) :
    x.entry ∈ m.extent .top :=
  subset_reachSet _ ⟨hbody, .inr ⟨x, hx, rfl⟩⟩

theorem leader_mem_extent (hl : l.body = m.body) : l ∈ m.extent (.sub l.position) :=
  subset_reachSet _ ⟨hl, rfl⟩

/-- Regions have places of the method only. -/
theorem body_eq_of_mem_extent (hh : h ∈ m.extent r) : h.body = m.body := by
  obtain ⟨e, he, heh⟩ := hh
  refine (Handle.reaches_iff.1 heh).1.trans ?_
  cases r with
  | top => exact he.1
  | sub p => exact he.1
  | loose i => cases he

theorem Calls.isLeader (hl : m.Calls r l) : m.IsLeader l := by
  obtain ⟨j, hj, hjsr, ht⟩ := hl
  exact ⟨j, body_eq_of_mem_extent hj, hjsr, ht⟩

theorem CallChain.isLeader {path : List Handle} (hpath : m.CallChain path) :
    ∀ l ∈ path, m.IsLeader l := by
  induction hpath with
  | nil => simp
  | cons _ hl ih => exact List.forall_mem_cons.2 ⟨hl.isLeader, ih⟩

theorem CallChain.isRegion {path : List Handle} (hpath : m.CallChain path) :
    m.IsRegion (.ofChain path) := by
  cases hpath with
  | nil => exact m.isRegion_top
  | cons _ hl => exact hl.isLeader.isRegion

/-! ### Methods that were put together -/

theorem resolve_body {t : Target} (ht : m.resolve t = .ok h) : h.body = m.body := by
  cases t with
  | absent => cases ht
  | handle k =>
    simp only [resolve] at ht
    split at ht
    · next hk =>
      cases ht
      exact Body.owns_iff.1 hk
    · cases ht
  | position p =>
    simp only [resolve] at ht
    generalize (if p < 0 then p + (m.body.size : Int) else p) = q at ht
    split at ht
    · cases hk : m.body.handle? q.toNat with
      | none => rw [hk] at ht; cases ht
      | some k =>
        rw [hk] at ht
        cases ht
        exact (Body.handle?_eq_some_iff.1 hk).1
    · cases ht

/-- The three places of a handler that was registered are places of the method. -/
theorem handlerFor_body {start stop entry : Target} {catchType : Option String} {x : Handler}
    (hx : m.handlerFor start stop entry catchType = .ok x) :
    x.start.body = m.body ∧ x.stop.body = m.body ∧ x.entry.body = m.body := by
  simp only [handlerFor, bind, Except.bind] at hx
  cases hstart : m.resolve start with
  | error e => rw [hstart] at hx; cases hx
  | ok a =>
    cases hstop : m.resolve stop with
    | error e => rw [hstart, hstop] at hx; cases hx
    | ok b =>
      cases hentry : m.resolve entry with
      | error e => rw [hstart, hstop, hentry] at hx; cases hx
      | ok c =>
        simp only [hstart, hstop, hentry, Handler.make] at hx
        split at hx
        · cases hx
          exact ⟨resolve_body hstart, resolve_body hstop, resolve_body hentry⟩
        · cases hx

/-- Every handler of a method that was put together has its three places in the method. -/
theorem Constructed.handler_body (hm : m.Constructed) : ∀ x ∈ m.handlers,
    x.start.body = m.body ∧ x.stop.body = m.body ∧ x.entry.body = m.body := by
  induction hm with
  | make hm =>
    simp only [make?] at hm
    split at hm
    · cases hm
      intro x hx
      cases hx
    · cases hm
  | @addHandler m m' start stop entry catchType hm hm' ih =>
    rw [Method.addHandler] at hm'
    cases hx : m.handlerFor start stop entry catchType with
    | error e => rw [hx] at hm'; cases hm'
    | ok x =>
      rw [hx] at hm'
      cases hm'
      intro y hy
      rcases List.mem_append.1 hy with hy | hy
      · exact ih y hy
      · rw [List.mem_singleton.1 hy]
        exact handlerFor_body hx

theorem Constructed.ownEntries (hm : m.Constructed) : m.OwnEntries :=
  fun x hx => (hm.handler_body x hx).2.2

/-- A handler of a method that was put together covers the places of the method whose positions are
in its range. -/
theorem Constructed.mem_covered_iff (hm : m.Constructed) {x : Handler} (hx : x ∈ m.handlers)
    (hh : h.body = m.body) : h ∈ x.covered ↔
      x.start.position ≤ h.position ∧ h.position ≤ x.stop.position := by
  obtain ⟨hstart, hstop, -⟩ := hm.handler_body x hx
  rw [Handler.covered, Handle.mem_walkTo_iff (hstop.trans hstart.symm) x.ordered,
    and_iff_right (hh.trans hstart.symm)]

end Method

end BytecodeRegions
