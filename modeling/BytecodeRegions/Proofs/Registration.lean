import BytecodeRegions.Proofs.Acceptance
import BytecodeRegions.Proofs.Outcomes
import BytecodeRegions.Workspace
import Mathlib.Data.List.Sort

/-!
# Registering handlers

Handlers are registered one call after another, by numbers that may count from the end and by places
that may be of other code. A call is accepted exactly when each of its three arguments stands for a
place of the method and the range is not reversed; then it appends one handler, and otherwise it
changes nothing. Walking from the start of a range to its end meets the end by identity, while a
place is looked up in a range by its position: since the ends of a registered range are places of
one body in order, the two agree.

## Main definitions

* `Method.StandsFor`: the place that an argument stands for.
* `Registration`, `Registration.Yields`: a call, and the handler that it asks for.
* `Method.register`, `Method.registerAll`: the method after a call, and after a history of calls.
* `Handler.WalksRange`: a handler whose walk is its range.
* `Registration.Decided`: what comes of a call, to a method and to a workspace that keeps it.

## Main results

* `Handle.map_position_walkTo`: the positions of a walk.
* `Registration.apply_eq_ok_iff`: which calls are accepted.
* `Method.RegisteredFrom.registerAll`: what a history of calls keeps.
* `Method.registration_history`: the handlers after any history, and the next call.
-/

namespace BytecodeRegions

/-- A walk to a later place of the same body passes all positions in between, one by one. -/
theorem Handle.map_position_walkTo {h last : Handle} (hb : last.body = h.body)
    (hle : h.position ≤ last.position) : (h.walkTo last).map Handle.position =
      List.range' h.position (last.position + 1 - h.position) := by
  have hwalk : ((h.walkTo last).map Handle.position).Pairwise (· < ·) :=
    List.pairwise_map.2 (h.pairwise_walkTo last)
  refine hwalk.eq_of_mem_iff List.pairwise_lt_range' fun p => ?_
  simp only [List.mem_map, mem_walkTo_iff hb hle, List.mem_range'_1]
  constructor
  · rintro ⟨k, ⟨-, hhk, hkl⟩, rfl⟩
    omega
  · intro hp
    have hsize : p < h.body.size := Nat.lt_of_le_of_lt (by omega) (position_lt hb)
    exact ⟨⟨h.body, p, hsize⟩, ⟨rfl, hp.1, by dsimp only; omega⟩, rfl⟩

/-! ### Arguments -/

namespace Method

variable {m : Method} {h : Handle}

/-- The place of a method that an argument stands for: a number before its size, counted from the
end if it is negative, or a place of its own. -/
def StandsFor (m : Method) : Target → Handle → Prop
  | .position p, h => h.body = m.body ∧ -(m.body.size : Int) ≤ p ∧ p < m.body.size ∧
      (h.position : Int) = if p < 0 then p + m.body.size else p
  | .handle k, h => h = k ∧ k.body = m.body
  | .absent, _ => False

theorem StandsFor.body_eq {t : Target} (ht : m.StandsFor t h) : h.body = m.body := by
  cases t with
  | position p => exact ht.1
  | handle k => exact ht.1 ▸ ht.2
  | absent => exact ht.elim

theorem resolve_eq_ok_iff {t : Target} : m.resolve t = .ok h ↔ m.StandsFor t h := by
  cases t with
  | absent => exact iff_of_false (by rintro ⟨⟩) id
  | handle k =>
    simp only [resolve, StandsFor]
    split
    · next hk => exact ⟨fun heq => ⟨(Except.ok.inj heq).symm, Body.owns_iff.1 hk⟩,
        fun hh => congrArg _ hh.1.symm⟩
    · next hk => exact iff_of_false (by rintro ⟨⟩) fun hh => hk (Body.owns_iff.2 hh.2)
  | position p =>
    simp only [resolve, StandsFor]
    -- `q` is the position that is looked up, after a negative number has been counted from the end
    generalize hq : (if p < 0 then p + (m.body.size : Int) else p) = q
    constructor
    · intro hh
      split at hh
      case isFalse => cases hh
      next hpos =>
      cases hk : m.body.handle? q.toNat with
      | none => rw [hk] at hh; cases hh
      | some k =>
        rw [hk] at hh
        obtain rfl : k = h := Except.ok.inj hh
        obtain ⟨hbody, hposition⟩ := Body.handle?_eq_some_iff.1 hk
        have hlt := Handle.position_lt hbody
        refine ⟨hbody, ?_⟩
        split at hq <;> omega
    · rintro ⟨hbody, -, -, hposition⟩
      rw [if_pos (by omega), Body.handle?_eq_some_iff.2 ⟨hbody, by omega⟩]
      rfl

end Method

/-! ### Calls -/

/-- A call that registers a handler. -/
structure Registration where
  /-- The first protected place. -/
  start : Target
  /-- The last protected place. -/
  stop : Target
  /-- The place that exceptions go to. -/
  entry : Target
  /-- The type of exception that is caught; without one, all are. -/
  catchType : Option String := none

namespace Registration

variable {r : Registration} {m m' : Method} {x : Handler}

/-- The handler that a call asks for. -/
structure Yields (r : Registration) (m : Method) (x : Handler) : Prop where
  start : m.StandsFor r.start x.start
  stop : m.StandsFor r.stop x.stop
  entry : m.StandsFor r.entry x.entry
  catchType : x.catchType = r.catchType

/-- Each argument of a call stands for a place, and the range does not end before it starts. -/
def Admissible (r : Registration) (m : Method) : Prop :=
  ∃ start stop entry, m.StandsFor r.start start ∧ m.StandsFor r.stop stop ∧
    m.StandsFor r.entry entry ∧ start.position ≤ stop.position

/-- What comes of a call. -/
def apply (r : Registration) (m : Method) : Except Handler.Refusal Method :=
  m.addHandler r.start r.stop r.entry r.catchType

theorem exists_yields_iff : (∃ x, r.Yields m x) ↔ r.Admissible m := by
  constructor
  · rintro ⟨x, hx⟩
    exact ⟨x.start, x.stop, x.entry, hx.start, hx.stop, hx.entry, x.ordered⟩
  · rintro ⟨start, stop, entry, hstart, hstop, hentry, hle⟩
    exact ⟨⟨start, stop, entry, r.catchType, hle⟩, hstart, hstop, hentry, rfl⟩

theorem make_eq_ok_iff {start stop entry : Handle} {catchType : Option String} :
    Handler.make start stop entry catchType = .ok x ↔
      x.start = start ∧ x.stop = stop ∧ x.entry = entry ∧ x.catchType = catchType := by
  rw [Handler.make]
  constructor
  · intro hx
    split at hx
    · cases hx
      exact ⟨rfl, rfl, rfl, rfl⟩
    · cases hx
  · rintro ⟨rfl, rfl, rfl, rfl⟩
    rw [dif_pos x.ordered]

theorem handlerFor_eq_ok_iff :
    m.handlerFor r.start r.stop r.entry r.catchType = .ok x ↔ r.Yields m x := by
  simp only [Method.handlerFor, bind_eq_ok_iff, Method.resolve_eq_ok_iff, make_eq_ok_iff]
  constructor
  · rintro ⟨_, hstart, _, hstop, _, hentry, rfl, rfl, rfl, htype⟩
    exact ⟨hstart, hstop, hentry, htype⟩
  · intro hx
    exact ⟨_, hx.start, _, hx.stop, _, hx.entry, rfl, rfl, rfl, hx.catchType⟩

/-- A call is accepted exactly when there is a handler that it asks for, which is appended. -/
theorem apply_eq_ok_iff : r.apply m = .ok m' ↔ ∃ x, r.Yields m x ∧ m' = m.withHandler x := by
  simp only [← handlerFor_eq_ok_iff, apply, Method.addHandler]
  cases m.handlerFor r.start r.stop r.entry r.catchType with
  | error e => exact iff_of_false (by rintro ⟨⟩) (by rintro ⟨x, ⟨⟩, -⟩)
  | ok x =>
    constructor
    · intro h
      exact ⟨x, rfl, (Except.ok.inj h).symm⟩
    · rintro ⟨y, hy, rfl⟩
      cases hy
      rfl

theorem exists_apply_eq_ok_iff : (∃ m', r.apply m = .ok m') ↔ r.Admissible m := by
  simp only [apply_eq_ok_iff, ← exists_yields_iff]
  constructor
  · rintro ⟨-, x, hx, -⟩
    exact ⟨x, hx⟩
  · rintro ⟨x, hx⟩
    exact ⟨_, x, hx, rfl⟩

end Registration

/-! ### Ranges -/

/-- A handler whose ends are places of a body, and which covers the positions between them. -/
structure Handler.WalksRange (x : Handler) (b : Body) : Prop where
  /-- All three places are the body's own. -/
  own : x.start.body = b ∧ x.stop.body = b ∧ x.entry.body = b
  /-- The walk stays in the body. -/
  covered_own : ∀ h ∈ x.covered, h.body = b
  /-- The walk passes each position from the start through the end, in this order. -/
  positions : x.covered.map Handle.position =
    List.range' x.start.position (x.stop.position + 1 - x.start.position)
  /-- A place of the body is passed when its position is in the range. -/
  mem_covered_iff : ∀ h : Handle, h.body = b → (h ∈ x.covered ↔ x.contains h = true)

theorem Handler.walksRange {x : Handler} {b : Body} (hstart : x.start.body = b)
    (hstop : x.stop.body = b) (hentry : x.entry.body = b) : x.WalksRange b where
  own := ⟨hstart, hstop, hentry⟩
  covered_own := fun _ hh => (Handle.le_of_mem_walkTo hh).1.trans hstart
  positions := Handle.map_position_walkTo (hstop.trans hstart.symm) x.ordered
  mem_covered_iff := fun h hh => by
    rw [covered, Handle.mem_walkTo_iff (hstop.trans hstart.symm) x.ordered, contains,
      and_iff_right (hh.trans hstart.symm), Bool.and_eq_true, decide_eq_true_iff,
      decide_eq_true_iff]

theorem Registration.Yields.walksRange {r : Registration} {m : Method} {x : Handler}
    (hx : r.Yields m x) : x.WalksRange m.body :=
  Handler.walksRange hx.start.body_eq hx.stop.body_eq hx.entry.body_eq

/-! ### Histories -/

namespace Method

variable {m m' : Method} {r : Registration}

/-- The method after a call; one that is refused leaves it as it was. -/
def register (m : Method) (r : Registration) : Method :=
  (r.apply m).toOption.getD m

/-- The method after a history of calls. -/
def registerAll (m : Method) (rs : List Registration) : Method :=
  rs.foldl register m

/-- What a history of calls makes of a method: it has the same code, and further handlers whose
walks are their ranges. -/
structure RegisteredFrom (m m' : Method) (added : List Handler) : Prop where
  name : m'.name = m.name
  body : m'.body = m.body
  handlers : m'.handlers = m.handlers ++ added
  walksRange : ∀ x ∈ added, x.WalksRange m.body

theorem RegisteredFrom.refl (m : Method) : m.RegisteredFrom m [] :=
  ⟨rfl, rfl, (List.append_nil _).symm, List.forall_mem_nil _⟩

/-- A call appends one handler or none. -/
theorem RegisteredFrom.register {added : List Handler} (hm' : m.RegisteredFrom m' added)
    (r : Registration) : ∃ added', m.RegisteredFrom (m'.register r) added' := by
  cases happly : r.apply m' with
  | error e =>
    refine ⟨added, ?_⟩
    rw [Method.register, happly]
    exact hm'
  | ok m'' =>
    obtain ⟨x, hx, rfl⟩ := Registration.apply_eq_ok_iff.1 happly
    refine ⟨added ++ [x], ?_⟩
    rw [Method.register, happly]
    refine ⟨hm'.name, hm'.body, ?_, ?_⟩
    · exact (congrArg (· ++ [x]) hm'.handlers).trans (List.append_assoc ..)
    · rw [List.forall_mem_append, List.forall_mem_singleton]
      exact ⟨hm'.walksRange, hm'.body ▸ hx.walksRange⟩

theorem RegisteredFrom.registerAll {added : List Handler} (hm' : m.RegisteredFrom m' added)
    (rs : List Registration) : ∃ added', m.RegisteredFrom (m'.registerAll rs) added' := by
  induction rs generalizing m' added with
  | nil => exact ⟨added, hm'⟩
  | cons r rs ih =>
    obtain ⟨added', hstep⟩ := hm'.register r
    exact ih hstep

end Method

/-! ### Workspaces -/

namespace Workspace

variable {α β : Type} {w w' : Workspace} {name : String} {m m' : Method} {d : HandlerDraft}
  {r : Registration}

theorem run_bind_of_ok {x : Action α} {f : α → Action β} {a : α} (hx : x.run w = (.ok a, w')) :
    (x >>= f).run w = (f a).run w' := by
  simp only [ExceptT.run] at hx
  simp only [bind, ExceptT.run, ExceptT.bind, ExceptT.mk, StateT.bind, hx, ExceptT.bindCont]

theorem run_bind_of_error {x : Action α} {f : α → Action β} {e : Trouble}
    (hx : x.run w = (.error e, w')) : (x >>= f).run w = (.error e, w') := by
  simp only [ExceptT.run] at hx
  simp only [bind, ExceptT.run, ExceptT.bind, ExceptT.mk, StateT.bind, hx, ExceptT.bindCont]
  rfl

theorem run_get_bind (f : Workspace → Action β) :
    ((get : Action Workspace) >>= f).run w = (f w).run w :=
  rfl

theorem run_method (hm : w.methods.lookup name = some m) : (method name).run w = (.ok m, w) := by
  refine (run_get_bind _).trans ?_
  rw [hm]
  rfl

/-- A handler that is asked for in a workspace is asked for by the arguments of a call. -/
structure Asks (w : Workspace) (d : HandlerDraft) (r : Registration) : Prop where
  start : (target d.start).run w = (.ok r.start, w)
  stop : (target d.stop).run w = (.ok r.stop, w)
  entry : (target d.entry).run w = (.ok r.entry, w)
  catchType : d.catchType = r.catchType

theorem run_handlerOf (hd : w.Asks d r) : (handlerOf m d).run w =
    ((m.handlerFor r.start r.stop r.entry r.catchType).mapError .refusal, w) := by
  rw [handlerOf, run_bind_of_ok hd.start, run_bind_of_ok hd.stop, run_bind_of_ok hd.entry,
    hd.catchType]
  cases m.handlerFor r.start r.stop r.entry r.catchType <;> rfl

/-- Registering a handler keeps the method with one more handler under its name, or changes
nothing at all. -/
theorem run_addHandler (hm : w.methods.lookup name = some m) (hd : w.Asks d r) :
    (addHandler name d).run w =
      match m.handlerFor r.start r.stop r.entry r.catchType with
      | .ok x => (.ok x, { w with methods := (name, m.withHandler x) :: w.methods })
      | .error e => (.error (.refusal e), w) := by
  have hhandler := run_handlerOf (m := m) hd
  rw [addHandler, run_bind_of_ok (run_method hm)]
  cases hx : m.handlerFor r.start r.stop r.entry r.catchType with
  | ok x =>
    rw [hx] at hhandler
    exact run_bind_of_ok hhandler
  | error e =>
    rw [hx] at hhandler
    exact run_bind_of_error hhandler

theorem run_target_ofMethod (w : Workspace) (n : String) (p : Int) :
    (target (.ofMethod n p)).run w = (((w.methods.lookup n).elim (.error (.unknownName n))
      fun k => (k.resolve (.position p)).mapError .refusal).map .handle, w) := by
  cases hk : w.methods.lookup n with
  | none =>
    have hnone : (method n).run w = (.error (.unknownName n), w) := by
      refine (run_get_bind _).trans ?_
      rw [hk]
      rfl
    exact run_bind_of_error (run_bind_of_error hnone)
  | some k =>
    have hplace : (handle n p).run w = ((k.resolve (.position p)).mapError .refusal, w) := by
      rw [handle, run_bind_of_ok (run_method hk), placeOf]
      cases k.resolve (.position p) <;> rfl
    rw [Option.elim_some]
    cases hh : k.resolve (.position p) with
    | ok h =>
      rw [hh] at hplace
      exact run_bind_of_ok hplace
    | error e =>
      rw [hh] at hplace
      exact run_bind_of_error hplace

/-- Two workspaces have methods with the same code under the same names. -/
def SameCode (w w' : Workspace) : Prop :=
  ∀ n, (w'.methods.lookup n).map Method.body = (w.methods.lookup n).map Method.body

/-- What a place stands for depends only on the code that is kept under names. -/
theorem SameCode.run_target (hw : w.SameCode w') {place : Place} {t : Target}
    (ht : (target place).run w = (.ok t, w)) : (target place).run w' = (.ok t, w') := by
  cases place with
  | position p => cases ht; rfl
  | absent => cases ht; rfl
  | ofMethod n p =>
    have hn := hw n
    rw [run_target_ofMethod] at ht ⊢
    cases hk : w.methods.lookup n with
    | none => rw [hk] at ht; cases ht
    | some k =>
      rw [hk, Option.map_some, Option.map_eq_some_iff] at hn
      obtain ⟨k', hk', hbody⟩ := hn
      have hresolve : k'.resolve (.position p) = k.resolve (.position p) := by
        simp only [Method.resolve, hbody]
      rw [hk] at ht
      rw [hk', Option.elim_some, hresolve]
      exact Prod.ext (Prod.mk.inj ht).1 rfl

theorem SameCode.asks (hw : w.SameCode w') (hd : w.Asks d r) : w'.Asks d r :=
  ⟨hw.run_target hd.start, hw.run_target hd.stop, hw.run_target hd.entry, hd.catchType⟩

/-- The workspace after a history of calls for a method. -/
def addHandlers (name : String) (ds : List HandlerDraft) (w : Workspace) : Workspace :=
  ds.foldl (fun w d => ((addHandler name d).run w).2) w

/-- A call leaves the method after it under its name, and the code of all methods as it was. -/
theorem addHandler_keeps (hm : w.methods.lookup name = some m) (hd : w.Asks d r) :
    ((addHandler name d).run w).2.methods.lookup name = some (m.register r) ∧
      w.SameCode ((addHandler name d).run w).2 := by
  rw [run_addHandler hm hd, Method.register, Registration.apply, Method.addHandler]
  cases hx : m.handlerFor r.start r.stop r.entry r.catchType with
  | error e => exact ⟨hm, fun n => rfl⟩
  | ok x =>
    refine ⟨List.lookup_cons_self, fun n => ?_⟩
    by_cases hn : n = name
    · subst hn
      simp only [List.lookup_cons_self, hm, Option.map_some, Method.withHandler]
    · simp only [List.lookup_cons, beq_false_of_ne hn]

/-- So does a history of calls. -/
theorem lookup_addHandlers {ds : List HandlerDraft} {rs : List Registration}
    (hm : w.methods.lookup name = some m) (hds : List.Forall₂ w.Asks ds rs) :
    (w.addHandlers name ds).methods.lookup name = some (m.registerAll rs) := by
  induction ds generalizing w m rs with
  | nil =>
    cases hds
    exact hm
  | cons d ds ih =>
    cases hds with
    | cons hd hds =>
      obtain ⟨hm', hsame⟩ := addHandler_keeps hm hd
      have hrest := ih hm' (hds.imp fun _ _ hd' => hsame.asks hd')
      exact hrest

end Workspace

/-- What comes of a call, to a method and to a workspace that keeps it. -/
structure Registration.Decided (r : Registration) (m : Method) : Prop where
  /-- A call is accepted exactly when its arguments stand for places in order. -/
  accepted_iff : (∃ m', r.apply m = .ok m') ↔ r.Admissible m
  /-- A call that is accepted appends the handler that it asks for. -/
  appended : ∀ m', r.apply m = .ok m' → ∃ x, r.Yields m x ∧ m'.handlers = m.handlers ++ [x] ∧
    m'.name = m.name ∧ m'.body = m.body
  /-- A call that is accepted leaves what comes of it in a workspace. -/
  stored : ∀ m', r.apply m = .ok m' → ∀ (w : Workspace) (name : String) (d : HandlerDraft),
    w.methods.lookup name = some m → w.Asks d r →
      ((Workspace.addHandler name d).run w).1.isOk = true ∧
        ((Workspace.addHandler name d).run w).2.methods.lookup name = some m'
  /-- A call that is refused leaves a workspace as it was. -/
  refused : ∀ e, r.apply m = .error e → ∀ (w : Workspace) (name : String) (d : HandlerDraft),
    w.methods.lookup name = some m → w.Asks d r →
      (Workspace.addHandler name d).run w = (.error (.refusal e), w)

namespace Registration

variable {r : Registration} {m : Method}

theorem apply_eq_map : r.apply m =
    (m.handlerFor r.start r.stop r.entry r.catchType).map m.withHandler :=
  rfl

theorem decided (r : Registration) (m : Method) : r.Decided m where
  accepted_iff := exists_apply_eq_ok_iff
  appended := by
    intro m' hm'
    obtain ⟨x, hx, rfl⟩ := apply_eq_ok_iff.1 hm'
    exact ⟨x, hx, rfl, rfl, rfl⟩
  stored := by
    intro m' hm' w name d hw hd
    obtain ⟨x, hx, rfl⟩ := apply_eq_ok_iff.1 hm'
    rw [Workspace.run_addHandler hw hd, handlerFor_eq_ok_iff.2 hx]
    exact ⟨rfl, List.lookup_cons_self⟩
  refused := by
    intro e he w name d hw hd
    rw [apply_eq_map] at he
    rw [Workspace.run_addHandler hw hd]
    cases hx : m.handlerFor r.start r.stop r.entry r.catchType with
    | ok x => rw [hx] at he; cases he
    | error e' => rw [hx] at he; cases he; rfl

end Registration

namespace Method

/-- After any history of calls a method has its code, and its registered handlers walk their ranges.
The next call is accepted exactly when its arguments stand for places in order, and then it appends
one handler; a refused one changes nothing. A workspace that keeps the method goes through the same
history. -/
theorem registration_history (m : Method) (rs : List Registration) :
    (∃ added, m.RegisteredFrom (m.registerAll rs) added) ∧
      (∀ r : Registration, r.Decided (m.registerAll rs)) ∧
      ∀ (w : Workspace) (name : String) (ds : List HandlerDraft),
        w.methods.lookup name = some m → List.Forall₂ w.Asks ds rs →
          (w.addHandlers name ds).methods.lookup name = some (m.registerAll rs) :=
  ⟨(RegisteredFrom.refl m).registerAll rs, fun r => r.decided _,
    fun _ _ _ => Workspace.lookup_addHandlers⟩

/-- The method of two nested subroutines once more: the instructions are the same, but the body is
another one. -/
def nestedAgain : Method where
  name := "nested"
  body := { nestedCode 2 with stamp := 1 }
  handlers := []
  nonempty := (nested 2).nonempty

/-- A range from the ninth place before the end through a place of the method is registered. One
that is reversed is refused, and so is one that starts in another method of the workspace. -/
theorem registration_history_nested : ∃ (w : Workspace) (m : Method),
    w.methods.lookup "a" = some (nested 2) ∧
    (w.addHandlers "a" [⟨.position (-9), .ofMethod "a" 3, .position 0, none⟩,
      ⟨.position 3, .position 1, .position 0, none⟩,
      ⟨.ofMethod "b" 0, .position 1, .position 0, none⟩]).methods.lookup "a" = some m ∧
    m.handlers.map (fun x => x.covered.map Handle.position) = [[0, 1], [1, 2, 3]] := by
  let w : Workspace := { methods := [("a", nested 2), ("b", nestedAgain)] }
  let rs : List Registration := [⟨.position (-9), .handle (nestedAt 2 3), .position 0, none⟩,
    ⟨.position 3, .position 1, .position 0, none⟩,
    ⟨.handle nestedAgain.first, .position 1, .position 0, none⟩]
  have hm : w.methods.lookup "a" = some (nested 2) := rfl
  obtain ⟨-, -, hstored⟩ := registration_history (nested 2) rs
  refine ⟨w, (nested 2).registerAll rs, hm, hstored w "a" _ hm ?_, ?_⟩
  · exact .cons ⟨rfl, rfl, rfl, rfl⟩ (.cons ⟨rfl, rfl, rfl, rfl⟩ (.cons ⟨rfl, rfl, rfl, rfl⟩ .nil))
  · cbv

end Method

end BytecodeRegions
