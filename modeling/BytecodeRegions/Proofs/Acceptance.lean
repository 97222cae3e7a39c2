import BytecodeRegions.Proofs.Table.Outcome
import Mathlib

/-!
# Which methods are accepted

A table is built for exactly the methods that satisfy the structural constraint. The constraint
speaks of ranges of positions where the check walks through the places that a handler covers; for a
method that was put together by registering its handlers the two agree.

A method with nested subroutines serves as an example, here and in the modules that follow. What
comes of such a method is evaluated by `cbv`. The library is imported whole for this, so that `cbv`
has the equations of library functions from there and leaves none of its own behind.

## Main definitions

* `Instruction.jsr`, `Instruction.ret`, `Instruction.astore`, `Instruction.leave`,
  `Instruction.pop`: the instructions of small methods.
* `Method.nested`: a method with nested subroutines.

## Main results

* `Method.orderly_iff_wellStructured`: the rules as they are checked are the declared ones.
* `Method.build_ok_iff_wellStructured`: acceptance is the structural constraint.
-/

namespace BytecodeRegions

namespace Method

variable {m : Method} {v : Violation}

/-- A method that is refused breaks a rule. -/
theorem Refuted.not_orderly (hv : m.Refuted v) : ¬m.Orderly := by
  intro hm
  cases hv with
  | entry he => exact he.not_entriesValid hm.entries
  | sharing _ he => exact he.not_regionsDisjoint hm.regions
  | returning _ _ he => exact he.not_subroutinesReturn hm.returns
  | protection _ _ _ he => exact he.not_handlersClear hm.handlers
  | clash _ _ _ _ he => exact he.not_slotsDistinct hm.slots

/-- Tables are built for the methods that keep the rules as they are checked. -/
theorem exists_build_eq_ok_iff (m : Method) (settings : Settings) :
    (∃ t, Table.build m settings = .ok t) ↔ m.Orderly := by
  rcases Table.build_cases m settings with ⟨hm, t, ht, -⟩ | ⟨v, hv, -, hrefuted⟩
  · exact iff_of_true ⟨t, ht⟩ hm
  · refine iff_of_false ?_ hrefuted.not_orderly
    rintro ⟨t, ht⟩
    cases hv.symm.trans ht

/-- No handler covers a place of a subroutine when no place of one is in the range of a handler. -/
theorem Constructed.handlersClear_iff (hm : m.Constructed) : m.HandlersClear ↔ m.Unprotected := by
  constructor
  · intro hclear l hl h hh x hx hrange
    have hcovered := (hm.mem_covered_iff hx (body_eq_of_mem_extent hh)).2 hrange
    exact Set.notMem_empty h (hclear x hx ▸ ⟨hcovered, l, hl, hh⟩)
  · intro hunprotected x hx
    refine Set.eq_empty_iff_forall_notMem.2 ?_
    rintro h ⟨hcovered, l, hl, hh⟩
    refine hunprotected l hl h hh x hx ?_
    exact (hm.mem_covered_iff hx (body_eq_of_mem_extent hh)).1 hcovered

theorem orderly_iff_wellStructured (hm : m.Constructed) : m.Orderly ↔ m.WellStructured := by
  constructor
  · rintro ⟨hentries, hregions, hreturns, hhandlers, hslots⟩
    exact ⟨hentries, hregions, hreturns, hm.handlersClear_iff.1 hhandlers, hslots⟩
  · rintro ⟨hentries, hregions, hreturns, hhandlers, hslots⟩
    exact ⟨hentries, hregions, hreturns, hm.handlersClear_iff.2 hhandlers, hslots⟩

/-- Acceptance is exactly the structural constraint, whatever the settings are. -/
theorem build_ok_iff_wellStructured (hm : m.Constructed) (settings : Settings) :
    (∃ t, Table.build m settings = .ok t) ↔ m.WellStructured :=
  (exists_build_eq_ok_iff m settings).trans (orderly_iff_wellStructured hm)

end Method

/-! ### Nested subroutines -/

namespace Instruction

/-- An instruction without cases and further operands. -/
def simple (op : Fin 202) (slot : Option Nat) (target : Option Link)
    (hslot : Opcode.accessesLocal ⟨op⟩ = slot.isSome) : Instruction Link where
  opcode := ⟨op⟩
  slot := slot
  target := target
  caseTargets := []
  keys := []
  operands := []
  slot_isSome := hslot.symm
  switch_of_cases := nofun
  keys_fit := .inl rfl

/-- The call `jsr` of a subroutine. -/
def jsr (l : Nat) : Instruction Link :=
  simple ⟨168, by decide⟩ none (some (.bound l)) rfl

/-- The `ret` of a subroutine. -/
def ret (slot : Nat) : Instruction Link :=
  simple ⟨169, by decide⟩ (some slot) none rfl

/-- The store `astore`, by which a subroutine starts. -/
def astore (slot : Nat) : Instruction Link :=
  simple ⟨58, by decide⟩ (some slot) none rfl

/-- The `return` of a method. -/
def leave : Instruction Link :=
  simple ⟨177, by decide⟩ none none rfl

/-- The instruction `pop`, by which a handler may start. -/
def pop : Instruction Link :=
  simple ⟨87, by decide⟩ none none rfl

end Instruction

/-- The handler at 2 for the first two instructions of a body. -/
def Handler.early (b : Body) (hb : 2 < b.size) : Handler where
  start := ⟨b, 0, by omega⟩
  stop := ⟨b, 1, by omega⟩
  entry := ⟨b, 2, hb⟩
  catchType := none
  ordered := Nat.zero_le 1

namespace Method

/-- Code that calls the subroutine at 4, which keeps its return address in slot 1 and calls the
subroutine at 7, which keeps its own in a given slot. The code ends with an instruction that nothing
leads to. -/
def nestedCode (slot : Nat) : Body where
  stamp := 0
  code := #[.jsr 4, .leave, .pop, .leave, .astore 1, .jsr 7, .ret 1, .astore slot, .ret slot,
    .leave]
  -- no jump depends on the slot, so this evaluates although the slot is free
  jumps := of_decide_eq_true rfl

/-- A place of that code. -/
def nestedAt (slot : Nat) (p : Fin 10) : Handle where
  body := nestedCode slot
  position := p
  inside := p.isLt

/-- The method of that code, with a handler for the first two instructions. -/
def nested (slot : Nat) : Method where
  name := "nested"
  body := nestedCode slot
  handlers := [.early (nestedCode slot) (of_decide_eq_true rfl)]
  nonempty := Nat.zero_lt_succ 9

theorem constructed_nested (slot : Nat) : (nested slot).Constructed :=
  @Constructed.addHandler _ _ (.position 0) (.position 1) (.position 2) none
    (@Constructed.make "nested" (nestedCode slot) _ rfl) rfl

end Method

/-- The rule that a fault is about, if it is a violation. -/
def Fault.rule? : Fault → Option Violation.Rule
  | violation v => some v.rule
  | _ => none

namespace Table

/-- Two nested subroutines with slots of their own are accepted. -/
theorem build_nested_two : ∃ t, build (.nested 2) {} = .ok t ∧ t.leaders = [4, 7] ∧ t.dead = [9] ∧
    (Query.depth .top t).1.toOption = some 2 := by
  have heval : (build (.nested 2) {}).toOption.map
      (fun t => (t.leaders, t.dead, (Query.depth .top t).1.toOption)) =
    some ([4, 7], [9], some 2) := by cbv
  cases ht : build (.nested 2) {} with
  | error f => rw [ht] at heval; cases heval
  | ok t =>
    rw [ht] at heval
    obtain ⟨hleaders, hrest⟩ := Prod.mk.inj (Option.some.inj heval)
    exact ⟨t, rfl, hleaders, Prod.mk.inj hrest⟩

/-- Two nested subroutines with one slot are rejected. -/
theorem build_nested_one :
    ∃ f, build (.nested 1) {} = .error f ∧ f.rule? = some .recursiveCall := by
  have heval : (build (.nested 1) {}).mapError Fault.rule? = .error (some .recursiveCall) := by cbv
  exact mapError_eq_error_iff.1 heval

end Table

namespace Method

/-- Two subroutines with slots of their own may be nested, and two with one slot may not. -/
theorem nested_wellStructured_iff_slots_differ :
    (nested 2).Constructed ∧ (nested 2).WellStructured ∧
      (nested 1).Constructed ∧ ¬(nested 1).WellStructured := by
  obtain ⟨t, ht, -⟩ := Table.build_nested_two
  obtain ⟨f, hf, -⟩ := Table.build_nested_one
  refine ⟨constructed_nested 2, ?_, constructed_nested 1, ?_⟩
  · exact (build_ok_iff_wellStructured (constructed_nested 2) {}).1 ⟨t, ht⟩
  · rw [← build_ok_iff_wellStructured (constructed_nested 1) {}]
    rintro ⟨t, ht⟩
    cases hf.symm.trans ht

end Method

end BytecodeRegions
