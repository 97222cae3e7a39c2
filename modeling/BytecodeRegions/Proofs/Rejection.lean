import BytecodeRegions.Proofs.Acceptance

/-!
# Why methods are rejected

Whatever stops a method from getting a table is a violation of the first rule that the method
breaks, in the order of the steps, and the violation names the first evidence for it.

## Main results

* `Method.Refuted.firstBroken`: the rule that a violation is about is the first one that is broken.
* `Table.violation_of_build_error`: rejection comes with the first evidence for the first broken
  rule.
-/

namespace BytecodeRegions

/-- Whether a rule is about how a subroutine returns. -/
def Violation.Rule.IsReturn (rule : Violation.Rule) : Prop :=
  rule = .missingRet ∨ rule = .multipleRet ∨ rule = .retSlotMismatch

/-- The rule of a violation is the first one that a method breaks, in the order in which the rules
are checked. -/
structure Method.FirstBroken (m : Method) (rule : Violation.Rule) : Prop where
  entry : rule = .invalidEntry ↔ ¬m.EntriesValid
  sharing : rule = .sharedInstruction ↔ m.EntriesValid ∧ ¬m.RegionsDisjoint
  returning : rule.IsReturn ↔ m.EntriesValid ∧ m.RegionsDisjoint ∧ ¬m.SubroutinesReturn
  protection : rule = .protectedSubroutine ↔
    m.EntriesValid ∧ m.RegionsDisjoint ∧ m.SubroutinesReturn ∧ ¬m.HandlersClear
  clash : rule = .recursiveCall ↔
    m.EntriesValid ∧ m.RegionsDisjoint ∧ m.SubroutinesReturn ∧ m.HandlersClear ∧ ¬m.SlotsDistinct

/-- The evidence that refutes a method is about the first rule that it breaks. -/
theorem Method.Refuted.firstBroken {m : Method} {v : Violation} (hv : m.Refuted v) :
    m.FirstBroken v.rule := by
  cases hv with
  | entry he =>
    have hbroken := he.not_entriesValid
    constructor <;> simp [Violation.Rule.IsReturn, he.rule, hbroken]
  | sharing hentries he =>
    have hbroken := he.not_regionsDisjoint
    constructor <;> simp [Violation.Rule.IsReturn, he.rule, hentries, hbroken]
  | returning hentries hregions he =>
    have hbroken := he.not_subroutinesReturn
    rcases he.fault.rets with ⟨hrule, -⟩ | ⟨hrule, -⟩ | ⟨hrule, -⟩ <;> constructor <;>
      simp [Violation.Rule.IsReturn, hrule, hentries, hregions, hbroken]
  | protection hentries hregions hreturns he =>
    have hbroken := he.not_handlersClear
    constructor <;>
      simp [Violation.Rule.IsReturn, he.rule, hentries, hregions, hreturns, hbroken]
  | clash hentries hregions hreturns hhandlers he =>
    have hbroken := he.not_slotsDistinct
    constructor <;>
      simp [Violation.Rule.IsReturn, he.rule, hentries, hregions, hreturns, hhandlers, hbroken]

/-- A method that gets no table is rejected for the first rule that it breaks, with the first
evidence for it. -/
theorem Table.violation_of_build_error {m : Method} {settings : Settings} {f : Fault}
    (hf : Table.build m settings = .error f) :
    ∃ v, f = .violation v ∧ v.method = m.name ∧ m.FirstBroken v.rule ∧ m.Refuted v := by
  rcases Table.build_cases m settings with ⟨-, t, ht, -⟩ | ⟨v, hv, hname, hrefuted⟩
  · cases ht.symm.trans hf
  · exact ⟨v, Except.error.inj (hf.symm.trans hv), hname, hrefuted.firstBroken, hrefuted⟩

/-- Nesting two subroutines with one slot is rejected as a recursive call, with evidence. -/
theorem Table.nested_rejected_as_recursive : ∃ v,
    Table.build (.nested 1) {} = .error (.violation v) ∧ v.rule = .recursiveCall ∧
      v.method = "nested" ∧ (Method.nested 1).FirstBroken v.rule ∧ (Method.nested 1).Refuted v := by
  obtain ⟨f, hf, hrule⟩ := Table.build_nested_one
  obtain ⟨v, rfl, hname, hfirst, hrefuted⟩ := Table.violation_of_build_error hf
  exact ⟨v, hf, Option.some.inj hrule, hname, hfirst, hrefuted⟩

end BytecodeRegions
