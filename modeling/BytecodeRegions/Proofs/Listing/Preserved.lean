import BytecodeRegions.Proofs.Listing.RoundTrip
import BytecodeRegions.Proofs.SameOutcome

/-!
# What a listing keeps of a method

A listing says less than a method may hold. It gives no target to an instruction that does not jump,
it writes the keys of a switch that are left out, and it leaves out a slot where the mnemonic names
one. The first two are of no consequence: tables are built from the gist of instructions, and the
method that is read from the listing mirrors the one that was written. The third is, since a slot
may be given that is not the one in the mnemonic.

So the listing of any method without operands of its own is read, and where all slots are as the
mnemonics say, writing and reading a method keeps its regions, or the reason why it has none.

## Main definitions

* `Instruction.Numeric`: an instruction with no operands but numbers that can be written.
* `Instruction.SlotAsNamed`: the slot is the one in the mnemonic, if there is one.
* `Instruction.listed`, `Method.listed`: what the listing of a method stands for.

## Main results

* `Listing.format_listed`: a method and what its listing stands for have one listing.
* `Listing.exists_parse_format_mirrors`: reading a listing gives back a method that mirrors it.
* `Listing.comesToSame_parse_format`: writing and reading a method keeps its regions.
* `Listing.parse_format_loses_slot`: a slot that differs from the mnemonic is lost.
-/

namespace BytecodeRegions

namespace Instruction

variable {i : Instruction Link}

/-- An increment has one number for an operand and no other instruction has any, and all numbers
have few enough digits to be written. -/
structure Numeric (i : Instruction Link) : Prop where
  increment : i.kind = .iinc → ∃ n, i.operands = [.number n] ∧ Text.isWritable n.natAbs = true
  bare : i.kind ≠ .iinc → i.operands = []
  slot : ∀ s ∈ i.slot, Text.isWritable s = true
  key : ∀ k ∈ i.caseKeys, Text.isWritable k.natAbs = true

/-- The slot is the one in the mnemonic, where the mnemonic has one. -/
def SlotAsNamed (i : Instruction Link) : Prop :=
  ∀ s ∈ i.opcode.implicitSlot, i.slot = some s

instance (i : Instruction Link) : Decidable i.SlotAsNamed :=
  inferInstanceAs (Decidable (∀ s ∈ i.opcode.implicitSlot, i.slot = some s))

theorem length_caseKeys (i : Instruction Link) : i.caseKeys.length = i.caseTargets.length := by
  rw [caseKeys]
  split
  · rw [List.length_map, List.length_range]
  · next hkeys =>
    refine i.keys_fit.resolve_left fun hnil => hkeys ?_
    rw [hnil, List.isEmpty_nil]

end Instruction

/-- A slot in the mnemonic is that of a local variable. -/
theorem Opcode.accessesLocal_of_implicitSlot {op : Opcode} {s : Nat}
    (h : op.implicitSlot = some s) : op.accessesLocal = true := by
  by_contra hlocal
  have hnone : op.implicitSlot = none := by
    refine implicitSlot_eq_none (fun hkind => hlocal ?_) fun hkind => hlocal ?_
    · rw [accessesLocal, hkind]
      rfl
    · rw [accessesLocal, hkind]
      rfl
  cases hnone.symm.trans h

namespace Instruction

variable {i : Instruction Link}

/-- What the line of an instruction in a listing stands for: targets only of jumps, keys for all
cases, and the slot of the mnemonic if it has one. -/
def listed (i : Instruction Link) : Instruction Link where
  opcode := i.opcode
  slot := i.opcode.implicitSlot.or i.slot
  target := if i.opcode.hasTarget then i.target else none
  caseTargets := i.caseTargets
  keys := i.caseKeys
  operands := i.operands
  slot_isSome := by
    cases hs : i.opcode.implicitSlot with
    | none => exact i.slot_isSome
    | some s => exact (Opcode.accessesLocal_of_implicitSlot hs).symm
  switch_of_cases := i.switch_of_cases
  keys_fit := .inr i.length_caseKeys

theorem opcode_listed (i : Instruction Link) : i.listed.opcode = i.opcode :=
  rfl

theorem slot_listed (i : Instruction Link) :
    i.listed.slot = i.opcode.implicitSlot.or i.slot :=
  rfl

theorem caseKeys_listed (i : Instruction Link) : i.listed.caseKeys = i.caseKeys := by
  have hlength := i.length_caseKeys
  rw [caseKeys]
  split
  · next hnil =>
    have hnil : i.caseKeys = [] := List.isEmpty_iff.1 hnil
    rw [hnil] at hlength ⊢
    change (List.range i.caseTargets.length).map Int.ofNat = []
    rw [← hlength]
    rfl
  · rfl

theorem operandTexts_listed (i : Instruction Link) : i.listed.operandTexts = i.operandTexts := by
  rw [operandTexts, operandTexts]
  change (if i.opcode.implicitSlot.isNone then _ else _) ++ _ = _
  cases hs : i.opcode.implicitSlot with
  | none => simp only [listed, hs, Option.none_or]
  | some s => rfl

theorem target_listed (h : i.opcode.hasTarget = true) : i.listed.target = i.target :=
  if_pos h

theorem hasTarget_of_isSwitch (h : i.isSwitch = true) : i.opcode.hasTarget = true := by
  have hkind : i.opcode.kind = .switch := eq_of_beq h
  rw [Opcode.hasTarget, hkind]
  rfl

/-- What the line of an instruction stands for is described in the same words. -/
theorem line_listed (i : Instruction Link) : i.listed.line = i.line := by
  have hkeys := i.caseKeys_listed
  rw [line, line, text, text]
  change (if i.isSwitch = true then _ else if i.opcode.hasTarget = true then _ else _) = _
  split
  · next hswitch =>
    rw [hkeys, target_listed (hasTarget_of_isSwitch hswitch)]
    rfl
  · split
    · next hjump =>
      rw [target_listed hjump]
      rfl
    · rw [operandTexts_listed]
      rfl

/-- The gist is kept if the slot is as named: the listing loses nothing else of it. -/
theorem gist_listed (h : i.SlotAsNamed) : i.listed.gist = i.gist := by
  have hslot : i.listed.slot = i.slot := by
    change i.opcode.implicitSlot.or i.slot = i.slot
    cases hs : i.opcode.implicitSlot with
    | none => rfl
    | some s => exact (h s hs).symm
  have htarget : (if i.opcode.hasTarget then i.listed.target? else none) =
      if i.opcode.hasTarget then i.target? else none := by
    split
    · next hjump => rw [target?, target_listed hjump, target?]
    · rfl
  rw [gist, gist, hslot, line_listed]
  exact congrArg (fun t => (⟨_, _, t, _, _⟩ : Gist)) htarget

/-- Without increments, it can be decided whether instructions are numeric. -/
theorem numeric_of_bare {code : Array (Instruction Link)} (h : ∀ i ∈ code, i.kind ≠ .iinc ∧
    i.operands = [] ∧ (∀ s ∈ i.slot, Text.isWritable s = true) ∧
      ∀ k ∈ i.caseKeys, Text.isWritable k.natAbs = true) : ∀ i ∈ code, i.Numeric := by
  intro i hi
  obtain ⟨hkind, hoperands, hslot, hkey⟩ := h i hi
  exact ⟨fun hincrement => absurd hincrement hkind, fun _ => hoperands, hslot, hkey⟩

theorem Numeric.exists_number (h : i.Numeric) {a : Operand} (ha : a ∈ i.operands) :
    ∃ n, a = .number n ∧ Text.isWritable n.natAbs = true := by
  by_cases hkind : i.kind = .iinc
  · obtain ⟨n, hn, hwritable⟩ := h.increment hkind
    rw [hn, List.mem_singleton] at ha
    exact ⟨n, ha, hwritable⟩
  · rw [h.bare hkind] at ha
    cases ha

/-- What the line of an instruction stands for can be said in a listing. -/
theorem Numeric.listable_listed (h : i.Numeric) : i.listed.Listable where
  target hjump := by
    rw [opcode_listed] at hjump
    rw [listed, hjump]
    rfl
  keys := i.length_caseKeys
  key := h.key
  implicit s hs := by
    rw [opcode_listed] at hs
    rw [slot_listed, hs, Option.some_or]
  slot hnone s hs := by
    rw [opcode_listed] at hnone
    rw [slot_listed, hnone, Option.none_or] at hs
    exact h.slot s hs
  increment hkind := by
    obtain ⟨n, hn, -⟩ := h.increment hkind
    exact ⟨n, hn⟩
  bare hkind _ := h.bare hkind
  operand a ha := by
    obtain ⟨n, rfl, hwritable⟩ := h.exists_number ha
    exact hwritable

theorem Numeric.endsPlainly_listed (h : i.Numeric) : i.listed.EndsPlainly := by
  intro a ha
  obtain ⟨n, rfl, -⟩ := h.exists_number (List.mem_of_getLast? ha)
  exact trivial

end Instruction

/-- What the listing of a body stands for. -/
def Body.listed (b : Body) : Body where
  stamp := b.stamp
  code := b.code.map Instruction.listed
  jumps := by
    intro i hi
    obtain ⟨j, hj, rfl⟩ := Array.mem_map.1 hi
    rw [Array.size_map]
    intro hjump
    rw [Instruction.opcode_listed] at hjump
    rw [Instruction.target_listed hjump]
    exact b.jumps j hj hjump

/-- What the listing of a method stands for. Of the handlers only their positions are written. -/
def Method.listed (m : Method) : Method where
  name := m.name
  body := m.body.listed
  handlers := m.handlers
  nonempty := by
    rw [Body.size, Body.listed, Array.size_map]
    exact m.nonempty

theorem Method.code_listed (m : Method) :
    m.listed.body.code.toList = m.body.code.toList.map Instruction.listed :=
  Array.toList_map

namespace Listing

variable {m m' : Method}

/-! ### Writing -/

theorem instructionText_listed (i : Instruction Link) :
    instructionText i.listed = instructionText i := by
  rw [instructionText, instructionText, instructionWords, instructionWords]
  change " ".intercalate (i.name :: if i.isSwitch = true then _ else
    if i.opcode.hasTarget = true then _ else _) = _
  split
  · next hswitch =>
    rw [i.caseKeys_listed, Instruction.target_listed (Instruction.hasTarget_of_isSwitch hswitch)]
    rfl
  · split
    · next hjump => rw [Instruction.target_listed hjump]
    · rw [Instruction.operandTexts_listed]

theorem targeted_listed (m : Method) : targeted m.listed = targeted m := by
  have htargets : ∀ i ∈ m.body.code.toList.filter (·.opcode.hasTarget),
      i.listed.target?.toList ++ i.listed.casePositions = i.target?.toList ++ i.casePositions := by
    intro i hi
    have hjump : i.opcode.hasTarget = true := (List.mem_filter.1 hi).2
    rw [Instruction.target?, Instruction.target_listed hjump, Instruction.target?]
    rfl
  rw [targeted, targeted, Method.code_listed, List.filter_map, List.flatMap_map]
  exact congrArg (· ++ _) (List.flatMap_congr htargets)

/-- A method and what its listing stands for have one listing. -/
theorem format_listed (m : Method) : format m.listed = format m := by
  have hline (labelled : Bool) (p : Nat) (i : Instruction Link) :
      instructionLine labelled p i.listed = instructionLine labelled p i := by
    rw [instructionLine, instructionLine, instructionText_listed]
  have hlines : formatLines m.listed = formatLines m := by
    rw [formatLines, formatLines, targeted_listed, Method.code_listed, List.zipIdx_map,
      List.map_map]
    refine congrArg (· ++ _) (List.map_congr_left fun x _ => ?_)
    exact hline _ x.2 x.1
  rw [format, format, hlines]

/-! ### Reading -/

theorem exists_addHandler_of_addClause {ls : Labels} {c : Clause}
    (h : addClause ls m c = .ok m') :
    ∃ start stop entry type, m.addHandler start stop entry type = .ok m' := by
  rw [addClause] at h
  split at h
  case h_2 => cases h
  obtain ⟨p, -, h⟩ := bind_eq_ok_iff.1 h
  obtain ⟨q, -, h⟩ := bind_eq_ok_iff.1 h
  obtain ⟨r, -, h⟩ := bind_eq_ok_iff.1 h
  dsimp only at h
  split at h
  · cases h
  · exact ⟨_, _, _, _, mapError_eq_ok_iff.1 h⟩

/-- A method that was read was put together by registering its handlers. -/
theorem constructed_of_parse {stamp : Nat} {text name : String}
    (h : parse stamp text name = .ok m) : m.Constructed := by
  obtain ⟨is, -, h⟩ := bind_eq_ok_iff.1 h
  obtain ⟨ls, m₀, -, -, -, hnone, hfold⟩ := of_assemble h
  have hm₀ : m₀.Constructed := by
    refine @Method.Constructed.make m₀.name m₀.body m₀ ?_
    rw [Method.make?, dif_pos m₀.nonempty, ← hnone]
  refine foldlM_invariant (P := Method.Constructed) (fun c _ m m' hm hm' => ?_) hm₀ hfold
  obtain ⟨start, stop, entry, type, hadd⟩ := exists_addHandler_of_addClause hm'
  exact hm.addHandler hadd

/-- Handlers that are alike, each with places of its method, correspond. -/
theorem forall₂_twinHandler {xs xs' : List Handler} (hxs : List.Forall₂ Handler.Alike xs' xs)
    (hown : ∀ x ∈ xs, x.start.body = m.body ∧ x.stop.body = m.body ∧ x.entry.body = m.body)
    (hown' : ∀ x ∈ xs', x.start.body = m'.body ∧ x.stop.body = m'.body ∧ x.entry.body = m'.body) :
    List.Forall₂ (m.TwinHandler m') xs xs' := by
  induction hxs with
  | nil => exact .nil
  | cons hx _ ih =>
    obtain ⟨⟨hstart, hstop, hentry⟩, hown⟩ := List.forall_mem_cons.1 hown
    obtain ⟨⟨hstart', hstop', hentry'⟩, hown'⟩ := List.forall_mem_cons.1 hown'
    refine .cons ?_ (ih hown hown')
    exact ⟨⟨hstart, hstart', hx.start⟩, ⟨hstop, hstop', hx.stop⟩, ⟨hentry, hentry', hx.entry⟩,
      hx.catchType⟩

/-- What a listing stands for can be said in a listing. -/
theorem listable_listed (hm : m.Constructed) (hnumeric : ∀ i ∈ m.body.code, i.Numeric)
    (hcatch : ∀ x ∈ m.handlers, x.catchType = none) : m.listed.Listable where
  instructions i hi := by
    obtain ⟨j, hj, rfl⟩ := Array.mem_map.1 hi
    exact (hnumeric j hj).listable_listed
  handlers x hx := by
    obtain ⟨hstart, hstop, hentry⟩ := hm.handler_body x hx
    have hsize : m.listed.body.size = m.body.size := Array.size_map
    rw [hsize]
    refine ⟨Handle.position_lt hstart, Handle.position_lt hstop, Handle.position_lt hentry, ?_⟩
    rw [hcatch x hx]
    exact nofun

/-- The listing of a method is read, and where the slots are as the mnemonics say, what is read
mirrors the method. -/
theorem exists_parse_format_mirrors (hm : m.Constructed)
    (hnumeric : ∀ i ∈ m.body.code, i.Numeric) (hcatch : ∀ x ∈ m.handlers, x.catchType = none)
    (stamp : Nat) : ∃ m', parse stamp (format m) m.name = .ok m' ∧
      ((∀ i ∈ m.body.code, i.SlotAsNamed) → m.Mirrors m') := by
  have hend : ∀ i ∈ m.listed.body.code, i.EndsPlainly := by
    intro i hi
    obtain ⟨j, hj, rfl⟩ := Array.mem_map.1 hi
    exact (hnumeric j hj).endsPlainly_listed
  obtain ⟨m', hparse, hname, hcode, hhandlers⟩ :=
    exists_parse_format_code (listable_listed hm hnumeric hcatch) hend stamp
  -- the listing is that of `m.listed`, which can be read back instruction by instruction
  rw [format_listed] at hparse
  refine ⟨m', hparse, fun hslots => ⟨hname, ?_, ?_⟩⟩
  · rw [hcode, Method.code_listed, List.map_map]
    refine List.map_congr_left fun i hi => ?_
    exact Instruction.gist_listed (hslots i (Array.mem_toList_iff.1 hi))
  · exact forall₂_twinHandler hhandlers hm.handler_body (constructed_of_parse hparse).handler_body

/-- Writing and reading a method keeps its regions, or the reason why it has none, where all slots
are as the mnemonics say. -/
theorem comesToSame_parse_format (hm : m.Constructed) (hnumeric : ∀ i ∈ m.body.code, i.Numeric)
    (hcatch : ∀ x ∈ m.handlers, x.catchType = none) (stamp : Nat) (settings : Settings) :
    ∃ m', parse stamp (format m) m.name = .ok m' ∧ ((∀ i ∈ m.body.code, i.SlotAsNamed) →
      ComesToSame Table.Agrees (Table.build m settings) (Table.build m' settings)) := by
  obtain ⟨m', hparse, hmirrors⟩ := exists_parse_format_mirrors hm hnumeric hcatch stamp
  exact ⟨m', hparse, fun hslots => Table.comesToSame_of_mirrors (hmirrors hslots) settings⟩

/-! ### A switch without keys -/

/-- A switch with one case and no key. -/
def keylessSwitch : Instruction Link where
  opcode := ⟨170, by decide⟩
  slot := none
  target := some (.bound 2)
  caseTargets := [.bound 2]
  keys := []
  operands := []
  slot_isSome := rfl
  switch_of_cases _ := rfl
  keys_fit := .inl rfl

/-- A `return` with a target, which is not jumped to. -/
def aimedLeave : Instruction Link :=
  { Instruction.leave with target := some (.free 9) }

/-- The store `astore_1`, with a slot that need not be the one in its mnemonic. -/
def astoreOne (slot : Nat) : Instruction Link :=
  .simple ⟨76, by decide⟩ (some slot) none rfl

/-- Code with a switch without keys and a `return` with a target. -/
def keylessCode : Body where
  stamp := 0
  code := #[.jsr 3, keylessSwitch, aimedLeave, astoreOne 1, .ret 1]
  jumps := by decide

/-- The method of that code, with a handler for the first two instructions. -/
def keyless : Method where
  name := "keyless"
  body := keylessCode
  handlers := [.early keylessCode (by decide)]
  nonempty := by decide

theorem constructed_keyless : keyless.Constructed :=
  @Method.Constructed.addHandler _ _ (.position 0) (.position 1) (.position 2) none
    (@Method.Constructed.make "keyless" keylessCode _ rfl) rfl

theorem numeric_keyless : ∀ i ∈ keyless.body.code, i.Numeric :=
  Instruction.numeric_of_bare (by decide +kernel)

/-- A method with a switch without keys and a target that is not jumped to comes to the same. -/
theorem comesToSame_parse_format_keyless : keyless.Constructed ∧
    (∀ i ∈ keyless.body.code, i.Numeric) ∧ (∀ x ∈ keyless.handlers, x.catchType = none) ∧
    (∀ i ∈ keyless.body.code, i.SlotAsNamed) ∧
    ∃ m', parse 1 (format keyless) keyless.name = .ok m' ∧
      ComesToSame Table.Agrees (Table.build keyless {}) (Table.build m' {}) := by
  have hcatch : ∀ x ∈ keyless.handlers, x.catchType = none := by decide
  have hslots : ∀ i ∈ keyless.body.code, i.SlotAsNamed := by decide +kernel
  obtain ⟨m', hparse, hsame⟩ :=
    comesToSame_parse_format constructed_keyless numeric_keyless hcatch 1 {}
  exact ⟨constructed_keyless, numeric_keyless, hcatch, hslots, m', hparse, hsame hslots⟩

/-! ### A slot that the mnemonic does not say -/

/-- Code with a subroutine that stores its return address to a given slot, by `astore_1`, and
returns by slot 5. -/
def misnamedCode (stamp slot : Nat) : Body where
  stamp := stamp
  code := #[.jsr 2, .leave, astoreOne slot, .ret 5]
  jumps := of_decide_eq_true rfl

/-- The method of that code. -/
def misnamed (stamp slot : Nat) : Method where
  name := "misnamed"
  body := misnamedCode stamp slot
  handlers := []
  nonempty := Nat.zero_lt_succ 3

theorem numeric_misnamed : ∀ i ∈ (misnamed 0 5).body.code, i.Numeric :=
  Instruction.numeric_of_bare (by decide +kernel)

/-- The listing of the method does not say that `astore_1` stores to slot 5. -/
theorem parse_format_misnamed :
    parse 1 (format (misnamed 0 5)) (misnamed 0 5).name = .ok (misnamed 1 1) := by
  obtain ⟨m', hparse, hsame⟩ := exists_of_any
    (x := parse 1 (format (misnamed 0 5)) (misnamed 0 5).name)
    (p := fun m' => decide (m'.name = "misnamed" ∧ m'.body = misnamedCode 1 1 ∧
      m'.handlers.length = 0)) (by decide +kernel)
  obtain ⟨hname, hbody, hhandlers⟩ := of_decide_eq_true hsame
  obtain ⟨name, body, handlers, hnonempty⟩ := m'
  dsimp only at hname hbody hhandlers
  subst hname hbody
  obtain rfl := List.length_eq_zero_iff.1 hhandlers
  exact hparse

/-- A slot that is not the one in the mnemonic is lost, and with it the subroutine. -/
theorem parse_format_loses_slot :
    (misnamed 0 5).Constructed ∧ (∀ i ∈ (misnamed 0 5).body.code, i.Numeric) ∧
      (misnamed 0 5).handlers = [] ∧ (∃ t, Table.build (misnamed 0 5) {} = .ok t) ∧
      ∃ m' f, parse 1 (format (misnamed 0 5)) (misnamed 0 5).name = .ok m' ∧
        Table.build m' {} = .error f ∧ f.rule? = some .retSlotMismatch := by
  have hconstructed : (misnamed 0 5).Constructed :=
    @Method.Constructed.make "misnamed" (misnamedCode 0 5) _ rfl
  obtain ⟨t, ht, -⟩ := exists_of_any (x := Table.build (misnamed 0 5) {}) (p := fun _ => true)
    (by cbv)
  have hreread : (Table.build (misnamed 1 1) {}).mapError Fault.rule? =
    .error (some .retSlotMismatch) := by cbv
  obtain ⟨f, hf, hrule⟩ := mapError_eq_error_iff.1 hreread
  exact ⟨hconstructed, numeric_misnamed, rfl, ⟨t, ht⟩, _, f, parse_format_misnamed, hf, hrule⟩

end Listing

end BytecodeRegions
