import BytecodeRegions.Proofs.Listing.LineByLine
import BytecodeRegions.Proofs.Structure
import BytecodeRegions.Proofs.Text.Decimal

/-!
# What reading a listing yields

A method that was read from a listing has no more in it than a listing can say. Its jumps have
targets and nothing else does, keys are as many as cases, numbers have few enough digits to be
written, words are operands and no integers, and the type of a handler is a word other than `all`.
Methods of this kind are called *listable*: they are those that can be written down without loss, as
far as their words allow it.

## Main definitions

* `Instruction.Listable`, `Handler.Listable`, `Method.Listable`: what a listing can say.
* `Listing.Encodes`: the ways in which an instruction is read.

## Main results

* `Listing.listable_of_parse`: whatever is read is listable.
-/

namespace BytecodeRegions

/-- A number of few enough digits, or a word that is an operand and no integer. -/
def Operand.Listable : Operand → Prop
  | number n => Text.isWritable n.natAbs = true
  | word w => Listing.IsOperand w.toList ∧ Listing.integer? w = none

/-- What a listing can say about an instruction, its targets apart. -/
structure Instruction.Listable {τ : Type} (i : Instruction τ) : Prop where
  target : i.opcode.hasTarget = false → i.target = none
  keys : i.keys.length = i.caseTargets.length
  key : ∀ k ∈ i.keys, Text.isWritable k.natAbs = true
  implicit : ∀ s, i.opcode.implicitSlot = some s → i.slot = some s
  slot : i.opcode.implicitSlot = none → ∀ s ∈ i.slot, Text.isWritable s = true
  increment : i.kind = .iinc → ∃ n, i.operands = [.number n]
  bare : i.kind ≠ .iinc → i.opcode.hasTarget = true ∨ i.opcode.accessesLocal = true →
    i.operands = []
  operand : ∀ a ∈ i.operands, a.Listable

/-- What a listing can say about a handler of a body of `n` instructions. -/
structure Handler.Listable (n : Nat) (x : Handler) : Prop where
  start : x.start.position < n
  stop : x.stop.position < n
  entry : x.entry.position < n
  type : ∀ t ∈ x.catchType, t ≠ "all" ∧ Listing.IsOperand t.toList

/-- What a listing can say about a method. -/
structure Method.Listable (m : Method) : Prop where
  instructions : ∀ i ∈ m.body.code, i.Listable
  handlers : ∀ x ∈ m.handlers, x.Listable m.body.size

theorem Instruction.Listable.map {τ σ : Type} {i : Instruction τ} (hi : i.Listable) (f : τ → σ) :
    (i.map f).Listable where
  target h := by rw [Instruction.map, hi.target h, Option.map_none]
  keys := by simpa [Instruction.map] using hi.keys
  key := hi.key
  implicit := hi.implicit
  slot := hi.slot
  increment := hi.increment
  bare := hi.bare
  operand := hi.operand

theorem Instruction.Listable.linked {i : Instruction Target} (hi : i.Listable) :
    (Body.linked i).Listable := by
  rw [Body.linked]
  split
  · exact hi.map Target.link
  · exact hi.map Target.keep

/-! ### Opcodes and slots -/

/-- Only loads and stores have a slot in their mnemonic. -/
theorem Opcode.implicitSlot_eq_none {op : Opcode} (hload : op.kind ≠ .load)
    (hstore : op.kind ≠ .store) : op.implicitSlot = none := by
  have hnotLoad : ¬(26 ≤ op.code.val ∧ op.code.val ≤ 45) := by
    intro h
    apply hload
    simp only [kind]
    rw [if_pos (by omega)]
  have hnotStore : ¬(59 ≤ op.code.val ∧ op.code.val ≤ 78) := by
    intro h
    apply hstore
    simp only [kind]
    rw [if_neg (by omega), if_pos (by omega)]
  simp only [implicitSlot, if_neg hnotLoad, if_neg hnotStore]

namespace Instruction

variable {τ : Type} {op : Opcode}

/-- The slot of an instruction is the given one, or the one in the mnemonic. -/
theorem slotFor_eq_ok_iff {given : Option Int}
    {s : { s : Option Nat // s.isSome = op.accessesLocal }} : slotFor op given = .ok s ↔
      given = none ∧ s.1 = op.implicitSlot ∨ ∃ n : Nat, given = some (n : Int) ∧ s.1 = some n := by
  constructor
  · intro h
    rw [slotFor] at h
    split at h
    · split at h <;> cases h
      · exact .inr ⟨_, rfl, rfl⟩
      · next heq => exact .inl ⟨rfl, heq.symm⟩
    · split at h
      · cases h
      · next hunused =>
        cases h
        simp only [Bool.or_eq_true, not_or, Option.isSome_iff_ne_none, not_not] at hunused
        exact .inl ⟨hunused.1, hunused.2.symm⟩
  · obtain ⟨s, hs⟩ := s
    rintro (⟨rfl, rfl⟩ | ⟨n, rfl, rfl⟩)
    · by_cases hlocal : op.accessesLocal = true
      · obtain ⟨n, hn⟩ := Option.isSome_iff_exists.1 (hs.trans hlocal)
        rw [slotFor, dif_pos hlocal]
        split <;> simp_all
      · rw [Bool.not_eq_true] at hlocal
        have hnone : op.implicitSlot = none :=
          Option.isNone_iff_eq_none.1 (Option.isSome_eq_false_iff.1 (hs.trans hlocal))
        rw [slotFor, dif_neg (by simp [hlocal])]
        simp [hnone]
    · have hlocal : op.accessesLocal = true := hs.symm
      rw [slotFor, dif_pos hlocal]

/-- Parts that make an instruction are its parts. -/
theorem make_eq_ok_iff {slot : Option Int} {target : Option τ} {cases : List τ} {keys : List Int}
    {operands : List Operand} {i : Instruction τ} :
    make op slot target cases keys operands = .ok i ↔
      i.opcode = op ∧ i.target = target ∧ i.caseTargets = cases ∧ i.keys = keys ∧
        i.operands = operands ∧
        (slot = none ∧ i.slot = op.implicitSlot ∨
          ∃ n : Nat, slot = some (n : Int) ∧ i.slot = some n) := by
  constructor
  · intro h
    obtain ⟨⟨s, hs⟩, hslot, h⟩ := bind_eq_ok_iff.1 h
    dsimp only at h
    split at h
    · split at h
      · cases h
        exact ⟨rfl, rfl, rfl, rfl, rfl, slotFor_eq_ok_iff.1 hslot⟩
      · cases h
    · cases h
  · rintro ⟨rfl, rfl, rfl, rfl, rfl, hslot⟩
    have hfound : slotFor i.opcode slot = .ok ⟨i.slot, i.slot_isSome⟩ := slotFor_eq_ok_iff.2 hslot
    refine bind_eq_ok_iff.2 ⟨_, hfound, ?_⟩
    dsimp only
    rw [dif_pos i.switch_of_cases, dif_pos i.keys_fit]
    rfl

end Instruction

namespace Listing

/-! ### Operands -/

theorem isWritable_of_integer? {token : String} {z : Int} (h : integer? token = some (.ok z)) :
    Text.isWritable z.natAbs = true := by
  obtain ⟨n, hn, hz⟩ := Option.map_eq_some_iff.1 h
  split at hz
  · next hlength =>
    cases hz
    exact Text.Numeral.isWritable_natAbs_value hn hlength
  · cases hz

theorem integer?_of_integer {role : Role} {token : String} {z : Int}
    (h : integer role token = .ok z) : integer? token = some (.ok z) := by
  rw [integer] at h
  cases hint : integer? token with
  | none => rw [hint] at h; cases h
  | some r => rw [hint] at h; exact congrArg some h

theorem listable_of_operand {token : String} {a : Operand} (htoken : IsOperand token.toList)
    (h : operand token = .ok a) : a.Listable := by
  rw [operand] at h
  cases hint : integer? token with
  | none =>
    rw [hint] at h
    cases h
    exact ⟨htoken, hint⟩
  | some r =>
    rw [hint] at h
    cases r with
    | error e => cases h
    | ok z =>
      cases h
      exact isWritable_of_integer? hint

/-- Keys and targets are read in pairs. -/
theorem Cases.add_paired {ls : Labels} {cs cs' : Cases} {o : String}
    (hcs : cs.keys.length = cs.targets.length ∧ ∀ k ∈ cs.keys, Text.isWritable k.natAbs = true)
    (h : cs.add ls o = .ok cs') :
    cs'.keys.length = cs'.targets.length ∧ ∀ k ∈ cs'.keys, Text.isWritable k.natAbs = true := by
  rw [Cases.add] at h
  split at h
  · next key label _ =>
    split at h
    · split at h
      · cases h
      · obtain ⟨p, -, h⟩ := bind_eq_ok_iff.1 h
        cases h
        exact hcs
    · obtain ⟨k, hk, h⟩ := bind_eq_ok_iff.1 h
      obtain ⟨p, -, h⟩ := bind_eq_ok_iff.1 h
      cases h
      refine ⟨by simp [hcs.1], fun j hj => ?_⟩
      rcases List.mem_append.1 hj with hj | hj
      · exact hcs.2 j hj
      · rw [List.mem_singleton.1 hj]
        exact isWritable_of_integer? (integer?_of_integer hk)
  · cases h

/-! ### Instructions -/

variable {ls : Labels} {code : Opcode} {o : Op} {i : Instruction Target}

theorem make_eq_ok_iff {slot target : Option Int} {cases keys : List Int}
    {operands : List Operand} : make code slot target cases keys operands = .ok i ↔
      i.opcode = code ∧ i.target = target.map .position ∧ i.caseTargets = cases.map .position ∧
        i.keys = keys ∧ i.operands = operands ∧
        (slot = none ∧ i.slot = code.implicitSlot ∨
          ∃ n : Nat, slot = some (n : Int) ∧ i.slot = some n) :=
  mapError_eq_ok_iff.trans Instruction.make_eq_ok_iff

/-- The conditions under which parts make a listable instruction. -/
theorem listable_of_make {slot target : Option Int} {cases keys : List Int}
    {operands : List Operand} (h : make code slot target cases keys operands = .ok i)
    (htarget : code.hasTarget = false → target = none) (hkeys : keys.length = cases.length)
    (hkey : ∀ k ∈ keys, Text.isWritable k.natAbs = true)
    (himplicit : slot ≠ none → code.implicitSlot = none)
    (hslot : ∀ z ∈ slot, Text.isWritable z.natAbs = true)
    (hincrement : code.kind = .iinc → ∃ n, operands = [.number n])
    (hbare : code.kind ≠ .iinc → code.hasTarget = true ∨ code.accessesLocal = true → operands = [])
    (hoperand : ∀ a ∈ operands, a.Listable) : i.Listable := by
  obtain ⟨hcode, ht, hc, hk, ho, hs⟩ := make_eq_ok_iff.1 h
  constructor
  case target =>
    intro hnone
    rw [ht, htarget (hcode ▸ hnone), Option.map_none]
  case keys => rw [hk, hc, List.length_map, hkeys]
  case key => rwa [hk]
  case implicit =>
    intro s hs'
    rw [hcode] at hs'
    rcases hs with ⟨-, hs⟩ | ⟨n, rfl, hs⟩
    · rw [hs, hs']
    · cases (himplicit (Option.some_ne_none _)).symm.trans hs'
  case slot =>
    intro hnone s hs'
    rw [hcode] at hnone
    rcases hs with ⟨-, hs⟩ | ⟨n, rfl, hs⟩
    · rw [hs, hnone] at hs'
      cases hs'
    · rw [hs, Option.mem_some_iff] at hs'
      exact hs' ▸ hslot n rfl
  case increment => rwa [Instruction.kind, hcode, ho]
  case bare => rwa [Instruction.kind, hcode, ho]
  case operand => rwa [ho]

/-- The ways in which the words of an instruction are read, with what is known of the parts. -/
inductive Encodes (ls : Labels) (code : Opcode) (o : Op) (i : Instruction Target) : Prop
  | jump (p : Int) (hjump : code.hasTarget = true) (hkind : code.kind ≠ .iinc)
      (hmake : make code none (some p) [] [] [] = .ok i)
  | switch (cs : Cases) (d : Int) (hkind : code.kind = .switch)
      (hcs : o.operands.foldlM (Cases.add ls) {} = .ok cs)
      (hmake : make code none (some d) cs.targets cs.keys [] = .ok i)
  | increment (s n : Int) (hkind : code.kind = .iinc) (hs : Text.isWritable s.natAbs = true)
      (hn : Text.isWritable n.natAbs = true)
      (hmake : make code (some s) none [] [] [.number n] = .ok i)
  | implicit (hkind : code.kind ≠ .iinc) (hmake : make code none none [] [] [] = .ok i)
  | explicit (s : Int) (hnone : code.implicitSlot = none) (hkind : code.kind ≠ .iinc)
      (hs : Text.isWritable s.natAbs = true) (hmake : make code (some s) none [] [] [] = .ok i)
  | other (as : List Operand) (hjump : code.hasTarget = false) (hlocal : code.accessesLocal = false)
      (has : o.operands.mapM operand = .ok as) (hmake : make code none none [] [] as = .ok i)

theorem encodes_of_encode (h : encode ls code o = .ok i) : Encodes ls code o i := by
  have hwritable {role : Role} {token : String} {z : Int} (hz : integer role token = .ok z) :
      Text.isWritable z.natAbs = true :=
    isWritable_of_integer? (integer?_of_integer hz)
  rw [encode] at h
  split at h
  case h_1 hk | h_2 hk | h_3 hk =>
    split at h
    · obtain ⟨p, -, h⟩ := bind_eq_ok_iff.1 h
      exact .jump p (by simp [Opcode.hasTarget, hk, Kind.hasTarget]) (by simp [hk]) h
    · cases h
  case h_4 hk =>
    rw [switch] at h
    obtain ⟨cs, hcs, h⟩ := bind_eq_ok_iff.1 h
    split at h
    · exact .switch cs _ hk hcs h
    · cases h
  case h_5 hk =>
    split at h
    · obtain ⟨s, hs, h⟩ := bind_eq_ok_iff.1 h
      obtain ⟨n, hn, h⟩ := bind_eq_ok_iff.1 h
      exact .increment s n hk (hwritable hs) (hwritable hn) h
    · cases h
  case h_6 hk | h_7 hk | h_8 hk =>
    split at h
    · exact .implicit (by simp [hk]) h
    · cases h
    · next hnone _ =>
      obtain ⟨s, hs, h⟩ := bind_eq_ok_iff.1 h
      exact .explicit s hnone (by simp [hk]) (hwritable hs) h
    · cases h
  case h_9 hk | h_10 hk | h_11 hk =>
    obtain ⟨as, has, h⟩ := bind_eq_ok_iff.1 h
    exact .other as (by simp [Opcode.hasTarget, hk, Kind.hasTarget])
      (by simp [Opcode.accessesLocal, hk, Kind.accessesLocal]) has h

/-- An instruction that was read is listable. -/
theorem listable_of_encode (hargs : ∀ a ∈ o.operands, IsOperand a.toList)
    (h : encode ls code o = .ok i) : i.Listable := by
  cases encodes_of_encode h with
  | jump p hjump hkind hmake =>
    exact listable_of_make hmake (by simp [hjump]) rfl nofun (absurd rfl) nofun (absurd · hkind)
      (fun _ _ => rfl) nofun
  | switch cs d hkind hcs hmake =>
    have hpaired : cs.keys.length = cs.targets.length ∧
        ∀ k ∈ cs.keys, Text.isWritable k.natAbs = true :=
      foldlM_invariant (fun a _ s s' hs hs' => Cases.add_paired hs hs') (by simp) hcs
    exact listable_of_make hmake (by simp [Opcode.hasTarget, hkind, Kind.hasTarget]) hpaired.1
      hpaired.2 (absurd rfl) nofun (by simp [hkind]) (fun _ _ => rfl) nofun
  | increment s n hkind hs hn hmake =>
    have hnone : code.implicitSlot = none :=
      Opcode.implicitSlot_eq_none (by simp [hkind]) (by simp [hkind])
    exact listable_of_make hmake (fun _ => rfl) rfl nofun (fun _ => hnone) (by simpa using hs)
      (fun _ => ⟨n, rfl⟩) (absurd hkind) (by simpa [Operand.Listable] using hn)
  | implicit hkind hmake =>
    exact listable_of_make hmake (fun _ => rfl) rfl nofun (absurd rfl) nofun (absurd · hkind)
      (fun _ _ => rfl) nofun
  | explicit s hnone hkind hs hmake =>
    exact listable_of_make hmake (fun _ => rfl) rfl nofun (fun _ => hnone) (by simpa using hs)
      (absurd · hkind) (fun _ _ => rfl) nofun
  | other as hjump hlocal has hmake =>
    have hkind : code.kind ≠ .iinc := by
      intro hkind
      simp [Opcode.accessesLocal, hkind, Kind.accessesLocal] at hlocal
    refine listable_of_make hmake (fun _ => rfl) rfl nofun (absurd rfl) nofun (absurd · hkind)
      (by simp [hjump, hlocal]) fun a ha => ?_
    obtain ⟨token, htoken, hoperand⟩ := exists_of_forall₂ (forall₂_of_mapM has) ha
    exact listable_of_operand (hargs token htoken) hoperand

/-! ### Items -/

/-- The operands of a statement. -/
def Statement.operands : Statement → List String
  | handler as | instruction _ as | labelled _ _ as => as
  | label _ => []

/-- The operands of an item. -/
def Item.operands : Item → List String
  | label _ _ => []
  | op o => o.operands
  | clause c => c.operands

theorem Arguments.isOperand {as : List String} {s : List Char} (h : Arguments as s) :
    ∀ a ∈ as, IsOperand a.toList := by
  induction h with
  | nil => exact nofun
  | cons _ _ hword _ ih =>
    refine List.forall_mem_cons.2 ⟨?_, ih⟩
    rwa [String.toList_ofList]

theorem InstructionForm.isOperand {n : String} {as : List String} {s : List Char}
    (h : InstructionForm n as s) : ∀ a ∈ as, IsOperand a.toList := by
  obtain ⟨-, hs⟩ := h
  exact hs.isOperand

theorem Statement.Form.isOperand {st : Statement} {s : List Char} (h : st.Form s) :
    ∀ a ∈ st.operands, IsOperand a.toList := by
  cases h with
  | handler hs => exact hs.isOperand
  | label _ => exact nofun
  | labelled _ _ hs => exact hs.isOperand
  | instruction hs => exact hs.isOperand

/-- An item that is read is one of a statement that stands in a line. -/
theorem exists_statement_of_mem_read {text : String} {is : List Item} {x : Item}
    (h : read text = .ok is) (hx : x ∈ is) : ∃ l ∈ linesOf (normalised text), ∃ st line,
      LineForm (some st) l ∧ x ∈ Statement.items line st := by
  obtain ⟨sts, hsts, rfl⟩ := exists_forms_of_read h
  obtain ⟨⟨st, line⟩, hst, hx⟩ := List.mem_flatMap.1 hx
  have hmem : st ∈ sts := List.fst_mem_of_mem_zipIdx hst
  obtain ⟨l, hl, hform⟩ := exists_of_forall₂ hsts.flip hmem
  cases st with
  | none => cases hx
  | some st => exact ⟨l, hl, st, line, hform, hx⟩

/-- An item that is read stands in a line, and its operands are those of the line. -/
theorem exists_form_of_mem_read {text : String} {is : List Item} {x : Item}
    (h : read text = .ok is) (hx : x ∈ is) : ∃ l ∈ linesOf (normalised text), ∃ st,
      LineForm (some st) l ∧ (x.operands = [] ∨ x.operands = st.operands) := by
  obtain ⟨l, hl, st, line, hform, hx⟩ := exists_statement_of_mem_read h hx
  refine ⟨l, hl, st, hform, ?_⟩
  cases st <;> simp only [Statement.items, List.mem_cons, List.not_mem_nil, or_false] at hx
  case labelled =>
    rcases hx with rfl | rfl
    · exact .inl rfl
    · exact .inr rfl
  all_goals subst hx; exact .inr rfl

theorem isOperand_of_read {text : String} {is : List Item} (h : read text = .ok is) :
    ∀ x ∈ is, ∀ a ∈ x.operands, IsOperand a.toList := by
  intro x hx a ha
  obtain ⟨l, -, st, hform, hnone | hsame⟩ := exists_form_of_mem_read h hx
  · rw [hnone] at ha
    cases ha
  · cases hform with
    | statement _ hs _ _ => exact hs.isOperand a (hsame ▸ ha)

/-! ### Methods -/

theorem mem_of_mem_ops {is : List Item} (ho : o ∈ ops is) : .op o ∈ is := by
  obtain ⟨x, hx, heq⟩ := List.mem_filterMap.1 ho
  split at heq <;> cases heq
  exact hx

theorem mem_of_mem_clauses {is : List Item} {c : Clause} (hc : c ∈ clauses is) :
    .clause c ∈ is := by
  obtain ⟨x, hx, heq⟩ := List.mem_filterMap.1 hc
  split at heq <;> cases heq
  exact hx

theorem encode_of_instruction (h : instruction ls o = .ok i) :
    ∃ code, Opcode.ofName? o.name = some code ∧ encode ls code o = .ok i := by
  rw [instruction] at h
  split at h
  · cases h
  · next code hcode => exact ⟨code, hcode, mapError_eq_ok_iff.1 h⟩

/-- The instructions of a body are those that were read, linked. -/
theorem code_of_body {stamp : Nat} {os : List Op} {b : Body} (h : body stamp ls os = .ok b) :
    ∃ is, os.mapM (instruction ls) = .ok is ∧ b.code = (is.map Body.linked).toArray := by
  obtain ⟨is, his, h⟩ := bind_eq_ok_iff.1 h
  refine ⟨is, his, ?_⟩
  have hb := mapError_eq_ok_iff.1 h
  rw [Body.ofInstructions] at hb
  split at hb
  · cases hb
  · cases hb
    rfl

theorem exists_op_of_mem_body {stamp : Nat} {os : List Op} {b : Body} {j : Instruction Link}
    (h : body stamp ls os = .ok b) (hj : j ∈ b.code) :
    ∃ o ∈ os, ∃ i code, encode ls code o = .ok i ∧ j = Body.linked i := by
  obtain ⟨is, his, hcode⟩ := code_of_body h
  rw [hcode, List.mem_toArray] at hj
  obtain ⟨i, hi, rfl⟩ := List.mem_map.1 hj
  obtain ⟨o, ho, hoi⟩ := exists_of_forall₂ (forall₂_of_mapM his) hi
  obtain ⟨code, -, hencode⟩ := encode_of_instruction hoi
  exact ⟨o, ho, i, code, hencode, rfl⟩

theorem catchType_of_handlerFor {m : Method} {start stop entry : Target}
    {catchType : Option String} {x : Handler}
    (hx : m.handlerFor start stop entry catchType = .ok x) : x.catchType = catchType := by
  obtain ⟨a, -, hx⟩ := bind_eq_ok_iff.1 hx
  obtain ⟨b, -, hx⟩ := bind_eq_ok_iff.1 hx
  obtain ⟨c, -, hx⟩ := bind_eq_ok_iff.1 hx
  rw [Handler.make] at hx
  split at hx
  · cases hx
    rfl
  · cases hx

theorem type_mem_of_clauseParts {as : List String} {type start stop entry : String}
    (h : clauseParts as = some (type, start, stop, entry)) : type ∈ as := by
  unfold clauseParts at h
  split at h
  · split at h
    · cases h
      exact List.mem_cons_self
    · cases h
  · cases h

/-- A declaration adds one handler, and a listable one. -/
theorem of_addClause {m m' : Method} {c : Clause} (hc : ∀ a ∈ c.operands, IsOperand a.toList)
    (h : addClause ls m c = .ok m') :
    ∃ x, m' = m.withHandler x ∧ x.Listable m.body.size := by
  rw [addClause] at h
  split at h
  case h_2 => cases h
  next type start stop entry hparts =>
  obtain ⟨p, -, h⟩ := bind_eq_ok_iff.1 h
  obtain ⟨q, -, h⟩ := bind_eq_ok_iff.1 h
  obtain ⟨r, -, h⟩ := bind_eq_ok_iff.1 h
  dsimp only at h
  split at h
  · cases h
  have hadd := mapError_eq_ok_iff.1 h
  rw [Method.addHandler] at hadd
  cases hx : m.handlerFor (.position p) (.position q) (.position r)
      (if type = "all" then none else some type) with
  | error e =>
    rw [hx] at hadd
    cases hadd
  | ok x =>
    rw [hx] at hadd
    obtain ⟨hstart, hstop, hentry⟩ := Method.handlerFor_body hx
    refine ⟨x, (Except.ok.inj hadd).symm, Handle.position_lt hstart, Handle.position_lt hstop,
      Handle.position_lt hentry, ?_⟩
    intro t ht
    rw [catchType_of_handlerFor hx] at ht
    split at ht
    · cases ht
    · next hall =>
      obtain rfl : type = t := Option.some.inj ht
      exact ⟨hall, hc type (type_mem_of_clauseParts hparts)⟩

/-- What a method that was put together is made of. -/
theorem of_assemble {stamp : Nat} {name : String} {is : List Item} {m : Method}
    (h : assemble stamp name is = .ok m) : ∃ ls m₀, labels is = .ok ls ∧
      body stamp ls (ops is) = .ok m₀.body ∧ m₀.name = name ∧ m₀.handlers = [] ∧
      (clauses is).foldlM (addClause ls) m₀ = .ok m := by
  rw [assemble] at h
  obtain ⟨ls, hls, h⟩ := bind_eq_ok_iff.1 h
  dsimp only at h
  split at h
  · cases h
  obtain ⟨b, hb, h⟩ := bind_eq_ok_iff.1 h
  split at h
  · next m₀ hm₀ =>
    rw [Method.make?] at hm₀
    split at hm₀
    · cases hm₀
      exact ⟨ls, _, hls, hb, rfl, rfl, h⟩
    · cases hm₀
  · cases h

/-- A method that was read has a body of instructions as written, and listable handlers. -/
theorem of_parse {stamp : Nat} {text name : String} {m : Method}
    (h : parse stamp text name = .ok m) : ∃ is ls, read text = .ok is ∧
      body stamp ls (ops is) = .ok m.body ∧ ∀ x ∈ m.handlers, x.Listable m.body.size := by
  obtain ⟨is, his, h⟩ := bind_eq_ok_iff.1 h
  obtain ⟨ls, m₀, -, hbody, -, hnone, hfold⟩ := of_assemble h
  have hkept : m.body = m₀.body ∧ ∀ x ∈ m.handlers, x.Listable m.body.size := by
    refine foldlM_invariant
      (P := fun m => m.body = m₀.body ∧ ∀ x ∈ m.handlers, x.Listable m.body.size)
      ?_ ⟨rfl, by simp [hnone]⟩ hfold
    intro c hc m m' hm hm'
    obtain ⟨x, rfl, hx⟩ := of_addClause (isOperand_of_read his _ (mem_of_mem_clauses hc)) hm'
    refine ⟨hm.1, fun y hy => ?_⟩
    rcases List.mem_append.1 hy with hy | hy
    · exact hm.2 y hy
    · exact List.mem_singleton.1 hy ▸ hx
  exact ⟨is, ls, his, hkept.1 ▸ hbody, hkept.2⟩

/-- What is read from a listing can be said in one. -/
theorem listable_of_parse {stamp : Nat} {text name : String} {m : Method}
    (h : parse stamp text name = .ok m) : m.Listable := by
  obtain ⟨is, ls, his, hbody, hhandlers⟩ := of_parse h
  refine ⟨fun j hj => ?_, hhandlers⟩
  obtain ⟨o, ho, i, code, hencode, rfl⟩ := exists_op_of_mem_body hbody hj
  exact (listable_of_encode (isOperand_of_read his _ (mem_of_mem_ops ho)) hencode).linked

end Listing

end BytecodeRegions
