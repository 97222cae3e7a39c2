import BytecodeRegions.Proofs.Listing.Failures
import Mathlib.Data.Nat.Digits.Defs

/-!
# Labels are nothing but positions

A label may be written wherever a position may, and it says no more than the number of instructions
in front of it. So the labels of a listing can be taken out: the items that define them go, and
every target that names one becomes a numeral. Both listings are put together in the same way, to
the same method or with the same failure. The lines of the items are kept, and a target that names
no label is kept as it is, so that failures have the same words and the same line as well.

A number of more than 4300 digits is neither written nor read, hence the bound on the number of
instructions; no listing that can be stored comes near it.

## Main definitions

* `labelPosition?`: the number of instructions in front of a label.
* `numbered`, `numberedCase`: a target without its label.
* `labelFree`: the items without labels.

## Main results

* `position_numbered`: a target stands for the same position without its label.
* `assemble_labelFree_of_read`: the items of a text come to the same without labels.
-/

namespace BytecodeRegions.Listing

/-- The number of instructions in front of the label of a given name, if there is one. -/
def labelPosition? (name : String) : List Item → Option Nat
  | [] => none
  | .label name' _ :: is => if name' = name then some 0 else labelPosition? name is
  | .op _ :: is => (labelPosition? name is).map (· + 1)
  | .clause _ :: is => labelPosition? name is

/-- A target token, as a decimal number if it names a label. -/
def numbered (is : List Item) (token : String) : String :=
  (labelPosition? token is).elim token Text.decimalNat

/-- An operand of a switch with its label part as a number, if it has a label part. -/
def numberedCase (is : List Item) (operand : String) : String :=
  match splitCase operand with
  | some (key, label) => key ++ ":" ++ numbered is label
  | none => operand

/-- The operands of an instruction of a given kind with numbers for labels. Only jumps and switches
have targets. -/
def numberedOperands (is : List Item) : Kind → List String → List String
  | .jsr, as | .goto, as | .branch, as => as.map (numbered is)
  | .switch, as => as.map (numberedCase is)
  | _, as => as

/-- An instruction with numbers for labels. -/
def Op.numbered (is : List Item) (o : Op) : Op :=
  match Opcode.ofName? o.name with
  | some code => { o with operands := numberedOperands is code.kind o.operands }
  | none => o

/-- A handler declaration with numbers for labels, if it has the right form. -/
def Clause.numbered (is : List Item) (c : Clause) : Clause :=
  match clauseParts c.operands with
  | some (type, start, stop, entry) =>
    { c with operands := [type, "from", Listing.numbered is start, "to", Listing.numbered is stop,
        "using", Listing.numbered is entry] }
  | none => c

/-- An item without labels; an item that is a label goes. -/
def Item.numbered? (is : List Item) : Item → Option Item
  | label _ _ => none
  | op o => some (.op (o.numbered is))
  | clause c => some (.clause (c.numbered is))

/-- The items without the labels, and with numbers where they name a label as a target. -/
def labelFree (is : List Item) : List Item :=
  is.filterMap (Item.numbered? is)

variable {is : List Item} {ls : Labels} {name token : String} {p : Nat}

/-! ### The items that are left -/

theorem labelNames_labelFree (is : List Item) : labelNames (labelFree is) = [] := by
  rw [labelNames, labelFree, List.filterMap_filterMap, List.filterMap_eq_nil_iff]
  intro i _
  cases i <;> rfl

theorem ops_labelFree (is : List Item) : ops (labelFree is) = (ops is).map (Op.numbered is) := by
  rw [ops, labelFree, List.filterMap_filterMap, ops, List.map_filterMap]
  refine List.filterMap_congr fun i _ => ?_
  cases i <;> rfl

theorem clauses_labelFree (is : List Item) :
    clauses (labelFree is) = (clauses is).map (Clause.numbered is) := by
  rw [clauses, labelFree, List.filterMap_filterMap, clauses, List.map_filterMap]
  refine List.filterMap_congr fun i _ => ?_
  cases i <;> rfl

theorem labelsFrom_of_labelNames_eq_nil (h : labelNames is = []) (count : Nat) (found : Labels) :
    labelsFrom count found is = .ok found := by
  induction is generalizing count with
  | nil => rfl
  | cons i is ih =>
    cases i with
    | label name line => cases h
    | op o => exact ih h (count + 1)
    | clause c => exact ih h count

/-! ### Targets -/

theorem labelAt_of_labelPosition? (h : labelPosition? name is = some p) : LabelAt is name p := by
  induction is generalizing p with
  | nil => cases h
  | cons i is ih =>
    cases i with
    | label name' line =>
      rw [labelPosition?] at h
      split at h
      · next hname =>
        subst hname
        cases h
        exact ⟨[], line, is, rfl, rfl⟩
      · obtain ⟨before, line', after, rfl, hp⟩ := ih h
        exact ⟨.label name' line :: before, line', after, rfl, hp⟩
    | op o =>
      obtain ⟨p, hp, rfl⟩ := Option.map_eq_some_iff.1 h
      obtain ⟨before, line, after, rfl, rfl⟩ := ih hp
      exact ⟨.op o :: before, line, after, rfl, rfl⟩
    | clause c =>
      obtain ⟨before, line, after, rfl, hp⟩ := ih h
      exact ⟨.clause c :: before, line, after, rfl, hp⟩

theorem labelPosition?_ne_none (h : LabelAt is name p) : labelPosition? name is ≠ none := by
  obtain ⟨before, line, after, rfl, -⟩ := h
  induction before with
  | nil =>
    rw [List.nil_append, labelPosition?, if_pos rfl]
    exact Option.some_ne_none 0
  | cons i before ih =>
    cases i with
    | label name' line' =>
      rw [List.cons_append, labelPosition?]
      split
      · exact Option.some_ne_none 0
      · exact ih
    | op o => exact mt Option.map_eq_none_iff.1 ih
    | clause c => exact ih

/-- A label is looked up as the number of instructions in front of it. -/
theorem lookup_eq_labelPosition? (hls : LabelsOf is ls) (name : String) :
    ls.lookup name = labelPosition? name is := by
  cases hp : labelPosition? name is with
  | some p => exact (hls name p).2 (labelAt_of_labelPosition? hp)
  | none =>
    rw [Option.eq_none_iff_forall_ne_some]
    exact fun p hlookup => labelPosition?_ne_none ((hls name p).1 hlookup) hp

/-- No label stands for more instructions than there are. -/
theorem LabelAt.le_length (h : LabelAt is name p) : p ≤ (ops is).length := by
  obtain ⟨before, line, after, rfl, rfl⟩ := h
  rw [ops_append, List.length_append]
  exact Nat.le_add_right _ _

theorem position_decimalNat (hp : Text.isWritable p = true) :
    position ls (Text.decimalNat p) = .ok (p : Int) := by
  have hinteger : integer? (Text.decimalNat p) = some (.ok (p : Int)) :=
    integer?_decimal (z := (p : Int)) hp
  rw [position, hinteger, Option.getD_some]

theorem numbered_ne_empty (h : token ≠ "") : numbered is token ≠ "" := by
  rw [numbered]
  cases labelPosition? token is with
  | none => exact h
  | some p =>
    intro hempty
    have hdigits := congrArg String.toList hempty
    rw [Option.elim_some, Text.toList_decimalNat] at hdigits
    exact Nat.toDigits_ne_nil hdigits

/-- A target stands for the same position without its label, or for none with the same cause. -/
theorem position_numbered (hls : LabelsOf is ls)
    (hword : ∀ name ∈ labelNames is, integer? name = none)
    (hsize : (ops is).length < 10 ^ Text.Numeral.digitLimit) (token : String) :
    position [] (numbered is token) = position ls token := by
  have hlookup := lookup_eq_labelPosition? hls token
  cases hp : labelPosition? token is with
  | none =>
    rw [hp] at hlookup
    rw [numbered, hp, Option.elim_none, position, position, hlookup]
    rfl
  | some p =>
    rw [hp] at hlookup
    have hat := labelAt_of_labelPosition? hp
    have hwritable : Text.isWritable p = true :=
      decide_eq_true (Nat.toDigits_length 10 p _ (by decide) (hat.le_length.trans_lt hsize))
    have hnone := hword token (mem_labelNames_iff.2 ⟨p, hat⟩)
    rw [numbered, hp, Option.elim_some, position_decimalNat hwritable, position, hnone, hlookup]
    rfl

/-! ### Instructions and handlers -/

section Statements

variable (hposition : ∀ token, position [] (numbered is token) = position ls token)

include hposition

theorem add_numberedCase (cs : Cases) (operand : String) :
    cs.add [] (numberedCase is operand) = cs.add ls operand := by
  cases hsplit : splitCase operand with
  | none =>
    rw [numberedCase, hsplit, Cases.add, Cases.add, hsplit]
  | some parts =>
    obtain ⟨key, label⟩ := parts
    obtain ⟨-, hkey, hlabel⟩ := splitCase_eq_some_iff.1 hsplit
    have hsplit' : splitCase (key ++ ":" ++ numbered is label) = some (key, numbered is label) :=
      splitCase_eq_some_iff.2 ⟨rfl, hkey, numbered_ne_empty hlabel⟩
    rw [numberedCase, hsplit]
    dsimp only
    rw [Cases.add, Cases.add, hsplit, hsplit']
    dsimp only
    rw [hposition]

theorem foldlM_add_numberedCase (cs : Cases) (as : List String) :
    (as.map (numberedCase is)).foldlM (Cases.add []) cs = as.foldlM (Cases.add ls) cs := by
  rw [List.foldlM_map]
  simp only [add_numberedCase hposition]

theorem encode_numbered (code : Opcode) (o : Op) :
    encode [] code { o with operands := numberedOperands is code.kind o.operands } =
      encode ls code o := by
  rw [encode, encode]
  cases hkind : code.kind with
  | jsr | goto | branch =>
    cases o with
    | mk name as line =>
    rcases as with _ | ⟨t, _ | ⟨t', as⟩⟩
    · rfl
    · simp only [numberedOperands, List.map_cons, List.map_nil, hposition]
    · simp only [numberedOperands, List.map_cons, wrongCount, List.length_cons, List.length_map]
  | switch => simp only [numberedOperands, switch, foldlM_add_numberedCase hposition]
  | iinc | load | store | ret | methodReturn | athrow | other => rfl

theorem instruction_numbered (o : Op) : instruction [] (o.numbered is) = instruction ls o := by
  rw [instruction, instruction]
  cases hcode : Opcode.ofName? o.name with
  | none =>
    rw [Op.numbered, hcode]
    simp only [hcode]
  | some code =>
    rw [Op.numbered, hcode]
    simp only [hcode, encode_numbered hposition]

theorem body_numbered (stamp : Nat) (os : List Op) :
    body stamp [] (os.map (Op.numbered is)) = body stamp ls os := by
  rw [body, body, List.mapM_map]
  simp only [Function.comp_def, instruction_numbered hposition]

theorem addClause_numbered (m : Method) (c : Clause) :
    addClause [] m (c.numbered is) = addClause ls m c := by
  have hpos (line : Nat) (token : String) :
      clausePosition [] line (numbered is token) = clausePosition ls line token := by
    rw [clausePosition, clausePosition, hposition]
  rw [addClause, addClause]
  cases hparts : clauseParts c.operands with
  | none =>
    rw [Clause.numbered, hparts]
    simp only [hparts]
  | some parts =>
    obtain ⟨type, start, stop, entry⟩ := parts
    rw [Clause.numbered, hparts]
    simp only [clauseParts, and_self, if_true, hpos]

theorem foldlM_addClause_numbered (m : Method) (cs : List Clause) :
    (cs.map (Clause.numbered is)).foldlM (addClause []) m = cs.foldlM (addClause ls) m := by
  rw [List.foldlM_map]
  simp only [addClause_numbered hposition]

end Statements

/-! ### Listings -/

/-- Items whose labels are words come to the same without labels. -/
theorem assemble_labelFree (hnodup : (labelNames is).Nodup)
    (hword : ∀ name ∈ labelNames is, integer? name = none)
    (hsize : (ops is).length < 10 ^ Text.Numeral.digitLimit) (stamp : Nat) (name : String) :
    assemble stamp name (labelFree is) = assemble stamp name is := by
  obtain ⟨ls, hlabels, hls⟩ := exists_labels hnodup
  have hposition := position_numbered hls hword hsize
  have hnone : labels (labelFree is) = .ok [] :=
    labelsFrom_of_labelNames_eq_nil (labelNames_labelFree is) 0 []
  rw [assemble, assemble, hlabels, hnone, ops_labelFree, clauses_labelFree, List.isEmpty_map]
  simp only [bind, Except.bind, body_numbered hposition, foldlM_addClause_numbered hposition]

theorem isDigit_of_isNameStart {c : Char} (hc : isNameStart c = true) :
    c.toNat < 128 ∧ c.isDigit = false := by
  rw [isNameStart, Bool.or_eq_true, Bool.or_eq_true, beq_iff_eq, beq_iff_eq] at hc
  rcases hc with (halpha | rfl) | rfl
  · have hletter : 65 ≤ c.toNat ∧ c.toNat ≤ 90 ∨ 97 ≤ c.toNat ∧ c.toNat ≤ 122 := by
      change (decide (c.val ≥ 65 ∧ c.val ≤ 90) ||
        (decide (c.val ≥ 97) && decide (c.val ≤ 122))) = true at halpha
      simpa [UInt32.le_iff_toNat_le] using halpha
    refine ⟨by omega, Bool.eq_false_iff.2 fun hdigit => ?_⟩
    have hrange : 48 ≤ c.toNat ∧ c.toNat ≤ 57 := Char.isDigit_iff_toNat.1 hdigit
    omega
  · decide
  · decide

/-- A name is no integer. -/
theorem integer?_eq_none_of_isName (h : IsName token.toList) : integer? token = none := by
  obtain ⟨c, r, htoken, hc, -⟩ := h
  obtain ⟨hascii, hdigit⟩ := isDigit_of_isNameStart hc
  have hdigits : Text.Numeral.digits? (c :: r) = none := by
    rw [Text.Numeral.digits?, List.mapM_cons, Text.digitValue?_eq_none hascii hdigit]
    rfl
  have hminus : c ≠ '-' := by
    rintro rfl
    exact absurd hc (by decide)
  have hplus : c ≠ '+' := by
    rintro rfl
    exact absurd hc (by decide)
  rw [integer?, htoken, Text.Numeral.ofToken?_of_unsigned hminus hplus, hdigits]
  rfl

/-- Labels that are read are names. -/
theorem isName_of_mem_labelNames {text : String} (h : read text = .ok is)
    (hname : name ∈ labelNames is) : IsName name.toList := by
  obtain ⟨x, hx, hlabel⟩ := List.mem_filterMap.1 hname
  obtain ⟨l, -, st, line, hform, hx⟩ := exists_statement_of_mem_read h hx
  cases x with
  | op o => cases hlabel
  | clause c => cases hlabel
  | label name' line' =>
    obtain rfl : name' = name := Option.some.inj hlabel
    cases hform with
    | statement _ hs _ _ =>
      cases hs with
      | handler hs => simp [Statement.items] at hx
      | instruction hs => simp [Statement.items] at hx
      | label hname =>
        obtain ⟨rfl, -⟩ := Item.label.inj (List.mem_singleton.1 hx)
        rwa [String.toList_ofList]
      | labelled hname _ _ =>
        simp only [Statement.items, List.mem_cons, Item.label.injEq, reduceCtorEq, List.not_mem_nil,
          or_false] at hx
        rw [hx.1]
        rwa [String.toList_ofList]

/-- The items of a text come to the same without labels: to the same method, or to the same failure
in the same line. -/
theorem assemble_labelFree_of_read {text : String} (hread : read text = .ok is)
    (hnodup : (labelNames is).Nodup) (hsize : (ops is).length < 10 ^ Text.Numeral.digitLimit)
    (stamp : Nat) (name : String) : labelNames (labelFree is) = [] ∧
      assemble stamp name (labelFree is) = assemble stamp name is :=
  ⟨labelNames_labelFree is, assemble_labelFree hnodup
    (fun _ hname => integer?_eq_none_of_isName (isName_of_mem_labelNames hread hname)) hsize stamp
    name⟩

/-- A listing with a reference ahead, one back, and a label after the last instruction that a
handler names. -/
def danglingText : String :=
  "go: jsr sub\n goto go\n.catch all from go to end using sub\nsub: astore_1\n ret 1\nend:"

/-- The items of the listing without labels. -/
def danglingItems : List Item :=
  [.op ⟨"jsr", ["2"], 1⟩, .op ⟨"goto", ["0"], 2⟩,
    .clause ⟨["all", "from", "0", "to", "4", "using", "2"], 3⟩, .op ⟨"astore_1", [], 4⟩,
    .op ⟨"ret", ["1"], 5⟩]

/-- A handler that names the end of the listing is refused with or without labels. -/
theorem assemble_labelFree_dangling : ∃ is, read danglingText = .ok is ∧
    labelFree is = danglingItems ∧
    assemble 0 "f" danglingItems = assemble 0 "f" is ∧
    assemble 0 "f" is = .error (.atLine 3 (.handlerOutside 4 4)) := by
  obtain ⟨is, his, hfacts⟩ := exists_of_any (x := read danglingText)
    (p := fun is => decide ((labelNames is).Nodup ∧ labelFree is = danglingItems ∧
      (ops is).length = 4)) (by decide +kernel)
  obtain ⟨hnodup, hfree, hlength⟩ := of_decide_eq_true hfacts
  have hsize : (ops is).length < 10 ^ Text.Numeral.digitLimit := by
    rw [hlength]
    decide +kernel
  have hsame := (assemble_labelFree_of_read his hnodup hsize 0 "f").2
  rw [hfree] at hsame
  exact ⟨is, his, hfree, hsame, hsame ▸ by rfl⟩

end BytecodeRegions.Listing
