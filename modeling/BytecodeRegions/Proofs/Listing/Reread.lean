import BytecodeRegions.Proofs.Listing.Printed

/-!
# Statements of a listing are read back

The statements of a listing define the label of each position that is a target, once and at its
place, so every label that is used is found. With these labels, the words of an instruction are read
as the instruction they were written for, with its targets as they were before they were linked.

## Main definitions

* `Labelled`: the labels of the positions of a list are found, as far as they have been met.
* `Placed`, `Reaches`: the labels of a target, or of all targets of an instruction, are found.
* `Link.target`: a target before it is linked.

## Main results

* `exists_labels_statements`: the labels of a listing are found.
* `forall₂_ops_statements`, `forall₂_clauses_statements`: what a listing says, in order.
* `instruction_arguments`: the words of an instruction are read back.
-/

namespace BytecodeRegions

/-- The number of a target. -/
def Link.number : Link → Int
  | free p => p
  | bound p => p

/-- The target as it was before the body was there. -/
def Link.target (l : Link) : Target :=
  .position l.number

theorem Instruction.map_eq_self {τ : Type} {i : Instruction τ} {f : τ → τ}
    (htarget : ∀ t ∈ i.target, f t = t) (hcases : ∀ t ∈ i.caseTargets, f t = t) :
    i.map f = i := by
  obtain ⟨op, slot, target, cases, keys, operands, _, _, _⟩ := i
  have htargets : target.map f = target := by
    cases target with
    | none => rfl
    | some t => exact congrArg some (htarget t rfl)
  have hcaseTargets : cases.map f = cases := List.map_congr_left hcases |>.trans (List.map_id cases)
  simp only [Instruction.map, htargets, hcaseTargets]

namespace Listing

/-! ### Tokens -/

theorem integer?_decimal {z : Int} (hz : Text.isWritable z.natAbs = true) :
    integer? (Text.decimal z) = some (.ok z) := by
  obtain ⟨n, hn, hvalue, hlength⟩ := Text.Numeral.ofToken?_decimal z
  rw [Text.isWritable, decide_eq_true_eq] at hz
  rw [integer?, hn, Option.map_some, if_pos (hlength ▸ hz), hvalue]

theorem integer_decimal {role : Role} {z : Int} (hz : Text.isWritable z.natAbs = true) :
    integer role (Text.decimal z) = .ok z := by
  rw [integer, integer?_decimal hz]
  rfl

theorem integer?_labelText (p : Nat) : integer? (labelText p) = none := by
  have htoken : (labelText p).toList = 'L' :: (Text.decimalNat p).toList := by
    rw [labelText, String.toList_append]
    rfl
  have hletter : Text.digitValue? 'L' = none := by decide
  have hdigits : Text.Numeral.digits? (labelText p).toList = none := by
    rw [htoken, Text.Numeral.digits?, List.mapM_cons, hletter]
    rfl
  rw [integer?, htoken, Text.Numeral.ofToken?_of_unsigned (by decide) (by decide), ← htoken,
    hdigits]
  rfl

theorem labelText_injective : Function.Injective labelText := by
  intro p q h
  have hlists := congrArg String.toList h
  rw [labelText, labelText, String.toList_append, String.toList_append] at hlists
  exact Text.decimalNat_injective (String.toList_inj.1 (List.append_cancel_left hlists))

theorem operand_text {a : Operand} (ha : a.Listable) : operand a.text = .ok a := by
  cases a with
  | number n =>
    rw [operand, Operand.text, integer?_decimal ha]
    rfl
  | word w =>
    rw [operand, Operand.text, ha.2]
    rfl

/-! ### Labels -/

/-- The labels that are found are those of the positions of `ts` before `n`. -/
def Labelled (ts : List Nat) (n : Nat) (ls : Labels) : Prop :=
  ∀ q, ls.lookup (labelText q) = if q ∈ ts ∧ q < n then some q else none

section Labels

variable {ts : List Nat} {n : Nat} {ls : Labels}

theorem labelled_nil (ts : List Nat) : Labelled ts 0 [] := by
  intro q
  rw [if_neg (by omega)]
  rfl

theorem Labelled.lookup (h : Labelled ts n ls) {q : Nat} (hq : q ∈ ts) (hlt : q < n) :
    ls.lookup (labelText q) = some q := by
  rw [h q, if_pos ⟨hq, hlt⟩]

/-- A position of the list is met for the first time, and from then on its label is found. -/
theorem Labelled.cons (h : Labelled ts n ls) (hn : n ∈ ts) :
    ls.lookup (labelText n) = none ∧ Labelled ts (n + 1) ((labelText n, n) :: ls) := by
  refine ⟨by rw [h n, if_neg (by omega)], fun q => ?_⟩
  by_cases hq : q = n
  · rw [hq, List.lookup_cons_self, if_pos ⟨hn, by omega⟩]
  · have hne : (labelText q == labelText n) = false :=
      beq_false_of_ne fun heq => hq (labelText_injective heq)
    have hiff : q < n + 1 ↔ q < n := by omega
    rw [List.lookup_cons, hne, h q]
    simp only [hiff]

theorem Labelled.skip (h : Labelled ts n ls) (hn : n ∉ ts) : Labelled ts (n + 1) ls := by
  intro q
  rw [h q]
  by_cases hq : q = n
  · rw [hq, if_neg (by omega), if_neg (fun hmem => hn hmem.1)]
  · have hiff : q < n + 1 ↔ q < n := by omega
    simp only [hiff]

end Labels

/-! ### Items -/

/-- The items of lines that are counted from `first`. -/
def itemsFrom (first : Nat) (sts : List (Option Statement)) : List Item :=
  (sts.zipIdx first).flatMap fun (st, line) => st.elim [] (Statement.items line)

theorem itemsFrom_cons (first : Nat) (st : Statement) (sts : List (Option Statement)) :
    itemsFrom first (some st :: sts) = st.items first ++ itemsFrom (first + 1) sts := by
  simp [itemsFrom]

theorem itemsFrom_append (first : Nat) (sts sts' : List (Option Statement)) :
    itemsFrom first (sts ++ sts') = itemsFrom first sts ++ itemsFrom (first + sts.length) sts' := by
  simp [itemsFrom, List.zipIdx_append]

/-- The statements of instructions from position `p` on, of which those in `ts` have labels. -/
def codeStatements (ts : List Nat) (p : Nat) (is : List (Instruction Link)) :
    List (Option Statement) :=
  (is.zipIdx p).map fun (i, q) => some (instructionStatement (ts.contains q) q i)

/-- The statements of handlers. -/
def handlerStatements (xs : List Handler) : List (Option Statement) :=
  xs.map fun x => some (.handler (handlerWords x))

theorem statements_eq (m : Method) : statements m =
    codeStatements (targeted m) 0 m.body.code.toList ++ handlerStatements m.handlers :=
  rfl

section Items

variable {ts : List Nat} {ls : Labels}

theorem itemsFrom_codeStatements_cons (first n : Nat) (i : Instruction Link)
    (is : List (Instruction Link)) : itemsFrom first (codeStatements ts n (i :: is)) =
      (instructionStatement (ts.contains n) n i).items first ++
        itemsFrom (first + 1) (codeStatements ts (n + 1) is) :=
  itemsFrom_cons first _ _

/-- The labels of instructions are found one after another, and none is met twice. -/
theorem exists_labels_codeStatements {n : Nat} (hls : Labelled ts n ls)
    (is : List (Instruction Link)) (first : Nat) (rest : List Item) :
    ∃ ls', Labelled ts (n + is.length) ls' ∧
      labelsFrom n ls (itemsFrom first (codeStatements ts n is) ++ rest) =
        labelsFrom (n + is.length) ls' rest := by
  induction is generalizing n first ls with
  | nil => exact ⟨ls, hls, rfl⟩
  | cons i is ih =>
    have hlength : n + (i :: is).length = n + 1 + is.length := by
      rw [List.length_cons]
      omega
    rw [hlength, itemsFrom_codeStatements_cons, instructionStatement]
    by_cases hn : n ∈ ts
    · -- the label cannot be a duplicate, since only positions before `n` have been met
      obtain ⟨hnew, hls'⟩ := hls.cons hn
      obtain ⟨ls', hls', hrun⟩ := ih hls' (first + 1)
      refine ⟨ls', hls', ?_⟩
      rw [if_pos (List.contains_iff_mem.2 hn), ← hrun]
      simp only [Statement.items, List.cons_append, List.nil_append, labelsFrom, hnew,
        Option.isSome_none, Bool.false_eq_true, if_false]
    · obtain ⟨ls', hls', hrun⟩ := ih (hls.skip hn) (first + 1)
      refine ⟨ls', hls', ?_⟩
      rw [if_neg (fun h => hn (List.contains_iff_mem.1 h)), ← hrun]
      simp only [Statement.items, List.cons_append, List.nil_append, labelsFrom]

theorem labelsFrom_handlerStatements (n : Nat) (xs : List Handler) (first : Nat) :
    labelsFrom n ls (itemsFrom first (handlerStatements xs)) = .ok ls := by
  induction xs generalizing first with
  | nil => rfl
  | cons x xs ih => exact ih (first + 1)

theorem ops_append (is is' : List Item) : ops (is ++ is') = ops is ++ ops is' :=
  List.filterMap_append

theorem clauses_append (is is' : List Item) : clauses (is ++ is') = clauses is ++ clauses is' :=
  List.filterMap_append

theorem forall₂_ops_codeStatements (n : Nat) (is : List (Instruction Link)) (first : Nat) :
    List.Forall₂ (fun i o => o.name = i.name ∧ o.operands = instructionArguments i) is
      (ops (itemsFrom first (codeStatements ts n is))) := by
  induction is generalizing n first with
  | nil => exact .nil
  | cons i is ih =>
    have hop : ops ((instructionStatement (ts.contains n) n i).items first) =
        [⟨i.name, instructionArguments i, first⟩] := by
      rw [instructionStatement]
      split <;> rfl
    rw [itemsFrom_codeStatements_cons, ops_append, hop]
    exact .cons ⟨rfl, rfl⟩ (ih (n + 1) (first + 1))

theorem clauses_codeStatements (n : Nat) (is : List (Instruction Link)) (first : Nat) :
    clauses (itemsFrom first (codeStatements ts n is)) = [] := by
  induction is generalizing n first with
  | nil => rfl
  | cons i is ih =>
    have hclause : clauses ((instructionStatement (ts.contains n) n i).items first) = [] := by
      rw [instructionStatement]
      split <;> rfl
    rw [itemsFrom_codeStatements_cons, clauses_append, hclause, ih (n + 1) (first + 1)]
    rfl

theorem ops_handlerStatements (xs : List Handler) (first : Nat) :
    ops (itemsFrom first (handlerStatements xs)) = [] := by
  induction xs generalizing first with
  | nil => rfl
  | cons x xs ih => exact ih (first + 1)

theorem forall₂_clauses_handlerStatements (xs : List Handler) (first : Nat) :
    List.Forall₂ (fun x c => c.operands = handlerWords x) xs
      (clauses (itemsFrom first (handlerStatements xs))) := by
  induction xs generalizing first with
  | nil => exact .nil
  | cons x xs ih => exact .cons rfl (ih (first + 1))

theorem items_statements (m : Method) : items (statements m) =
    itemsFrom 1 (codeStatements (targeted m) 0 m.body.code.toList) ++
      itemsFrom (1 + (codeStatements (targeted m) 0 m.body.code.toList).length)
        (handlerStatements m.handlers) := by
  have hitems : items (statements m) = itemsFrom 1 (statements m) := rfl
  rw [hitems, statements_eq, itemsFrom_append]

/-- The labels of a listing are found. -/
theorem exists_labels_statements (m : Method) : ∃ ls, labels (items (statements m)) = .ok ls ∧
    Labelled (targeted m) m.body.size ls := by
  rw [labels, items_statements]
  obtain ⟨ls, hls, hrun⟩ :=
    exists_labels_codeStatements (labelled_nil (targeted m)) m.body.code.toList 1 _
  refine ⟨ls, ?_, by simpa [Body.size] using hls⟩
  rw [hrun, labelsFrom_handlerStatements]

/-- The instructions of a listing are those of the method. -/
theorem forall₂_ops_statements (m : Method) :
    List.Forall₂ (fun i o => o.name = i.name ∧ o.operands = instructionArguments i)
      m.body.code.toList (ops (items (statements m))) := by
  rw [items_statements, ops_append, ops_handlerStatements, List.append_nil]
  exact forall₂_ops_codeStatements 0 m.body.code.toList 1

/-- The handler declarations of a listing are those of the method. -/
theorem forall₂_clauses_statements (m : Method) :
    List.Forall₂ (fun x c => c.operands = handlerWords x) m.handlers
      (clauses (items (statements m))) := by
  rw [items_statements, clauses_append, clauses_codeStatements, List.nil_append]
  exact forall₂_clauses_handlerStatements m.handlers _

end Items

/-! ### Instructions -/

/-- A target is a position whose label is found. -/
def Placed (ls : Labels) (l : Link) : Prop :=
  ∃ p, l = .bound p ∧ ls.lookup (labelText p) = some p

section Instructions

variable {ls : Labels} {i : Instruction Link} {o : Op}

theorem position_linkText {l : Link} (hl : Placed ls l) :
    position ls (linkText l) = .ok l.number := by
  obtain ⟨p, rfl, hp⟩ := hl
  rw [position, linkText, integer?_labelText, hp]
  rfl

theorem splitCase_append {key label : String} (hkey : ':' ∉ key.toList)
    (hne : label.toList ≠ []) : splitCase (key ++ ":" ++ label) = some (key, label) := by
  obtain ⟨c, s, hcs⟩ := List.exists_cons_of_ne_nil hne
  have hall : ∀ d ∈ key.toList, (d != ':') = true := fun d hd =>
    bne_iff_ne.2 fun heq => hkey (heq ▸ hd)
  have hstop : Stops (· != ':') (':' :: c :: s) := by
    rintro _ ⟨⟩
    rfl
  have htext : (key ++ ":" ++ label).toList = key.toList ++ ':' :: c :: s := by
    rw [String.toList_append, String.toList_append, hcs, List.append_assoc]
    rfl
  have hlabel : String.ofList (c :: s) = label := by rw [← hcs, String.ofList_toList]
  simp only [splitCase, htext, hstop.dropWhile_append hall, hstop.takeWhile_append hall,
    String.ofList_toList, hlabel]

theorem colon_notMem_decimal (z : Int) : ':' ∉ (Text.decimal z).toList := by
  have hdigits (n : Nat) : ':' ∉ (Text.decimalNat n).toList := fun h =>
    absurd (Text.isDigit_of_mem_decimalNat h) (by decide)
  cases z with
  | ofNat n => exact hdigits n
  | negSucc n =>
    rw [Text.decimal, String.toList_append, List.mem_append]
    rintro (h | h)
    · exact absurd h (by decide)
    · exact hdigits (n + 1) h

theorem decimal_ne_default {z : Int} (hz : Text.isWritable z.natAbs = true) :
    Text.decimal z ≠ "default" := by
  intro h
  -- one is an integer token and the other is not
  have hint := integer?_decimal hz
  rw [h] at hint
  have hnone : integer? "default" = none := by decide
  cases hnone.symm.trans hint

theorem add_case (cs : Cases) {k : Int} {l : Link} (hk : Text.isWritable k.natAbs = true)
    (hl : Placed ls l) : cs.add ls (Text.decimal k ++ ":" ++ linkText l) =
      .ok { cs with keys := cs.keys ++ [k], targets := cs.targets ++ [l.number] } := by
  rw [Cases.add, splitCase_append (colon_notMem_decimal k) (isPlain_linkText l).1]
  dsimp only
  rw [if_neg (decimal_ne_default hk), integer_decimal hk, position_linkText hl]
  rfl

theorem add_default {cs : Cases} (hcs : cs.default? = none) {l : Link} (hl : Placed ls l) :
    cs.add ls ("default:" ++ linkText l) = .ok { cs with default? := some l.number } := by
  have htext : "default:" ++ linkText l = "default" ++ ":" ++ linkText l := rfl
  rw [Cases.add, htext, splitCase_append (by decide) (isPlain_linkText l).1]
  dsimp only
  rw [if_pos rfl, hcs, position_linkText hl]
  rfl

/-- Cases are read back one after another. -/
theorem foldlM_add_cases {kls : List (Int × Link)} (cs : Cases)
    (hkeys : ∀ kl ∈ kls, Text.isWritable kl.1.natAbs = true) (hlinks : ∀ kl ∈ kls, Placed ls kl.2) :
    (kls.map fun (k, l) => Text.decimal k ++ ":" ++ linkText l).foldlM (Cases.add ls) cs =
      .ok { cs with keys := cs.keys ++ kls.map Prod.fst,
                    targets := cs.targets ++ kls.map fun kl => kl.2.number } := by
  induction kls generalizing cs with
  | nil => simp [pure, Except.pure]
  | cons kl kls ih =>
    obtain ⟨hk, hkeys⟩ := List.forall_mem_cons.1 hkeys
    obtain ⟨hl, hlinks⟩ := List.forall_mem_cons.1 hlinks
    rw [List.map_cons, List.foldlM_cons, add_case cs hk hl]
    refine (ih _ hkeys hlinks).trans ?_
    simp

theorem caseKeys_eq (hi : i.Listable) : i.caseKeys = i.keys := by
  rw [Instruction.caseKeys]
  split
  · next hempty =>
    have hnil := List.isEmpty_iff.1 hempty
    have hlength := hi.keys
    rw [hnil] at hlength ⊢
    rw [← hlength]
    rfl
  · rfl

/-- An instruction that jumps has a target, and the labels of its targets are found. -/
def Reaches (ls : Labels) (i : Instruction Link) : Prop :=
  i.opcode.hasTarget = true →
    (∃ l, i.target = some l ∧ Placed ls l) ∧ ∀ l ∈ i.caseTargets, Placed ls l

theorem instructionArguments_of_switch (hkind : i.kind = .switch) : instructionArguments i =
    (i.caseKeys.zip i.caseTargets).map (fun (k, l) => Text.decimal k ++ ":" ++ linkText l) ++
      i.target.toList.map fun l => "default:" ++ linkText l := by
  have hswitch : i.isSwitch = true := beq_iff_eq.2 hkind
  simp only [instructionArguments, instructionWords, hswitch, if_true, List.tail_cons]

theorem instructionArguments_of_jump (hkind : i.kind ≠ .switch)
    (hjump : i.opcode.hasTarget = true) :
    instructionArguments i = i.target.toList.map linkText := by
  have hswitch : i.isSwitch = false := beq_false_of_ne hkind
  simp only [instructionArguments, instructionWords, hswitch, hjump, if_true, Bool.false_eq_true,
    if_false, List.tail_cons]

theorem instructionArguments_of_plain (hjump : i.opcode.hasTarget = false) :
    instructionArguments i = i.operandTexts := by
  have hswitch : i.isSwitch = false := by
    refine beq_false_of_ne fun hkind => ?_
    rw [Instruction.kind] at hkind
    simp [Opcode.hasTarget, hkind, Kind.hasTarget] at hjump
  simp only [instructionArguments, instructionWords, hswitch, hjump, Bool.false_eq_true, if_false,
    List.tail_cons]

/-- The parts of an instruction make it, as it was before the body was there. -/
theorem make_parts {slot : Option Int} (hslot : slot = none ∧ i.slot = i.opcode.implicitSlot ∨
      ∃ n : Nat, slot = some (n : Int) ∧ i.slot = some n) :
    make i.opcode slot (i.target.map Link.number) (i.caseTargets.map Link.number) i.keys
      i.operands = .ok (i.map Link.target) := by
  refine make_eq_ok_iff.2 ⟨rfl, ?_, ?_, rfl, rfl, hslot⟩
  · rw [Option.map_map]
    rfl
  · rw [List.map_map]
    rfl

theorem caseTargets_eq_nil (hkind : i.kind ≠ .switch) : i.caseTargets = [] :=
  Classical.byContradiction fun h => hkind (i.switch_of_cases h)

theorem slots_eq_none (hlocal : i.opcode.accessesLocal = false) :
    i.slot = none ∧ i.opcode.implicitSlot = none := by
  constructor
  · have hslot := i.slot_isSome
    rw [hlocal, Option.isSome_eq_false_iff] at hslot
    exact Option.isNone_iff_eq_none.1 hslot
  · refine Opcode.implicitSlot_eq_none ?_ ?_ <;> intro hk <;>
      simp [Opcode.accessesLocal, hk, Kind.accessesLocal] at hlocal

theorem make_parts_of_ne_switch (hi : i.Listable) (hkind : i.kind ≠ .switch) {slot : Option Int}
    (hslot : slot = none ∧ i.slot = i.opcode.implicitSlot ∨
      ∃ n : Nat, slot = some (n : Int) ∧ i.slot = some n) :
    make i.opcode slot (i.target.map Link.number) [] [] i.operands = .ok (i.map Link.target) := by
  have hcases := caseTargets_eq_nil hkind
  have hkeys : i.keys = [] := List.eq_nil_of_length_eq_zero (by rw [hi.keys, hcases]; rfl)
  have hmake := make_parts hslot
  rwa [hcases, hkeys] at hmake

theorem exists_slot (hlocal : i.opcode.accessesLocal = true) : ∃ n, i.slot = some n :=
  Option.isSome_iff_exists.1 (i.slot_isSome.trans hlocal)

theorem encode_of_jump (hi : i.Listable) (hreach : Reaches ls i)
    (ho : o.operands = instructionArguments i)
    (hk : i.opcode.kind = .jsr ∨ i.opcode.kind = .goto ∨ i.opcode.kind = .branch) :
    encode ls i.opcode o = .ok (i.map Link.target) := by
  have hkind : i.kind ≠ .switch ∧ i.kind ≠ .iinc := by
    rcases hk with hk | hk | hk <;> simp [Instruction.kind, hk]
  have hjump : i.opcode.hasTarget = true := by
    rcases hk with hk | hk | hk <;> simp [Opcode.hasTarget, hk, Kind.hasTarget]
  have hslot : i.slot = none ∧ i.opcode.implicitSlot = none := by
    refine slots_eq_none ?_
    rcases hk with hk | hk | hk <;> simp [Opcode.accessesLocal, hk, Kind.accessesLocal]
  obtain ⟨⟨l, hl, hplaced⟩, -⟩ := hreach hjump
  have harguments : o.operands = [linkText l] := by
    rw [ho, instructionArguments_of_jump hkind.1 hjump, hl]
    rfl
  have hmake := make_parts_of_ne_switch hi hkind.1 (.inl ⟨rfl, hslot.1.trans hslot.2.symm⟩)
  rw [hl, hi.bare hkind.2 (.inl hjump)] at hmake
  have hencode : (position ls (linkText l) >>= fun p => make i.opcode none (some p) [] [] []) =
      .ok (i.map Link.target) :=
    bind_eq_ok_iff.2 ⟨l.number, position_linkText hplaced, hmake⟩
  rcases hk with hk | hk | hk <;> simpa only [encode, hk, harguments] using hencode

theorem encode_of_switch (hi : i.Listable) (hreach : Reaches ls i)
    (ho : o.operands = instructionArguments i) (hk : i.opcode.kind = .switch) :
    encode ls i.opcode o = .ok (i.map Link.target) := by
  have hjump : i.opcode.hasTarget = true := by simp [Opcode.hasTarget, hk, Kind.hasTarget]
  have hslot := slots_eq_none (i := i) (by simp [Opcode.accessesLocal, hk, Kind.accessesLocal])
  obtain ⟨⟨l, hl, hplaced⟩, hcases⟩ := hreach hjump
  have hfold : o.operands.foldlM (Cases.add ls) {} =
      .ok ⟨i.keys, i.caseTargets.map Link.number, some l.number⟩ := by
    have hkeys : (i.keys.zip i.caseTargets).map Prod.fst = i.keys :=
      List.map_fst_zip hi.keys.le
    have htargets : ((i.keys.zip i.caseTargets).map fun kl => kl.2.number) =
        i.caseTargets.map Link.number := by
      calc ((i.keys.zip i.caseTargets).map fun kl => kl.2.number)
          = ((i.keys.zip i.caseTargets).map Prod.snd).map Link.number := by
            rw [List.map_map]
            rfl
        _ = i.caseTargets.map Link.number := by rw [List.map_snd_zip hi.keys.ge]
    rw [ho, instructionArguments_of_switch hk, caseKeys_eq hi, hl, List.foldlM_append,
      foldlM_add_cases _ (fun kl hkl => hi.key _ (List.of_mem_zip hkl).1)
        (fun kl hkl => hcases _ (List.of_mem_zip hkl).2), hkeys, htargets]
    exact bind_eq_ok_iff.2 ⟨_, rfl, bind_eq_ok_iff.2 ⟨_, add_default rfl hplaced, rfl⟩⟩
  have hmake := make_parts (i := i) (.inl ⟨rfl, hslot.1.trans hslot.2.symm⟩)
  rw [hl, hi.bare (by simp [Instruction.kind, hk]) (.inl hjump)] at hmake
  simp only [encode, hk]
  exact bind_eq_ok_iff.2 ⟨_, hfold, hmake⟩

theorem encode_of_iinc (hi : i.Listable) (ho : o.operands = instructionArguments i)
    (hk : i.opcode.kind = .iinc) : encode ls i.opcode o = .ok (i.map Link.target) := by
  have hjump : i.opcode.hasTarget = false := by simp [Opcode.hasTarget, hk, Kind.hasTarget]
  have himplicit : i.opcode.implicitSlot = none :=
    Opcode.implicitSlot_eq_none (by simp [hk]) (by simp [hk])
  obtain ⟨s, hs⟩ := exists_slot (i := i) (by simp [Opcode.accessesLocal, hk, Kind.accessesLocal])
  obtain ⟨n, hn⟩ := hi.increment hk
  have hwritable : Text.isWritable n.natAbs = true := hi.operand (.number n) (by simp [hn])
  have harguments : o.operands = [Text.decimal s, Text.decimal n] := by
    rw [ho, instructionArguments_of_plain hjump, Instruction.operandTexts, himplicit, hs, hn]
    rfl
  have hmake := make_parts_of_ne_switch hi (by simp [Instruction.kind, hk]) (.inr ⟨s, rfl, hs⟩)
  rw [hi.target hjump, hn] at hmake
  simp only [encode, hk, harguments]
  exact bind_eq_ok_iff.2 ⟨s, integer_decimal (hi.slot himplicit s hs),
    bind_eq_ok_iff.2 ⟨n, integer_decimal hwritable, hmake⟩⟩

theorem encode_of_local (hi : i.Listable) (ho : o.operands = instructionArguments i)
    (hk : i.opcode.kind = .load ∨ i.opcode.kind = .store ∨ i.opcode.kind = .ret) :
    encode ls i.opcode o = .ok (i.map Link.target) := by
  have hkind : i.kind ≠ .switch ∧ i.kind ≠ .iinc := by
    rcases hk with hk | hk | hk <;> simp [Instruction.kind, hk]
  have hjump : i.opcode.hasTarget = false := by
    rcases hk with hk | hk | hk <;> simp [Opcode.hasTarget, hk, Kind.hasTarget]
  have hlocal : i.opcode.accessesLocal = true := by
    rcases hk with hk | hk | hk <;> simp [Opcode.accessesLocal, hk, Kind.accessesLocal]
  have hbare := hi.bare hkind.2 (.inr hlocal)
  cases himplicit : i.opcode.implicitSlot with
  | some s =>
    have harguments : o.operands = [] := by
      rw [ho, instructionArguments_of_plain hjump, Instruction.operandTexts, himplicit, hbare]
      rfl
    have hmake := make_parts_of_ne_switch hi hkind.1
      (.inl ⟨rfl, (hi.implicit s himplicit).trans himplicit.symm⟩)
    rw [hi.target hjump, hbare, Option.map_none] at hmake
    rcases hk with hk | hk | hk <;> simpa only [encode, hk, himplicit, harguments] using hmake
  | none =>
    obtain ⟨s, hs⟩ := exists_slot hlocal
    have harguments : o.operands = [Text.decimal s] := by
      rw [ho, instructionArguments_of_plain hjump, Instruction.operandTexts, himplicit, hs, hbare]
      rfl
    have hmake := make_parts_of_ne_switch hi hkind.1 (.inr ⟨s, rfl, hs⟩)
    rw [hi.target hjump, hbare] at hmake
    have hencode : (integer .slot (Text.decimal s) >>= fun n =>
        make i.opcode (some n) none [] [] []) = .ok (i.map Link.target) :=
      bind_eq_ok_iff.2 ⟨s, integer_decimal (hi.slot himplicit s hs), hmake⟩
    rcases hk with hk | hk | hk <;> simpa only [encode, hk, himplicit, harguments] using hencode

theorem encode_of_other (hi : i.Listable) (ho : o.operands = instructionArguments i)
    (hk : i.opcode.kind = .methodReturn ∨ i.opcode.kind = .athrow ∨ i.opcode.kind = .other) :
    encode ls i.opcode o = .ok (i.map Link.target) := by
  have hkind : i.kind ≠ .switch := by rcases hk with hk | hk | hk <;> simp [Instruction.kind, hk]
  have hjump : i.opcode.hasTarget = false := by
    rcases hk with hk | hk | hk <;> simp [Opcode.hasTarget, hk, Kind.hasTarget]
  have hslot : i.slot = none ∧ i.opcode.implicitSlot = none := by
    refine slots_eq_none ?_
    rcases hk with hk | hk | hk <;> simp [Opcode.accessesLocal, hk, Kind.accessesLocal]
  have harguments : o.operands = i.operands.map Operand.text := by
    rw [ho, instructionArguments_of_plain hjump, Instruction.operandTexts, hslot.1, hslot.2]
    rfl
  have hoperands : o.operands.mapM operand = .ok i.operands := by
    refine mapM_of_forall₂ ?_
    rw [harguments, List.forall₂_map_left_iff, List.forall₂_same]
    exact fun a ha => operand_text (hi.operand a ha)
  have hmake := make_parts_of_ne_switch hi hkind (.inl ⟨rfl, hslot.1.trans hslot.2.symm⟩)
  rw [hi.target hjump] at hmake
  have hencode : (o.operands.mapM operand >>= fun as => make i.opcode none none [] [] as) =
      .ok (i.map Link.target) :=
    bind_eq_ok_iff.2 ⟨i.operands, hoperands, hmake⟩
  rcases hk with hk | hk | hk <;> simpa only [encode, hk] using hencode

/-- The name and the words of an instruction are read as the instruction. -/
theorem instruction_arguments (hi : i.Listable) (hreach : Reaches ls i) (hname : o.name = i.name)
    (ho : o.operands = instructionArguments i) :
    instruction ls o = .ok (i.map Link.target) := by
  have hencode : encode ls i.opcode o = .ok (i.map Link.target) := by
    cases hk : i.opcode.kind with
    | jsr => exact encode_of_jump hi hreach ho (.inl hk)
    | goto => exact encode_of_jump hi hreach ho (.inr (.inl hk))
    | branch => exact encode_of_jump hi hreach ho (.inr (.inr hk))
    | switch => exact encode_of_switch hi hreach ho hk
    | iinc => exact encode_of_iinc hi ho hk
    | load => exact encode_of_local hi ho (.inl hk)
    | store => exact encode_of_local hi ho (.inr (.inl hk))
    | ret => exact encode_of_local hi ho (.inr (.inr hk))
    | methodReturn => exact encode_of_other hi ho (.inl hk)
    | athrow => exact encode_of_other hi ho (.inr (.inl hk))
    | other => exact encode_of_other hi ho (.inr (.inr hk))
  have hop : Opcode.ofName? o.name = some i.opcode := hname ▸ i.opcode.ofName?_name
  rw [instruction, hop]
  exact mapError_eq_ok_iff.2 hencode

end Instructions

end Listing

end BytecodeRegions
