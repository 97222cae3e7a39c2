import BytecodeRegions.Listing.Printer
import BytecodeRegions.Proofs.Listing.Listable
import BytecodeRegions.Proofs.Mnemonics

/-!
# The lines of a printed method

The listing of a method has one line for each instruction and one for each handler. The words of a
line are operands, so they come apart again at the spaces between them, and a label is apart from
the instruction by its colon even where it fills its column. Only the end of a line is not safe: it
loses its padding, and an operand may end in characters that count as padding and not as blanks.

## Main definitions

* `instructionStatement`, `handlerWords`, `statements`: what the lines say.
* `Instruction.EndsPlainly`: the last operand of an instruction is safe.

## Main results

* `linesOf_format`: the lines of a listing.
* `lineForm_instructionLine`, `lineForm_handlerLine`: the lines have the form of what they say.
* `isPadding_of_lineForm`: a line without padding at its end has no operand with padding at its end.
-/

namespace BytecodeRegions

/-- The operand is no word that ends in an information separator. -/
def Operand.EndsPlainly : Operand → Prop
  | number _ => True
  | word w => ∀ c ∈ w.toList.getLast?, ¬(0x1c ≤ c.toNat ∧ c.toNat ≤ 0x1f)

instance : (a : Operand) → Decidable a.EndsPlainly
  | .number _ => isTrue trivial
  | .word w => Option.decidableForallMem w.toList.getLast?

/-- The last operand of an instruction is no word that ends in an information separator. -/
def Instruction.EndsPlainly {τ : Type} (i : Instruction τ) : Prop :=
  ∀ a ∈ i.operands.getLast?, a.EndsPlainly

instance {τ : Type} (i : Instruction τ) : Decidable i.EndsPlainly :=
  Option.decidableForallMem i.operands.getLast?

namespace Listing

/-! ### Words -/

theorem isOperandChar_of_toNat {c : Char} (hlow : 0x20 < c.toNat) (hhigh : c.toNat < 0x85)
    (hsemi : c.toNat ≠ 59) : isOperandChar c = true := by
  have hblank := Text.isBlank_of_isPadding_eq_false (Text.isPadding_eq_false hlow hhigh)
  have hne : c ≠ ';' := by
    rintro rfl
    exact hsemi rfl
  rw [isOperandChar, hblank, bne_iff_ne.2 hne]
  rfl

/-- A word of characters between the space and U+0085, none of them a semicolon. -/
def IsPlain (s : List Char) : Prop :=
  s ≠ [] ∧ ∀ c ∈ s, 0x20 < c.toNat ∧ c.toNat < 0x85 ∧ c.toNat ≠ 59

theorem IsPlain.isOperand {s : List Char} (hs : IsPlain s) : IsOperand s :=
  ⟨hs.1, fun c hc => isOperandChar_of_toNat (hs.2 c hc).1 (hs.2 c hc).2.1 (hs.2 c hc).2.2⟩

theorem IsPlain.append {s s' : List Char} (hs : IsPlain s) (hs' : IsPlain s') :
    IsPlain (s ++ s') := by
  refine ⟨by simp [hs.1], fun c hc => ?_⟩
  rcases List.mem_append.1 hc with hc | hc
  · exact hs.2 c hc
  · exact hs'.2 c hc

theorem isPlain_decimalNat (n : Nat) : IsPlain (Text.decimalNat n).toList := by
  refine ⟨?_, fun c hc => ?_⟩
  · rw [Text.toList_decimalNat]
    exact Nat.toDigits_ne_nil
  · have hrange := Text.toNat_of_isDigit (Text.isDigit_of_mem_decimalNat hc)
    omega

theorem isPlain_decimal (z : Int) : IsPlain (Text.decimal z).toList := by
  cases z with
  | ofNat n => exact isPlain_decimalNat n
  | negSucc n =>
    have hsign : IsPlain "-".toList := by simp [IsPlain]
    rw [Text.decimal, String.toList_append]
    exact hsign.append (isPlain_decimalNat (n + 1))

theorem isPlain_labelText (p : Nat) : IsPlain (labelText p).toList := by
  have hletter : IsPlain "L".toList := by simp [IsPlain]
  rw [labelText, String.toList_append]
  exact hletter.append (isPlain_decimalNat p)

theorem isName_labelText (p : Nat) : IsName (labelText p).toList := by
  rw [labelText, String.toList_append]
  refine ⟨'L', (Text.decimalNat p).toList, by simp, by decide, fun c hc => ?_⟩
  have hrange := Text.toNat_of_isDigit (Text.isDigit_of_mem_decimalNat hc)
  have hword : ∀ n < 58, 48 ≤ n → Text.wordRanges.covers n = true := by decide
  rw [isNameChar, Text.isWord, hword c.toNat (by omega) hrange.1, Bool.true_or]

theorem isPlain_name (op : Opcode) : IsPlain op.name.toList := by
  obtain ⟨c, s, hcs, -⟩ := op.isName_name
  refine ⟨hcs ▸ List.cons_ne_nil c s, fun d hd => ?_⟩
  have hrange := Opcode.toNat_of_mem_name hd
  omega

theorem isPlain_linkText (l : Link) : IsPlain (linkText l).toList := by
  cases l with
  | bound p => exact isPlain_labelText p
  | free p =>
    have hletter : IsPlain "L".toList := by simp [IsPlain]
    rw [linkText, String.toList_append]
    exact hletter.append (isPlain_decimal p)

theorem IsPlain.isPadding_of_mem_getLast? {s : List Char} (hs : IsPlain s) :
    ∀ c ∈ s.getLast?, Text.isPadding c = false := by
  intro c hc
  have hrange := hs.2 c (List.mem_of_getLast? hc)
  exact Text.isPadding_eq_false hrange.1 hrange.2.1

/-! ### The words of an instruction -/

/-- The operands of an instruction as they are written. -/
def instructionArguments (i : Instruction Link) : List String :=
  (instructionWords i).tail

theorem instructionWords_eq (i : Instruction Link) :
    instructionWords i = i.name :: instructionArguments i :=
  rfl

theorem isPlain_case {k : Int} {t : Link} :
    IsPlain (Text.decimal k ++ ":" ++ linkText t).toList := by
  have hcolon : IsPlain ":".toList := by simp [IsPlain]
  rw [String.toList_append, String.toList_append]
  exact ((isPlain_decimal k).append hcolon).append (isPlain_linkText t)

theorem isPlain_default {t : Link} : IsPlain ("default:" ++ linkText t).toList := by
  have hword : IsPlain "default:".toList := by simp [IsPlain]
  rw [String.toList_append]
  exact hword.append (isPlain_linkText t)

/-- The words of an instruction in front of its further operands are plain. -/
theorem exists_words (i : Instruction Link) : ∃ front, (∀ w ∈ front, IsPlain w.toList) ∧
    (instructionWords i = front ∨ instructionWords i = front ++ i.operands.map Operand.text) := by
  have hname : IsPlain i.name.toList := isPlain_name i.opcode
  rw [instructionWords]
  split
  · refine ⟨_, List.forall_mem_cons.2 ⟨hname, fun w hw => ?_⟩, .inl rfl⟩
    rcases List.mem_append.1 hw with hw | hw
    · obtain ⟨⟨k, t⟩, -, rfl⟩ := List.mem_map.1 hw
      exact isPlain_case
    · obtain ⟨t, -, rfl⟩ := List.mem_map.1 hw
      exact isPlain_default
  · split
    · refine ⟨_, List.forall_mem_cons.2 ⟨hname, fun w hw => ?_⟩, .inl rfl⟩
      obtain ⟨t, -, rfl⟩ := List.mem_map.1 hw
      exact isPlain_linkText t
    · refine ⟨i.name :: _, List.forall_mem_cons.2 ⟨hname, fun w hw => ?_⟩, .inr rfl⟩
      split at hw
      · obtain ⟨s, -, rfl⟩ := List.mem_map.1 hw
        exact isPlain_decimalNat s
      · cases hw

theorem isOperand_text {a : Operand} (ha : a.Listable) : IsOperand a.text.toList := by
  cases a with
  | number n => exact (isPlain_decimal n).isOperand
  | word w => exact ha.1

theorem isOperand_of_mem_instructionWords {i : Instruction Link} (hi : i.Listable) :
    ∀ w ∈ instructionWords i, IsOperand w.toList := by
  intro w hw
  obtain ⟨front, hfront, hwords | hwords⟩ := exists_words i
  · exact (hfront w (hwords ▸ hw)).isOperand
  · rw [hwords, List.mem_append] at hw
    rcases hw with hw | hw
    · exact (hfront w hw).isOperand
    · obtain ⟨a, ha, rfl⟩ := List.mem_map.1 hw
      exact isOperand_text (hi.operand a ha)

/-- The last word of an instruction has no padding at its end, unless it is an operand that has. -/
theorem isPadding_of_getLast?_instructionWords {i : Instruction Link} (hi : i.Listable)
    (hend : i.EndsPlainly) {w : String} (hw : (instructionWords i).getLast? = some w) :
    ∀ c ∈ w.toList.getLast?, Text.isPadding c = false := by
  intro c hc
  obtain ⟨front, hfront, hwords | hwords⟩ := exists_words i
  · exact (hfront w (hwords ▸ List.mem_of_getLast? hw)).isPadding_of_mem_getLast? c hc
  · rw [hwords, List.getLast?_append, List.getLast?_map] at hw
    cases hlast : i.operands.getLast? with
    | none =>
      rw [hlast, Option.map_none, Option.none_or] at hw
      exact (hfront w (List.mem_of_getLast? hw)).isPadding_of_mem_getLast? c hc
    | some a =>
      rw [hlast, Option.map_some, Option.some_or, Option.some.injEq] at hw
      subst hw
      cases a with
      | number n => exact (isPlain_decimal n).isPadding_of_mem_getLast? c hc
      | word w =>
        have hchar : isOperandChar c = true :=
          (hi.operand _ (List.mem_of_getLast? hlast)).1.2 c (List.mem_of_getLast? hc)
        have hblank : Text.isBlank c = false := by
          simp only [isOperandChar, Bool.and_eq_true, Bool.not_eq_true'] at hchar
          exact hchar.1
        have hseparator := hend (.word w) hlast c hc
        rw [Text.isPadding, hblank, Bool.false_or, Bool.and_eq_false_iff, decide_eq_false_iff_not,
          decide_eq_false_iff_not]
        omega

/-! ### Lines of words -/

theorem toList_intercalate_cons (w : String) (ws : List String) :
    (" ".intercalate (w :: ws)).toList = w.toList ++ ws.flatMap fun a => ' ' :: a.toList := by
  induction ws generalizing w with
  | nil => simp
  | cons a ws ih =>
    rw [String.intercalate_cons_cons, String.toList_append, String.toList_append, ih]
    simp

theorem arguments_of_words {ws : List String} (hws : ∀ w ∈ ws, IsOperand w.toList) :
    Arguments ws (ws.flatMap fun a => ' ' :: a.toList) := by
  induction ws with
  | nil => exact .nil
  | cons w ws ih =>
    obtain ⟨hw, hws⟩ := List.forall_mem_cons.1 hws
    have hgap : IsGap [' '] := by simp [IsGap, Text.isGap]
    simpa using Arguments.cons hgap (List.cons_ne_nil _ _) hw (ih hws)

/-- The characters of a line are spaces and characters of operands. -/
def IsLine (s : List Char) : Prop :=
  ∀ c ∈ s, c = ' ' ∨ isOperandChar c = true

theorem IsLine.notMem {s : List Char} (hs : IsLine s) {c : Char} (hspace : c ≠ ' ')
    (hoperand : isOperandChar c = false) : c ∉ s := by
  intro hc
  rcases hs c hc with h | h
  · exact hspace h
  · rw [hoperand] at h
    cases h

theorem IsLine.append {s s' : List Char} (hs : IsLine s) (hs' : IsLine s') : IsLine (s ++ s') := by
  intro c hc
  rcases List.mem_append.1 hc with hc | hc
  · exact hs c hc
  · exact hs' c hc

theorem IsOperand.isLine {s : List Char} (hs : IsOperand s) : IsLine s :=
  fun c hc => .inr (hs.2 c hc)

theorem isLine_words {ws : List String} (hws : ∀ w ∈ ws, IsOperand w.toList) :
    IsLine (" ".intercalate ws).toList := by
  cases ws with
  | nil => simp [IsLine]
  | cons w ws =>
    obtain ⟨hw, hws⟩ := List.forall_mem_cons.1 hws
    rw [toList_intercalate_cons]
    refine hw.isLine.append fun c hc => ?_
    obtain ⟨a, ha, hc⟩ := List.mem_flatMap.1 hc
    rcases List.mem_cons.1 hc with rfl | hc
    · exact .inl rfl
    · exact (hws a ha).isLine c hc

theorem exists_suffix_intercalate {ws : List String} {w : String} (hw : ws.getLast? = some w) :
    ∃ s, (" ".intercalate ws).toList = s ++ w.toList := by
  obtain ⟨front, rfl⟩ := List.getLast?_eq_some_iff.1 hw
  cases front with
  | nil => exact ⟨[], by simp⟩
  | cons a front =>
    refine ⟨(" ".intercalate (a :: front) ++ " ").toList, ?_⟩
    rw [String.intercalate_append_of_ne_nil (List.cons_ne_nil a front) (List.cons_ne_nil w []),
      String.intercalate_singleton, String.toList_append]

theorem trimEnd_eq_self {s : List Char} (hs : ∀ c ∈ s.getLast?, Text.isPadding c = false) :
    Text.trimEnd s = s := by
  rcases List.eq_nil_or_concat' s with rfl | ⟨s, c, rfl⟩
  · rfl
  · exact Text.trimEnd_append_singleton (hs c List.getLast?_concat)

theorem isPadding_of_getLast?_trimEnd (s : List Char) :
    ∀ c ∈ (Text.trimEnd s).getLast?, Text.isPadding c = false := by
  intro c hc
  rw [Text.trimEnd, List.getLast?_reverse] at hc
  have hhead := List.head?_dropWhile_not Text.isPadding s.reverse
  rw [Option.mem_def.1 hc] at hhead
  exact hhead

theorem mem_of_mem_trimEnd {s : List Char} {c : Char} (hc : c ∈ Text.trimEnd s) : c ∈ s := by
  rw [Text.trimEnd, List.mem_reverse] at hc
  exact List.mem_reverse.1 ((List.dropWhile_sublist _).mem hc)

/-! ### What the lines say -/

/-- The statement of the line of an instruction. -/
def instructionStatement (labelled : Bool) (p : Nat) (i : Instruction Link) : Statement :=
  if labelled then .labelled (labelText p) i.name (instructionArguments i)
  else .instruction i.name (instructionArguments i)

/-- The column of labels of the line at `p`. -/
def labelPart (labelled : Bool) (p : Nat) : List Char :=
  (if labelled then (labelText p).toList ++ [':'] else []).rightpad labelColumn ' '

theorem toList_instructionLine (labelled : Bool) (p : Nat) (i : Instruction Link) :
    (instructionLine labelled p i).toList =
      Text.trimEnd (labelPart labelled p ++ (instructionText i).toList) :=
  String.toList_ofList

/-- A column of labels is a label with its colon, if there is one, and a gap. -/
theorem labelPart_eq (labelled : Bool) (p : Nat) : ∃ gap, IsGap gap ∧ labelPart labelled p =
    (if labelled then (labelText p).toList ++ [':'] else []) ++ gap :=
  ⟨_, fun _ hc => List.eq_of_mem_replicate hc ▸ rfl, rfl⟩

theorem isLine_labelPart (labelled : Bool) (p : Nat) : IsLine (labelPart labelled p) := by
  have hgap : IsLine (List.replicate (labelColumn -
      (if labelled then (labelText p).toList ++ [':'] else []).length) ' ') :=
    fun c hc => .inl (List.eq_of_mem_replicate hc)
  refine IsLine.append ?_ hgap
  split
  · refine (isPlain_labelText p).isOperand.isLine.append fun c hc => ?_
    rw [List.mem_singleton.1 hc]
    exact .inr (by decide)
  · exact nofun

theorem isLine_instructionLine {i : Instruction Link} (hi : i.Listable) (labelled : Bool)
    (p : Nat) : IsLine (instructionLine labelled p i).toList := by
  rw [toList_instructionLine]
  intro c hc
  refine IsLine.append (isLine_labelPart labelled p) ?_ c (mem_of_mem_trimEnd hc)
  exact isLine_words (isOperand_of_mem_instructionWords hi)

theorem toList_instructionLine_of_endsPlainly {i : Instruction Link} (hi : i.Listable)
    (hend : i.EndsPlainly) (labelled : Bool) (p : Nat) :
    (instructionLine labelled p i).toList = labelPart labelled p ++ (i.name.toList ++
      (instructionArguments i).flatMap fun a => ' ' :: a.toList) := by
  rw [← toList_intercalate_cons, ← instructionWords_eq, toList_instructionLine, instructionText]
  refine trimEnd_eq_self fun c hc => ?_
  obtain ⟨w, hw⟩ : ∃ w, (instructionWords i).getLast? = some w :=
    Option.ne_none_iff_exists'.1 (by simp [instructionWords_eq])
  obtain ⟨s, hs⟩ := exists_suffix_intercalate hw
  have hne := (isOperand_of_mem_instructionWords hi w (List.mem_of_getLast? hw)).1
  rw [hs, ← List.append_assoc, List.getLast?_append_of_ne_nil _ hne] at hc
  exact isPadding_of_getLast?_instructionWords hi hend hw c hc

/-- The line of an instruction has the form of its statement. -/
theorem lineForm_instructionLine {i : Instruction Link} (hi : i.Listable) (hend : i.EndsPlainly)
    (labelled : Bool) (p : Nat) :
    LineForm (some (instructionStatement labelled p i)) (instructionLine labelled p i).toList := by
  have harguments : ∀ a ∈ instructionArguments i, IsOperand a.toList := fun a ha =>
    isOperand_of_mem_instructionWords hi a (List.mem_of_mem_tail ha)
  have hinstruction : InstructionForm i.name (instructionArguments i)
      (i.name.toList ++ (instructionArguments i).flatMap fun a => ' ' :: a.toList) := by
    have h := InstructionForm.intro i.opcode.isName_name (arguments_of_words harguments)
    rwa [String.ofList_toList] at h
  obtain ⟨gap, hgap, hlabel⟩ := labelPart_eq labelled p
  rw [toList_instructionLine_of_endsPlainly hi hend, hlabel, instructionStatement]
  have hnil : IsGap [] := nofun
  cases labelled with
  | false => simpa using LineForm.statement hgap (.instruction hinstruction) hnil (.inl rfl)
  | true =>
    have hform := Statement.Form.labelled (isName_labelText p) hgap hinstruction
    rw [String.ofList_toList] at hform
    simpa using LineForm.statement hnil hform hnil (.inl rfl)

/-! ### Lines of handlers -/

theorem isOperand_typeText {x : Handler} {n : Nat} (hx : x.Listable n) :
    IsOperand x.typeText.toList := by
  have hall : IsPlain "all".toList := by simp [IsPlain]
  rw [Handler.typeText]
  split
  · exact hall.isOperand
  · next t ht =>
    split
    · exact hall.isOperand
    · exact (hx.type t ht).2

/-- The words of the declaration of a handler. -/
def handlerWords (x : Handler) : List String :=
  [x.typeText, "from", labelText x.start.position, "to", labelText x.stop.position, "using",
    labelText x.entry.position]

theorem isOperand_of_mem_handlerWords {x : Handler} {n : Nat} (hx : x.Listable n) :
    ∀ w ∈ handlerWords x, IsOperand w.toList := by
  have hword (w : String) (hw : w = "from" ∨ w = "to" ∨ w = "using") : IsOperand w.toList := by
    refine IsPlain.isOperand ?_
    rcases hw with rfl | rfl | rfl <;> simp [IsPlain]
  have hlabel (p : Nat) : IsOperand (labelText p).toList := (isPlain_labelText p).isOperand
  simp only [handlerWords, List.forall_mem_cons, hlabel, isOperand_typeText hx, true_and]
  exact ⟨hword _ (.inl rfl), hword _ (.inr (.inl rfl)), hword _ (.inr (.inr rfl)), nofun⟩

theorem toList_handlerLine (x : Handler) :
    (handlerLine x).toList = catchWord ++ (handlerWords x).flatMap fun a => ' ' :: a.toList := by
  simp [handlerLine, handlerWords, catchWord]

theorem isLine_handlerLine {x : Handler} {n : Nat} (hx : x.Listable n) :
    IsLine (handlerLine x).toList := by
  have hcatch : catchWord.all isOperandChar = true := by decide
  rw [toList_handlerLine]
  refine IsLine.append (fun c hc => .inr ?_) fun c hc => ?_
  · exact List.all_eq_true.1 hcatch c hc
  · obtain ⟨a, ha, hc⟩ := List.mem_flatMap.1 hc
    rcases List.mem_cons.1 hc with rfl | hc
    · exact .inl rfl
    · exact (isOperand_of_mem_handlerWords hx a ha).isLine c hc

theorem lineForm_handlerLine {x : Handler} {n : Nat} (hx : x.Listable n) :
    LineForm (some (.handler (handlerWords x))) (handlerLine x).toList := by
  have hnil : IsGap [] := nofun
  have hform : Statement.Form (.handler (handlerWords x)) (handlerLine x).toList := by
    rw [toList_handlerLine]
    exact .handler (arguments_of_words (isOperand_of_mem_handlerWords hx))
  simpa using LineForm.statement hnil hform hnil (.inl rfl)

theorem isPadding_of_getLast?_handlerLine (x : Handler) :
    ∀ c ∈ (handlerLine x).toList.getLast?, Text.isPadding c = false := by
  have hplain := isPlain_labelText x.entry.position
  intro c hc
  rw [handlerLine, String.toList_append, List.getLast?_append_of_ne_nil _ hplain.1] at hc
  exact hplain.isPadding_of_mem_getLast? c hc

/-! ### The whole listing -/

theorem unlines_eq_intercalate {ls : List (List Char)} (hls : ls ≠ []) :
    ['\n'].intercalate ls ++ ['\n'] = unlines ls := by
  induction ls with
  | nil => exact absurd rfl hls
  | cons l ls ih =>
    cases ls with
    | nil => simp
    | cons k ls =>
      rw [List.intercalate_cons_cons, List.append_assoc, List.append_assoc,
        ih (List.cons_ne_nil k ls)]
      simp

variable {m : Method}

theorem mem_formatLines_iff {l : String} : l ∈ formatLines m ↔
    (∃ i p, (i, p) ∈ m.body.code.toList.zipIdx ∧
      instructionLine ((targeted m).contains p) p i = l) ∨ ∃ x ∈ m.handlers, handlerLine x = l := by
  simp only [formatLines, List.mem_append, List.mem_map, Prod.exists]

theorem listable_of_mem_zipIdx (hm : m.Listable) {i : Instruction Link} {p : Nat}
    (hi : (i, p) ∈ m.body.code.toList.zipIdx) : i.Listable :=
  hm.instructions i (Array.mem_toList_iff.1 (List.fst_mem_of_mem_zipIdx hi))

theorem isLine_of_mem_formatLines (hm : m.Listable) {l : String} (hl : l ∈ formatLines m) :
    IsLine l.toList := by
  rcases mem_formatLines_iff.1 hl with ⟨i, p, hi, rfl⟩ | ⟨x, hx, rfl⟩
  · exact isLine_instructionLine (listable_of_mem_zipIdx hm hi) _ p
  · exact isLine_handlerLine (hm.handlers x hx)

theorem isPadding_of_mem_formatLines {l : String} (hl : l ∈ formatLines m) :
    ∀ c ∈ l.toList.getLast?, Text.isPadding c = false := by
  rcases mem_formatLines_iff.1 hl with ⟨i, p, -, rfl⟩ | ⟨x, -, rfl⟩
  · rw [toList_instructionLine]
    exact isPadding_of_getLast?_trimEnd _
  · exact isPadding_of_getLast?_handlerLine x

/-- The text of a listing is its lines, as it stands. -/
theorem linesOf_format (hm : m.Listable) :
    linesOf (normalised (format m)) = (formatLines m).map String.toList := by
  have hline (c : Char) (hspace : c ≠ ' ') (hoperand : isOperandChar c = false) :
      ∀ l ∈ (formatLines m).map String.toList, c ∉ l := by
    intro l hl
    obtain ⟨k, hk, rfl⟩ := List.mem_map.1 hl
    exact (isLine_of_mem_formatLines hm hk).notMem hspace hoperand
  have hne : (formatLines m).map String.toList ≠ [] := by
    have hcode : m.body.code.toList ≠ [] := by
      intro h
      have hpos := m.nonempty
      simp [Body.size, Array.toList_eq_nil_iff.1 h] at hpos
    simp [formatLines, hcode]
  have htext : (format m).toList = unlines ((formatLines m).map String.toList) := by
    rw [format, String.toList_append, String.toList_intercalate, ← unlines_eq_intercalate hne]
    simp
  have hreturn : '\r' ∉ (format m).toList := by
    intro h
    rw [htext, unlines, List.mem_flatMap] at h
    obtain ⟨l, hl, h⟩ := h
    rcases List.mem_append.1 h with h | h
    · exact hline '\r' (by decide) (by decide) l hl h
    · exact absurd h (by decide)
  have hnormal : normalised (format m) = (format m).toList := by
    rw [normalised, lineFeeds_eq_self hreturn, if_pos]
    rw [htext, ← unlines_eq_intercalate hne]
    exact List.getLast?_concat
  rw [hnormal, htext]
  exact linesOf_unlines (hline '\n' (by decide) (by decide))

/-- What the lines of a listing say. -/
def statements (m : Method) : List (Option Statement) :=
  m.body.code.toList.zipIdx.map
      (fun (i, p) => some (instructionStatement ((targeted m).contains p) p i)) ++
    m.handlers.map fun x => some (.handler (handlerWords x))

/-- The listing of a method is read into what its lines say. -/
theorem read_format (hm : m.Listable) (hend : ∀ i ∈ m.body.code, i.EndsPlainly) :
    read (format m) = .ok (items (statements m)) := by
  refine read_eq_ok ?_
  rw [linesOf_format hm, statements, formatLines, List.map_append, List.map_map, List.map_map]
  refine List.rel_append ?_ ?_ <;>
    rw [List.forall₂_map_left_iff, List.forall₂_map_right_iff, List.forall₂_same]
  · rintro ⟨i, p⟩ hi
    have hmem := Array.mem_toList_iff.1 (List.fst_mem_of_mem_zipIdx hi)
    exact lineForm_instructionLine (hm.instructions i hmem) (hend i hmem) _ p
  · exact fun x hx => lineForm_handlerLine (hm.handlers x hx)

/-! ### The ends of lines -/

theorem Arguments.exists_suffix {as : List String} {s : List Char} (h : Arguments as s)
    {a : String} (ha : as.getLast? = some a) : ∃ r, s = r ++ a.toList := by
  induction h with
  | nil => cases ha
  | @cons as gap word s _ _ _ hs ih =>
    cases as with
    | nil =>
      cases hs
      obtain rfl : String.ofList word = a := Option.some.inj ha
      exact ⟨gap, by simp⟩
    | cons b as =>
      rw [List.getLast?_cons_cons] at ha
      obtain ⟨r, rfl⟩ := ih ha
      exact ⟨gap ++ (word ++ r), by simp⟩

theorem Statement.Form.exists_suffix {st : Statement} {s : List Char} (h : st.Form s) {a : String}
    (ha : st.operands.getLast? = some a) : ∃ r, s = r ++ a.toList := by
  cases h with
  | label _ => cases ha
  | handler hs =>
    obtain ⟨r, rfl⟩ := hs.exists_suffix ha
    exact ⟨_, (List.append_assoc ..).symm⟩
  | @labelled label gap _ _ _ _ _ hs =>
    obtain @⟨_, name, _, _, hs⟩ := hs
    obtain ⟨r, rfl⟩ := hs.exists_suffix ha
    exact ⟨label ++ ':' :: (gap ++ (name ++ r)), by simp⟩
  | instruction hs =>
    obtain ⟨-, hs⟩ := hs
    obtain ⟨r, rfl⟩ := hs.exists_suffix ha
    exact ⟨_, (List.append_assoc ..).symm⟩

/-- In a line without comment that does not end in padding, the last operand does not either. -/
theorem isPadding_of_lineForm {st : Statement} {l : List Char} (h : LineForm (some st) l)
    (hcomment : ';' ∉ l) (hl : ∀ c ∈ l.getLast?, Text.isPadding c = false) {a : String}
    (ha : st.operands.getLast? = some a) : ∀ c ∈ a.toList.getLast?, Text.isPadding c = false := by
  cases h with
  | statement hgap hs hgap' hcom =>
    next gap s gap' comment =>
    have hnone : comment = [] := by
      rcases hcom with h | ⟨r, rfl⟩
      · exact h
      · simp at hcomment
    have hnogap : gap' = [] := by
      rcases List.eq_nil_or_concat' gap' with h | ⟨g, c, rfl⟩
      · exact h
      · have hpadding := hl c (by simp [hnone])
        have hblank := Text.isBlank_of_isGap (hgap' c (by simp))
        rw [Text.isBlank_of_isPadding_eq_false hpadding] at hblank
        cases hblank
    obtain ⟨r, rfl⟩ := hs.exists_suffix ha
    have hne := (hs.isOperand a (List.mem_of_getLast? ha)).1
    subst hnone hnogap
    rw [List.append_nil, List.append_nil, ← List.append_assoc,
      List.getLast?_append_of_ne_nil _ hne] at hl
    exact hl

end Listing

end BytecodeRegions
