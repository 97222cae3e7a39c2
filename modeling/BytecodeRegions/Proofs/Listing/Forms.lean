import BytecodeRegions.Listing.Grammar
import Mathlib.Data.List.TakeWhile

/-!
# The forms of lines

The grammar of a line, said without any order of alternatives: what a name, an operand, a statement
and a line look like. The readers commit to the first alternative that matches and to the longest
run of characters, so they might miss a form; they never do. A word ends before a gap, a semicolon
or a line feed, none of which can go on a name or an operand, and this one fact makes every choice
of the readers the only one.

## Main definitions

* `IsGap`, `IsName`, `IsOperand`, `IsComment`: the forms of the parts of a line.
* `Arguments`, `InstructionForm`, `Statement.Form`: operands, instructions and statements.
* `LineForm`: lines, without their line feed.

## Main results

* `line?_eq_some_iff`: the reader of lines accepts exactly the forms.
* `LineForm.unique`: a line has one statement at most, whatever the derivation.
-/

namespace BytecodeRegions.Listing

/-- Any number of spaces and tabs. -/
def IsGap (s : List Char) : Prop :=
  ∀ c ∈ s, Text.isGap c = true

/-- A letter, an underscore or a dollar sign, and then any number of characters of names. -/
def IsName (s : List Char) : Prop :=
  ∃ c r, s = c :: r ∧ isNameStart c = true ∧ ∀ d ∈ r, isNameChar d = true

/-- One or more characters that are neither blanks nor semicolons. -/
def IsOperand (s : List Char) : Prop :=
  s ≠ [] ∧ ∀ c ∈ s, isOperandChar c = true

/-- Nothing, or a semicolon and anything after it. -/
def IsComment (s : List Char) : Prop :=
  s = [] ∨ ∃ r, s = ';' :: r

/-- Operands, each with a gap of at least one character in front of it. -/
inductive Arguments : List String → List Char → Prop
  | nil : Arguments [] []
  | cons {as : List String} {gap word s : List Char} (hgap : IsGap gap) (hne : gap ≠ [])
      (hword : IsOperand word) (hs : Arguments as s) :
      Arguments (String.ofList word :: as) (gap ++ (word ++ s))

/-- A name and operands. -/
inductive InstructionForm : String → List String → List Char → Prop
  | intro {as : List String} {name s : List Char} (hname : IsName name) (hs : Arguments as s) :
      InstructionForm (String.ofList name) as (name ++ s)

/-- The alternatives of a statement, in no order. -/
inductive Statement.Form : Statement → List Char → Prop
  | handler {a : String} {as : List String} {s : List Char} (hs : Arguments (a :: as) s) :
      Form (.handler (a :: as)) (catchWord ++ s)
  | label {name : List Char} (hname : IsName name) :
      Form (.label (String.ofList name)) (name ++ [':'])
  | labelled {label gap s : List Char} {name : String} {as : List String} (hlabel : IsName label)
      (hgap : IsGap gap) (hs : InstructionForm name as s) :
      Form (.labelled (String.ofList label) name as) (label ++ ':' :: (gap ++ s))
  | instruction {name : String} {as : List String} {s : List Char}
      (hs : InstructionForm name as s) : Form (.instruction name as) s

/-- A line: a gap, perhaps a statement, a gap and perhaps a comment. -/
inductive LineForm : Option Statement → List Char → Prop
  | blank {gap comment : List Char} (hgap : IsGap gap) (hcomment : IsComment comment) :
      LineForm none (gap ++ comment)
  | statement {st : Statement} {gap s gap' comment : List Char} (hgap : IsGap gap)
      (hs : st.Form s) (hgap' : IsGap gap') (hcomment : IsComment comment) :
      LineForm (some st) (gap ++ (s ++ (gap' ++ comment)))

/-! ### Characters that end a word -/

/-- The characters that may follow a name or an operand. -/
def EndsWord (c : Char) : Prop :=
  Text.isGap c = true ∨ c = ';' ∨ c = '\n'

theorem EndsWord.isNameChar_eq {c : Char} (hc : EndsWord c) : isNameChar c = false := by
  rcases hc with hc | rfl | rfl
  · simp only [Text.isGap, Bool.or_eq_true, beq_iff_eq] at hc
    rcases hc with rfl | rfl <;> decide
  · decide
  · decide

theorem EndsWord.isOperandChar_eq {c : Char} (hc : EndsWord c) : isOperandChar c = false := by
  rcases hc with hc | rfl | rfl
  · rw [isOperandChar, Text.isBlank_of_isGap hc]
    rfl
  · decide
  · decide

theorem isNameChar_lineFeed : isNameChar '\n' = false :=
  EndsWord.isNameChar_eq (.inr (.inr rfl))

theorem isOperandChar_lineFeed : isOperandChar '\n' = false :=
  EndsWord.isOperandChar_eq (.inr (.inr rfl))

theorem isGap_eq_false {c : Char} (hc : isNameStart c = true ∨ c = '.' ∨ c = ';' ∨ c = '\n') :
    Text.isGap c = false := by
  rcases hc with hc | rfl | rfl | rfl
  · cases hgap : Text.isGap c with
    | false => rfl
    | true =>
      simp only [Text.isGap, Bool.or_eq_true, beq_iff_eq] at hgap
      rcases hgap with rfl | rfl <;> exact absurd hc (by decide)
  all_goals decide

/-- A text goes on with a given class of characters no further. -/
def Stops (p : Char → Bool) (s : List Char) : Prop :=
  ∀ c ∈ s.head?, p c = false

theorem Stops.takeWhile_append {p : Char → Bool} {w s : List Char} (hs : Stops p s)
    (hw : ∀ c ∈ w, p c = true) : (w ++ s).takeWhile p = w := by
  rw [List.takeWhile_append_of_pos hw]
  cases s with
  | nil => simp
  | cons c s => simp [hs c rfl]

theorem Stops.dropWhile_append {p : Char → Bool} {w s : List Char} (hs : Stops p s)
    (hw : ∀ c ∈ w, p c = true) : (w ++ s).dropWhile p = s := by
  rw [List.dropWhile_append_of_pos hw]
  cases s with
  | nil => simp
  | cons c s => simp [hs c rfl]

theorem skipGap_append {gap s : List Char} (hgap : IsGap gap) (hs : Stops Text.isGap s) :
    skipGap (gap ++ s) = s :=
  hs.dropWhile_append hgap

theorem stops_lineFeed {r : List Char} : Stops (· != '\n') ('\n' :: r) := by
  rintro _ ⟨⟩
  rfl

theorem bne_lineFeed {l : List Char} (hl : '\n' ∉ l) : ∀ c ∈ l, (c != '\n') = true := by
  intro c hc
  rw [bne_iff_ne]
  rintro rfl
  exact hl hc

/-- A text is cut at its first line feed in one way only. -/
theorem eq_of_append_lineFeed {l l' r r' : List Char} (hl : '\n' ∉ l) (hl' : '\n' ∉ l')
    (h : l ++ '\n' :: r = l' ++ '\n' :: r') : l = l' ∧ r = r' := by
  have hbefore := congrArg (List.takeWhile (· != '\n')) h
  rw [stops_lineFeed.takeWhile_append (bne_lineFeed hl),
    stops_lineFeed.takeWhile_append (bne_lineFeed hl')] at hbefore
  subst hbefore
  exact ⟨rfl, (List.cons.inj (List.append_cancel_left h)).2⟩

/-! ### What follows a statement -/

/-- The end of a line after its statement, with its line feed and the text `r` after it. -/
inductive Ending (r : List Char) : List Char → Prop
  | intro {gap comment : List Char} (hgap : IsGap gap) (hcomment : IsComment comment)
      (hline : '\n' ∉ comment) : Ending r (gap ++ (comment ++ '\n' :: r))

section Ending

variable {r s comment : List Char}

theorem head_comment (hcomment : IsComment comment) :
    ∃ c u, comment ++ '\n' :: r = c :: u ∧ (c = ';' ∨ c = '\n') := by
  rcases hcomment with rfl | ⟨u, rfl⟩
  · exact ⟨'\n', r, rfl, .inr rfl⟩
  · exact ⟨';', _, rfl, .inl rfl⟩

theorem stops_gap_comment (hcomment : IsComment comment) :
    Stops Text.isGap (comment ++ '\n' :: r) := by
  obtain ⟨c, u, hc, hclass⟩ := head_comment hcomment (r := r)
  rw [hc]
  rintro _ ⟨⟩
  exact isGap_eq_false (.inr (.inr hclass))

theorem Ending.head (hs : Ending r s) : ∃ c u, s = c :: u ∧ EndsWord c := by
  obtain ⟨hgap, hcomment, -⟩ := hs
  next gap comment =>
  cases gap with
  | nil =>
    obtain ⟨c, u, hc, hclass⟩ := head_comment hcomment (r := r)
    exact ⟨c, u, hc, .inr hclass⟩
  | cons c gap => exact ⟨c, _, rfl, .inl (hgap c List.mem_cons_self)⟩

theorem operand?_of_stops (hs : Stops isOperandChar s) : operand? s = none := by
  have hnil : s.takeWhile isOperandChar = [] := by simpa using hs.takeWhile_append (w := []) nofun
  rw [operand?, hnil]
  rfl

/-- No operand follows at the end of a line. -/
theorem Ending.argument?_eq_none (hs : Ending r s) : argument? s = none := by
  obtain ⟨hgap, hcomment, -⟩ := hs
  next gap comment =>
  have hskip : skipGap (gap ++ (comment ++ '\n' :: r)) = comment ++ '\n' :: r :=
    skipGap_append hgap (stops_gap_comment hcomment)
  obtain ⟨c, u, hc, hclass⟩ := head_comment hcomment (r := r)
  have hstops : Stops isOperandChar (comment ++ '\n' :: r) := by
    rw [hc]
    rintro _ ⟨⟩
    exact EndsWord.isOperandChar_eq (.inr hclass)
  rw [argument?, gap?, hskip]
  split
  · rfl
  · exact operand?_of_stops hstops

/-- The comment of a line, if it has one, runs to the line feed. -/
theorem comment_read (hcomment : IsComment comment) (hline : '\n' ∉ comment) :
    (optionally comment? (comment ++ '\n' :: r)).2 = '\n' :: r := by
  rcases hcomment with rfl | ⟨u, rfl⟩
  · rfl
  · exact stops_lineFeed.dropWhile_append
      (bne_lineFeed fun hmem => hline (List.mem_cons_of_mem ';' hmem))

end Ending

/-! ### The readers find every form -/

section Complete

variable {r s tail name : List Char} {as : List String}

theorem name?_append (hname : IsName name) (hs : Stops isNameChar s) :
    name? (name ++ s) = some (String.ofList name, s) := by
  obtain ⟨c, w, rfl, hc, hw⟩ := hname
  rw [List.cons_append, name?, if_pos hc, hs.takeWhile_append hw, hs.dropWhile_append hw]

theorem operand?_append {word : List Char} (hword : IsOperand word) (hs : Stops isOperandChar s) :
    operand? (word ++ s) = some (String.ofList word, s) := by
  rw [operand?, hs.takeWhile_append hword.2, hs.dropWhile_append hword.2, if_neg]
  simpa using hword.1

theorem argument?_append {gap word : List Char} (hgap : IsGap gap) (hne : gap ≠ [])
    (hword : IsOperand word) (hs : Stops isOperandChar s) :
    argument? (gap ++ (word ++ s)) = some (String.ofList word, s) := by
  obtain ⟨c, w, rfl⟩ := List.exists_cons_of_ne_nil hword.1
  have hstops : Stops Text.isGap (c :: w ++ s) := by
    rintro _ ⟨⟩
    have hc := hword.2 c List.mem_cons_self
    by_cases hblank : Text.isGap c = true
    · rw [EndsWord.isOperandChar_eq (.inl hblank)] at hc
      cases hc
    · exact Bool.eq_false_iff.2 hblank
  have hgap? : gap? (gap ++ (c :: w ++ s)) = some ((), c :: w ++ s) := by
    rw [gap?, hstops.takeWhile_append hgap, skipGap_append hgap hstops, if_neg]
    simpa using hne
  rw [argument?, hgap?]
  exact operand?_append hword hs

theorem Arguments.head (h : Arguments as s) (htail : Ending r tail) :
    ∃ c u, s ++ tail = c :: u ∧ EndsWord c := by
  cases h with
  | nil => exact htail.head
  | cons hgap hne _ _ =>
    next gap word s _ =>
    obtain ⟨c, u, rfl⟩ := List.exists_cons_of_ne_nil hne
    exact ⟨c, _, rfl, .inl (hgap c List.mem_cons_self)⟩

theorem Arguments.stops (h : Arguments as s) (htail : Ending r tail) {p : Char → Bool}
    (hp : ∀ c, EndsWord c → p c = false) : Stops p (s ++ tail) := by
  obtain ⟨c, u, hcu, hc⟩ := h.head htail
  rw [hcu]
  rintro _ ⟨⟩
  exact hp c hc

theorem arguments_append (h : Arguments as s) (htail : Ending r tail) :
    arguments (s ++ tail) = (as, tail) := by
  induction h with
  | nil =>
    rw [List.nil_append, arguments]
    split
    · rfl
    · next h => cases h.symm.trans htail.argument?_eq_none
  | cons hgap hne hword hs ih =>
    have harg := argument?_append hgap hne hword (hs.stops htail fun _ => EndsWord.isOperandChar_eq)
    rw [List.append_assoc, List.append_assoc, arguments]
    split
    · next h => cases h.symm.trans harg
    · next h =>
      cases h.symm.trans harg
      rw [ih]

theorem instruction?_append {n : String} (h : InstructionForm n as s) (htail : Ending r tail) :
    instruction? (s ++ tail) = some ((n, as), tail) := by
  obtain ⟨hname, hs⟩ := h
  have hn := name?_append hname (hs.stops htail fun _ => EndsWord.isNameChar_eq)
  rw [List.append_assoc, instruction?, hn]
  simp only [Option.bind_eq_bind, Option.bind_some, arguments_append hs htail]
  rfl

theorem label?_append (hname : IsName name) :
    label? (name ++ ':' :: s) = some (String.ofList name, s) := by
  have hs : Stops isNameChar (':' :: s) := by
    rintro _ ⟨⟩
    decide
  rw [label?, name?_append hname hs]
  rfl

/-- An instruction does not start with a label. -/
theorem label?_instruction {n : String} (h : InstructionForm n as s) (htail : Ending r tail) :
    label? (s ++ tail) = none := by
  obtain ⟨hname, hs⟩ := h
  next name s =>
  have hn := name?_append hname (hs.stops htail fun _ => EndsWord.isNameChar_eq)
  obtain ⟨c, u, hcu, hc⟩ := hs.head htail
  have hcolon : c ≠ ':' := by
    rintro rfl
    rcases hc with hc | hc | hc <;> revert hc <;> decide
  rw [List.append_assoc, label?, hn]
  simp only [Option.bind_eq_bind, Option.bind_some, hcu]
  split
  · next heq => exact absurd (List.cons.inj heq).1 hcolon
  · rfl

theorem catch?_of_head {c : Char} (hc : c ≠ '.') : catch? (c :: s) = none := by
  have hcatch : (c :: s).take 6 ≠ catchWord := by
    intro h
    exact hc (List.cons.inj h).1
  rw [catch?, afterCatch?, if_neg hcatch]
  rfl

theorem IsName.ne_dot {c : Char} (hc : isNameStart c = true) : c ≠ '.' := by
  rintro rfl
  exact absurd hc (by decide)

theorem catch?_name (hname : IsName name) : catch? (name ++ s) = none := by
  obtain ⟨c, w, rfl, hc, -⟩ := hname
  exact catch?_of_head (IsName.ne_dot hc)

theorem name?_of_head {c : Char} (hc : isNameStart c = false) : name? (c :: s) = none := by
  rw [name?, hc]
  rfl

theorem statement?_append {st : Statement} (h : st.Form s) (htail : Ending r tail) :
    statement? (s ++ tail) = some (st, tail) := by
  cases h with
  | handler hs =>
    cases hs with
    | cons hgap hne hword hs =>
      next as gap word s =>
      have hafter : afterCatch? (catchWord ++ (gap ++ (word ++ s)) ++ tail) =
          some (gap ++ (word ++ (s ++ tail))) := by
        simp [afterCatch?, catchWord]
      have harg := argument?_append hgap hne hword
        (hs.stops htail fun _ => EndsWord.isOperandChar_eq)
      simp only [statement?, catch?, hafter, Option.bind_eq_bind, Option.bind_some, harg,
        arguments_append hs htail]
      rfl
  | label hname =>
    next name =>
    obtain ⟨hgap, hcomment, hline⟩ := htail
    next gap comment =>
    have hassoc : name ++ [':'] ++ (gap ++ (comment ++ '\n' :: r)) =
        name ++ ':' :: (gap ++ (comment ++ '\n' :: r)) := by simp
    obtain ⟨c, u, hcu, hc⟩ := head_comment hcomment (r := r)
    have hnone : instruction? (skipGap (gap ++ (comment ++ '\n' :: r))) = none := by
      rw [skipGap_append hgap (stops_gap_comment hcomment), hcu, instruction?, name?_of_head]
      · rfl
      · rcases hc with rfl | rfl <;> decide
    rw [hassoc, statement?, catch?_name hname, labelled?, label?_append hname]
    simp only [Option.bind_eq_bind, Option.bind_some, hnone]
    rfl
  | labelled hlabel hgap hs =>
    next label gap s name as =>
    have hassoc : label ++ ':' :: (gap ++ s) ++ tail = label ++ ':' :: (gap ++ (s ++ tail)) := by
      simp
    have hstops : Stops Text.isGap (s ++ tail) := by
      obtain ⟨⟨c, w, rfl, hc, -⟩, -⟩ := hs
      rintro _ ⟨⟩
      exact isGap_eq_false (.inl hc)
    rw [hassoc, statement?, catch?_name hlabel, labelled?, label?_append hlabel]
    simp only [Option.bind_eq_bind, Option.bind_some, skipGap_append hgap hstops,
      instruction?_append hs htail]
    rfl
  | instruction hs =>
    have hcatch : catch? (s ++ tail) = none := by
      obtain ⟨hname, -⟩ := hs
      rw [List.append_assoc]
      exact catch?_name hname
    rw [statement?, hcatch, labelled?, label?_instruction hs htail, instruction?_append hs htail]
    rfl

/-- A statement starts with a name or with a dot. -/
theorem Statement.Form.head {st : Statement} (h : st.Form s) :
    ∃ c u, s = c :: u ∧ (isNameStart c = true ∨ c = '.') := by
  cases h with
  | handler hs => exact ⟨'.', _, rfl, .inr rfl⟩
  | label hname =>
    obtain ⟨c, w, rfl, hc, -⟩ := hname
    exact ⟨c, _, rfl, .inl hc⟩
  | labelled hlabel hgap hs =>
    obtain ⟨c, w, rfl, hc, -⟩ := hlabel
    exact ⟨c, _, rfl, .inl hc⟩
  | instruction hs =>
    obtain ⟨⟨c, w, rfl, hc, -⟩, hs⟩ := hs
    exact ⟨c, _, rfl, .inl hc⟩

theorem statement?_of_head {c : Char} (hname : isNameStart c = false) (hdot : c ≠ '.') :
    statement? (c :: s) = none := by
  rw [statement?, catch?_of_head hdot, labelled?, label?, instruction?, name?_of_head hname]
  rfl

theorem line?_append {st : Option Statement} {l : List Char} (h : LineForm st l)
    (hl : '\n' ∉ l) : line? (l ++ '\n' :: r) = some (st, r) := by
  cases h with
  | blank hgap hcomment =>
    next gap comment =>
    have hline : '\n' ∉ comment := fun h => hl (List.mem_append_right _ h)
    have hstops := stops_gap_comment hcomment (r := r)
    obtain ⟨c, u, hcu, hc⟩ := head_comment hcomment (r := r)
    have hnone : statement? (comment ++ '\n' :: r) = none := by
      rw [hcu]
      refine statement?_of_head ?_ ?_ <;> rcases hc with rfl | rfl <;> decide
    have hskip : skipGap (comment ++ '\n' :: r) = comment ++ '\n' :: r :=
      hstops.dropWhile_append (w := []) nofun
    rw [List.append_assoc, line?, skipGap_append hgap hstops, optionally, hnone]
    simp only [hskip, comment_read hcomment hline]
  | statement hgap hs hgap' hcomment =>
    next st gap s gap' comment =>
    have hline : '\n' ∉ comment := fun h => hl (by simp [h])
    have htail : Ending r (gap' ++ (comment ++ '\n' :: r)) := ⟨hgap', hcomment, hline⟩
    have hassoc : gap ++ (s ++ (gap' ++ comment)) ++ '\n' :: r =
        gap ++ (s ++ (gap' ++ (comment ++ '\n' :: r))) := by simp
    have hstops : Stops Text.isGap (s ++ (gap' ++ (comment ++ '\n' :: r))) := by
      obtain ⟨c, u, rfl, hc⟩ := hs.head
      rintro _ ⟨⟩
      exact isGap_eq_false (hc.imp_right .inl)
    rw [hassoc, line?, skipGap_append hgap hstops, optionally, statement?_append hs htail]
    simp only [skipGap_append hgap' (stops_gap_comment hcomment), comment_read hcomment hline]

end Complete

/-! ### The readers find nothing else -/

section Sound

variable {r s : List Char} {n : String} {as : List String}

theorem of_name?_eq_some (h : name? s = some (n, r)) :
    ∃ w, IsName w ∧ n = String.ofList w ∧ s = w ++ r := by
  cases s with
  | nil => cases h
  | cons c s =>
    rw [name?] at h
    split at h
    · next hc =>
      cases h
      refine ⟨_, ⟨c, _, rfl, hc, fun d hd => List.mem_takeWhile_imp hd⟩, rfl, ?_⟩
      rw [List.cons_append, List.takeWhile_append_dropWhile]
    · cases h

theorem of_operand?_eq_some (h : operand? s = some (n, r)) :
    ∃ w, IsOperand w ∧ n = String.ofList w ∧ s = w ++ r := by
  rw [operand?] at h
  split at h
  · cases h
  · next hne =>
    cases h
    refine ⟨_, ⟨by simpa using hne, fun c hc => List.mem_takeWhile_imp hc⟩, rfl, ?_⟩
    rw [List.takeWhile_append_dropWhile]

theorem skipGap_spec (s : List Char) : ∃ gap, IsGap gap ∧ s = gap ++ skipGap s :=
  ⟨s.takeWhile Text.isGap, fun _ hc => List.mem_takeWhile_imp hc,
    List.takeWhile_append_dropWhile.symm⟩

theorem of_argument?_eq_some (h : argument? s = some (n, r)) : ∃ gap word,
    IsGap gap ∧ gap ≠ [] ∧ IsOperand word ∧ n = String.ofList word ∧ s = gap ++ (word ++ r) := by
  simp only [argument?, Option.bind_eq_bind, Option.bind_eq_some_iff] at h
  obtain ⟨⟨_, u⟩, hu, hr⟩ := h
  obtain ⟨word, hword, rfl, rfl⟩ := of_operand?_eq_some hr
  rw [gap?] at hu
  split at hu
  · cases hu
  · next hne =>
    simp only [Option.some.injEq, Prod.mk.injEq, true_and] at hu
    refine ⟨s.takeWhile Text.isGap, word, fun c hc => List.mem_takeWhile_imp hc,
      by simpa using hne, hword, rfl, ?_⟩
    rw [← hu, skipGap, List.takeWhile_append_dropWhile]

theorem of_arguments (s : List Char) :
    ∃ w, Arguments (arguments s).1 w ∧ s = w ++ (arguments s).2 := by
  fun_induction arguments s with
  | case1 s h => exact ⟨[], .nil, rfl⟩
  | case2 s a r h as r' heq ih =>
    obtain ⟨gap, word, hgap, hne, hword, rfl, rfl⟩ := of_argument?_eq_some h
    obtain ⟨w, hw, hr⟩ := ih
    rw [heq] at hw hr
    refine ⟨gap ++ (word ++ w), .cons hgap hne hword hw, ?_⟩
    rw [hr]
    simp

theorem of_instruction?_eq_some (h : instruction? s = some ((n, as), r)) :
    ∃ w, InstructionForm n as w ∧ s = w ++ r := by
  simp only [instruction?, Option.bind_eq_bind, Option.bind_eq_some_iff] at h
  obtain ⟨⟨_, u⟩, hn, hr⟩ := h
  cases hr
  obtain ⟨w, hw, rfl, rfl⟩ := of_name?_eq_some hn
  obtain ⟨w', hw', hu⟩ := of_arguments u
  refine ⟨w ++ w', ⟨hw, hw'⟩, ?_⟩
  rw [List.append_assoc, ← hu]

theorem of_label?_eq_some (h : label? s = some (n, r)) :
    ∃ w, IsName w ∧ n = String.ofList w ∧ s = w ++ ':' :: r := by
  simp only [label?, Option.bind_eq_bind, Option.bind_eq_some_iff] at h
  obtain ⟨⟨_, u⟩, hn, hr⟩ := h
  obtain ⟨w, hw, rfl, rfl⟩ := of_name?_eq_some hn
  split at hr
  · next heq =>
    cases hr
    exact ⟨w, hw, rfl, congrArg (w ++ ·) heq⟩
  · cases hr

theorem of_catch?_eq_some (h : catch? s = some (as, r)) :
    ∃ w, Statement.Form (.handler as) w ∧ s = w ++ r := by
  simp only [catch?, Option.bind_eq_bind, Option.bind_eq_some_iff] at h
  obtain ⟨u, hu, ⟨_, v⟩, hv, hr⟩ := h
  cases hr
  obtain ⟨gap, word, hgap, hne, hword, rfl, rfl⟩ := of_argument?_eq_some hv
  obtain ⟨w, hw, hrest⟩ := of_arguments v
  rw [afterCatch?] at hu
  split at hu
  · next hcatch =>
    refine ⟨catchWord ++ (gap ++ (word ++ w)), .handler (.cons hgap hne hword hw), ?_⟩
    have hs := List.take_append_drop 6 s
    rw [hcatch, Option.some.inj hu, hrest] at hs
    simpa using hs.symm
  · cases hu

theorem of_statement?_eq_some {st : Statement} (h : statement? s = some (st, r)) :
    ∃ w, st.Form w ∧ s = w ++ r := by
  simp only [statement?, Option.orElse_eq_orElse, Option.orElse_eq_or, Option.or_eq_some_iff,
    Option.map_eq_some_iff] at h
  rcases h with ⟨⟨as, _⟩, h, e⟩ | ⟨-, ⟨⟨⟨l, n, as⟩, _⟩, h, e⟩ | ⟨-, ⟨⟨n, _⟩, h, e⟩ |
    ⟨-, ⟨⟨n, as⟩, _⟩, h, e⟩⟩⟩ <;> cases e
  · exact of_catch?_eq_some h
  · simp only [labelled?, Option.bind_eq_bind, Option.bind_eq_some_iff] at h
    obtain ⟨⟨_, u⟩, hl, ⟨_, v⟩, hi, hr⟩ := h
    cases hr
    obtain ⟨w, hw, rfl, rfl⟩ := of_label?_eq_some hl
    obtain ⟨gap, hgap, hu⟩ := skipGap_spec u
    obtain ⟨w', hw', hv⟩ := of_instruction?_eq_some hi
    refine ⟨w ++ ':' :: (gap ++ w'), .labelled hw hgap hw', ?_⟩
    rw [List.append_assoc, List.cons_append, List.append_assoc, ← hv, ← hu]
  · obtain ⟨w, hw, rfl, rfl⟩ := of_label?_eq_some h
    exact ⟨w ++ [':'], .label hw, by simp⟩
  · obtain ⟨w, hw, rfl⟩ := of_instruction?_eq_some h
    exact ⟨w, .instruction hw, rfl⟩

theorem of_comment (s : List Char) :
    ∃ w, IsComment w ∧ '\n' ∉ w ∧ s = w ++ (optionally comment? s).2 := by
  rw [optionally]
  split
  · next a r h =>
    unfold comment? at h
    split at h
    · next u =>
      cases h
      refine ⟨';' :: u.takeWhile (· != '\n'), .inr ⟨_, rfl⟩, ?_, ?_⟩
      · intro hmem
        rcases List.mem_cons.1 hmem with h | h
        · exact absurd h (by decide)
        · simpa using List.mem_takeWhile_imp h
      · rw [List.cons_append, List.takeWhile_append_dropWhile]
    · cases h
  · exact ⟨[], .inl rfl, List.not_mem_nil, rfl⟩

/-! #### No part of a line has a line feed -/

theorem IsGap.lineFeed_notMem (h : IsGap s) : '\n' ∉ s :=
  fun hmem => absurd (h '\n' hmem) (by decide)

theorem IsName.lineFeed_notMem (h : IsName s) : '\n' ∉ s := by
  obtain ⟨c, w, rfl, hc, hw⟩ := h
  intro hmem
  rcases List.mem_cons.1 hmem with rfl | hmem
  · exact absurd hc (by decide)
  · exact absurd (hw '\n' hmem) (by rw [isNameChar_lineFeed]; decide)

theorem IsOperand.lineFeed_notMem (h : IsOperand s) : '\n' ∉ s :=
  fun hmem => absurd (h.2 '\n' hmem) (by rw [isOperandChar_lineFeed]; decide)

theorem Arguments.lineFeed_notMem (h : Arguments as s) : '\n' ∉ s := by
  induction h with
  | nil => exact List.not_mem_nil
  | cons hgap _ hword _ ih =>
    simp only [List.mem_append, not_or]
    exact ⟨hgap.lineFeed_notMem, hword.lineFeed_notMem, ih⟩

theorem InstructionForm.lineFeed_notMem (h : InstructionForm n as s) : '\n' ∉ s := by
  obtain ⟨hname, hs⟩ := h
  simp only [List.mem_append, not_or]
  exact ⟨hname.lineFeed_notMem, hs.lineFeed_notMem⟩

theorem Statement.Form.lineFeed_notMem {st : Statement} (h : st.Form s) : '\n' ∉ s := by
  cases h with
  | handler hs =>
    simp only [List.mem_append, not_or]
    exact ⟨by decide, hs.lineFeed_notMem⟩
  | label hname =>
    simp only [List.mem_append, not_or]
    exact ⟨hname.lineFeed_notMem, by decide⟩
  | labelled hlabel hgap hs =>
    simp only [List.mem_append, List.mem_cons, not_or]
    exact ⟨hlabel.lineFeed_notMem, by decide, hgap.lineFeed_notMem, hs.lineFeed_notMem⟩
  | instruction hs => exact hs.lineFeed_notMem

theorem of_line?_eq_some {st : Option Statement} (h : line? s = some (st, r)) :
    ∃ l, LineForm st l ∧ '\n' ∉ l ∧ s = l ++ '\n' :: r := by
  obtain ⟨gap, hgap, hs⟩ := skipGap_spec s
  simp only [line?] at h
  split at h
  case h_2 => cases h
  next rest heq =>
  cases h
  obtain ⟨comment, hcomment, hline, hcs⟩ :=
    of_comment (skipGap (optionally statement? (skipGap s)).2)
  rw [heq] at hcs
  obtain ⟨gap', hgap', hgs⟩ := skipGap_spec (optionally statement? (skipGap s)).2
  rw [hcs] at hgs
  cases hst : statement? (skipGap s) with
  | none =>
    have hnone : optionally statement? (skipGap s) = (none, skipGap s) := by rw [optionally, hst]
    rw [hnone] at hgs ⊢
    refine ⟨gap ++ gap' ++ comment, .blank ?_ hcomment, ?_, ?_⟩
    · intro c hc
      rcases List.mem_append.1 hc with hc | hc
      · exact hgap c hc
      · exact hgap' c hc
    · simp only [List.mem_append, not_or]
      exact ⟨⟨hgap.lineFeed_notMem, hgap'.lineFeed_notMem⟩, hline⟩
    · rw [hs, show skipGap s = _ from hgs]
      simp
  | some p =>
    obtain ⟨st, u⟩ := p
    obtain ⟨w, hw, hu⟩ := of_statement?_eq_some hst
    have hsome : optionally statement? (skipGap s) = (some st, u) := by rw [optionally, hst]
    rw [hsome] at hgs ⊢
    refine ⟨gap ++ (w ++ (gap' ++ comment)), .statement hgap hw hgap' hcomment, ?_, ?_⟩
    · simp only [List.mem_append, not_or]
      exact ⟨hgap.lineFeed_notMem, hw.lineFeed_notMem, hgap'.lineFeed_notMem, hline⟩
    · rw [hs, hu, show u = _ from hgs]
      simp

end Sound

/-! ### Lines -/

variable {l r : List Char} {st st' : Option Statement}

/-- Where a line ends, it is read exactly if it has the form of a line, and then to its end. -/
theorem line?_eq_some_iff (hl : '\n' ∉ l) {r' : List Char} :
    line? (l ++ '\n' :: r) = some (st, r') ↔ LineForm st l ∧ r' = r := by
  constructor
  · intro h
    obtain ⟨l', hform, hl', heq⟩ := of_line?_eq_some h
    obtain ⟨rfl, rfl⟩ := eq_of_append_lineFeed hl hl' heq
    exact ⟨hform, rfl⟩
  · rintro ⟨h, rfl⟩
    exact line?_append h hl

/-- All derivations of a line give it the same statement. -/
theorem LineForm.unique (h : LineForm st l) (h' : LineForm st' l) (hl : '\n' ∉ l) : st = st' := by
  have hread := (line?_append h hl (r := [])).symm.trans (line?_append h' hl)
  exact (Prod.mk.inj (Option.some.inj hread)).1

end BytecodeRegions.Listing
