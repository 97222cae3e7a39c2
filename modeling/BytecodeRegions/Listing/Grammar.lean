import BytecodeRegions.Text.Blank
import BytecodeRegions.Text.Word

/-!
# The grammar of listings

A listing is a text of lines, each with at most one statement. The rules are read with ordered
choice: the first alternative that matches is taken and never taken back, and a repetition takes
all it can. Each rule is a reader, which takes a text to what it read and the text that is left.

A statement declares an exception handler (`.catch` and operands), or is a label, a label in front
of an instruction, or an instruction. Operands run until a blank or a semicolon, and a semicolon
starts a comment.

## Main definitions

* `Statement`: what a line says.
* `name?`, `operand?`, …, `line?`, `lines`: the rules as readers.
* `Rule`, `Rule.matchEnd`: the rules by name, and how far each one matches.

## Main results

* `length_lt_of_line?`: a line takes at least its line feed, so reading line after line ends.
-/

namespace BytecodeRegions.Listing

/-- What a line says. -/
inductive Statement where
  /-- A handler declaration with its operands. -/
  | handler (operands : List String)
  /-- A label on a line of its own. -/
  | label (name : String)
  /-- An instruction with its operands. -/
  | instruction (name : String) (operands : List String)
  /-- A label in front of an instruction. -/
  | labelled (label name : String) (operands : List String)
deriving DecidableEq, Repr

/-- A reader takes a text to what it read and the text that is left, if it matches. -/
abbrev Reader (α : Type) := List Char → Option (α × List Char)

/-- Whether a name may start with the character. -/
def isNameStart (c : Char) : Bool :=
  c.isAlpha || c == '_' || c == '$'

/-- Whether a name may go on with the character. -/
def isNameChar (c : Char) : Bool :=
  Text.isWord c || c == '$'

/-- Whether an operand may hold the character. -/
def isOperandChar (c : Char) : Bool :=
  !Text.isBlank c && c != ';'

/-- The text after any gap in front of it. -/
def skipGap (s : List Char) : List Char :=
  s.dropWhile Text.isGap

/-- A name. -/
def name? : Reader String
  | [] => none
  | c :: s =>
    if isNameStart c then
      some (String.ofList (c :: s.takeWhile isNameChar), s.dropWhile isNameChar)
    else none

/-- An operand. -/
def operand? (s : List Char) : Option (String × List Char) :=
  if (s.takeWhile isOperandChar).isEmpty then none
  else some (String.ofList (s.takeWhile isOperandChar), s.dropWhile isOperandChar)

/-- A gap of at least one character. -/
def gap? (s : List Char) : Option (Unit × List Char) :=
  if (s.takeWhile Text.isGap).isEmpty then none else some ((), skipGap s)

/-- An operand with the gap in front of it. -/
def argument? (s : List Char) : Option (String × List Char) := do
  let (_, s) ← gap? s
  operand? s

/-- A comment, which runs to the end of its line. -/
def comment? : Reader Unit
  | ';' :: s => some ((), s.dropWhile (· != '\n'))
  | _ => none

private theorem length_dropWhile_le (p : Char → Bool) (s : List Char) :
    (s.dropWhile p).length ≤ s.length :=
  (List.dropWhile_sublist p).length_le

private theorem length_dropWhile_lt {p : Char → Bool} {s : List Char}
    (h : (s.takeWhile p).isEmpty = false) : (s.dropWhile p).length < s.length := by
  cases s with
  | nil => simp at h
  | cons c s =>
    by_cases hc : p c = true
    · simpa [hc] using Nat.lt_succ_of_le (length_dropWhile_le p s)
    · simp [hc] at h

/-- An operand with its gap takes at least one character. -/
theorem length_lt_of_argument? {s r : List Char} {a : String} (h : argument? s = some (a, r)) :
    r.length < s.length := by
  simp only [argument?, Option.bind_eq_bind, Option.bind_eq_some_iff] at h
  obtain ⟨⟨_, t⟩, ht, hr⟩ := h
  have htr : r.length ≤ t.length := by
    simp only [operand?] at hr
    split at hr
    · cases hr
    · cases hr
      exact length_dropWhile_le ..
  simp only [gap?] at ht
  split at ht
  · cases ht
  · next hne =>
    cases ht
    exact Nat.lt_of_le_of_lt htr (length_dropWhile_lt (by simpa using hne))

/-- All the operands that follow, with their gaps. -/
def arguments (s : List Char) : List String × List Char :=
  match _h : argument? s with
  | none => ([], s)
  | some (a, r) =>
    let (as, r) := arguments r
    (a :: as, r)
termination_by s.length
decreasing_by exact length_lt_of_argument? _h

/-- Operands do not lengthen the text. -/
theorem length_arguments_le (s : List Char) : (arguments s).2.length ≤ s.length := by
  fun_induction arguments s with
  | case1 => exact Nat.le_refl _
  | case2 s a r h as r' heq ih =>
    have := length_lt_of_argument? h
    rw [heq] at ih
    exact Nat.le_trans ih (Nat.le_of_lt this)

/-- The word that opens a handler declaration. -/
def catchWord : List Char := ['.', 'c', 'a', 't', 'c', 'h']

/-- The text after the word that opens a handler declaration. -/
def afterCatch? (s : List Char) : Option (List Char) :=
  if s.take 6 = catchWord then some (s.drop 6) else none

/-- A handler declaration: the word and at least one operand. -/
def catch? (s : List Char) : Option (List String × List Char) := do
  let s ← afterCatch? s
  let (a, s) ← argument? s
  let (as, s) := arguments s
  return (a :: as, s)

/-- A label: a name and a colon right after it. -/
def label? (s : List Char) : Option (String × List Char) := do
  let (name, s) ← name? s
  match s with
  | ':' :: s => return (name, s)
  | _ => none

/-- An instruction: a name and any operands. -/
def instruction? (s : List Char) : Option ((String × List String) × List Char) := do
  let (name, s) ← name? s
  let (as, s) := arguments s
  return ((name, as), s)

/-- A label and an instruction on one line. -/
def labelled? (s : List Char) : Option ((String × String × List String) × List Char) := do
  let (label, s) ← label? s
  let ((name, as), s) ← instruction? (skipGap s)
  return ((label, name, as), s)

/-- A statement; the alternatives are tried in this order. -/
def statement? (s : List Char) : Option (Statement × List Char) :=
  (catch? s).map (fun (as, r) => (.handler as, r)) <|>
  (labelled? s).map (fun ((label, name, as), r) => (.labelled label name as, r)) <|>
  (label? s).map (fun (name, r) => (.label name, r)) <|>
  (instruction? s).map (fun ((name, as), r) => (.instruction name as, r))

/-- What a reader finds if it matches, else nothing and the whole text. -/
def optionally {α : Type} (read : Reader α) (s : List Char) : Option α × List Char :=
  match read s with
  | some (a, r) => (some a, r)
  | none => (none, s)

/-- A line with its line feed. -/
def line? (s : List Char) : Option (Option Statement × List Char) :=
  let (statement, s) := optionally statement? (skipGap s)
  let (_, s) := optionally comment? (skipGap s)
  match s with
  | '\n' :: s => some (statement, s)
  | _ => none

private theorem length_name?_le {s r : List Char} {n : String} (h : name? s = some (n, r)) :
    r.length ≤ s.length := by
  cases s with
  | nil => simp [name?] at h
  | cons c s =>
    simp only [name?] at h
    split at h
    · cases h
      exact Nat.le_succ_of_le (length_dropWhile_le ..)
    · cases h

private theorem length_label?_le {s r : List Char} {n : String} (h : label? s = some (n, r)) :
    r.length ≤ s.length := by
  simp only [label?, Option.bind_eq_bind, Option.bind_eq_some_iff] at h
  obtain ⟨⟨name, t⟩, ht, hr⟩ := h
  have := length_name?_le ht
  split at hr
  · next heq =>
    cases hr
    simp only at heq
    subst heq
    simp only [List.length_cons] at this
    omega
  · cases hr

private theorem length_instruction?_le {s r : List Char} {a : String × List String}
    (h : instruction? s = some (a, r)) : r.length ≤ s.length := by
  simp only [instruction?, Option.bind_eq_bind, Option.bind_eq_some_iff] at h
  obtain ⟨⟨name, t⟩, ht, hr⟩ := h
  cases hr
  exact Nat.le_trans (length_arguments_le t) (length_name?_le ht)

private theorem length_catch?_le {s r : List Char} {a : List String}
    (h : catch? s = some (a, r)) : r.length ≤ s.length := by
  simp only [catch?, Option.bind_eq_bind, Option.bind_eq_some_iff] at h
  obtain ⟨t, ht, ⟨b, u⟩, hu, hr⟩ := h
  cases hr
  have := length_lt_of_argument? hu
  have := length_arguments_le u
  simp only [afterCatch?] at ht
  split at ht
  · cases ht
    simp only [List.length_drop] at *
    omega
  · cases ht

private theorem length_labelled?_le {s r : List Char} {a : String × String × List String}
    (h : labelled? s = some (a, r)) : r.length ≤ s.length := by
  simp only [labelled?, Option.bind_eq_bind, Option.bind_eq_some_iff] at h
  obtain ⟨⟨label, t⟩, ht, ⟨i, u⟩, hu, hr⟩ := h
  cases hr
  exact Nat.le_trans (length_instruction?_le hu)
    (Nat.le_trans (length_dropWhile_le ..) (length_label?_le ht))

private theorem length_statement?_le {s r : List Char} {a : Statement}
    (h : statement? s = some (a, r)) : r.length ≤ s.length := by
  simp only [statement?, Option.orElse_eq_orElse, Option.orElse_eq_or, Option.or_eq_some_iff,
    Option.map_eq_some_iff] at h
  rcases h with ⟨⟨_, _⟩, h, e⟩ | ⟨_, ⟨⟨_, _⟩, h, e⟩ | ⟨_, ⟨⟨_, _⟩, h, e⟩ | ⟨_, ⟨_, _⟩, h, e⟩⟩⟩ <;>
    cases e
  · exact length_catch?_le h
  · exact length_labelled?_le h
  · exact length_label?_le h
  · exact length_instruction?_le h

private theorem length_comment?_le {s r : List Char} {a : Unit} (h : comment? s = some (a, r)) :
    r.length ≤ s.length := by
  unfold comment? at h
  split at h
  · cases h
    exact Nat.le_succ_of_le (length_dropWhile_le ..)
  · cases h

private theorem length_optionally_le {α : Type} {read : Reader α} {s : List Char}
    (h : ∀ {a r}, read s = some (a, r) → r.length ≤ s.length) :
    (optionally read s).2.length ≤ s.length := by
  unfold optionally
  split
  · next heq => exact h heq
  · exact Nat.le_refl _

/-- A line takes at least its line feed. -/
theorem length_lt_of_line? {s r : List Char} {a : Option Statement} (h : line? s = some (a, r)) :
    r.length < s.length := by
  simp only [line?] at h
  split at h
  · next heq =>
    cases h
    have h1 : (optionally statement? (skipGap s)).2.length ≤ (skipGap s).length :=
      length_optionally_le length_statement?_le
    have h2 : (optionally comment? (skipGap (optionally statement? (skipGap s)).2)).2.length ≤
        (skipGap (optionally statement? (skipGap s)).2).length :=
      length_optionally_le length_comment?_le
    rw [heq] at h2
    have h3 : (skipGap s).length ≤ s.length := length_dropWhile_le ..
    have h4 : (skipGap (optionally statement? (skipGap s)).2).length ≤
        (optionally statement? (skipGap s)).2.length := length_dropWhile_le ..
    simp only [List.length_cons] at h2
    omega
  · cases h

/-- Line after line as long as lines match, with the text that is left. -/
def lines (s : List Char) : List (Option Statement) × List Char :=
  match _h : line? s with
  | none => ([], s)
  | some (l, r) =>
    let (ls, r) := lines r
    (l :: ls, r)
termination_by s.length
decreasing_by exact length_lt_of_line? _h

/-- The rules of the grammar. -/
inductive Rule where
  /-- Lines. -/
  | listing
  /-- One line. -/
  | line
  /-- A statement. -/
  | statement
  /-- A label and an instruction. -/
  | labelled
  /-- A handler declaration. -/
  | handler
  /-- An operand with its gap. -/
  | argument
  /-- A label. -/
  | label
  /-- An instruction. -/
  | instruction
  /-- An operand. -/
  | operand
  /-- A name. -/
  | name
  /-- A comment. -/
  | comment
  /-- A gap that may be empty. -/
  | gap
  /-- A gap of at least one character. -/
  | gapProper
deriving DecidableEq, Repr

namespace Rule

/-- The text that is left after a rule matched, if it did. -/
def rest? (rule : Rule) (s : List Char) : Option (List Char) :=
  match rule with
  | listing => some (lines s).2
  | line => (line? s).map Prod.snd
  | statement => (statement? s).map Prod.snd
  | labelled => (labelled? s).map Prod.snd
  | handler => (catch? s).map Prod.snd
  | argument => (argument? s).map Prod.snd
  | label => (label? s).map Prod.snd
  | instruction => (instruction? s).map Prod.snd
  | operand => (operand? s).map Prod.snd
  | name => (name? s).map Prod.snd
  | comment => (comment? s).map Prod.snd
  | gap => some (skipGap s)
  | gapProper => (gap? s).map Prod.snd

/-- How many characters a rule matches at the start of a text, if it does. -/
def matchEnd (rule : Rule) (s : List Char) : Option Nat :=
  (rule.rest? s).map (s.length - ·.length)

end Rule

end BytecodeRegions.Listing
