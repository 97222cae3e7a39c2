import BytecodeRegions.Proofs.CallSites
import Mathlib.Algebra.Group.Nat.Even
import Mathlib.Data.List.DropRight

/-!
# Titles of diagrams

The title of a diagram is a quoted string of the DOT language. Such a string ends at the first quote
that is not behind a backslash; a backslash in front of a quote is dropped, and two backslashes in a
row stand for themselves. In a title only quotes are put behind a backslash. So backslashes of the
title itself that end in front of a quote, or at the end of the title, pair up with what is put
there when their number is odd, and the string ends elsewhere. This is the only way in which a title
is not read back.

## Main definitions

* `Diagram.quotedString?`: reads a quoted string of the DOT language.
* `Diagram.EntitledBy`: a text has a title.
* `Diagram.PairedBackslashes`: backslashes come in pairs before every quote and at the end.

## Main results

* `Diagram.quotedContent?_title`, `Diagram.content_ne_title`: the string of a title is read as the
  title exactly if its backslashes come in pairs.
* `Table.dot_entitled_iff`: the titles that are read back from the diagram of an accepted method.
-/

namespace BytecodeRegions

namespace Diagram

/-! ### Quoted strings -/

/-- Reads the rest of a quoted string, behind the quote that opens it: its content, and what follows
the quote that closes it. -/
def quotedContent? : List Char → Option (List Char × List Char)
  | [] => none
  | '"' :: s => some ([], s)
  | '\\' :: '"' :: s => (quotedContent? s).map fun (t, r) => ('"' :: t, r)
  | '\\' :: '\\' :: s => (quotedContent? s).map fun (t, r) => ('\\' :: '\\' :: t, r)
  | c :: s => (quotedContent? s).map fun (t, r) => (c :: t, r)

/-- Reads a quoted string: its content, and what follows it. -/
def quotedString? : List Char → Option (List Char × List Char)
  | '"' :: s => quotedContent? s
  | _ => none

/-- What follows the first occurrence of a word. -/
def afterWord? (word : List Char) : List Char → Option (List Char)
  | [] => if word = [] then some [] else none
  | c :: s =>
    if word = (c :: s).take word.length then some ((c :: s).drop word.length)
    else afterWord? word s

/-- The statement of the title in a text has a quoted string for the title, and ends with its
line. -/
def EntitledBy (text title : String) : Prop :=
  ∃ s rest, afterWord? "label=".toList text.toList = some s ∧
    quotedString? s = some (title.toList, ';' :: '\n' :: rest)

/-- The number of backslashes at the end of a text. -/
def trailingBackslashes (s : List Char) : Nat :=
  (s.rtakeWhile (· = '\\')).length

/-- Each part of a title between quotes ends in an even number of backslashes. -/
def PairedBackslashes (title : List Char) : Prop :=
  ∀ part ∈ title.splitOn '"', Even (trailingBackslashes part)

/-- Whether backslashes come in pairs, character by character. -/
def paired : List Char → Bool
  | [] => true
  | ['\\'] => false
  | '\\' :: '"' :: _ => false
  | '\\' :: '\\' :: s => paired s
  | _ :: s => paired s

variable {c : Char} {s title tail : List Char}

theorem quotedContent?_cons (hc : c ≠ '"')
    (hnext : c = '\\' → ∀ d ∈ s.head?, d ≠ '"' ∧ d ≠ '\\') :
    quotedContent? (c :: s) = (quotedContent? s).map fun (t, r) => (c :: t, r) := by
  rw [quotedContent?]
  · exact hc
  · rintro s' hbackslash rfl
    exact (hnext hbackslash '"' rfl).1 rfl
  · rintro s' hbackslash rfl
    exact (hnext hbackslash '\\' rfl).2 rfl

/-- A single character of a title is read as such, unless it is a backslash in front of a quote, of
another backslash or of the end. -/
theorem quotedContent?_title_cons (hend : c = '\\' → title = [] → False)
    (hquote : ∀ s, c = '\\' → title = '"' :: s → False)
    (hbackslash : ∀ s, c = '\\' → title = '\\' :: s → False) :
    quotedContent? ((c :: title).flatMap titleChar ++ '"' :: tail) =
      (quotedContent? (title.flatMap titleChar ++ '"' :: tail)).map fun (t, r) => (c :: t, r) := by
  rw [List.flatMap_cons, titleChar]
  split
  · next hc =>
    subst hc
    rfl
  · next hc =>
    refine quotedContent?_cons hc fun hc' => ?_
    cases title with
    | nil => exact (hend hc' rfl).elim
    | cons d s =>
      have hd : d ≠ '"' := fun hd => hquote s hc' (hd ▸ rfl)
      have hd' : d ≠ '\\' := fun hd => hbackslash s hc' (hd ▸ rfl)
      rw [List.flatMap_cons, titleChar, if_neg hd]
      rintro _ ⟨⟩
      exact ⟨hd, hd'⟩

/-- A title is read back if its backslashes come in pairs. -/
theorem quotedContent?_title (htitle : paired title = true) (tail : List Char) :
    quotedContent? (title.flatMap titleChar ++ '"' :: tail) = some (title, tail) := by
  fun_induction paired title with
  | case1 => rfl
  | case2 => cases htitle
  | case3 => cases htitle
  | case4 s ih => exact congrArg (Option.map _) (ih htitle)
  | case5 c s hend hquote hbackslash ih =>
    rw [quotedContent?_title_cons hend hquote hbackslash, ih htitle]
    rfl

/-- Otherwise it is read as something else, whatever follows. -/
theorem content_ne_title (htitle : paired title = false) {content rest : List Char}
    (hread : quotedContent? (title.flatMap titleChar ++ '"' :: tail) = some (content, rest)) :
    content ≠ title := by
  fun_induction paired title generalizing content with
  | case1 => cases htitle
  | case2 =>
    -- the quote that should close the string is read as part of it
    obtain ⟨⟨t, r⟩, -, ht⟩ := Option.map_eq_some_iff.1 hread
    cases ht
    exact fun heq => absurd (List.cons.inj heq).1 (by decide)
  | case3 s =>
    -- the quote of the title closes the string
    obtain ⟨⟨t, r⟩, -, ht⟩ := Option.map_eq_some_iff.1 hread
    cases ht
    exact fun heq => absurd (List.cons.inj (List.cons.inj heq).2).1 (by decide)
  | case4 s ih =>
    obtain ⟨⟨t, r⟩, hr, ht⟩ := Option.map_eq_some_iff.1 hread
    cases ht
    exact fun heq => ih htitle hr (List.cons.inj (List.cons.inj heq).2).2
  | case5 c s hend hquote hbackslash ih =>
    rw [quotedContent?_title_cons hend hquote hbackslash] at hread
    obtain ⟨⟨t, r⟩, hr, ht⟩ := Option.map_eq_some_iff.1 hread
    cases ht
    exact fun heq => ih htitle hr (List.cons.inj heq).2

/-! ### Pairs of backslashes -/

theorem trailingBackslashes_append (a s : List Char) : trailingBackslashes (a ++ s) =
    if trailingBackslashes s = s.length then s.length + trailingBackslashes a
    else trailingBackslashes s := by
  simp only [trailingBackslashes, List.rtakeWhile, List.length_reverse, List.reverse_append,
    List.takeWhile_append]
  split
  · rw [List.length_append, List.length_reverse]
  · rfl

/-- What is in front of a text does not matter to the backslashes at its end, if it has pairs of
them or the text has other characters. -/
theorem even_trailingBackslashes_append {a : List Char}
    (ha : Even (trailingBackslashes a) ∨ ∃ d ∈ s, d ≠ '\\') :
    Even (trailingBackslashes (a ++ s)) ↔ Even (trailingBackslashes s) := by
  rw [trailingBackslashes_append]
  split
  · next hall =>
    rcases ha with ha | ⟨d, hd, hne⟩
    · rw [hall, Nat.even_add, iff_true_right ha]
    · have hself : s.rtakeWhile (· = '\\') = s := (List.rtakeWhile_suffix _ s).eq_of_length hall
      exact absurd (of_decide_eq_true (List.rtakeWhile_eq_self_iff.1 hself d hd)) hne
  · rfl

theorem splitOn_append {a : List Char} (ha : '"' ∉ a) (s : List Char) :
    (a ++ s).splitOn '"' = (s.splitOn '"').modifyHead (a ++ ·) := by
  induction a with
  | nil =>
    rw [List.nil_append]
    cases s.splitOn '"' <;> rfl
  | cons c a ih =>
    obtain ⟨hc, ha⟩ := not_or.1 (List.mem_cons.not.1 ha)
    rw [List.cons_append, List.splitOn_cons_eq_if_modifyHead, if_neg (by simpa using Ne.symm hc),
      ih ha, List.modifyHead_modifyHead]
    rfl

/-- The first part of a text that does not start with a quote has its first character. -/
theorem mem_head_splitOn {part : List Char} {parts : List (List Char)} (hc : c ≠ '"')
    (hparts : (c :: s).splitOn '"' = part :: parts) : c ∈ part := by
  obtain ⟨part', parts', hparts'⟩ := List.exists_cons_of_ne_nil (List.splitOn_ne_nil '"' s)
  rw [← List.singleton_append, splitOn_append (by simpa using Ne.symm hc), hparts'] at hparts
  rw [← (List.cons.inj hparts).1]
  exact List.mem_cons_self

theorem pairedBackslashes_append {a : List Char} (ha : '"' ∉ a)
    (hpairs : Even (trailingBackslashes a) ∨ ∃ d s', s = d :: s' ∧ d ≠ '"' ∧ d ≠ '\\') :
    PairedBackslashes (a ++ s) ↔ PairedBackslashes s := by
  obtain ⟨part, parts, hparts⟩ := List.exists_cons_of_ne_nil (List.splitOn_ne_nil '"' s)
  have hpart : Even (trailingBackslashes a) ∨ ∃ d ∈ part, d ≠ '\\' := by
    refine hpairs.imp_right ?_
    rintro ⟨d, s', rfl, hquote, hne⟩
    exact ⟨d, mem_head_splitOn hquote hparts, hne⟩
  rw [PairedBackslashes, PairedBackslashes, splitOn_append ha, hparts, List.modifyHead_cons,
    List.forall_mem_cons, List.forall_mem_cons, even_trailingBackslashes_append hpart]

theorem paired_iff (title : List Char) : paired title = true ↔ PairedBackslashes title := by
  have hsingle : ¬Even (trailingBackslashes ['\\']) := by decide
  fun_induction paired title with
  | case1 => exact iff_of_true rfl (List.forall_mem_singleton.2 ⟨0, rfl⟩)
  | case2 =>
    refine iff_of_false Bool.false_ne_true fun h => hsingle (h ['\\'] ?_)
    exact List.mem_singleton.2 rfl
  | case3 s =>
    refine iff_of_false Bool.false_ne_true fun h => hsingle (h ['\\'] ?_)
    rw [← List.singleton_append, splitOn_quote (by decide)]
    exact List.mem_cons_self
  | case4 s ih =>
    exact ih.trans (pairedBackslashes_append (a := ['\\', '\\']) (by decide)
      (.inl (by decide))).symm
  | case5 c s hend hquote hbackslash ih =>
    refine ih.trans ?_
    by_cases hc : c = '"'
    · subst hc
      have hempty : Even (trailingBackslashes []) := ⟨0, rfl⟩
      rw [PairedBackslashes, PairedBackslashes, ← List.nil_append ('"' :: s),
        splitOn_quote (List.not_mem_nil), List.forall_mem_cons, and_iff_right hempty]
    · refine (pairedBackslashes_append (a := [c]) (by simpa using Ne.symm hc) ?_).symm
      by_cases hc' : c = '\\'
      · right
        cases s with
        | nil => exact (hend hc' rfl).elim
        | cons d s' =>
          exact ⟨d, s', rfl, fun hd => hquote s' hc' (hd ▸ rfl),
            fun hd => hbackslash s' hc' (hd ▸ rfl)⟩
      · left
        have hnone : trailingBackslashes [c] = 0 := by
          simp [trailingBackslashes, List.rtakeWhile, hc']
        exact hnone ▸ ⟨0, rfl⟩

/-- Whether the backslashes of a title come in pairs can be decided. -/
instance (title : List Char) : Decidable (PairedBackslashes title) :=
  decidable_of_iff (paired title = true) (paired_iff title)

/-! ### The title of a diagram -/

/-- A word is found where its first character occurs for the first time. -/
theorem afterWord?_append {a word : List Char} (ha : c ∉ a) (s : List Char) :
    afterWord? (c :: word) (a ++ (c :: word ++ s)) = some s := by
  induction a with
  | nil => simp [afterWord?]
  | cons d a ih =>
    obtain ⟨hd, ha⟩ := not_or.1 (List.mem_cons.not.1 ha)
    rw [List.cons_append, afterWord?, List.length_cons, List.take_succ_cons, if_neg, ih ha]
    exact fun heq => hd (List.cons.inj heq).1

/-- The text of a diagram from its title on. -/
theorem afterWord?_text (d : Diagram) {title : String} (htitle : title ≠ "") : ∃ rest,
    afterWord? "label=".toList (d.text (some title)).toList =
      some ('"' :: (title.toList.flatMap titleChar ++ '"' :: ';' :: '\n' :: rest)) := by
  have hlines : titleLines (some title) = [titleLine title] := by
    rw [titleLines, Option.filter_some, if_pos (by simpa using htitle)]
    rfl
  let head := "digraph Subroutines \x7b".toList ++ ("\n".toList ++ ("  rankdir=TB;".toList ++
    ("\n".toList ++ "  ".toList)))
  have htext : ∃ rest, (d.text (some title)).toList = head ++ ("label=".toList ++
      ('"' :: (title.toList.flatMap titleChar ++ '"' :: ';' :: '\n' :: rest))) := by
    rw [text, lines, hlines, List.append_assoc, List.append_assoc]
    simp only [List.cons_append, List.nil_append, String.intercalate_cons_cons, titleLine,
      quotedTitle, String.toList_append, String.toList_ofList, List.append_assoc, head]
    generalize ("\n".intercalate _).toList = rest
    exact ⟨rest, rfl⟩
  obtain ⟨rest, htext⟩ := htext
  rw [htext]
  exact ⟨rest, afterWord?_append (by decide) _⟩

theorem entitledBy_iff (d : Diagram) {title : String} (htitle : title ≠ "") :
    EntitledBy (d.text (some title)) title ↔ PairedBackslashes title.toList := by
  obtain ⟨rest, hafter⟩ := afterWord?_text d htitle
  rw [← paired_iff]
  constructor
  · rintro ⟨s, rest', hs, hread⟩
    obtain rfl := Option.some.inj (hafter.symm.trans hs)
    by_contra hpaired
    exact content_ne_title (Bool.eq_false_iff.2 hpaired) hread rfl
  · intro hpaired
    exact ⟨_, rest, hafter, quotedContent?_title hpaired _⟩

end Diagram

namespace Table

variable {t : Table} {m : Method} {settings : Settings}

theorem FullyBuilt.exists_dot (ht : t.FullyBuilt m) :
    ∃ d : Diagram, ∀ title, (Query.dot title t).1 = .ok (d.text title) := by
  obtain ⟨d, hd, -⟩ := Query.gives_diagram t ht
  refine ⟨d, fun title => ?_⟩
  exact (hd.bind (w := fun d => .ok (d.text title)) fun _ _ _ ht' _ => Query.yields_pure ht').fst

/-- The title of the diagram of an accepted method is read back exactly if its backslashes come in
pairs in front of every quote and at the end. -/
theorem dot_entitled_iff (ht : build m settings = .ok t) (title : String) (htitle : title ≠ "") :
    ∃ text, (Query.dot (some title) t).1 = .ok text ∧
      (Diagram.EntitledBy text title ↔ Diagram.PairedBackslashes title.toList) := by
  obtain ⟨d, hd⟩ := (FullyBuilt.of_build ht).exists_dot
  exact ⟨d.text (some title), hd _, d.entitledBy_iff htitle⟩

/-- Backslashes in pairs before quotes are read back, and so are single ones elsewhere. -/
theorem dot_entitled_nested : ∃ (t : Table) (text : String), build (.nested 2) {} = .ok t ∧
    (Query.dot (some "a\\b \\\\\"c\"") t).1 = .ok text ∧
      Diagram.EntitledBy text "a\\b \\\\\"c\"" := by
  obtain ⟨t, ht, -⟩ := build_nested_two
  obtain ⟨text, htext, hread⟩ := dot_entitled_iff ht "a\\b \\\\\"c\"" (by decide)
  exact ⟨t, text, ht, htext, hread.2 (by decide)⟩

/-- A title that ends in a backslash is not read back: that backslash is put in front of the quote
that should close its string. -/
theorem dot_nested_not_entitled : ∃ (t : Table) (text : String), build (.nested 2) {} = .ok t ∧
    (Query.dot (some "a\\") t).1 = .ok text ∧ ¬Diagram.EntitledBy text "a\\" := by
  obtain ⟨t, ht, -⟩ := build_nested_two
  obtain ⟨d, hd⟩ := (FullyBuilt.of_build ht).exists_dot
  refine ⟨t, d.text (some "a\\"), ht, hd _, ?_⟩
  rw [d.entitledBy_iff (by decide)]
  decide

end Table

end BytecodeRegions
