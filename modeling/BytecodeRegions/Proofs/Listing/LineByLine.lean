import BytecodeRegions.Listing.Assembly
import BytecodeRegions.Proofs.Listing.Forms
import BytecodeRegions.Proofs.Outcomes

/-!
# Texts are read line by line

A text is read exactly if each of its lines, taken alone, has the form of a line. Its items are then
those of its lines, one line after another, with the numbers of their lines. A text that is refused
is refused at its first line that has no such form.

## Main definitions

* `unlines`, `linesOf`: a text and its lines.
* `ReadsLineByLine`: what reading a text comes to.

## Main results

* `lines_append`: reading goes on over lines that have a form.
* `readsLineByLine`: every text is read line by line.
-/

namespace BytecodeRegions.Listing

/-- The text of lines, each with its line feed. -/
def unlines (ls : List (List Char)) : List Char :=
  ls.flatMap (· ++ ['\n'])

/-- The lines of a text, without their line feeds. -/
def linesOf : List Char → List (List Char)
  | [] => []
  | c :: s =>
    if c = '\n' then [] :: linesOf s
    else
      match linesOf s with
      | [] => [[c]]
      | l :: ls => (c :: l) :: ls

section Lines

variable {s l : List Char} {ls : List (List Char)}

@[simp] theorem unlines_nil : unlines [] = [] :=
  rfl

@[simp] theorem unlines_cons (l : List Char) (ls : List (List Char)) :
    unlines (l :: ls) = l ++ '\n' :: unlines ls := by
  simp [unlines]

theorem lineFeed_notMem_of_mem_linesOf (hl : l ∈ linesOf s) : '\n' ∉ l := by
  induction s generalizing l with
  | nil => cases hl
  | cons c s ih =>
    rw [linesOf] at hl
    split at hl
    · rcases List.mem_cons.1 hl with rfl | hl
      · exact List.not_mem_nil
      · exact ih hl
    · next hc =>
      have hne : '\n' ≠ c := fun h => hc h.symm
      split at hl
      · obtain rfl := List.mem_singleton.1 hl
        simpa using hne
      · next l' ls' heq =>
        have hmem (k : List Char) (hk : k ∈ l' :: ls') : '\n' ∉ k := ih (heq ▸ hk)
        rcases List.mem_cons.1 hl with rfl | hl
        · simpa [hne] using hmem l' List.mem_cons_self
        · exact hmem l (List.mem_cons_of_mem l' hl)

theorem linesOf_ne_nil (hs : s ≠ []) : linesOf s ≠ [] := by
  obtain ⟨c, s, rfl⟩ := List.exists_cons_of_ne_nil hs
  rw [linesOf]
  split
  · exact List.cons_ne_nil _ _
  · split <;> exact List.cons_ne_nil _ _

/-- A text that ends with a line feed is its lines. -/
theorem unlines_linesOf (hs : s.getLast? = some '\n') : unlines (linesOf s) = s := by
  induction s with
  | nil => cases hs
  | cons c s ih =>
    cases s with
    | nil =>
      obtain rfl : c = '\n' := Option.some.inj hs
      rfl
    | cons d s =>
      rw [List.getLast?_cons_cons] at hs
      rw [linesOf]
      split
      · next hc => rw [unlines_cons, ih hs, hc, List.nil_append]
      · split
        · next heq => exact absurd heq (linesOf_ne_nil (List.cons_ne_nil d s))
        · next l ls heq => rw [unlines_cons, List.cons_append, ← unlines_cons, ← heq, ih hs]

theorem linesOf_append {l : List Char} (hl : '\n' ∉ l) (s : List Char) :
    linesOf (l ++ '\n' :: s) = l :: linesOf s := by
  induction l with
  | nil => rfl
  | cons c l ih =>
    rw [List.mem_cons, not_or] at hl
    rw [List.cons_append, linesOf, if_neg (fun h => hl.1 h.symm), ih hl.2]

/-- Lines are found again. -/
theorem linesOf_unlines (hls : ∀ l ∈ ls, '\n' ∉ l) : linesOf (unlines ls) = ls := by
  induction ls with
  | nil => rfl
  | cons l ls ih =>
    obtain ⟨hl, hls⟩ := List.forall_mem_cons.1 hls
    rw [unlines_cons, linesOf_append hl, ih hls]

theorem lineFeeds_eq_self (hs : '\r' ∉ s) : lineFeeds s = s := by
  fun_induction lineFeeds s with
  | case1 s ih => simp at hs
  | case2 s _ ih => simp at hs
  | case3 c s _ _ ih => rw [ih fun h => hs (List.mem_cons_of_mem c h)]
  | case4 => rfl

theorem getLast?_normalised (text : String) : (normalised text).getLast? = some '\n' := by
  rw [normalised]
  split
  · assumption
  · exact List.getLast?_concat

end Lines

/-! ### Reading line after line -/

section Reading

variable {before after : List (List Char)} {bad rest : List Char} {sts : List (Option Statement)}

/-- Reading goes on over lines that have a form, up to where no line can be read. -/
theorem lines_append (hsts : List.Forall₂ LineForm sts before) (hbefore : ∀ l ∈ before, '\n' ∉ l)
    (hrest : line? rest = none) : lines (unlines before ++ rest) = (sts, rest) := by
  induction hsts with
  | nil =>
    rw [unlines_nil, List.nil_append, lines]
    split
    · rfl
    · next h => cases h.symm.trans hrest
  | cons hform _ ih =>
    obtain ⟨hl, hls⟩ := List.forall_mem_cons.1 hbefore
    rw [unlines_cons, List.append_assoc, List.cons_append, lines]
    split
    · next h => cases h.symm.trans (line?_append hform hl)
    · next h =>
      cases h.symm.trans (line?_append hform hl)
      rw [ih hls]

theorem lines_unlines (hsts : List.Forall₂ LineForm sts before)
    (hbefore : ∀ l ∈ before, '\n' ∉ l) : lines (unlines before) = (sts, []) := by
  have h : lines (unlines before ++ []) = (sts, []) := lines_append hsts hbefore rfl
  rwa [List.append_nil] at h

theorem lines_of_bad (hsts : List.Forall₂ LineForm sts before)
    (hlines : ∀ l ∈ before ++ bad :: after, '\n' ∉ l) (hbad : ¬∃ st, LineForm st bad) :
    lines (unlines (before ++ bad :: after)) = (sts, unlines (bad :: after)) := by
  have hsplit : unlines (before ++ bad :: after) = unlines before ++ unlines (bad :: after) :=
    List.flatMap_append
  rw [hsplit]
  refine lines_append hsts (fun l hl => hlines l (List.mem_append_left _ hl)) ?_
  have hmem : '\n' ∉ bad := hlines bad (by simp)
  rw [unlines_cons, Option.eq_none_iff_forall_ne_some]
  rintro ⟨st, r⟩ h
  exact hbad ⟨st, ((line?_eq_some_iff hmem).1 h).1⟩

theorem exists_forall₂_lineForm {ls : List (List Char)} (h : ∀ l ∈ ls, ∃ st, LineForm st l) :
    ∃ sts, List.Forall₂ LineForm sts ls := by
  induction ls with
  | nil => exact ⟨[], .nil⟩
  | cons l ls ih =>
    obtain ⟨⟨st, hst⟩, hls⟩ := List.forall_mem_cons.1 h
    obtain ⟨sts, hsts⟩ := ih hls
    exact ⟨st :: sts, .cons hst hsts⟩

/-- A text whose lines have a form is read into their items. -/
theorem read_eq_ok {text : String} (hsts : List.Forall₂ LineForm sts (linesOf (normalised text))) :
    read text = .ok (items sts) := by
  have hlines := lines_unlines hsts fun l hl => lineFeed_notMem_of_mem_linesOf hl
  rw [unlines_linesOf (getLast?_normalised text)] at hlines
  rw [read, hlines]
  rfl

/-- A text with a line that has no form is left from the first such line on. -/
theorem lines_normalised_of_bad {text : String}
    (hsplit : linesOf (normalised text) = before ++ bad :: after)
    (hbefore : ∀ l ∈ before, ∃ st, LineForm st l) (hbad : ¬∃ st, LineForm st bad) :
    ∃ sts, sts.length = before.length ∧
      lines (normalised text) = (sts, unlines (bad :: after)) := by
  obtain ⟨sts, hsts⟩ := exists_forall₂_lineForm hbefore
  refine ⟨sts, hsts.length_eq, ?_⟩
  rw [← unlines_linesOf (getLast?_normalised text), hsplit]
  exact lines_of_bad hsts (fun l hl => lineFeed_notMem_of_mem_linesOf (hsplit ▸ hl)) hbad

theorem read_eq_error {text : String} (hsplit : linesOf (normalised text) = before ++ bad :: after)
    (hbefore : ∀ l ∈ before, ∃ st, LineForm st l) (hbad : ¬∃ st, LineForm st bad) :
    read text = .error (.unreadable (before.length + 1)
      (String.ofList ((unlines (bad :: after)).take excerptLength))) := by
  obtain ⟨sts, hlength, hlines⟩ := lines_normalised_of_bad hsplit hbefore hbad
  rw [read, hlines]
  simp [hlength]

/-- A text that is read has lines of the right form, and its items are theirs. -/
theorem exists_forms_of_read {text : String} {is : List Item} (h : read text = .ok is) :
    ∃ sts, List.Forall₂ LineForm sts (linesOf (normalised text)) ∧ is = items sts := by
  rcases forall_or_first (fun l => ∃ st, LineForm st l) (linesOf (normalised text)) with
    hforms | ⟨before, bad, after, hsplit, hbefore, hbad⟩
  · obtain ⟨sts, hsts⟩ := exists_forall₂_lineForm hforms
    exact ⟨sts, hsts, Except.ok.inj (h.symm.trans (read_eq_ok hsts))⟩
  · cases h.symm.trans (read_eq_error hsplit hbefore hbad)

end Reading

/-! ### Items -/

/-- The line of an item. -/
def Item.line : Item → Nat
  | label _ line => line
  | op o => o.line
  | clause c => c.line

/-- The items of a line with a given number. -/
def ItemsOf (line : Nat) (l : List Char) (is : List Item) : Prop :=
  (∃ st, LineForm st l ∧ is = st.elim [] (Statement.items line)) ∧ ∀ i ∈ is, i.line = line

theorem itemsOf_of_lineForm {st : Option Statement} {l : List Char} (h : LineForm st l)
    (line : Nat) : ItemsOf line l (st.elim [] (Statement.items line)) := by
  refine ⟨⟨st, h, rfl⟩, fun i hi => ?_⟩
  cases st with
  | none => cases hi
  | some st => cases st <;> simp [Statement.items] at hi <;> grind [Item.line]

/-- The items of a text are those of its lines, one line after another. -/
theorem exists_items_eq_flatten {sts : List (Option Statement)} {ls : List (List Char)}
    (hsts : List.Forall₂ LineForm sts ls) : ∃ parts, items sts = parts.flatten ∧
      List.Forall₂ (fun l part => ItemsOf l.2 l.1 part) (ls.zipIdx 1) parts := by
  refine ⟨(sts.zipIdx 1).map fun x => x.1.elim [] (Statement.items x.2), ?_, ?_⟩
  · rw [items, List.flatMap_def]
  · generalize 1 = first
    induction hsts generalizing first with
    | nil => exact .nil
    | cons hform _ ih => exact .cons (itemsOf_of_lineForm hform first) (ih (first + 1))

/-! ### Every text -/

/-- Reading a text comes to reading its lines one by one, each of them alone. -/
structure ReadsLineByLine (text : String) : Prop where
  /-- The lines make up the text. -/
  text_eq : normalised text = unlines (linesOf (normalised text))
  lineFeed_notMem : ∀ l ∈ linesOf (normalised text), '\n' ∉ l
  /-- The whole text matches if and only if all lines have the form of a line. -/
  matches_iff : Rule.listing.matchEnd (normalised text) = some (normalised text).length ↔
    ∀ l ∈ linesOf (normalised text), ∃ st, LineForm st l
  /-- The statement of a line does not depend on the derivation. -/
  unique : ∀ l ∈ linesOf (normalised text), ∀ st st', LineForm st l → LineForm st' l → st = st'
  /-- The items are those of the lines, which are counted from one. -/
  items : (∀ l ∈ linesOf (normalised text), ∃ st, LineForm st l) →
    ∃ parts, read text = .ok parts.flatten ∧
      List.Forall₂ (fun l part => ItemsOf l.2 l.1 part) ((linesOf (normalised text)).zipIdx 1) parts
  /-- The first line without a form is to blame, and it is quoted from its start on. -/
  refused : ∀ before bad after, linesOf (normalised text) = before ++ bad :: after →
    (∀ l ∈ before, ∃ st, LineForm st l) → (¬∃ st, LineForm st bad) → ∀ stamp name,
      ∃ failure report, parse stamp text name = .error failure ∧ failure.report = .ok report ∧
        report.code.text = "JSR-2001" ∧ report.line = (before.length + 1 : Nat) ∧
        report.detail = "syntax error near " ++
          Text.quoted (String.ofList ((unlines (bad :: after)).take 20))

theorem matchEnd_listing_iff (text : String) :
    Rule.listing.matchEnd (normalised text) = some (normalised text).length ↔
      ∀ l ∈ linesOf (normalised text), ∃ st, LineForm st l := by
  have htext := unlines_linesOf (getLast?_normalised text)
  rcases forall_or_first (fun l => ∃ st, LineForm st l) (linesOf (normalised text)) with
    hforms | ⟨before, bad, after, hsplit, hbefore, hbad⟩
  · obtain ⟨sts, hsts⟩ := exists_forall₂_lineForm hforms
    have hread := lines_unlines hsts fun l hl => lineFeed_notMem_of_mem_linesOf hl
    rw [htext] at hread
    refine iff_of_true ?_ hforms
    simp [Rule.matchEnd, Rule.rest?, hread]
  · obtain ⟨sts, -, hread⟩ := lines_normalised_of_bad hsplit hbefore hbad
    refine iff_of_false ?_ fun hforms => hbad (hforms bad (hsplit ▸ by simp))
    -- at least a line feed is left, so the match ends before the text does
    have hlong : (unlines (bad :: after)).length ≤ (normalised text).length := by
      rw [← htext, hsplit]
      simp [unlines]
    have hpos : 0 < (unlines (bad :: after)).length := by
      rw [unlines_cons, List.length_append, List.length_cons]
      omega
    simp only [Rule.matchEnd, Rule.rest?, hread, Option.map_some, Option.some.injEq]
    omega

theorem readsLineByLine (text : String) : ReadsLineByLine text := by
  have hlines (l : List Char) (hl : l ∈ linesOf (normalised text)) : '\n' ∉ l :=
    lineFeed_notMem_of_mem_linesOf hl
  constructor
  case text_eq => exact (unlines_linesOf (getLast?_normalised text)).symm
  case lineFeed_notMem => exact hlines
  case unique => exact fun l hl st st' h h' => h.unique h' (hlines l hl)
  case matches_iff => exact matchEnd_listing_iff text
  case items =>
    intro hforms
    obtain ⟨sts, hsts⟩ := exists_forall₂_lineForm hforms
    obtain ⟨parts, hparts, hlines⟩ := exists_items_eq_flatten hsts
    exact ⟨parts, by rw [read_eq_ok hsts, hparts], hlines⟩
  case refused =>
    intro before bad after hsplit hbefore hbad stamp name
    have hparse : parse stamp text name = .error (.unreadable (before.length + 1)
        (String.ofList ((unlines (bad :: after)).take excerptLength))) := by
      rw [parse, read_eq_error hsplit hbefore hbad]
      rfl
    have hcode : ErrorCode.listingSyntax.text = "JSR-2001" := by decide
    exact ⟨_, _, hparse, rfl, hcode, rfl, rfl⟩

end BytecodeRegions.Listing
