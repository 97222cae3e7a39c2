import BytecodeRegions.Proofs.Listing.Clauses

/-!
# Every listing is accepted or refused for one reason

Reading a listing makes its checks in a fixed order: the form of the lines, the names of the labels,
whether there is an instruction at all, the instructions one by one, their targets, the handler
declarations one by one. The first check that fails decides what is reported, so every text belongs
to one of five kinds. Which kind it is can be said without reading it, and what is reported tells
the kind: a code, and the number of the line to blame if there is one.

Only an overlong integer in a handler declaration is reported without a code. No place outside a
body is ever looked up: the positions of a handler are checked before.

## Main definitions

* `Reads`: the items of a text, line by line.
* `SyntaxFault`, `StatementFault`, `WholeFault`, `NumeralFault`: what can be wrong with a text.
* `Verdict`: the five kinds, with `Verdict.Holds`, what they say of a text, and `Verdict.Shows`,
  what is reported.
* `Classified`: the kind of a text is the kind of what is reported.

## Main results

* `exists_assemble`, `assemble_of_statementFault`, `assemble_of_wholeFault`,
  `assemble_of_numeralFault`: what becomes of items.
* `fits_or_fault`, `Verdict.Shows.unique`: there is one kind, and no more than one.
* `classified`: every text is classified.
-/

namespace BytecodeRegions.Listing

/-! ### What can be wrong -/

/-- The items of a text are those of its lines, which are counted from one. -/
def Reads (text : String) (is : List Item) : Prop :=
  ∃ parts, is = parts.flatten ∧
    List.Forall₂ (fun l part => ItemsOf l.2 l.1 part) ((linesOf (normalised text)).zipIdx 1) parts

/-- The line of the given number is the first one that has no form of a line. -/
def SyntaxFault (text : String) (line : Nat) : Prop :=
  ∃ before bad after, linesOf (normalised text) = before ++ bad :: after ∧
    (∀ l ∈ before, ∃ st, LineForm st l) ∧ (¬∃ st, LineForm st bad) ∧ line = before.length + 1

/-- The labels have different names, there are instructions, and they make sense, with targets in
the listing. -/
structure InstructionsFit (is : List Item) : Prop where
  labels : (labelNames is).Nodup
  nonempty : ops is ≠ []
  instructions : ∀ o ∈ ops is, ∃ zs, Assembles is o zs ∧ ∀ z ∈ zs, InRange (ops is).length z

/-- One statement is to blame, and it stands in the line of the given number. -/
inductive StatementFault (is : List Item) : Nat → Prop
  /-- A label is the first one to repeat an earlier one. -/
  | label {before after : List Item} {name : String} {line : Nat}
      (his : is = before ++ .label name line :: after) (hnodup : (labelNames before).Nodup)
      (hname : name ∈ labelNames before) : StatementFault is line
  /-- An instruction is the first one to make no sense on its own. -/
  | instruction {before after : List Op} {o : Op} (hlabels : (labelNames is).Nodup)
      (hops : ops is = before ++ o :: after) (hbefore : ∀ o ∈ before, ∃ zs, Assembles is o zs)
      (ho : ¬∃ zs, Assembles is o zs) : StatementFault is o.line
  /-- A handler declaration is the first one to stand for no handler, but not for an overlong
  integer. -/
  | clause {before after : List Clause} {c : Clause} (hfit : InstructionsFit is)
      (hclauses : clauses is = before ++ c :: after) (hbefore : ∀ c ∈ before, ClauseFits is c)
      (hc : ¬ClauseFits is c) (hover : ¬ClauseOverflows is c) : StatementFault is c.line

/-- No single statement is to blame: there is no instruction, or all of them make sense on their own
and a target is not in the listing. -/
def WholeFault (is : List Item) : Prop :=
  (labelNames is).Nodup ∧ (ops is = [] ∨ (∀ o ∈ ops is, ∃ zs, Assembles is o zs) ∧
    ∃ o ∈ ops is, ∃ zs, Assembles is o zs ∧ ∃ z ∈ zs, ¬InRange (ops is).length z)

/-- The first handler declaration that stands for no handler has an overlong integer for its first
token without a position. -/
def NumeralFault (is : List Item) : Prop :=
  InstructionsFit is ∧ ∃ before c after, clauses is = before ++ c :: after ∧
    (∀ c ∈ before, ClauseFits is c) ∧ ClauseOverflows is c

/-! ### Labels that repeat -/

variable {is : List Item} {ls : Labels} {text name : String} {stamp line : Nat}

/-- Labels have different names, or there is a first one that repeats an earlier one. -/
theorem nodup_or_repeat (is : List Item) : (labelNames is).Nodup ∨
    ∃ before name line after, is = before ++ .label name line :: after ∧
      (labelNames before).Nodup ∧ name ∈ labelNames before := by
  induction is using List.reverseRecOn with
  | nil => exact .inl List.nodup_nil
  | append_singleton is i ih =>
    rcases ih with hnodup | ⟨before, name, line, after, rfl, hnodup, hname⟩
    · cases i with
      | label name line =>
        by_cases hname : name ∈ labelNames is
        · exact .inr ⟨is, name, line, [], rfl, hnodup, hname⟩
        · refine .inl ?_
          rw [labelNames_append]
          exact List.nodup_append.2 ⟨hnodup, List.nodup_singleton name, by
            rintro a ha b hb rfl
            exact hname (List.mem_singleton.1 hb ▸ ha)⟩
      | op o =>
        rw [labelNames_append]
        exact .inl (by simpa [labelNames] using hnodup)
      | clause c =>
        rw [labelNames_append]
        exact .inl (by simpa [labelNames] using hnodup)
    · exact .inr ⟨before, name, line, after ++ [i], by simp, hnodup, hname⟩

/-! ### What becomes of items -/

/-- Instructions that make sense, with targets in the listing, leave it to the handler
declarations. -/
theorem InstructionsFit.exists_assemble_eq (hfit : InstructionsFit is) (stamp : Nat)
    (name : String) : ∃ ls, LabelsOf is ls ∧ ∃ m : Method, m.body.size = (ops is).length ∧
      assemble stamp name is = (clauses is).foldlM (addClause ls) m := by
  obtain ⟨ls, hlabels, hls⟩ := exists_labels hfit.labels
  obtain ⟨b, hbody, hsize⟩ := exists_body_of_inRange hls stamp hfit.instructions
  have hpos : 0 < b.size := hsize ▸ List.length_pos_iff.2 hfit.nonempty
  have hmake : Method.make? name b = some ⟨name, b, [], hpos⟩ := dif_pos hpos
  refine ⟨ls, hls, ⟨name, b, [], hpos⟩, hsize, ?_⟩
  rw [assemble, hlabels]
  simp only [bind, Except.bind, List.isEmpty_eq_false_iff.2 hfit.nonempty, hbody, hmake]
  rfl

theorem exists_assemble (hfit : InstructionsFit is) (hclauses : ∀ c ∈ clauses is, ClauseFits is c)
    (stamp : Nat) (name : String) : ∃ m, assemble stamp name is = .ok m := by
  obtain ⟨ls, hls, m, hsize, heq⟩ := hfit.exists_assemble_eq stamp name
  obtain ⟨m', hm', -⟩ := exists_foldlM_of_fits hls hsize hclauses
  exact ⟨m', heq.trans hm'⟩

/-- The first handler declaration that is refused decides for the listing. -/
theorem InstructionsFit.exists_of_addClause (hfit : InstructionsFit is) (stamp : Nat)
    (name : String) {before after : List Clause} {c : Clause}
    (hclauses : clauses is = before ++ c :: after) (hbefore : ∀ c ∈ before, ClauseFits is c) :
    ∃ ls, LabelsOf is ls ∧ ∃ m : Method, m.body.size = (ops is).length ∧
      ∀ f, addClause ls m c = .error f → assemble stamp name is = .error f := by
  obtain ⟨ls, hls, m, hsize, heq⟩ := hfit.exists_assemble_eq stamp name
  obtain ⟨m', hm', hbody⟩ := exists_foldlM_of_fits hls hsize hbefore
  refine ⟨ls, hls, m', hbody ▸ hsize, fun f hf => ?_⟩
  rw [heq, hclauses, List.foldlM_append, hm']
  change (c :: after).foldlM (addClause ls) m' = _
  rw [List.foldlM_cons, hf]
  rfl

/-- One statement is blamed in its line, and not because a place is outside the body. -/
theorem assemble_of_statementFault (h : StatementFault is line) (stamp : Nat) (name : String) :
    ∃ cause, assemble stamp name is = .error (.atLine line cause) ∧
      cause ≠ .handlerRefused .outside := by
  cases h with
  | @label before after repeated line his hnodup hname =>
    refine ⟨.duplicateLabel repeated, ?_, nofun⟩
    rw [assemble, his, labels_of_repeat hnodup hname]
    rfl
  | instruction hlabels hops hbefore ho =>
    obtain ⟨ls, hok, hls⟩ := exists_labels hlabels
    obtain ⟨cause, hbody, hcause⟩ := body_of_senseless hls stamp hbefore ho
    refine ⟨cause, ?_, hcause .outside⟩
    have hnonempty : (ops is).isEmpty = false := by simp [hops]
    rw [← hops] at hbody
    rw [assemble, hok]
    simp only [bind, Except.bind, hnonempty, hbody]
    rfl
  | clause hfit hclauses hbefore hc hover =>
    obtain ⟨ls, hls, m, hsize, herror⟩ := hfit.exists_of_addClause stamp name hclauses hbefore
    obtain ⟨cause, hcause, hne⟩ := addClause_of_not_fits hls hsize hc hover
    exact ⟨cause, herror _ hcause, hne⟩

theorem assemble_of_wholeFault (h : WholeFault is) (stamp : Nat) (name : String) :
    ∃ cause, assemble stamp name is = .error (.overall cause) := by
  obtain ⟨hlabels, hwhole⟩ := h
  obtain ⟨ls, hok, hls⟩ := exists_labels hlabels
  by_cases hempty : ops is = []
  · refine ⟨.noInstructions, ?_⟩
    rw [assemble, hok]
    simp only [bind, Except.bind, hempty]
    rfl
  · obtain ⟨hsense, o, ho, zs, hzs, z, hz, hout⟩ := hwhole.resolve_left hempty
    obtain ⟨e, hbody⟩ := body_of_outside hls stamp hsense ho hzs hz hout
    refine ⟨.unlinked e, ?_⟩
    rw [assemble, hok]
    simp only [bind, Except.bind, List.isEmpty_eq_false_iff.2 hempty, hbody]
    rfl

theorem assemble_of_numeralFault (h : NumeralFault is) (stamp : Nat) (name : String) :
    ∃ count, assemble stamp name is = .error (.numeral count) := by
  obtain ⟨hfit, before, c, after, hclauses, hbefore, hover⟩ := h
  obtain ⟨ls, hls, m, -, herror⟩ := hfit.exists_of_addClause stamp name hclauses hbefore
  obtain ⟨count, hcount⟩ := addClause_of_overflows (m := m) hls hover
  exact ⟨count, herror _ hcount⟩

/-- Items are fine, or something is wrong with them. -/
theorem fits_or_fault (is : List Item) :
    (InstructionsFit is ∧ ∀ c ∈ clauses is, ClauseFits is c) ∨ (∃ line, StatementFault is line) ∨
      WholeFault is ∨ NumeralFault is := by
  rcases nodup_or_repeat is with hlabels | ⟨before, name, line, after, his, hnodup, hname⟩
  case inr => exact .inr (.inl ⟨line, .label his hnodup hname⟩)
  by_cases hempty : ops is = []
  · exact .inr (.inr (.inl ⟨hlabels, .inl hempty⟩))
  rcases forall_or_first (fun o => ∃ zs, Assembles is o zs) (ops is) with
    hsense | ⟨before, o, after, hops, hbefore, ho⟩
  case inr => exact .inr (.inl ⟨o.line, .instruction hlabels hops hbefore ho⟩)
  by_cases hin : ∀ o ∈ ops is, ∃ zs, Assembles is o zs ∧ ∀ z ∈ zs, InRange (ops is).length z
  case neg =>
    push Not at hin
    obtain ⟨o, ho, hout⟩ := hin
    obtain ⟨zs, hzs⟩ := hsense o ho
    exact .inr (.inr (.inl ⟨hlabels, .inr ⟨hsense, o, ho, zs, hzs, hout zs hzs⟩⟩))
  have hfit : InstructionsFit is := ⟨hlabels, hempty, hin⟩
  rcases forall_or_first (ClauseFits is) (clauses is) with
    hclauses | ⟨before, c, after, hclauses, hbefore, hc⟩
  · exact .inl ⟨hfit, hclauses⟩
  · by_cases hover : ClauseOverflows is c
    · exact .inr (.inr (.inr ⟨hfit, before, c, after, hclauses, hbefore, hover⟩))
    · exact .inr (.inl ⟨c.line, .clause hfit hclauses hbefore hc hover⟩)

/-! ### What becomes of texts -/

/-- The items of a text are those that are read. -/
theorem reads_iff : Reads text is ↔ read text = .ok is := by
  constructor
  · rintro ⟨parts, rfl, hparts⟩
    have hforms (ls : List (List Char)) (first : Nat) (parts : List (List Item))
        (h : List.Forall₂ (fun l part => ItemsOf l.2 l.1 part) (ls.zipIdx first) parts) :
        ∃ sts, List.Forall₂ LineForm sts ls ∧
          parts = (sts.zipIdx first).map fun x => x.1.elim [] (Statement.items x.2) := by
      induction ls generalizing first parts with
      | nil =>
        cases h
        exact ⟨[], .nil, rfl⟩
      | cons l ls ih =>
        rw [List.zipIdx_cons, List.forall₂_cons_left_iff] at h
        obtain ⟨part, parts, ⟨⟨st, hst, rfl⟩, -⟩, h, rfl⟩ := h
        obtain ⟨sts, hsts, rfl⟩ := ih (first + 1) parts h
        exact ⟨st :: sts, .cons hst hsts, rfl⟩
    obtain ⟨sts, hsts, rfl⟩ := hforms _ 1 parts hparts
    rw [read_eq_ok hsts, items, List.flatMap_def]
  · intro h
    obtain ⟨sts, hsts, rfl⟩ := exists_forms_of_read h
    exact exists_items_eq_flatten hsts

/-- Lines are counted from one. -/
theorem Reads.one_le_line (h : Reads text is) {i : Item} (hi : i ∈ is) : 1 ≤ i.line := by
  obtain ⟨parts, rfl, hparts⟩ := h
  obtain ⟨part, hpart, hi⟩ := List.mem_flatten.1 hi
  obtain ⟨⟨l, line⟩, hl, -, hline⟩ := exists_of_forall₂ hparts hpart
  rw [hline i hi]
  exact List.le_snd_of_mem_zipIdx hl

/-- A statement that is to blame stands in one of the lines. -/
theorem StatementFault.exists_mem (h : StatementFault is line) : ∃ i ∈ is, i.line = line := by
  cases h with
  | label his _ _ => exact ⟨_, his ▸ List.mem_append_cons_self, rfl⟩
  | instruction _ hops _ _ =>
    exact ⟨_, mem_of_mem_ops (hops ▸ List.mem_append_cons_self), rfl⟩
  | clause _ hclauses _ _ _ =>
    exact ⟨_, mem_of_mem_clauses (hclauses ▸ List.mem_append_cons_self), rfl⟩

/-- The kinds of texts. -/
inductive Verdict where
  /-- The text is a listing. -/
  | accepted
  /-- The line of the given number has no form of a line. -/
  | malformed (line : Nat)
  /-- A statement in the line of the given number is to blame. -/
  | statement (line : Nat)
  /-- The listing as a whole is to blame. -/
  | whole
  /-- An overlong integer in a handler declaration is to blame. -/
  | numeral

/-- What a verdict says of a text. -/
def Verdict.Holds (text : String) : Verdict → Prop
  | accepted => ∃ is, Reads text is ∧ InstructionsFit is ∧ ∀ c ∈ clauses is, ClauseFits is c
  | malformed line => SyntaxFault text line
  | statement line => ∃ is, Reads text is ∧ StatementFault is line
  | whole => ∃ is, Reads text is ∧ WholeFault is
  | numeral => ∃ is, Reads text is ∧ NumeralFault is

/-- A failure is reported with the given code and line. -/
def Refused (x : Except Failure Method) (code : String) (line : Nat) : Prop :=
  ∃ f r, x = .error f ∧ f.report = .ok r ∧ r.code.text = code ∧ r.line = line

/-- What is reported on a verdict. -/
def Verdict.Shows (x : Except Failure Method) : Verdict → Prop
  | accepted => ∃ m, x = .ok m
  | malformed line => 1 ≤ line ∧ Refused x "JSR-2001" line
  | statement line => 1 ≤ line ∧ Refused x "JSR-2002" line
  | whole => ∃ code, Refused x code 0
  | numeral => ∃ f message, x = .error f ∧ f.report = .error message

theorem Refused.unique {x : Except Failure Method} {code code' : String} {line line' : Nat}
    (h : Refused x code line) (h' : Refused x code' line') : code = code' ∧ line = line' := by
  obtain ⟨f, r, rfl, hr, rfl, hline⟩ := h
  obtain ⟨f', r', hf, hr', rfl, hline'⟩ := h'
  obtain rfl : f = f' := Except.error.inj hf
  obtain rfl : r = r' := Except.ok.inj (hr.symm.trans hr')
  exact ⟨rfl, by omega⟩

/-- What is reported tells the kind. -/
theorem Verdict.Shows.unique {x : Except Failure Method} {v v' : Verdict} (h : v.Shows x)
    (h' : v'.Shows x) : v = v' := by
  cases v <;> cases v' <;> simp only [Shows] at h h' <;> grind [Refused, Refused.unique]

section Texts

variable {v : Verdict}

theorem parse_eq_assemble (h : Reads text is) (stamp : Nat) (name : String) :
    parse stamp text name = assemble stamp name is := by
  rw [parse, reads_iff.1 h]
  rfl

/-- What reading a text of some kind comes to. -/
inductive Outcome : Verdict → Except Failure Method → Prop
  | accepted (m : Method) : Outcome .accepted (.ok m)
  | malformed {line : Nat} (hline : 1 ≤ line) (excerpt : String) :
      Outcome (.malformed line) (.error (.unreadable line excerpt))
  | statement {line : Nat} (hline : 1 ≤ line) {cause : Cause}
      (hcause : cause ≠ .handlerRefused .outside) :
      Outcome (.statement line) (.error (.atLine line cause))
  | whole (cause : Cause) : Outcome .whole (.error (.overall cause))
  | numeral (count : Nat) : Outcome .numeral (.error (.numeral count))

theorem Outcome.shows {x : Except Failure Method} (h : Outcome v x) : v.Shows x := by
  have hassembly : ErrorCode.listingAssembly.text = "JSR-2002" := by decide
  have hsyntax : ErrorCode.listingSyntax.text = "JSR-2001" := by decide
  cases h with
  | accepted m => exact ⟨m, rfl⟩
  | malformed hline excerpt => exact ⟨hline, _, _, rfl, rfl, hsyntax, rfl⟩
  | statement hline _ => exact ⟨hline, _, _, rfl, rfl, hassembly, rfl⟩
  | whole cause => exact ⟨_, _, _, rfl, rfl, rfl, rfl⟩
  | numeral count => exact ⟨_, _, rfl, rfl⟩

/-- The kind of a text decides what reading it comes to. -/
theorem Verdict.Holds.outcome (h : v.Holds text) (stamp : Nat) (name : String) :
    Outcome v (parse stamp text name) := by
  cases v with
  | accepted =>
    obtain ⟨is, his, hfit, hclauses⟩ := h
    obtain ⟨m, hm⟩ := exists_assemble hfit hclauses stamp name
    rw [parse_eq_assemble his, hm]
    exact .accepted m
  | malformed line =>
    obtain ⟨before, bad, after, hsplit, hbefore, hbad, rfl⟩ := h
    rw [parse, read_eq_error hsplit hbefore hbad]
    exact .malformed (Nat.le_add_left 1 _) _
  | statement line =>
    obtain ⟨is, his, hfault⟩ := h
    obtain ⟨i, hi, rfl⟩ := hfault.exists_mem
    obtain ⟨cause, hcause, hne⟩ := assemble_of_statementFault hfault stamp name
    rw [parse_eq_assemble his, hcause]
    exact .statement (his.one_le_line hi) hne
  | whole =>
    obtain ⟨is, his, hfault⟩ := h
    obtain ⟨cause, hcause⟩ := assemble_of_wholeFault hfault stamp name
    rw [parse_eq_assemble his, hcause]
    exact .whole cause
  | numeral =>
    obtain ⟨is, his, hfault⟩ := h
    obtain ⟨count, hcount⟩ := assemble_of_numeralFault hfault stamp name
    rw [parse_eq_assemble his, hcount]
    exact .numeral count

/-- Every text is of some kind. -/
theorem exists_holds (text : String) : ∃ v : Verdict, v.Holds text := by
  rcases forall_or_first (fun l => ∃ st, LineForm st l) (linesOf (normalised text)) with
    hforms | ⟨before, bad, after, hsplit, hbefore, hbad⟩
  · obtain ⟨sts, hsts⟩ := exists_forall₂_lineForm hforms
    have his : Reads text (items sts) := reads_iff.2 (read_eq_ok hsts)
    rcases fits_or_fault (items sts) with hfits | ⟨line, hfault⟩ | hfault | hfault
    · exact ⟨.accepted, _, his, hfits⟩
    · exact ⟨.statement line, _, his, hfault⟩
    · exact ⟨.whole, _, his, hfault⟩
    · exact ⟨.numeral, _, his, hfault⟩
  · exact ⟨.malformed _, before, bad, after, hsplit, hbefore, hbad, rfl⟩

/-- Reading a text tells its kind. -/
structure Classified (stamp : Nat) (text name : String) : Prop where
  /-- A text is of a kind if and only if this is reported. -/
  holds_iff : ∀ v : Verdict, v.Holds text ↔ v.Shows (parse stamp text name)
  /-- A text is of one kind. -/
  unique : ∃! v : Verdict, v.Holds text
  /-- No place outside a body is looked up. -/
  inside : ∀ line, parse stamp text name ≠ .error (.atLine line (.handlerRefused .outside))

theorem classified (stamp : Nat) (text name : String) : Classified stamp text name := by
  obtain ⟨v, hv⟩ := exists_holds text
  have houtcome := hv.outcome stamp name
  constructor
  case holds_iff =>
    refine fun v' => ⟨fun hv' => (hv'.outcome stamp name).shows, fun hshows => ?_⟩
    rwa [hshows.unique houtcome.shows]
  case unique =>
    exact ⟨v, hv, fun v' hv' => (hv'.outcome stamp name).shows.unique houtcome.shows⟩
  case inside =>
    intro line hline
    rw [hline] at houtcome
    cases houtcome with
    | statement _ hcause => exact hcause rfl

end Texts

end BytecodeRegions.Listing
