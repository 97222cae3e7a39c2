import BytecodeRegions.Proofs.Listing.Listable
import Mathlib.Data.List.Induction

/-!
# What the tokens of a listing stand for

A label stands for the number of instructions in front of it. A token stands for the integer that it
writes, or for the position of a label. Integers of more digits than can be read stand for nothing.

## Main definitions

* `labelNames`, `LabelAt`: the labels of items, and what they stand for.
* `IntegerToken`, `Writes`, `Overlong`, `IsWord`: tokens that are integers and tokens that are not.
* `Resolves`: what tokens stand for.

## Main results

* `exists_labels`, `labels_of_repeat`: what becomes of labels.
* `position_eq_ok_iff`, `position_error`: what becomes of position tokens.
-/

namespace BytecodeRegions.Listing

variable {is : List Item} {ls : Labels} {name token : String} {p : Nat} {z : Int}

/-! ### Labels -/

/-- The names of the labels among items, in order. -/
def labelNames (is : List Item) : List String :=
  is.filterMap fun
    | .label name _ => some name
    | _ => none

/-- A label stands for the number of instructions in front of it. -/
def LabelAt (is : List Item) (name : String) (p : Nat) : Prop :=
  ∃ before line after, is = before ++ .label name line :: after ∧ (ops before).length = p

/-- Looking up a name finds what the label of this name stands for. -/
def LabelsOf (is : List Item) (ls : Labels) : Prop :=
  ∀ name p, ls.lookup name = some p ↔ LabelAt is name p

theorem labelNames_append (is is' : List Item) :
    labelNames (is ++ is') = labelNames is ++ labelNames is' :=
  List.filterMap_append

/-- The last item gives a label if it is one, and what earlier labels stand for stays. -/
theorem labelAt_concat_iff {i : Item} : LabelAt (is ++ [i]) name p ↔
    LabelAt is name p ∨ (∃ line, i = .label name line) ∧ (ops is).length = p := by
  constructor
  · rintro ⟨before, line, after, heq, hp⟩
    rcases List.eq_nil_or_concat after with rfl | ⟨after, j, rfl⟩
    · obtain ⟨rfl, hi⟩ := List.append_inj' heq rfl
      exact .inr ⟨⟨line, List.singleton_inj.1 hi⟩, hp⟩
    · rw [List.concat_eq_append, ← List.cons_append, ← List.append_assoc] at heq
      obtain ⟨rfl, -⟩ := List.append_inj' heq rfl
      exact .inl ⟨before, line, after, rfl, hp⟩
  · rintro (⟨before, line, after, rfl, hp⟩ | ⟨⟨line, rfl⟩, hp⟩)
    · exact ⟨before, line, after ++ [i], by simp, hp⟩
    · exact ⟨is, line, [], rfl, hp⟩

theorem mem_labelNames_iff : name ∈ labelNames is ↔ ∃ p, LabelAt is name p := by
  constructor
  · intro hname
    obtain ⟨i, hi, hsome⟩ := List.mem_filterMap.1 hname
    obtain ⟨before, after, rfl⟩ := List.append_of_mem hi
    cases i with
    | label name' line =>
      obtain rfl : name' = name := Option.some.inj hsome
      exact ⟨_, before, line, after, rfl, rfl⟩
    | op o => cases hsome
    | clause c => cases hsome
  · rintro ⟨p, before, line, after, rfl, -⟩
    simp [labelNames]

theorem labelsFrom_append (count : Nat) (found : Labels) (is is' : List Item) :
    labelsFrom count found (is ++ is') =
      labelsFrom count found is >>= fun ls => labelsFrom (count + (ops is).length) ls is' := by
  induction is generalizing count found with
  | nil => rfl
  | cons i is ih =>
    cases i with
    | label name line =>
      simp only [List.cons_append, labelsFrom]
      split
      · rfl
      · exact ih count ((name, count) :: found)
    | op o =>
      have hops : (ops (.op o :: is)).length = (ops is).length + 1 := rfl
      rw [List.cons_append, labelsFrom, labelsFrom, ih, hops, Nat.add_right_comm, Nat.add_assoc]
    | clause c => exact ih count found

theorem labels_append (is is' : List Item) :
    labels (is ++ is') = labels is >>= fun ls => labelsFrom (ops is).length ls is' := by
  rw [labels, labelsFrom_append, Nat.zero_add]
  rfl

/-- Labels of different names are all found. -/
theorem exists_labels (hnodup : (labelNames is).Nodup) :
    ∃ ls, labels is = .ok ls ∧ LabelsOf is ls := by
  induction is using List.reverseRecOn with
  | nil => exact ⟨[], rfl, fun name p => iff_of_false nofun (by simp [LabelAt])⟩
  | append_singleton is i ih =>
    rw [labelNames_append, List.nodup_append] at hnodup
    obtain ⟨hnodup, -, hdisjoint⟩ := hnodup
    obtain ⟨ls, hlabels, hls⟩ := ih hnodup
    rw [labels_append, hlabels]
    cases i with
    | label name line =>
      have hnone : ls.lookup name = none := by
        rw [Option.eq_none_iff_forall_ne_some]
        intro p hp
        have hname : name ∈ labelNames is := mem_labelNames_iff.2 ⟨p, (hls name p).1 hp⟩
        exact hdisjoint name hname name (List.mem_singleton_self name) rfl
      refine ⟨(name, (ops is).length) :: ls, ?_, fun name' p => ?_⟩
      · change labelsFrom _ ls [.label name line] = _
        rw [labelsFrom, hnone]
        rfl
      · rw [labelAt_concat_iff, List.lookup_cons, ← hls name' p]
        by_cases hname : name' = name
        · subst hname
          simp [hnone]
        · have hother : ¬∃ line', Item.label name line = .label name' line' := by
            rintro ⟨line', heq⟩
            exact hname (Item.label.inj heq).1.symm
          rw [beq_eq_false_iff_ne.2 hname]
          exact (or_iff_left fun h => hother h.1).symm
    | op o =>
      refine ⟨ls, rfl, fun name p => ?_⟩
      rw [labelAt_concat_iff, hls name p]
      simp
    | clause c =>
      refine ⟨ls, rfl, fun name p => ?_⟩
      rw [labelAt_concat_iff, hls name p]
      simp

/-- A label that repeats an earlier one is to blame. -/
theorem labels_of_repeat {before after : List Item} {line : Nat}
    (hnodup : (labelNames before).Nodup) (hname : name ∈ labelNames before) :
    labels (before ++ .label name line :: after) =
      .error (.atLine line (.duplicateLabel name)) := by
  obtain ⟨ls, hlabels, hls⟩ := exists_labels hnodup
  obtain ⟨p, hp⟩ := mem_labelNames_iff.1 hname
  rw [labels_append, hlabels]
  change labelsFrom _ ls (.label name line :: after) = _
  rw [labelsFrom, (hls name p).2 hp]
  rfl

/-! ### Tokens -/

/-- One decimal digit or more, of any script. -/
def IsDigits (s : List Char) (ds : List Nat) : Prop :=
  s ≠ [] ∧ List.Forall₂ (fun c d => Text.digitValue? c = some d) s ds

/-- An integer token: an optional sign and digits. -/
inductive IntegerToken : List Char → Text.Numeral → Prop
  | unsigned {s : List Char} {ds : List Nat} (hds : IsDigits s ds) : IntegerToken s ⟨false, ds⟩
  | plus {s : List Char} {ds : List Nat} (hds : IsDigits s ds) : IntegerToken ('+' :: s) ⟨false, ds⟩
  | minus {s : List Char} {ds : List Nat} (hds : IsDigits s ds) : IntegerToken ('-' :: s) ⟨true, ds⟩

theorem digits?_eq_some_iff {s : List Char} {ds : List Nat} :
    Text.Numeral.digits? s = some ds ↔ IsDigits s ds := by
  have hmapM (s : List Char) : ∀ ds, s.mapM Text.digitValue? = some ds ↔
      List.Forall₂ (fun c d => Text.digitValue? c = some d) s ds := by
    induction s with
    | nil => simp [List.mapM_nil, eq_comm]
    | cons c s ih =>
      intro ds
      simp only [List.mapM_cons, Option.bind_eq_bind, Option.bind_eq_some_iff, ih,
        List.forall₂_cons_left_iff, Option.pure_def, Option.some.injEq]
      grind
  rw [Text.Numeral.digits?, IsDigits, ← hmapM]
  cases s with
  | nil => simp
  | cons c s => simp

/-- A sign is no digit. -/
theorem IsDigits.head_ne {c : Char} {s : List Char} {ds : List Nat} (h : IsDigits (c :: s) ds) :
    c ≠ '-' ∧ c ≠ '+' := by
  obtain ⟨-, hds⟩ := h
  obtain ⟨d, _, hd, -⟩ := List.forall₂_cons_left_iff.1 hds
  have hminus : Text.digitValue? '-' = none := by decide
  have hplus : Text.digitValue? '+' = none := by decide
  constructor
  · rintro rfl
    cases hminus.symm.trans hd
  · rintro rfl
    cases hplus.symm.trans hd

theorem ofToken?_eq_some_iff {s : List Char} {n : Text.Numeral} :
    Text.Numeral.ofToken? s = some n ↔ IntegerToken s n := by
  constructor
  · intro h
    rw [Text.Numeral.ofToken?.eq_def] at h
    split at h
    · obtain ⟨ds, hds, rfl⟩ := Option.map_eq_some_iff.1 h
      exact .minus (digits?_eq_some_iff.1 hds)
    · obtain ⟨ds, hds, rfl⟩ := Option.map_eq_some_iff.1 h
      exact .plus (digits?_eq_some_iff.1 hds)
    · obtain ⟨ds, hds, rfl⟩ := Option.map_eq_some_iff.1 h
      exact .unsigned (digits?_eq_some_iff.1 hds)
  · intro h
    cases h with
    | plus hds => exact Option.map_eq_some_iff.2 ⟨_, digits?_eq_some_iff.2 hds, rfl⟩
    | minus hds => exact Option.map_eq_some_iff.2 ⟨_, digits?_eq_some_iff.2 hds, rfl⟩
    | unsigned hds =>
      obtain ⟨c, s, rfl⟩ := List.exists_cons_of_ne_nil hds.1
      rw [Text.Numeral.ofToken?_of_unsigned hds.head_ne.1 hds.head_ne.2,
        digits?_eq_some_iff.2 hds]
      rfl

/-- A token writes an integer, with no more digits than can be read. -/
def Writes (token : String) (z : Int) : Prop :=
  ∃ n, IntegerToken token.toList n ∧ n.digits.length ≤ 4300 ∧ n.value = z

/-- A token is an integer token with more digits than can be read. -/
def Overlong (token : String) : Prop :=
  ∃ n, IntegerToken token.toList n ∧ 4300 < n.digits.length

/-- A token that is no integer token. -/
def IsWord (token : String) : Prop :=
  ¬∃ n, IntegerToken token.toList n

/-- A token stands for a position: the integer that it writes, or what the label of this name stands
for. The position need not be one of the listing. -/
def Resolves (is : List Item) (token : String) (z : Int) : Prop :=
  Writes token z ∨ IsWord token ∧ ∃ p : Nat, LabelAt is token p ∧ (p : Int) = z

theorem integer?_eq_ok_iff : integer? token = some (.ok z) ↔ Writes token z := by
  simp only [integer?, Option.map_eq_some_iff, ofToken?_eq_some_iff, Writes]
  refine exists_congr fun n => and_congr_right fun _ => ?_
  split
  · next hle => simp [show n.digits.length ≤ 4300 from hle]
  · next hgt => simp [show ¬n.digits.length ≤ 4300 from hgt]

theorem integer?_eq_none_iff : integer? token = none ↔ IsWord token := by
  rw [integer?, Option.map_eq_none_iff, Option.eq_none_iff_forall_ne_some, IsWord, not_exists]
  exact forall_congr' fun n => not_congr ofToken?_eq_some_iff

theorem exists_integer?_of_overlong (h : Overlong token) :
    ∃ count, integer? token = some (.error (.tooLong count)) := by
  obtain ⟨n, hn, hlong⟩ := h
  refine ⟨n.digits.length, ?_⟩
  have hgt : ¬n.digits.length ≤ Text.Numeral.digitLimit := Nat.not_le.2 hlong
  rw [integer?, ofToken?_eq_some_iff.2 hn, Option.map_some, if_neg hgt]

/-- A token writes an integer, or is overlong, or is a word. -/
theorem writes_or_overlong_or_isWord (token : String) :
    (∃ z, Writes token z) ∨ Overlong token ∨ IsWord token := by
  by_cases h : ∃ n, IntegerToken token.toList n
  · obtain ⟨n, hn⟩ := h
    rcases Nat.lt_or_ge 4300 n.digits.length with hlong | hshort
    · exact .inr (.inl ⟨n, hn, hlong⟩)
    · exact .inl ⟨n.value, n, hn, hshort, rfl⟩
  · exact .inr (.inr h)

theorem integer_eq_ok_iff {role : Role} : integer role token = .ok z ↔ Writes token z := by
  refine ⟨fun h => integer?_eq_ok_iff.1 (integer?_of_integer h), fun h => ?_⟩
  rw [integer, integer?_eq_ok_iff.2 h, Option.getD_some]

/-- The position of a token is what it stands for. -/
theorem position_eq_ok_iff (hls : LabelsOf is ls) :
    position ls token = .ok z ↔ Resolves is token z := by
  rw [position, Resolves, ← integer?_eq_ok_iff, ← integer?_eq_none_iff]
  cases integer? token with
  | some x => simp
  | none =>
    simp only [Option.getD_none, reduceCtorEq, true_and, false_or, ← hls token _]
    cases ls.lookup token with
    | none => simp
    | some p => simp

theorem exists_position_of_overlong (h : Overlong token) :
    ∃ count, position ls token = .error (.tooLong count) := by
  obtain ⟨count, hcount⟩ := exists_integer?_of_overlong h
  exact ⟨count, by rw [position, hcount, Option.getD_some]⟩

/-- A token without position is an overlong integer or the name of no label. -/
theorem position_error {e : Cause} (h : position ls token = .error e) :
    Overlong token ∨ ∃ name, e = .undefinedLabel name := by
  rcases writes_or_overlong_or_isWord token with ⟨z, hz⟩ | hlong | hword
  · rw [position, integer?_eq_ok_iff.2 hz] at h
    cases h
  · exact .inl hlong
  · rw [position, integer?_eq_none_iff.2 hword, Option.getD_none] at h
    cases hlookup : ls.lookup token with
    | none =>
      rw [hlookup] at h
      cases h
      exact .inr ⟨token, rfl⟩
    | some p =>
      rw [hlookup] at h
      cases h

end BytecodeRegions.Listing
