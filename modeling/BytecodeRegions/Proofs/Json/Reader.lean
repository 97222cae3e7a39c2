import BytecodeRegions.Json
import BytecodeRegions.Proofs.Text.Decimal

/-!
# Reading JSON texts

A reader of JSON texts whose numbers are integers, by the grammar of values: blanks may stand
between tokens, strings have escapes of one letter or of four hexadecimal digits, and two escapes
that are a pair of surrogates are one character. Strings and numbers are read back here from what
they are written as, and there is a lemma for each form that the grammar has for values; whole
values follow in `Proofs.Json.RoundTrip`.

## Main definitions

* `Json.Reader.string?`, `Json.Reader.integer?`: the pieces.
* `Json.Reader.value?`: a value at the start of a text, and the rest of the text.
* `Json.read?`: the value of a whole text.

## Main results

* `Json.Reader.hexNumber?_hex`: four digits are read as the unit that they were written for.
* `Json.Reader.string?_flatMap`: strings are read back.
* `Json.Reader.integer?_decimal`: integers are read back.
* `Json.Reader.value?_quote`, `Json.Reader.value?_number`, `Json.Reader.value?_bracket`,
  `Json.Reader.value?_brace`: the forms of values.
-/

namespace BytecodeRegions.Json

namespace Reader

/-! ### The grammar -/

/-- The text without the blanks at its start. -/
def skipBlanks (s : List Char) : List Char :=
  s.dropWhile fun c => c = ' ' || c = '\t' || c = '\n' || c = '\r'

/-- The value of a hexadecimal digit. -/
def hexDigit? (c : Char) : Option Nat :=
  if '0' ≤ c ∧ c ≤ '9' then some (c.toNat - '0'.toNat)
  else if 'a' ≤ c ∧ c ≤ 'f' then some (c.toNat - 'a'.toNat + 10)
  else if 'A' ≤ c ∧ c ≤ 'F' then some (c.toNat - 'A'.toNat + 10)
  else none

/-- The number that hexadecimal digits write. -/
def hexNumber? (ds : List Char) : Option Nat :=
  ds.foldlM (fun n d => (hexDigit? d).map (16 * n + ·)) 0

/-- The character that a letter behind a backslash stands for. -/
def letterEscape? : Char → Option Char
  | '"' => some '"'
  | '\\' => some '\\'
  | '/' => some '/'
  | 'b' => some '\x08'
  | 'f' => some '\x0c'
  | 'n' => some '\n'
  | 'r' => some '\r'
  | 't' => some '\t'
  | _ => none

/-- Reads the rest of a string, behind the quote that opens it: the code points of its characters,
with the two surrogates of a pair apart, and what follows the quote that closes it. -/
def units? : List Char → Option (List Nat × List Char)
  | [] => none
  | '"' :: s => some ([], s)
  | '\\' :: 'u' :: a :: b :: c :: d :: s => do
    let n ← hexNumber? [a, b, c, d]
    let (ns, r) ← units? s
    return (n :: ns, r)
  | '\\' :: l :: s => do
    let c ← letterEscape? l
    let (ns, r) ← units? s
    return (c.toNat :: ns, r)
  | c :: s =>
    if c.toNat < 0x20 then none
    else do
      let (ns, r) ← units? s
      return (c.toNat :: ns, r)

/-- The characters that code points stand for; two surrogates stand for one character, and a single
one for none. -/
def chars? : List Nat → Option (List Char)
  | [] => some []
  | n :: ns =>
    if n.isValidChar then (chars? ns).map (Char.ofNat n :: ·)
    else
      match ns with
      | [] => none
      | k :: ns =>
        if n < 0xdc00 ∧ 0xdc00 ≤ k ∧ k < 0xe000 then
          (chars? ns).map (Char.ofNat (0x10000 + (n - 0xd800) * 0x400 + (k - 0xdc00)) :: ·)
        else none

/-- Reads the rest of a string, behind the quote that opens it. -/
def string? (s : List Char) : Option (String × List Char) := do
  let (ns, r) ← units? s
  let cs ← chars? ns
  return (.ofList cs, r)

/-- Whether digits are a number by themselves: there are some, and they start with zero only if they
are that one digit. -/
def isNatural (ds : List Char) : Bool :=
  !ds.isEmpty && (ds.head? != some '0' || ds == ['0'])

/-- Whether a number goes on in a text, by a fraction or an exponent. -/
def goesOn (s : List Char) : Bool :=
  s.head?.any fun c => c = '.' || c = 'e' || c = 'E'

/-- Reads a natural number. -/
def natural? (s : List Char) : Option (Nat × List Char) :=
  let ds := s.takeWhile Char.isDigit
  let r := s.dropWhile Char.isDigit
  if isNatural ds && !goesOn r then some (Nat.ofDigitChars 10 ds 0, r) else none

/-- Reads an integer. -/
def integer? : List Char → Option (Int × List Char)
  | '-' :: s => do
    let (n, r) ← natural? s
    return (-n, r)
  | s => do
    let (n, r) ← natural? s
    return (n, r)

mutual

/-- Reads a value, of at most the given depth. -/
def value? : Nat → List Char → Option (Json × List Char)
  | 0, _ => none
  | n + 1, s =>
    match skipBlanks s with
    | 'n' :: 'u' :: 'l' :: 'l' :: r => some (.null, r)
    | 't' :: 'r' :: 'u' :: 'e' :: r => some (.bool true, r)
    | 'f' :: 'a' :: 'l' :: 's' :: 'e' :: r => some (.bool false, r)
    | '"' :: r => do
      let (t, r) ← string? r
      return (.str t, r)
    | '[' :: r =>
      match skipBlanks r with
      | ']' :: r => some (.arr [], r)
      | _ => do
        let (vs, r) ← items? n r
        return (.arr vs, r)
    | '\x7b' :: r =>
      match skipBlanks r with
      | '\x7d' :: r => some (.obj [], r)
      | _ => do
        let (ms, r) ← members? n r
        return (.obj ms, r)
    | r => do
      let (z, r) ← integer? r
      return (.int z, r)

/-- Reads the items of a list, through the bracket that closes it. -/
def items? : Nat → List Char → Option (List Json × List Char)
  | 0, _ => none
  | n + 1, s => do
    let (v, r) ← value? n s
    match skipBlanks r with
    | ',' :: r => do
      let (vs, r) ← items? n r
      return (v :: vs, r)
    | ']' :: r => return ([v], r)
    | _ => none

/-- Reads the members of an object, through the brace that closes it. -/
def members? : Nat → List Char → Option (List (String × Json) × List Char)
  | 0, _ => none
  | n + 1, s =>
    match skipBlanks s with
    | '"' :: r => do
      let (k, r) ← string? r
      match skipBlanks r with
      | ':' :: r => do
        let (v, r) ← value? n r
        match skipBlanks r with
        | ',' :: r => do
          let (ms, r) ← members? n r
          return ((k, v) :: ms, r)
        | '\x7d' :: r => return ([(k, v)], r)
        | _ => none
      | _ => none
    | _ => none

end

/-! ### Units of sixteen bits -/

variable {c : Char} {n : Nat} {s r rest : List Char}

theorem hexDigit?_digitChar : ∀ d < 16, hexDigit? d.digitChar = some d := by
  decide

theorem hexNumber?_toDigits (n : Nat) : hexNumber? (Nat.toDigits 16 n) = some n := by
  induction n using Nat.strongRecOn with
  | ind n ih =>
    rcases Nat.lt_or_ge n 16 with hn | hn
    · rw [Nat.toDigits_of_lt_base hn, hexNumber?, List.foldlM_cons, hexDigit?_digitChar n hn]
      simp
    · have hmod := hexDigit?_digitChar (n % 16) (Nat.mod_lt n (by omega))
      have hdiv := ih (n / 16) (by omega)
      rw [hexNumber?] at hdiv
      rw [Nat.toDigits_of_base_le (by omega) hn, hexNumber?, List.foldlM_append, hdiv]
      simp [hmod, Nat.div_add_mod]

theorem hexNumber?_replicate_append (k : Nat) (ds : List Char) :
    hexNumber? (List.replicate k '0' ++ ds) = hexNumber? ds := by
  induction k with
  | zero => rfl
  | succ k ih => exact ih

/-- A unit of sixteen bits has four digits, and they are read as the unit. -/
theorem hexNumber?_hex (hn : n < 0x10000) :
    ∃ a b c d, Text.hex 4 n = [a, b, c, d] ∧ hexNumber? [a, b, c, d] = some n := by
  have hlength : (Text.hex 4 n).length = 4 := by
    have hdigits := (Nat.length_toDigits_le_iff (b := 16) (n := n) (k := 4) (by omega)
      (by omega)).2 (by omega)
    rw [Text.hex, List.length_leftpad]
    omega
  have hvalue : hexNumber? (Text.hex 4 n) = some n := by
    rw [Text.hex, List.leftpad, hexNumber?_replicate_append, hexNumber?_toDigits]
  match hds : Text.hex 4 n with
  | [a, b, c, d] => exact ⟨a, b, c, d, rfl, hds ▸ hvalue⟩
  | [] | [_] | [_, _] | [_, _, _] | _ :: _ :: _ :: _ :: _ :: _ => simp [hds] at hlength

theorem units?_unitEscape (hn : n < 0x10000) (s : List Char) :
    units? (unitEscape n ++ s) = (units? s).map fun (ns, r) => (n :: ns, r) := by
  obtain ⟨a, b, c, d, hhex, hvalue⟩ := hexNumber?_hex hn
  rw [unitEscape, hhex]
  simp only [List.cons_append, List.nil_append, units?, hvalue]
  cases units? s <;> rfl

/-! ### Strings -/

/-- The units of sixteen bits of a character. -/
def unitsOf (c : Char) : List Nat :=
  if c.toNat < 0x10000 then [c.toNat]
  else [0xd800 + (c.toNat - 0x10000) / 0x400, 0xdc00 + (c.toNat - 0x10000) % 0x400]

theorem isValidChar_toNat (c : Char) : c.toNat < 0xd800 ∨ 0xdfff < c.toNat ∧ c.toNat < 0x110000 :=
  c.valid

theorem units?_codeEscape (c : Char) (s : List Char) : units? (codeEscape c.toNat ++ s) =
    (units? s).map fun (ns, r) => (unitsOf c ++ ns, r) := by
  have hvalid := isValidChar_toNat c
  rw [codeEscape, unitsOf]
  split
  · next hsmall => exact units?_unitEscape hsmall s
  · next hlarge =>
    rw [List.append_assoc, units?_unitEscape (by omega), units?_unitEscape (by omega)]
    cases units? s <;> rfl

theorem units?_letter {l : Char} (hl : letterEscape? l = some c) (hc : c.toNat < 0x10000)
    (s : List Char) :
    units? ('\\' :: l :: s) = (units? s).map fun (ns, r) => (unitsOf c ++ ns, r) := by
  rw [units?, hl, unitsOf, if_pos hc]
  · cases units? s <;> rfl
  · rintro a b c d s' rfl
    cases hl

/-- A character is written as a letter behind a backslash, as itself, or by its code point. -/
theorem escaped_cases (c : Char) :
    (∃ l, escaped c = ['\\', l] ∧ letterEscape? l = some c ∧ c.toNat < 0x80) ∨
      (escaped c = [c] ∧ 0x20 ≤ c.toNat ∧ c.toNat ≤ 0x7e ∧ c ≠ '"' ∧ c ≠ '\\') ∨
      escaped c = codeEscape c.toNat := by
  by_cases hletter : c ∈ ['"', '\\', '\n', '\r', '\t', '\x0c', '\x08']
  · left
    simp only [List.mem_cons, List.not_mem_nil, or_false] at hletter
    rcases hletter with rfl | rfl | rfl | rfl | rfl | rfl | rfl <;> exact ⟨_, rfl, rfl, by decide⟩
  · right
    simp only [List.mem_cons, List.not_mem_nil, or_false, not_or] at hletter
    simp only [escaped, hletter, if_false]
    split
    · next hplain => exact .inl ⟨rfl, hplain.1, hplain.2, hletter.1, hletter.2.1⟩
    · exact .inr rfl

/-- A character is read as its units, in whatever form it is written. -/
theorem units?_escaped (c : Char) (s : List Char) :
    units? (escaped c ++ s) = (units? s).map fun (ns, r) => (unitsOf c ++ ns, r) := by
  obtain ⟨l, htext, hl, hc⟩ | ⟨htext, hlow, hhigh, hquote, hbackslash⟩ | htext := escaped_cases c
  · rw [htext]
    exact units?_letter hl (by omega) s
  · rw [htext, List.singleton_append, units?, if_neg (by omega), unitsOf, if_pos (by omega)]
    · cases units? s <;> rfl
    · exact hquote
    · exact fun _ _ _ _ _ hc _ => hbackslash hc
    · exact fun _ _ hc _ => hbackslash hc
  · rw [htext]
    exact units?_codeEscape c s

theorem chars?_unitsOf (c : Char) (ns : List Nat) :
    chars? (unitsOf c ++ ns) = (chars? ns).map (c :: ·) := by
  have hvalid := isValidChar_toNat c
  rw [unitsOf]
  split
  · rw [List.singleton_append, chars?.eq_def]
    dsimp only
    rw [if_pos hvalid, Char.ofNat_toNat]
  · next hlarge =>
    have hcode : 0x10000 + (0xd800 + (c.toNat - 0x10000) / 0x400 - 0xd800) * 0x400 +
        (0xdc00 + (c.toNat - 0x10000) % 0x400 - 0xdc00) = c.toNat := by omega
    have hsurrogate : ¬Nat.isValidChar (0xd800 + (c.toNat - 0x10000) / 0x400) := by
      rintro (h | h) <;> omega
    rw [List.cons_append, List.singleton_append, chars?.eq_def]
    dsimp only
    rw [if_neg hsurrogate, if_pos (by omega), hcode, Char.ofNat_toNat]

theorem units?_flatMap (cs rest : List Char) :
    units? (cs.flatMap escaped ++ '"' :: rest) = some (cs.flatMap unitsOf, rest) := by
  induction cs with
  | nil => rfl
  | cons c cs ih =>
    rw [List.flatMap_cons, List.append_assoc, units?_escaped, ih]
    rfl

theorem chars?_flatMap (cs : List Char) : chars? (cs.flatMap unitsOf) = some cs := by
  induction cs with
  | nil => rfl
  | cons c cs ih =>
    rw [List.flatMap_cons, chars?_unitsOf, ih]
    rfl

/-- A string is read back. -/
theorem string?_flatMap (t : String) (rest : List Char) :
    string? (t.toList.flatMap escaped ++ '"' :: rest) = some (t, rest) := by
  rw [string?, units?_flatMap]
  simp only [Option.bind_eq_bind, Option.bind_some, chars?_flatMap, String.ofList_toList]
  rfl

/-! ### Integers -/

/-- A number ends where a text goes on with something else than a digit, a fraction or an
exponent. -/
def Stops (rest : List Char) : Prop :=
  ∀ c ∈ rest.head?, c.isDigit = false ∧ goesOn [c] = false

theorem exists_toDigits_eq_cons (n : Nat) :
    ∃ c ds, Nat.toDigits 10 n = c :: ds ∧ c.isDigit = true := by
  obtain ⟨c, ds, hds⟩ := List.exists_cons_of_ne_nil (Nat.toDigits_ne_nil (b := 10) (n := n))
  exact ⟨c, ds, hds, Nat.isDigit_of_mem_toDigits (by omega) (by omega) (hds ▸ List.mem_cons_self)⟩

theorem head?_toDigits_ne (hn : 0 < n) : (Nat.toDigits 10 n).head? ≠ some '0' := by
  induction n using Nat.strongRecOn with
  | ind n ih =>
    rcases Nat.lt_or_ge n 10 with hlt | hge
    · rw [Nat.toDigits_of_lt_base hlt]
      simpa using Nat.pos_iff_ne_zero.1 hn
    · have hhead := ih (n / 10) (by omega) (by omega)
      obtain ⟨c, ds, hds, -⟩ := exists_toDigits_eq_cons (n / 10)
      rw [Nat.toDigits_of_base_le (by omega) hge]
      rw [hds] at hhead ⊢
      exact hhead

theorem isNatural_toDigits (n : Nat) : isNatural (Nat.toDigits 10 n) = true := by
  rcases Nat.eq_zero_or_pos n with rfl | hn
  · decide
  · simp [isNatural, head?_toDigits_ne hn]

theorem natural?_toDigits (n : Nat) (hrest : Stops rest) :
    natural? (Nat.toDigits 10 n ++ rest) = some (n, rest) := by
  have hdigits : ∀ c ∈ Nat.toDigits 10 n, c.isDigit = true := fun c hc =>
    Nat.isDigit_of_mem_toDigits (by omega) (by omega) hc
  have hstop : rest.takeWhile Char.isDigit = [] ∧ rest.dropWhile Char.isDigit = rest ∧
      goesOn rest = false := by
    cases rest with
    | nil => exact ⟨rfl, rfl, rfl⟩
    | cons c rest =>
      obtain ⟨hdigit, hgoes⟩ := hrest c rfl
      exact ⟨by simp [hdigit], by simp [hdigit], hgoes⟩
  simp only [natural?, List.takeWhile_append_of_pos hdigits, List.dropWhile_append_of_pos hdigits,
    hstop, List.append_nil, isNatural_toDigits, Nat.ofDigitChars_ten_toDigits]
  rfl

/-- An integer is read back. -/
theorem integer?_decimal (z : Int) (hrest : Stops rest) :
    integer? ((Text.decimal z).toList ++ rest) = some (z, rest) := by
  cases z with
  | negSucc n =>
    have htext : (Text.decimal (.negSucc n)).toList = '-' :: Nat.toDigits 10 (n + 1) := by
      rw [Text.decimal, String.toList_append, Text.toList_decimalNat]
      rfl
    rw [htext, List.cons_append, integer?, natural?_toDigits _ hrest]
    rfl
  | ofNat n =>
    have htext : (Text.decimal (.ofNat n)).toList = Nat.toDigits 10 n := Text.toList_decimalNat n
    rw [htext, integer?, natural?_toDigits _ hrest]
    · rfl
    · intro s hs
      obtain ⟨c, ds, hds, hdigit⟩ := exists_toDigits_eq_cons n
      rw [hds] at hs
      rw [(List.cons.inj hs).1] at hdigit
      cases hdigit

/-! ### Values -/

theorem toList_stringText (s : String) :
    (stringText s).toList = '"' :: (s.toList.flatMap escaped ++ ['"']) := by
  rw [stringText, stringChars, String.toList_ofList]
  rfl

theorem value?_blank (n : Nat) (s : List Char) : value? n (' ' :: s) = value? n s := by
  cases n <;> rfl

theorem items?_blank (n : Nat) (s : List Char) : items? n (' ' :: s) = items? n s := by
  cases n with
  | zero => rfl
  | succ n => rw [items?, items?, value?_blank]

theorem members?_blank (n : Nat) (s : List Char) : members? n (' ' :: s) = members? n s := by
  cases n <;> rfl

theorem value?_quote (n : Nat) (t : String) (rest : List Char) :
    value? (n + 1) ((stringText t).toList ++ rest) = some (str t, rest) := by
  rw [toList_stringText, List.cons_append, List.append_assoc, List.singleton_append, value?]
  change ((string? (t.toList.flatMap escaped ++ '"' :: rest)).bind fun p => some (str p.1, p.2)) = _
  rw [string?_flatMap]
  rfl

theorem value?_number {z : Int} (hs : integer? (c :: s) = some (z, rest))
    (hc : c = '-' ∨ c.isDigit = true) : value? (n + 1) (c :: s) = some (int z, rest) := by
  have hother : ∀ a, a.isDigit = false → a ≠ '-' → c ≠ a := by
    rintro a ha hminus rfl
    rcases hc with rfl | hc
    · exact hminus rfl
    · rw [ha] at hc
      cases hc
  have hblank : skipBlanks (c :: s) = c :: s := by
    refine List.dropWhile_cons_of_neg ?_
    simp only [hother ' ' rfl (by decide), hother '\t' rfl (by decide), hother '\n' rfl (by decide),
      hother '\r' rfl (by decide)]
    decide
  rw [value?, hblank]
  split <;> next heq =>
    first
    | exact absurd (List.cons.inj heq).1 (hother _ rfl (by decide))
    | rw [hs]
      rfl

theorem items?_eq_none (hs : skipBlanks s = ']' :: r) : items? n s = none := by
  have hvalue : ∀ k, value? k s = none := by
    intro k
    cases k with
    | zero => rfl
    | succ k =>
      rw [value?, hs]
      rfl
  cases n with
  | zero => rfl
  | succ n =>
    rw [items?, hvalue]
    rfl

theorem members?_eq_none (hs : skipBlanks s = '\x7d' :: r) : members? n s = none := by
  cases n with
  | zero => rfl
  | succ n =>
    rw [members?, hs]
    rfl

/-- A list whose first item can be read is not empty. -/
theorem value?_bracket {vs : List Json} (hs : items? n s = some (vs, rest)) :
    value? (n + 1) ('[' :: s) = some (arr vs, rest) := by
  rw [value?]
  change (match skipBlanks s with
    | ']' :: r => some (arr [], r)
    | _ => (items? n s).bind fun p => some (arr p.1, p.2)) = _
  split
  · next r hclosed =>
    rw [items?_eq_none hclosed] at hs
    cases hs
  · rw [hs]
    rfl

/-- An object whose first member can be read is not empty. -/
theorem value?_brace {ms : List (String × Json)} (hs : members? n s = some (ms, rest)) :
    value? (n + 1) ('\x7b' :: s) = some (obj ms, rest) := by
  rw [value?]
  change (match skipBlanks s with
    | '\x7d' :: r => some (obj [], r)
    | _ => (members? n s).bind fun p => some (obj p.1, p.2)) = _
  split
  · next r hclosed =>
    rw [members?_eq_none hclosed] at hs
    cases hs
  · rw [hs]
    rfl

theorem items?_comma {v : Json} {vs : List Json} (hs : value? n s = some (v, ',' :: r))
    (hr : items? n r = some (vs, rest)) : items? (n + 1) s = some (v :: vs, rest) := by
  rw [items?, hs]
  change ((items? n r).bind fun p => some (v :: p.1, p.2)) = _
  rw [hr]
  rfl

theorem items?_close {v : Json} (hs : value? n s = some (v, ']' :: rest)) :
    items? (n + 1) s = some ([v], rest) := by
  rw [items?, hs]
  rfl

/-- Behind a key and its colon comes the value of the member. -/
theorem members?_key (n : Nat) (k : String) (s : List Char) :
    members? (n + 1) ((stringText k).toList ++ ':' :: s) = (do
      let (v, r) ← value? n s
      match skipBlanks r with
      | ',' :: r => do
        let (ms, r) ← members? n r
        return ((k, v) :: ms, r)
      | '\x7d' :: r => return ([(k, v)], r)
      | _ => none) := by
  rw [toList_stringText, List.cons_append, List.append_assoc, members?]
  change ((string? (k.toList.flatMap escaped ++ '"' :: ':' :: s)).bind fun _ => _) = _
  rw [string?_flatMap]
  rfl

theorem members?_comma (k : String) {v : Json} {ms : List (String × Json)}
    (hs : value? n s = some (v, ',' :: r)) (hr : members? n r = some (ms, rest)) :
    members? (n + 1) ((stringText k).toList ++ ':' :: s) = some ((k, v) :: ms, rest) := by
  rw [members?_key, hs]
  change ((members? n r).bind fun p => some ((k, v) :: p.1, p.2)) = _
  rw [hr]
  rfl

theorem members?_close (k : String) {v : Json} (hs : value? n s = some (v, '\x7d' :: rest)) :
    members? (n + 1) ((stringText k).toList ++ ':' :: s) = some ([(k, v)], rest) := by
  rw [members?_key, hs]
  rfl

end Reader

/-- The value of a text, if it is the text of one value. Every value, item and member has a
character of its own, so nothing is deeper than the text is long. -/
def read? (text : String) : Option Json := do
  let (v, r) ← Reader.value? text.length text.toList
  if Reader.skipBlanks r = [] then some v else none

example : read? "\x7b\"a\" : [1,\t-20] , \"\\u00C9\": \"\\/\"\x7d " =
    some (.obj [("a", .arr [.int 1, .int (-20)]), ("É", .str "/")]) := by
  cbv

end BytecodeRegions.Json
