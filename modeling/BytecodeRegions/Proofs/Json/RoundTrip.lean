import BytecodeRegions.Proofs.Json.Reader

/-!
# Values are read back from their texts

The text of a value is one line of ASCII, and reading it gives the value back, nested lists and
objects included. An object is written with its members in the order of their keys, so what is read
back is the same value only up to that order: objects are compared as the maps that they mean.

## Main definitions

* `Json.Meaning`, `Json.meaning`: values with objects as maps.
* `Json.ReadsAs`: a text is read as a value with a given meaning, whatever follows it.
* `Json.IsPlain`: lines of ASCII without controls.

## Main results

* `Json.asMap_mergeSort`: sorting members by their keys does not change the map.
* `Json.exists_read?_text`: the text of a value is read as a value with the same meaning.
* `Json.meaning_eq_of_text_eq`: values with one text have one meaning.
* `Json.isPlain_text`: the text of a value is a line of ASCII without controls.
-/

namespace BytecodeRegions

namespace Json

/-- A property of all values, from the items of lists and the members of objects on. -/
@[elab_as_elim]
theorem induction {P : Json → Prop} (null : P .null) (bool : ∀ b, P (.bool b))
    (int : ∀ n, P (.int n)) (str : ∀ s, P (.str s))
    (arr : ∀ items, (∀ v ∈ items, P v) → P (.arr items))
    (obj : ∀ members, (∀ m ∈ members, P m.2) → P (.obj members)) (j : Json) : P j :=
  @Json.rec P (fun items => ∀ v ∈ items, P v) (fun members => ∀ m ∈ members, P m.2)
    (fun m => P m.2) null bool int str arr obj (List.forall_mem_nil _)
    (fun _ _ hv hitems => List.forall_mem_cons.2 ⟨hv, hitems⟩) (List.forall_mem_nil _)
    (fun _ _ hm hmembers => List.forall_mem_cons.2 ⟨hm, hmembers⟩) (fun _ _ hv => hv) j

/-! ### What values mean -/

/-- What a value means: an object is a map from its keys. -/
inductive Meaning where
  /-- No value. -/
  | null
  /-- A truth value. -/
  | bool (b : Bool)
  /-- An integer. -/
  | int (n : Int)
  /-- A string. -/
  | str (s : String)
  /-- A list. -/
  | arr (items : List Meaning)
  /-- A map. -/
  | obj (member? : String → Option Meaning)

/-- The map that members make: where a key is repeated, its last member counts. -/
def asMap {α : Type} (members : List (String × α)) (key : String) : Option α :=
  ((members.filter (·.1 = key)).getLast?).map Prod.snd

mutual

/-- What a value means. -/
def meaning : Json → Meaning
  | null => .null
  | bool b => .bool b
  | int n => .int n
  | str s => .str s
  | arr items => .arr (itemMeanings items)
  | obj members => .obj (asMap (memberMeanings members))

/-- What the items of a list mean. -/
def itemMeanings : List Json → List Meaning
  | [] => []
  | v :: items => v.meaning :: itemMeanings items

/-- The keys of members with what their values mean. -/
def memberMeanings : List (String × Json) → List (String × Meaning)
  | [] => []
  | (k, v) :: members => (k, v.meaning) :: memberMeanings members

end

theorem itemMeanings_eq_map (items : List Json) : itemMeanings items = items.map meaning := by
  induction items with
  | nil => rfl
  | cons v items ih => rw [itemMeanings, ih, List.map_cons]

theorem memberMeanings_eq_map (members : List (String × Json)) :
    memberMeanings members = members.map fun m => (m.1, m.2.meaning) := by
  induction members with
  | nil => rfl
  | cons m members ih => rw [memberMeanings, ih, List.map_cons]

theorem itemTexts_eq_map (items : List Json) : itemTexts items = items.map text := by
  induction items with
  | nil => rfl
  | cons v items ih => rw [itemTexts, ih, List.map_cons]

theorem memberTexts_eq_map (members : List (String × Json)) :
    memberTexts members = members.map fun m => (m.1, m.2.text) := by
  induction members with
  | nil => rfl
  | cons m members ih => rw [memberTexts, ih, List.map_cons]

/-! ### Sorting members -/

/-- Whether the key of a member does not come after that of another. -/
def keyLe {α : Type} (a b : String × α) : Bool :=
  decide (a.1 ≤ b.1)

/-- Members with one key keep their order, so sorting does not change the map. -/
theorem asMap_mergeSort {α : Type} (members : List (String × α)) :
    asMap (members.mergeSort keyLe) = asMap members := by
  funext key
  have hsub : (members.filter (·.1 = key)).Sublist (members.mergeSort keyLe) := by
    refine List.sublist_mergeSort (fun a b c hab hbc => ?_) (fun a b => ?_) ?_ List.filter_sublist
    · exact decide_eq_true (String.le_trans (of_decide_eq_true hab) (of_decide_eq_true hbc))
    · simpa [keyLe] using String.le_total a.1 b.1
    · refine List.pairwise_of_forall_mem_list fun a ha b hb => decide_eq_true ?_
      have heq : a.1 = b.1 := (of_decide_eq_true (List.mem_filter.1 ha).2).trans
        (of_decide_eq_true (List.mem_filter.1 hb).2).symm
      exact heq ▸ String.le_refl a.1
  -- so the members with this key are a sublist of those in the sorted list, and there are as many
  have hlength := ((List.mergeSort_perm members keyLe).filter (·.1 = key)).length_eq
  have hfilter := hsub.filter (·.1 = key)
  simp only [List.filter_filter, Bool.and_self] at hfilter
  rw [asMap, asMap, hfilter.eq_of_length hlength.symm]

/-- The text of a member. -/
def memberText (m : String × Json) : String :=
  stringText m.1 ++ ": " ++ m.2.text

/-- The text of an object has its members in the order of their keys. -/
theorem text_obj (members : List (String × Json)) : (obj members).text =
    "\x7b" ++ ", ".intercalate ((members.mergeSort keyLe).map memberText) ++ "\x7d" := by
  have hsorted : (members.mergeSort keyLe).map (fun m => (m.1, m.2.text)) =
      (members.map fun m => (m.1, m.2.text)).mergeSort fun a b => decide (a.1 ≤ b.1) :=
    List.map_mergeSort fun _ _ _ _ => rfl
  rw [text, memberTexts_eq_map, objectText, ← hsorted, List.map_map]
  rfl

theorem text_arr (items : List Json) :
    (arr items).text = "[" ++ ", ".intercalate (items.map text) ++ "]" := by
  rw [text, itemTexts_eq_map, Text.bracketed]

/-! ### Reading values -/

open Reader

/-- A text is read as a value that means `μ`, whatever follows it, unless that goes on with a
number; the length of the text is depth enough. -/
def ReadsAs (s : List Char) (μ : Meaning) : Prop :=
  ∀ n rest, s.length ≤ n → Stops rest →
    ∃ v, value? n (s ++ rest) = some (v, rest) ∧ v.meaning = μ

theorem stops_cons (c : Char) (s : List Char) (hc : c.isDigit = false ∧ goesOn [c] = false) :
    Stops (c :: s) := by
  rintro _ ⟨⟩
  exact hc

/-! ### Lists and objects -/

variable {n : Nat} {c : Char} {s : List Char}

theorem toList_intercalate_cons_cons (t u : String) (ts : List String) :
    (", ".intercalate (t :: u :: ts)).toList =
      t.toList ++ ',' :: ' ' :: (", ".intercalate (u :: ts)).toList := by
  rw [String.intercalate_cons_cons]
  simp

theorem toList_memberText (m : String × Json) :
    (memberText m).toList = (stringText m.1).toList ++ ':' :: ' ' :: m.2.text.toList := by
  simp [memberText]

/-- The items of a list that is not empty are read back if each one is. -/
theorem items?_intercalate (v : Json) (items : List Json)
    (hitems : ∀ u ∈ v :: items, ReadsAs u.text.toList u.meaning) (rest : List Char)
    (hn : (", ".intercalate ((v :: items).map text)).toList.length < n) :
    ∃ vs, items? n ((", ".intercalate ((v :: items).map text)).toList ++ ']' :: rest) =
      some (vs, rest) ∧ vs.map meaning = (v :: items).map meaning := by
  induction items generalizing v n with
  | nil =>
    obtain ⟨n, rfl⟩ := Nat.exists_eq_add_one.2 (Nat.zero_lt_of_lt hn)
    obtain ⟨u, hu, hmeaning⟩ := hitems v List.mem_cons_self n _ (Nat.le_of_lt_succ hn)
      (stops_cons ']' rest (by decide))
    exact ⟨[u], items?_close hu, by simp [hmeaning]⟩
  | cons w items ih =>
    -- one level of the depth is used up by an item and its comma, which are longer than that
    rw [List.map_cons, List.map_cons, toList_intercalate_cons_cons, ← List.map_cons] at hn ⊢
    simp only [List.length_append, List.length_cons] at hn
    obtain ⟨n, rfl⟩ := Nat.exists_eq_add_one.2 (Nat.zero_lt_of_lt hn)
    obtain ⟨vs, hvs, hmeanings⟩ :=
      ih w (fun u hu => hitems u (List.mem_cons_of_mem v hu)) (n := n) (by omega)
    obtain ⟨u, hu, hmeaning⟩ := hitems v List.mem_cons_self n _ (by omega)
      (stops_cons ',' _ (by decide))
    refine ⟨u :: vs, ?_, congrArg₂ List.cons hmeaning hmeanings⟩
    rw [List.append_assoc, List.cons_append, List.cons_append]
    exact items?_comma hu (by rw [items?_blank, hvs])

/-- The members of an object that is not empty are read back if the value of each one is. -/
theorem members?_intercalate (m : String × Json) (members : List (String × Json))
    (hmembers : ∀ u ∈ m :: members, ReadsAs u.2.text.toList u.2.meaning) (rest : List Char)
    (hn : (", ".intercalate ((m :: members).map memberText)).toList.length < n) :
    ∃ ms, members? n ((", ".intercalate ((m :: members).map memberText)).toList ++ '\x7d' :: rest) =
      some (ms, rest) ∧ memberMeanings ms = memberMeanings (m :: members) := by
  induction members generalizing m n with
  | nil =>
    rw [List.map_singleton, String.intercalate_singleton, toList_memberText] at hn ⊢
    simp only [List.length_append, List.length_cons] at hn
    obtain ⟨n, rfl⟩ := Nat.exists_eq_add_one.2 (Nat.zero_lt_of_lt hn)
    obtain ⟨u, hu, hmeaning⟩ := hmembers m List.mem_cons_self n _ (by omega)
      (stops_cons '\x7d' rest (by decide))
    refine ⟨[(m.1, u)], ?_, by simp [memberMeanings, hmeaning]⟩
    rw [List.append_assoc, List.cons_append, List.cons_append]
    exact members?_close m.1 (by rw [value?_blank, hu])
  | cons m' members ih =>
    rw [List.map_cons, List.map_cons, toList_intercalate_cons_cons, toList_memberText,
      ← List.map_cons] at hn ⊢
    simp only [List.length_append, List.length_cons] at hn
    obtain ⟨n, rfl⟩ := Nat.exists_eq_add_one.2 (Nat.zero_lt_of_lt hn)
    obtain ⟨ms, hms, hmeanings⟩ :=
      ih m' (fun u hu => hmembers u (List.mem_cons_of_mem m hu)) (n := n) (by omega)
    obtain ⟨u, hu, hmeaning⟩ := hmembers m List.mem_cons_self n _ (by omega)
      (stops_cons ',' _ (by decide))
    refine ⟨(m.1, u) :: ms, ?_, congrArg₂ (fun μ μs => (m.1, μ) :: μs) hmeaning hmeanings⟩
    rw [List.append_assoc, List.append_assoc, List.cons_append, List.cons_append, List.cons_append,
      List.cons_append]
    exact members?_comma m.1 (by rw [value?_blank, hu]) (by rw [members?_blank, hms])

theorem asMap_memberMeanings (members : List (String × Json)) (key : String) :
    asMap (memberMeanings members) key = (asMap members key).map meaning := by
  rw [memberMeanings_eq_map, asMap, asMap, List.filter_map, List.getLast?_map, Option.map_map,
    Option.map_map]
  rfl

theorem meaning_obj_mergeSort (members : List (String × Json)) :
    (obj (members.mergeSort keyLe)).meaning = (obj members).meaning := by
  have hmap : asMap (memberMeanings (members.mergeSort keyLe)) =
      asMap (memberMeanings members) := by
    funext key
    rw [asMap_memberMeanings, asMap_memberMeanings, asMap_mergeSort]
  rw [meaning, meaning, hmap]

/-! ### Whole values -/

/-- Behind the first character of a text that a depth is enough for, the next lower one is. -/
theorem exists_depth (hn : (c :: s).length ≤ n) : ∃ k, n = k + 1 ∧ s.length ≤ k := by
  cases n with
  | zero => cases hn
  | succ k => exact ⟨k, rfl, Nat.le_of_succ_le_succ hn⟩

theorem readsAs_int (z : Int) : ReadsAs (int z).text.toList (.int z) := by
  intro n rest hn hrest
  have hread := integer?_decimal z hrest
  obtain ⟨c, s, htext, hc⟩ : ∃ c s, (Text.decimal z).toList = c :: s ∧
      (c = '-' ∨ c.isDigit = true) := by
    cases z with
    | negSucc n =>
      refine ⟨'-', (Text.decimalNat (n + 1)).toList, ?_, .inl rfl⟩
      rw [Text.decimal, String.toList_append]
      rfl
    | ofNat n =>
      obtain ⟨c, ds, hds, hdigit⟩ := exists_toDigits_eq_cons n
      exact ⟨c, ds, (Text.toList_decimalNat n).trans hds, .inr hdigit⟩
  rw [text, htext] at hn ⊢
  rw [htext] at hread
  obtain ⟨n, rfl, -⟩ := exists_depth hn
  exact ⟨int z, value?_number hread hc, rfl⟩

theorem readsAs_str (t : String) : ReadsAs (str t).text.toList (.str t) := by
  intro n rest hn _
  rw [text] at hn ⊢
  rw [toList_stringText] at hn
  obtain ⟨n, rfl, -⟩ := exists_depth hn
  exact ⟨str t, value?_quote n t rest, rfl⟩

theorem readsAs_arr {items : List Json}
    (hitems : ∀ v ∈ items, ReadsAs v.text.toList v.meaning) :
    ReadsAs (arr items).text.toList (arr items).meaning := by
  intro n rest hn _
  have htext : (arr items).text.toList =
      '[' :: ((", ".intercalate (items.map text)).toList ++ [']']) := by
    rw [text_arr]
    simp
  rw [htext] at hn ⊢
  obtain ⟨n, rfl, hinner⟩ := exists_depth hn
  rw [List.length_append] at hinner
  cases items with
  | nil => exact ⟨arr [], rfl, rfl⟩
  | cons v items =>
    obtain ⟨vs, hvs, hmeanings⟩ := items?_intercalate v items hitems rest hinner
    have hmeaning : (arr vs).meaning = (arr (v :: items)).meaning := by
      rw [meaning, meaning, itemMeanings_eq_map, itemMeanings_eq_map, hmeanings]
    refine ⟨arr vs, ?_, hmeaning⟩
    rw [List.cons_append, List.append_assoc]
    exact value?_bracket hvs

theorem readsAs_obj {members : List (String × Json)}
    (hmembers : ∀ m ∈ members, ReadsAs m.2.text.toList m.2.meaning) :
    ReadsAs (obj members).text.toList (obj members).meaning := by
  intro n rest hn _
  have htext : (obj members).text.toList =
      '\x7b' :: ((", ".intercalate ((members.mergeSort keyLe).map memberText)).toList ++
        ['\x7d']) := by
    rw [text_obj]
    simp
  rw [htext] at hn ⊢
  rw [← meaning_obj_mergeSort]
  replace hmembers : ∀ m ∈ members.mergeSort keyLe, ReadsAs m.2.text.toList m.2.meaning :=
    fun m hm => hmembers m (List.mem_mergeSort.1 hm)
  obtain ⟨n, rfl, hinner⟩ := exists_depth hn
  rw [List.length_append] at hinner
  cases hsorted : members.mergeSort keyLe with
  | nil => exact ⟨obj [], rfl, rfl⟩
  | cons m sorted =>
    rw [hsorted] at hmembers hinner
    obtain ⟨ms, hms, hmeanings⟩ := members?_intercalate m sorted hmembers rest hinner
    have hmeaning : (obj ms).meaning = (obj (m :: sorted)).meaning := by
      rw [meaning, meaning, hmeanings]
    refine ⟨obj ms, ?_, hmeaning⟩
    rw [List.cons_append, List.append_assoc]
    exact value?_brace hms

/-- The text of a value is read as a value with the same meaning. -/
theorem readsAs_text (j : Json) : ReadsAs j.text.toList j.meaning := by
  induction j using Json.induction with
  | null =>
    intro n rest hn _
    obtain ⟨n, rfl, -⟩ := exists_depth hn
    exact ⟨null, rfl, rfl⟩
  | bool b =>
    intro n rest hn _
    cases b with
    | true =>
      obtain ⟨n, rfl, -⟩ := exists_depth hn
      exact ⟨bool true, rfl, rfl⟩
    | false =>
      obtain ⟨n, rfl, -⟩ := exists_depth hn
      exact ⟨bool false, rfl, rfl⟩
  | int z => exact readsAs_int z
  | str t => exact readsAs_str t
  | arr items ih => exact readsAs_arr ih
  | obj members ih => exact readsAs_obj ih

/-- A value is read back from its text, up to the order of the members of objects. -/
theorem exists_read?_text (j : Json) : ∃ v, read? j.text = some v ∧ v.meaning = j.meaning := by
  obtain ⟨v, hv, hmeaning⟩ := readsAs_text j j.text.length []
    (Nat.le_of_eq String.length_toList) (by rintro c ⟨⟩)
  rw [List.append_nil] at hv
  refine ⟨v, ?_, hmeaning⟩
  rw [read?, hv]
  rfl

/-- Values with one text have one meaning. -/
theorem meaning_eq_of_text_eq {j k : Json} (h : j.text = k.text) : j.meaning = k.meaning := by
  obtain ⟨v, hv, hj⟩ := exists_read?_text j
  obtain ⟨w, hw, hk⟩ := exists_read?_text k
  rw [h, hw] at hv
  cases hv
  exact hj.symm.trans hk

/-! ### One line of ASCII -/

/-- A line of ASCII characters, none of them a control. -/
def IsPlain (s : List Char) : Prop :=
  ∀ c ∈ s, 0x20 ≤ c.toNat ∧ c.toNat ≤ 0x7e

instance : DecidablePred IsPlain := fun s =>
  List.decidableBAll (fun c : Char => 0x20 ≤ c.toNat ∧ c.toNat ≤ 0x7e) s

theorem isPlain_append {s t : List Char} : IsPlain (s ++ t) ↔ IsPlain s ∧ IsPlain t :=
  List.forall_mem_append

theorem isPlain_toDigits {b : Nat} (hb : 1 < b) (hb16 : b ≤ 16) (n : Nat) :
    IsPlain (Nat.toDigits b n) := by
  have hdigit : ∀ d < 16, IsPlain [d.digitChar] := by decide
  induction n using Nat.strongRecOn with
  | ind n ih =>
    rcases Nat.lt_or_ge n b with hn | hn
    · rw [Nat.toDigits_of_lt_base hn]
      exact hdigit n (by omega)
    · have hmod : n % b < b := Nat.mod_lt n (by omega)
      rw [Nat.toDigits_of_base_le hb hn, isPlain_append]
      exact ⟨ih (n / b) (Nat.div_lt_self (by omega) hb), hdigit (n % b) (by omega)⟩

theorem isPlain_decimal (z : Int) : IsPlain (Text.decimal z).toList := by
  cases z with
  | negSucc n =>
    rw [Text.decimal, String.toList_append, Text.toList_decimalNat, isPlain_append]
    exact ⟨by decide, isPlain_toDigits (by omega) (by omega) _⟩
  | ofNat n =>
    rw [Text.decimal, Text.toList_decimalNat]
    exact isPlain_toDigits (by omega) (by omega) n

theorem isPlain_unitEscape (n : Nat) : IsPlain (unitEscape n) := by
  have hpad : IsPlain (List.replicate (4 - (Nat.toDigits 16 n).length) '0') := by
    intro c hc
    rw [List.eq_of_mem_replicate hc]
    decide
  have hhex : IsPlain (Text.hex 4 n) :=
    isPlain_append.2 ⟨hpad, isPlain_toDigits (by omega) (by omega) n⟩
  exact isPlain_append.2 ⟨(by decide : IsPlain ['\\', 'u']), hhex⟩

theorem isPlain_codeEscape (n : Nat) : IsPlain (codeEscape n) := by
  rw [codeEscape]
  split
  · exact isPlain_unitEscape n
  · exact isPlain_append.2 ⟨isPlain_unitEscape _, isPlain_unitEscape _⟩

theorem isPlain_letter {l : Char} (hl : letterEscape? l = some c) : IsPlain ['\\', l] := by
  unfold letterEscape? at hl
  split at hl
  all_goals first
    | decide
    | cases hl

theorem isPlain_escaped (c : Char) : IsPlain (escaped c) := by
  obtain ⟨l, htext, hl, -⟩ | ⟨htext, hlow, hhigh, -, -⟩ | htext := escaped_cases c
  · rw [htext]
    exact isPlain_letter hl
  · rw [htext]
    exact List.forall_mem_singleton.2 ⟨hlow, hhigh⟩
  · rw [htext]
    exact isPlain_codeEscape c.toNat

theorem isPlain_stringText (s : String) : IsPlain (stringText s).toList := by
  rw [toList_stringText]
  have hopen : IsPlain ['"'] := by decide
  refine isPlain_append.2 ⟨hopen, isPlain_append.2 ⟨fun c hc => ?_, hopen⟩⟩
  obtain ⟨a, -, hc⟩ := List.mem_flatMap.1 hc
  exact isPlain_escaped a c hc

theorem isPlain_intercalate {ts : List String} (hts : ∀ t ∈ ts, IsPlain t.toList) :
    IsPlain (", ".intercalate ts).toList := by
  induction ts with
  | nil => decide
  | cons t ts ih =>
    obtain ⟨ht, hts⟩ := List.forall_mem_cons.1 hts
    cases ts with
    | nil => simpa using ht
    | cons u ts =>
      rw [String.intercalate_cons_cons, String.toList_append, String.toList_append, isPlain_append,
        isPlain_append]
      exact ⟨⟨ht, by decide⟩, ih hts⟩

/-- The text of a value is one line of ASCII without controls. -/
theorem isPlain_text (j : Json) : IsPlain j.text.toList := by
  induction j using Json.induction with
  | null => decide
  | bool b => cases b <;> decide
  | int z => exact isPlain_decimal z
  | str t => exact isPlain_stringText t
  | arr items ih =>
    rw [text_arr, String.toList_append, String.toList_append, isPlain_append, isPlain_append]
    exact ⟨⟨by decide, isPlain_intercalate (List.forall_mem_map.2 ih)⟩, by decide⟩
  | obj members ih =>
    rw [text_obj, String.toList_append, String.toList_append, isPlain_append, isPlain_append]
    refine ⟨⟨by decide, isPlain_intercalate (List.forall_mem_map.2 fun m hm => ?_)⟩, by decide⟩
    rw [memberText, String.toList_append, String.toList_append, isPlain_append, isPlain_append]
    exact ⟨⟨isPlain_stringText m.1, by decide⟩, ih m (List.mem_mergeSort.1 hm)⟩

end Json

end BytecodeRegions
