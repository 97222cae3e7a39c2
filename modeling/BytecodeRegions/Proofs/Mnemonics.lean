import BytecodeRegions.Opcode
import BytecodeRegions.Proofs.Listing.Forms
import BytecodeRegions.Proofs.Text.Decimal
import Mathlib.Data.List.Nodup

/-!
# Mnemonics as names

Every mnemonic is a name of small letters, digits and underscores, and no two opcodes share one, so
the look-up of a mnemonic finds its opcode. The table is long, so both facts are checked on numbers:
the code points of the letters, and a digest of each mnemonic that is looked up among the bits of
those before it.

## Main results

* `Opcode.name_injective`, `Opcode.ofName?_name`: a mnemonic stands for one opcode.
* `Opcode.isName_name`: a mnemonic is a name.
-/

namespace BytecodeRegions

/-! ### Numbers without repetition -/

/-- No number comes twice, nor is its bit set in `seen`. -/
private def apart (seen : Nat) : List Nat → Bool
  | [] => true
  | n :: ns => !seen.testBit n && apart (seen ||| 1 <<< n) ns

private theorem nodup_of_apart {seen : Nat} {ns : List Nat} (h : apart seen ns = true) :
    ns.Nodup ∧ ∀ n ∈ ns, seen.testBit n = false := by
  induction ns generalizing seen with
  | nil => exact ⟨.nil, nofun⟩
  | cons n ns ih =>
    obtain ⟨hn, hns⟩ := Bool.and_eq_true_iff.1 h
    obtain ⟨hnodup, hseen⟩ := ih hns
    have hbits (k : Nat) (hk : k ∈ ns) : seen.testBit k = false ∧ n ≠ k := by
      have hbit := hseen k hk
      rw [Nat.testBit_or, Bool.or_eq_false_iff, Nat.one_shiftLeft, Nat.testBit_two_pow,
        decide_eq_false_iff_not] at hbit
      exact hbit
    refine ⟨List.nodup_cons.2 ⟨fun hmem => (hbits n hmem).2 rfl, hnodup⟩, ?_⟩
    refine List.forall_mem_cons.2 ⟨by simpa using hn, fun k hk => (hbits k hk).1⟩

/-! ### The table -/

/-- A small letter. -/
private def isLetter (c : Char) : Bool :=
  decide (97 ≤ c.toNat) && decide (c.toNat ≤ 122)

/-- A small letter, a digit or an underscore. -/
private def isMnemonicChar (c : Char) : Bool :=
  isLetter c || (decide (48 ≤ c.toNat) && decide (c.toNat ≤ 57)) || c.toNat == 95

/-- Small letters, digits and underscores, a letter first. -/
private def isMnemonic : List Char → Bool
  | [] => false
  | c :: s => isLetter c && s.all isMnemonicChar

/-- A number that tells mnemonics apart. -/
private def digest (s : List Char) : Nat :=
  s.foldl (fun n c => n * 256 + c.toNat) 0 % 2427

private theorem spell_cons {s : String} {ss : List String} {l : List Char} {ls : List (List Char)}
    (hs : s = String.ofList l) (hss : ss = ls.map String.ofList) :
    s :: ss = (l :: ls).map String.ofList := by
  rw [hs, hss, List.map_cons]

/-- The table letter by letter. -/
private theorem exists_spelling : ∃ ls : List (List Char), mnemonics.toList = ls.map String.ofList ∧
    ls.all isMnemonic = true ∧ apart 0 (ls.map digest) = true := by
  constructor
  case h =>
    apply And.intro
    case left =>
      -- the letters are found by unification, one mnemonic at a time
      simp only [mnemonics, Vector.toList_mk]
      repeat apply spell_cons rfl
      exact List.map_nil.symm
    case right => exact ⟨by decide +kernel, by decide +kernel⟩

namespace Opcode

theorem name_eq_get (op : Opcode) : op.name = mnemonics.toList.get (op.code.cast (by simp)) := by
  simp [name]

private theorem isMnemonic_name (op : Opcode) : isMnemonic op.name.toList = true := by
  obtain ⟨ls, hls, hall, -⟩ := exists_spelling
  have hmem : op.name ∈ mnemonics.toList := name_eq_get op ▸ List.get_mem _ _
  rw [hls] at hmem
  obtain ⟨l, hl, hname⟩ := List.mem_map.1 hmem
  rw [← hname, String.toList_ofList]
  exact List.all_eq_true.1 hall l hl

/-- No two opcodes share a mnemonic. -/
theorem name_injective : Function.Injective name := by
  intro op op' h
  obtain ⟨ls, hls, -, hapart⟩ := exists_spelling
  have hdigests : mnemonics.toList.map (fun s => digest s.toList) = ls.map digest := by
    rw [hls, List.map_map]
    exact List.map_congr_left fun l _ => congrArg digest String.toList_ofList
  have hnodup := (nodup_of_apart hapart).1
  rw [← hdigests] at hnodup
  rw [name_eq_get, name_eq_get] at h
  have hcode := List.nodup_iff_injective_get.1 (List.Nodup.of_map _ hnodup) h
  cases op
  cases op'
  exact congrArg mk (Fin.ext (congrArg Fin.val hcode))

private theorem toNat_of_isMnemonicChar {c : Char} (hc : isMnemonicChar c = true) :
    48 ≤ c.toNat ∧ c.toNat ≤ 57 ∨ c.toNat = 95 ∨ 97 ≤ c.toNat ∧ c.toNat ≤ 122 := by
  simp only [isMnemonicChar, isLetter, Bool.or_eq_true, Bool.and_eq_true, decide_eq_true_eq,
    beq_iff_eq] at hc
  omega

private theorem foldCase_of_isMnemonicChar {c : Char} (hc : isMnemonicChar c = true) :
    foldCase c = c := by
  have hrange := toNat_of_isMnemonicChar hc
  have hcapital : ¬('A' ≤ c ∧ c ≤ 'Z') := by
    rintro ⟨hlow, hhigh⟩
    have hlow : 65 ≤ c.toNat := hlow
    have hhigh : c.toNat ≤ 90 := hhigh
    omega
  have hkelvin : c ≠ '\u212a' := by
    rintro rfl
    revert hrange
    decide
  rw [foldCase, if_neg hcapital, if_neg hkelvin]

private theorem isMnemonicChar_of_mem_name {op : Opcode} {c : Char} (hc : c ∈ op.name.toList) :
    isMnemonicChar c = true := by
  have h := isMnemonic_name op
  unfold isMnemonic at h
  split at h
  · cases h
  · next d s heq =>
    rw [heq] at hc
    obtain ⟨hd, hs⟩ := Bool.and_eq_true_iff.1 h
    rcases List.mem_cons.1 hc with rfl | hc
    · simp [isMnemonicChar, hd]
    · exact List.all_eq_true.1 hs c hc

/-- The look-up of a mnemonic finds its opcode. -/
theorem ofName?_name (op : Opcode) : ofName? op.name = some op := by
  have hfold : String.ofList (op.name.toList.map foldCase) = op.name := by
    have hsame : op.name.toList.map foldCase = op.name.toList := by
      refine (List.map_congr_left fun c hc => ?_).trans (List.map_id _)
      exact foldCase_of_isMnemonicChar (isMnemonicChar_of_mem_name hc)
    rw [hsame, String.ofList_toList]
  rw [ofName?, hfold]
  cases hfind : all.find? (·.name == op.name) with
  | none =>
    have hnot := List.find?_eq_none.1 hfind op (mem_all op)
    simp at hnot
  | some op' =>
    have hname := List.find?_some hfind
    rw [name_injective (eq_of_beq hname)]

theorem toNat_of_mem_name {op : Opcode} {c : Char} (hc : c ∈ op.name.toList) :
    48 ≤ c.toNat ∧ c.toNat ≤ 57 ∨ c.toNat = 95 ∨ 97 ≤ c.toNat ∧ c.toNat ≤ 122 :=
  toNat_of_isMnemonicChar (isMnemonicChar_of_mem_name hc)

/-- A mnemonic is a name. -/
theorem isName_name (op : Opcode) : Listing.IsName op.name.toList := by
  have hword : ∀ n < 123, (48 ≤ n ∧ n ≤ 57 ∨ n = 95 ∨ 97 ≤ n ∧ n ≤ 122) →
      Text.wordRanges.covers n = true := by
    decide
  have h := isMnemonic_name op
  have hchars (c : Char) (hc : c ∈ op.name.toList) : Listing.isNameChar c = true := by
    have hrange := toNat_of_mem_name hc
    rw [Listing.isNameChar, Text.isWord, hword c.toNat (by omega) hrange, Bool.true_or]
  unfold isMnemonic at h
  split at h
  · cases h
  · next d s heq =>
    obtain ⟨hd, -⟩ := Bool.and_eq_true_iff.1 h
    rw [heq] at hchars ⊢
    refine ⟨d, s, rfl, ?_, fun c hc => hchars c (List.mem_cons_of_mem d hc)⟩
    have hlower : d.isLower = true := by
      show (decide (d.val ≥ 97) && decide (d.val ≤ 122)) = true
      simpa [isLetter, UInt32.le_iff_toNat_le] using hd
    show (d.isUpper || d.isLower || d == '_' || d == '$') = true
    rw [hlower, Bool.or_true, Bool.true_or, Bool.true_or]

end Opcode

end BytecodeRegions
