import BytecodeRegions.Text.Blank
import BytecodeRegions.Text.Numeral
import Mathlib.Algebra.Group.Nat.Defs

/-!
# Decimal numbers are read back

An integer that is written in decimal digits is an integer token, of as many digits as are written,
and its value is the integer. A token of few enough digits has a value that can be written.

## Main results

* `Numeral.ofToken?_decimal`: what is written is read as what it was.
* `Numeral.isWritable_natAbs_value`: a value that was read can be written.
-/

namespace BytecodeRegions.Text

/-- The characters between the space and U+0085 are no padding. -/
theorem isPadding_eq_false {c : Char} (hlow : 0x20 < c.toNat) (hhigh : c.toNat < 0x85) :
    isPadding c = false := by
  have hblank : isBlank c = false := by
    simp only [isBlank, blankRanges, Ranges.covers]
    rw [if_neg (by omega), if_neg (by omega), if_pos (by omega)]
    simp only [Bool.or_false, Bool.or_eq_false_iff, decide_eq_false_iff_not]
    omega
  rw [isPadding, hblank, Bool.false_or, Bool.and_eq_false_iff]
  exact .inr (decide_eq_false (by omega))

theorem isBlank_of_isPadding_eq_false {c : Char} (hc : isPadding c = false) : isBlank c = false :=
  (Bool.or_eq_false_iff.1 hc).1

theorem toList_decimalNat (n : Nat) : (decimalNat n).toList = Nat.toDigits 10 n :=
  String.toList_ofList

theorem decimalNat_injective : Function.Injective decimalNat := by
  intro a b h
  have hdigits := congrArg String.toList h
  rw [toList_decimalNat, toList_decimalNat] at hdigits
  have hvalue := congrArg (fun ds => Nat.ofDigitChars 10 ds 0) hdigits
  simpa using hvalue

theorem isDigit_of_mem_decimalNat {n : Nat} {c : Char} (hc : c ∈ (decimalNat n).toList) :
    c.isDigit = true := by
  rw [toList_decimalNat] at hc
  exact Nat.isDigit_of_mem_toDigits (by omega) (by omega) hc

theorem toNat_of_isDigit {c : Char} (hc : c.isDigit = true) : 48 ≤ c.toNat ∧ c.toNat ≤ 57 := by
  simpa [Char.isDigit, UInt32.le_iff_toNat_le] using hc

theorem digitValue?_of_isDigit {c : Char} (hc : c.isDigit = true) :
    digitValue? c = some (c.toNat - 48) := by
  have hrange := toNat_of_isDigit hc
  -- the digits of ASCII are the first of all scripts
  have hfirst : zeros.find? (fun z => z ≤ c.toNat && c.toNat < z + 10) = some 48 := by
    refine List.find?_cons_of_pos ?_
    simp only [Bool.and_eq_true, decide_eq_true_eq]
    omega
  rw [digitValue?, hfirst]
  rfl

/-- Of the characters of ASCII only the digits are worth anything. -/
theorem digitValue?_eq_none {c : Char} (hascii : c.toNat < 128) (hc : c.isDigit = false) :
    digitValue? c = none := by
  have hzeros : ∀ z ∈ zeros, z = 48 ∨ 128 ≤ z := by decide
  have hrange : ¬(48 ≤ c.toNat ∧ c.toNat ≤ 57) := by
    simpa [Char.isDigit, UInt32.le_iff_toNat_le] using hc
  rw [digitValue?, Option.map_eq_none_iff, List.find?_eq_none]
  intro z hz
  rw [Bool.and_eq_true, decide_eq_true_eq, decide_eq_true_eq]
  have := hzeros z hz
  omega

namespace Numeral

theorem mapM_digitValue? {s : List Char} (hs : ∀ c ∈ s, c.isDigit = true) :
    s.mapM digitValue? = some (s.map fun c => c.toNat - 48) := by
  induction s with
  | nil => rfl
  | cons c s ih =>
    obtain ⟨hc, hs⟩ := List.forall_mem_cons.1 hs
    rw [List.mapM_cons, digitValue?_of_isDigit hc, ih hs]
    rfl

theorem magnitude_map (negative : Bool) (s : List Char) :
    magnitude ⟨negative, s.map fun c => c.toNat - 48⟩ = Nat.ofDigitChars 10 s 0 := by
  rw [magnitude, List.foldl_map, Nat.ofDigitChars_eq_foldl]
  simp only [Nat.mul_comm]
  rfl

theorem digits?_toDigits (n : Nat) :
    digits? (Nat.toDigits 10 n) = some ((Nat.toDigits 10 n).map fun c => c.toNat - 48) := by
  have hne : (Nat.toDigits 10 n).isEmpty = false := by simp
  have hdigits : ∀ c ∈ Nat.toDigits 10 n, c.isDigit = true := fun c hc =>
    Nat.isDigit_of_mem_toDigits (by omega) (by omega) hc
  rw [digits?, hne, mapM_digitValue? hdigits]
  rfl

/-- A text that does not start with a sign is read as its digits. -/
theorem ofToken?_of_unsigned {c : Char} {s : List Char} (hminus : c ≠ '-') (hplus : c ≠ '+') :
    ofToken? (c :: s) = (digits? (c :: s)).map (⟨false, ·⟩) := by
  rw [ofToken?]
  · intro r hr
    exact hminus (List.cons.inj hr).1
  · intro r hr
    exact hplus (List.cons.inj hr).1

theorem ofToken?_toDigits (n : Nat) : ofToken? (Nat.toDigits 10 n) =
    some ⟨false, (Nat.toDigits 10 n).map fun c => c.toNat - 48⟩ := by
  obtain ⟨c, s, hcs⟩ := List.exists_cons_of_ne_nil (Nat.toDigits_ne_nil (b := 10) (n := n))
  have hc : c.isDigit = true :=
    Nat.isDigit_of_mem_toDigits (by omega) (by omega) (hcs ▸ List.mem_cons_self)
  have hdigits := digits?_toDigits n
  rw [hcs] at hdigits ⊢
  rw [ofToken?_of_unsigned ?_ ?_, hdigits]
  · rfl
  · rintro rfl
    exact absurd hc (by decide)
  · rintro rfl
    exact absurd hc (by decide)

/-- An integer in decimal digits is read back. -/
theorem ofToken?_decimal (z : Int) : ∃ n, ofToken? (decimal z).toList = some n ∧ n.value = z ∧
    n.digits.length = (Nat.toDigits 10 z.natAbs).length := by
  cases z with
  | ofNat n =>
    refine ⟨_, (congrArg ofToken? (toList_decimalNat n)).trans (ofToken?_toDigits n), ?_, ?_⟩
    · rw [value, magnitude_map, Nat.ofDigitChars_ten_toDigits]
      rfl
    · rw [List.length_map]
      rfl
  | negSucc n =>
    have htoken : (decimal (.negSucc n)).toList = '-' :: Nat.toDigits 10 (n + 1) := by
      rw [decimal, String.toList_append, toList_decimalNat]
      rfl
    refine ⟨⟨true, (Nat.toDigits 10 (n + 1)).map fun c => c.toNat - 48⟩, ?_, ?_, ?_⟩
    · rw [htoken, ofToken?, digits?_toDigits]
      rfl
    · rw [value, magnitude_map, Nat.ofDigitChars_ten_toDigits]
      rfl
    · rw [List.length_map, Int.natAbs_negSucc]

/-! ### Values that can be written -/

theorem foldl_digits_lt {ds : List Nat} (hds : ∀ d ∈ ds, d < 10) (a : Nat) :
    ds.foldl (fun acc d => acc * 10 + d) a < (a + 1) * 10 ^ ds.length := by
  induction ds generalizing a with
  | nil => simp
  | cons d ds ih =>
    obtain ⟨hd, hds⟩ := List.forall_mem_cons.1 hds
    calc (d :: ds).foldl (fun acc d => acc * 10 + d) a
        < (a * 10 + d + 1) * 10 ^ ds.length := ih hds (a * 10 + d)
      _ ≤ (a + 1) * 10 * 10 ^ ds.length := Nat.mul_le_mul_right _ (by omega)
      _ = (a + 1) * 10 ^ (d :: ds).length := by
        rw [List.length_cons, Nat.pow_succ, Nat.mul_assoc, Nat.mul_comm 10]

theorem lt_ten_of_mapM {s : List Char} {ds : List Nat} (h : s.mapM digitValue? = some ds) :
    ∀ d ∈ ds, d < 10 := by
  induction s generalizing ds with
  | nil =>
    cases h
    exact nofun
  | cons c s ih =>
    rw [List.mapM_cons] at h
    simp only [Option.bind_eq_bind, Option.bind_eq_some_iff] at h
    obtain ⟨d, hd, ds', hds', hds⟩ := h
    cases hds
    exact List.forall_mem_cons.2 ⟨digitValue?_lt hd, ih hds'⟩

theorem lt_ten_of_digits? {s : List Char} {ds : List Nat} (h : digits? s = some ds) :
    ∀ d ∈ ds, d < 10 := by
  rw [digits?] at h
  split at h
  · cases h
  · exact lt_ten_of_mapM h

theorem lt_ten_of_ofToken? {s : List Char} {n : Numeral} (h : ofToken? s = some n) :
    ∀ d ∈ n.digits, d < 10 := by
  unfold ofToken? at h
  split at h <;>
  · obtain ⟨ds, hds, rfl⟩ := Option.map_eq_some_iff.1 h
    exact lt_ten_of_digits? hds

theorem natAbs_value (n : Numeral) : n.value.natAbs = n.magnitude := by
  rw [value]
  split
  · rw [Int.natAbs_neg, Int.natAbs_natCast]
  · rw [Int.natAbs_natCast]

/-- The value of a token of few enough digits can be written. -/
theorem isWritable_natAbs_value {s : List Char} {n : Numeral} (h : ofToken? s = some n)
    (hlength : n.digits.length ≤ digitLimit) : isWritable n.value.natAbs = true := by
  have hlt := foldl_digits_lt (lt_ten_of_ofToken? h) 0
  rw [Nat.zero_add, Nat.one_mul] at hlt
  have hpow : 10 ^ n.digits.length ≤ 10 ^ digitLimit := Nat.pow_le_pow_right (by omega) hlength
  rw [isWritable, decide_eq_true_eq, natAbs_value,
    Nat.length_toDigits_le_iff (by omega) (by decide)]
  exact Nat.lt_of_lt_of_le hlt hpow

end Numeral

end BytecodeRegions.Text
