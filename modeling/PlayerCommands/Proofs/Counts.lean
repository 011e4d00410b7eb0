import Mathlib.Data.Nat.Digits.Defs
import PlayerCommands.Amount.Quantity
import PlayerCommands.Text.Normal

/-!
# Counts that saturate

A word that starts with digits counts what these are worth in decimal, or the greatest count if that
is too large.  Digits of every script are taken for a number, but only ASCII ones are read: a single
other digit among them makes the count the greatest one, however small the number is.  The words of
a line have ASCII digits only, so there a count saturates for no other reason than its size.

    ofWord? word = some q → leadingDigits word ≠ [] →
      q.count = countOf (leadingDigits word)                                   (count_eq_countOf)
    (∀ c ∈ digits, c.isDigit = true) → countOf digits = min (decimalValue digits) greatestCount
                                                                             (countOf_of_isDigit)
    word ∈ words line → q.count = min (decimalValue (leadingDigits word)) greatestCount
                                                                             (count_of_mem_words)
-/

namespace PlayerCommands

/-! ## Values of digits -/

namespace Text

variable {c : Char} {digits : List Char}

/-- The zero of the block of ten that a decimal digit belongs to. -/
def digitZero? (c : Char) : Option Nat :=
  (0x30 :: digitZeros).find? fun z => z ≤ c.toNat && c.toNat < z + 10

/-- The value of a decimal digit of any script: how far it is from the zero of its block. -/
def digitValue (c : Char) : Nat := ((digitZero? c).map (c.toNat - ·)).getD 0

/-- The value of decimal digits of any script, the most significant one first. -/
def decimalValue (digits : List Char) : Nat := Nat.ofDigits 10 (digits.reverse.map digitValue)

/-- A digit of any script has a zero, and is less than ten above it. -/
theorem exists_digitZero? (h : isDecimalDigit c = true) :
    ∃ z, digitZero? c = some z ∧ z ≤ c.toNat ∧ c.toNat < z + 10 := by
  have hzero : (digitZero? c).isSome = true := by
    unfold digitZero?
    rw [List.find?_isSome]
    unfold isDecimalDigit at h
    split at h
    · have hcode : 48 ≤ c.toNat ∧ c.toNat ≤ 57 := Char.isDigit_iff_toNat.mp h
      exact ⟨0x30, List.mem_cons_self, by simp; omega⟩
    · obtain ⟨z, hz, hblock⟩ := List.any_eq_true.mp h
      exact ⟨z, List.mem_cons_of_mem _ hz, hblock⟩
  obtain ⟨z, hz⟩ := Option.isSome_iff_exists.mp hzero
  have hblock := List.find?_some hz
  simp only [Bool.and_eq_true, decide_eq_true_eq] at hblock
  exact ⟨z, hz, hblock⟩

theorem digitValue_lt (h : isDecimalDigit c = true) : digitValue c < 10 := by
  obtain ⟨z, hz, hlow, hhigh⟩ := exists_digitZero? h
  unfold digitValue
  rw [hz, Option.map_some, Option.getD_some]
  omega

theorem decimalValue_lt (h : ∀ c ∈ digits, isDecimalDigit c = true) :
    decimalValue digits < 10 ^ digits.length := by
  have hdigits : ∀ d ∈ digits.reverse.map digitValue, d < 10 := by
    intro d hd
    obtain ⟨c, hc, rfl⟩ := List.mem_map.mp hd
    exact digitValue_lt (h c (List.mem_reverse.mp hc))
  have hvalue := Nat.ofDigits_lt_base_pow_length (by decide) hdigits
  rwa [List.length_map, List.length_reverse] at hvalue

theorem digitValue_of_isDigit (h : c.isDigit = true) : digitValue c = c.toNat - 48 := by
  have hcode : 48 ≤ c.toNat ∧ c.toNat ≤ 57 := Char.isDigit_iff_toNat.mp h
  have hzero : digitZero? c = some 0x30 := List.find?_cons_of_pos (by simp; omega)
  unfold digitValue
  rw [hzero]
  rfl

/-- Reading ASCII digits from the left gives each one ten times the weight of the next. -/
theorem decimalValue_of_isDigit (h : ∀ c ∈ digits, c.isDigit = true) :
    decimalValue digits = Nat.ofDigitChars 10 digits 0 := by
  have hvalues : digits.reverse.map digitValue = digits.reverse.map (·.toNat - 48) :=
    List.map_congr_left fun c hc => digitValue_of_isDigit (h c (List.mem_reverse.mp hc))
  unfold decimalValue Nat.ofDigitChars
  rw [hvalues, Nat.ofDigits_eq_foldr, List.foldr_map, List.foldl_eq_foldr_reverse]
  congr 1
  funext c v
  exact Nat.add_comm _ _

/-- Of the digits of all scripts ASCII has its own only. -/
theorem isDigit_of_isDecimalDigit (hascii : c.toNat < 128) (h : isDecimalDigit c = true) :
    c.isDigit = true := by
  unfold isDecimalDigit at h
  rwa [if_pos hascii] at h

/-- A word holds letters and digits of ASCII, and points. -/
theorem toNat_lt_of_mem_words {s word : String} (hword : word ∈ words s) (hc : c ∈ word.toList) :
    c.toNat < 128 := by
  obtain ⟨w, hw, rfl⟩ := List.mem_map.mp hword
  obtain ⟨piece, -, rfl⟩ := List.mem_map.mp (List.mem_filter.mp hw).1
  rw [String.toList_ofList] at hc
  rcases mem_clean hc with hletter | rfl
  · exact (toNat_of_isAlphanum hletter).2
  · decide

end Text

/-! ## Counts -/

namespace Quantity

variable {word : String} {q : Quantity} {digits : List Char}

/-- The digits at the start of a word, of any script. -/
def leadingDigits (word : String) : List Char := word.toList.takeWhile Text.isDecimalDigit

theorem isDecimalDigit_of_mem_leadingDigits {c : Char} (hc : c ∈ leadingDigits word) :
    Text.isDecimalDigit c = true :=
  List.all_eq_true.mp List.all_takeWhile c hc

theorem whole_of_ofWord? {n : Numeral} (h : Numeral.ofWord? word = some n) :
    n.whole = leadingDigits word := by
  unfold Numeral.ofWord? at h
  obtain ⟨-, hparts⟩ := Option.ite_none_left_eq_some.mp h
  cases hparts
  rfl

/-- The count of a word that starts with digits is read off these, whatever unit follows. -/
theorem count_eq_countOf (h : ofWord? word = some q) (hdigits : leadingDigits word ≠ []) :
    q.count = countOf (leadingDigits word) := by
  have hne : ∀ name, leadingDigits name = [] → word ≠ name := by
    rintro name hname rfl
    exact hdigits hname
  unfold ofWord? at h
  rw [if_neg (hne "all" (by decide)), if_neg (hne "some" (by decide))] at h
  split at h
  · next whole suffix hnumeral =>
    have hwhole : whole = leadingDigits word := whole_of_ofWord? hnumeral
    subst hwhole
    split at h
    · cases h
      rfl
    · obtain ⟨unit, -, rfl⟩ := Option.map_eq_some_iff.mp h
      rfl
  · cases h

theorem countOf_of_isDigit (h : ∀ c ∈ digits, c.isDigit = true) :
    countOf digits = min (Text.decimalValue digits) greatestCount := by
  rw [countOf_of_digits h, Text.decimalValue_of_isDigit h]

/-- **A count saturates only on overflow, and where a digit is not of ASCII**, whatever the value is
there.  So the count is the saturated value just if all digits are of ASCII or the value is too large
anyway; it is never negative. -/
theorem count_of_ofWord? (h : ofWord? word = some q) (hdigits : leadingDigits word ≠ []) :
    (q.count = (min (Text.decimalValue (leadingDigits word)) greatestCount : Nat) ↔
      (∀ c ∈ leadingDigits word, c.isDigit = true) ∨
        greatestCount ≤ Text.decimalValue (leadingDigits word)) ∧
    ((∃ c ∈ leadingDigits word, c.isDigit = false) → q.count = greatestCount) ∧
    0 ≤ q.count := by
  have hcount := count_eq_countOf h hdigits
  by_cases hall : ∀ c ∈ leadingDigits word, c.isDigit = true
  · rw [countOf_of_isDigit hall] at hcount
    refine ⟨⟨fun _ => Or.inl hall, fun _ => hcount⟩, ?_, by omega⟩
    rintro ⟨c, hc, hforeign⟩
    rw [hall c hc] at hforeign
    cases hforeign
  · obtain ⟨c, hc, hforeign⟩ : ∃ c ∈ leadingDigits word, c.isDigit = false := by simpa using hall
    rw [countOf_eq_greatestCount hc hforeign] at hcount
    refine ⟨⟨fun hvalue => Or.inr (by omega), ?_⟩, fun _ => hcount, by omega⟩
    rintro (hascii | hlarge)
    · exact absurd hascii hall
    · omega

/-- One more than the greatest count, and a unit. -/
theorem count_of_ofWord?_overflow :
    let word := "9223372036854775808h"
    let q : Quantity := ⟨word, 9223372036854775807, .hours⟩
    ofWord? word = some q ∧ leadingDigits word ≠ [] ∧
      (q.count = (min (Text.decimalValue (leadingDigits word)) greatestCount : Nat) ↔
        (∀ c ∈ leadingDigits word, c.isDigit = true) ∨
          greatestCount ≤ Text.decimalValue (leadingDigits word)) ∧
      ((∃ c ∈ leadingDigits word, c.isDigit = false) → q.count = greatestCount) ∧
      0 ≤ q.count := by
  intro word q
  have hword : ofWord? word = some q := by decide +kernel
  have hdigits : leadingDigits word ≠ [] := by decide +kernel
  exact ⟨hword, hdigits, count_of_ofWord? hword hdigits⟩

/-- A three of another script is taken for a number that is too large. -/
theorem not_saturated_only_on_overflow :
    ¬ ∀ (word : String) (q : Quantity), ofWord? word = some q → leadingDigits word ≠ [] →
      q.count = (min (Text.decimalValue (leadingDigits word)) greatestCount : Nat) := by
  intro hall
  have hthree : Text.decimalValue (leadingDigits "٣") = 3 := by decide +kernel
  have hcount := hall "٣" ⟨"٣", greatestCount, .count⟩ (by decide +kernel) (by decide +kernel)
  rw [hthree] at hcount
  exact absurd hcount (by decide)

/-- **In the words of a line a count is what its digits are worth, saturated.** -/
theorem count_of_mem_words {line : String} (hword : word ∈ Text.words line)
    (h : ofWord? word = some q) (hdigits : leadingDigits word ≠ []) :
    q.count = (min (Text.decimalValue (leadingDigits word)) greatestCount : Nat) := by
  have hascii : ∀ c ∈ leadingDigits word, c.isDigit = true := by
    intro c hc
    have hletter : c ∈ word.toList := (List.takeWhile_sublist _).subset hc
    exact Text.isDigit_of_isDecimalDigit (Text.toNat_lt_of_mem_words hword hletter)
      (isDecimalDigit_of_mem_leadingDigits hc)
  rw [count_eq_countOf h hdigits, countOf_of_isDigit hascii]

/-- Nothing saturates that has at most eighteen digits. -/
theorem count_of_length_le {line : String} (hword : word ∈ Text.words line)
    (h : ofWord? word = some q) (hdigits : leadingDigits word ≠ [])
    (hlength : (leadingDigits word).length ≤ 18) :
    q.count = Text.decimalValue (leadingDigits word) := by
  have hvalue : Text.decimalValue (leadingDigits word) < 10 ^ (leadingDigits word).length :=
    Text.decimalValue_lt fun c hc => isDecimalDigit_of_mem_leadingDigits hc
  have hbound : 10 ^ (leadingDigits word).length ≤ greatestCount :=
    Nat.le_trans (Nat.pow_le_pow_right (by decide) hlength) (by decide)
  rw [count_of_mem_words hword h hdigits, Nat.min_eq_left (by omega)]

end Quantity

end PlayerCommands
