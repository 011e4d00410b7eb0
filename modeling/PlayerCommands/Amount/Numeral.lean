import PlayerCommands.Score.Basic
import PlayerCommands.Text.Digit

/-!
# Numerals

A numeral is a word that starts with digits: one or more decimal digits, possibly a point and more
digits, then a suffix of lower-case ASCII letters, which may be empty.  Digits of any script make a
numeral, but only ASCII digits have a value here.
-/

namespace PlayerCommands

/-- The parts of a word that starts with a number. -/
structure Numeral where
  /-- The digits before the point. -/
  whole : List Char
  /-- The digits after the point, if there is one. -/
  fraction : Option (List Char)
  /-- The letters after the number. -/
  suffix : String
deriving DecidableEq

namespace Numeral

/-- A lower-case ASCII letter. -/
def isSuffixChar (c : Char) : Bool := 'a' ≤ c && c ≤ 'z'

/-- The digits after a point at the start of `cs`, with what follows them. -/
def splitFraction : List Char → Option (List Char) × List Char
  | '.' :: rest =>
    match rest.takeWhile Text.isDecimalDigit with
    | [] => (none, '.' :: rest)
    | digits => (some digits, rest.dropWhile Text.isDecimalDigit)
  | cs => (none, cs)

/-- A word read as a numeral. -/
def ofWord? (word : String) : Option Numeral :=
  let whole := word.toList.takeWhile Text.isDecimalDigit
  let (fraction, suffix) := splitFraction (word.toList.dropWhile Text.isDecimalDigit)
  if whole.isEmpty || ! suffix.all isSuffixChar then none
  else some ⟨whole, fraction, String.ofList suffix⟩

/-- The value of ASCII digits. -/
def digitsValue? (digits : List Char) : Option Nat :=
  if digits.all Char.isDigit then
    some (digits.foldl (fun acc c => 10 * acc + (c.toNat - 48)) 0)
  else none

/-- The number before the suffix, rounded to a score. -/
def value? (n : Numeral) : Option Score :=
  let places := n.fraction.getD []
  (digitsValue? (n.whole ++ places)).map fun v =>
    Score.ofRat ((v : Rat) / (10 : Rat) ^ places.length)

/-! ## Lemmas -/

theorem digitsValue?_of_digits {digits : List Char} (h : ∀ c ∈ digits, c.isDigit = true) :
    digitsValue? digits = some (Nat.ofDigitChars 10 digits 0) := by
  unfold digitsValue?
  rw [if_pos (List.all_eq_true.2 h)]
  rfl

theorem digitsValue?_eq_none {digits : List Char} {c : Char} (hc : c ∈ digits)
    (h : c.isDigit = false) : digitsValue? digits = none := by
  unfold digitsValue?
  rw [if_neg]
  intro hall
  rw [List.all_eq_true.1 hall c hc] at h
  cases h

example : ofWord? "1.5km" = some ⟨['1'], some ['5'], "km"⟩ := by decide
example : ofWord? "3x2" = none := by decide
example : ofWord? "2." = none := by decide

end Numeral

end PlayerCommands
