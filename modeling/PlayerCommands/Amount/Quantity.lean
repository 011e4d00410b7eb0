import PlayerCommands.Amount.Numeral

/-!
# Quantities

How many, or for how long: `all`, `some`, a count, or a count of hours or minutes.  The first
quantity among the words of a line is taken out of them; a count joins with a duration word behind
it, and a duration takes a `for` directly before it along.
-/

namespace PlayerCommands

/-- What a quantity counts. -/
inductive QuantityUnit where
  | count | hours | minutes | all | some
deriving DecidableEq

namespace QuantityUnit

def name : QuantityUnit → String
  | count => "count"
  | hours => "hours"
  | minutes => "minutes"
  | all => "all"
  | some => "some"

def every : List QuantityUnit := [count, hours, minutes, all, some]

/-- The unit of time that a word or suffix names. -/
def ofDurationWord? : String → Option QuantityUnit
  | "h" | "hr" | "hrs" | "hour" | "hours" => .some hours
  | "m" | "min" | "mins" | "minute" | "minutes" => .some minutes
  | _ => none

def isDuration : QuantityUnit → Bool
  | hours | minutes => true
  | _ => false

end QuantityUnit

/-- An amount as it was written, with its count: `-1` for `all` and `0` for `some`. -/
structure Quantity where
  raw : String
  count : Int
  unit : QuantityUnit
deriving DecidableEq

namespace Quantity

/-- The greatest count: a number beyond it, or one in digits without a value, counts as this. -/
def greatestCount : Nat := 9223372036854775807

def isAll (q : Quantity) : Bool := q.unit = .all

/-- The count of a whole number. -/
def countOf (whole : List Char) : Nat :=
  match Numeral.digitsValue? whole with
  | some v => min v greatestCount
  | none => greatestCount

/-- A single word read as a quantity. -/
def ofWord? (word : String) : Option Quantity :=
  if word = "all" then some ⟨word, -1, .all⟩
  else if word = "some" then some ⟨word, 0, .some⟩
  else
    match Numeral.ofWord? word with
    | some ⟨whole, none, suffix⟩ =>
      if suffix = "" then some ⟨word, countOf whole, .count⟩
      else (QuantityUnit.ofDurationWord? suffix).map fun unit => ⟨word, countOf whole, unit⟩
    | _ => none

/-- The quantity at a word with the words `rest` behind it, and the words after it. -/
def read? (word : String) (rest : List String) : Option (Quantity × List String) :=
  (ofWord? word).map fun q =>
    match rest with
    | next :: after =>
      match q.unit, QuantityUnit.ofDurationWord? next with
      | .count, some unit => ({ q with raw := word ++ " " ++ next, unit := unit }, after)
      | _, _ => (q, rest)
    | [] => (q, rest)

/-- Words in reverse order without a `for` at their end. -/
def dropFor : List String → List String
  | "for" :: kept => kept
  | kept => kept

/-- The first quantity among words, and the words without it; `kept` holds the words passed so
far, the last one first. -/
def extractFrom (kept : List String) : List String → Option Quantity × List String
  | [] => (none, kept.reverse)
  | word :: rest =>
    match read? word rest with
    | some (q, after) =>
      (some q, (if q.unit.isDuration then dropFor kept else kept).reverse ++ after)
    | none => extractFrom (word :: kept) rest

/-- The first quantity among words, and the words without it. -/
def extract (words : List String) : Option Quantity × List String := extractFrom [] words

/-! ## Lemmas -/

/-- ASCII digits count what they are worth, saturated. -/
theorem countOf_of_digits {digits : List Char} (h : ∀ c ∈ digits, c.isDigit = true) :
    countOf digits = min (Nat.ofDigitChars 10 digits 0) greatestCount := by
  unfold countOf
  rw [Numeral.digitsValue?_of_digits h]

/-- Digits without a value count as too many. -/
theorem countOf_eq_greatestCount {digits : List Char} {c : Char} (hc : c ∈ digits)
    (h : c.isDigit = false) : countOf digits = greatestCount := by
  unfold countOf
  rw [Numeral.digitsValue?_eq_none hc h]

example : extract ["for", "2", "hours"] = (some ⟨"2 hours", 2, .hours⟩, []) := by decide
example : extract ["2", "berries", "3"] = (some ⟨"2", 2, .count⟩, ["berries", "3"]) := by decide

end Quantity

end PlayerCommands
