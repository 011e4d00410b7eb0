import PlayerCommands.Amount.Quantity

/-!
# Extents

How far a movement goes: a distance in meters, a time in minutes, a number of tiles, or until it is
dark or the traveller is tired.  `scan` looks through the words of a line for the first extent it
can represent, and says besides which bare number had no unit and which extent was too large.

A scan passes over the words from left to right.  Those it keeps are split at the first bare number,
which is taken out of them in the end if no extent turns up.
-/

namespace PlayerCommands

/-- An open-ended reason to stop. -/
inductive Condition where
  | none | dark | tired
deriving DecidableEq

namespace Condition

def name : Condition → String
  | none => "none"
  | dark => "dark"
  | tired => "tired"

def every : List Condition := [none, dark, tired]

/-- The condition that a word after `until` names. -/
def ofWord? : String → Option Condition
  | "dark" | "night" | "nightfall" | "dusk" | "sunset" => some dark
  | "exhausted" | "tired" => some tired
  | _ => Option.none

end Condition

/-- How far or how long a movement goes. -/
structure Extent where
  meters : Option Nat := none
  minutes : Option Nat := none
  tiles : Option Nat := none
  condition : Condition := .none
deriving DecidableEq

/-- A unit that turns a number into an extent. -/
inductive ExtentUnit where
  | meters | kilometers | tiles | minutes | hours
deriving DecidableEq

namespace ExtentUnit

/-- The unit that a word or suffix names. -/
def ofWord? : String → Option ExtentUnit
  | "m" | "meter" | "meters" | "metre" | "metres" => some meters
  | "km" | "kms" | "kilometer" | "kilometers" | "kilometre" | "kilometres" => some kilometers
  | "tile" | "tiles" => some tiles
  | "min" | "mins" | "minute" | "minutes" => some minutes
  | "h" | "hr" | "hrs" | "hour" | "hours" => some hours
  | _ => none

/-- How many of the stored unit one of this unit makes. -/
def factor : ExtentUnit → Nat
  | kilometers => 1000
  | hours => 60
  | _ => 1

/-- The extent of `n` stored units. -/
def extent (n : Nat) : ExtentUnit → Extent
  | meters | kilometers => { meters := some n }
  | tiles => { tiles := some n }
  | minutes | hours => { minutes := some n }

end ExtentUnit

namespace Extent

def isEmpty (e : Extent) : Bool :=
  e.meters.isNone && e.minutes.isNone && e.tiles.isNone && e.condition = .none

/-- The greatest number of meters, minutes or tiles. -/
def greatest : Nat := 4294967295

/-- A score that is not negative rounded to a whole number, halves upward. -/
def wholeOf (x : Score) : Nat := (x.value + 1 / 2).floor.toNat

/-- A number of some unit as an extent, if it is not too large. -/
def ofNumber? (x : Score) (unit : ExtentUnit) : Option Extent :=
  let n := wholeOf (if unit.factor = 1 then x else x * Score.ofNat unit.factor)
  if n ≤ greatest then some (unit.extent n) else none

/-! ## Reading one place -/

/-- What stands at one place of a line, as far as extents go. -/
inductive Reading where
  /-- `until` with a condition: two words. -/
  | condition (c : Condition)
  /-- A number with its unit, the unit as a suffix or (`split`) as the next word. -/
  | measure (number : Score) (unit : ExtentUnit) (split : Bool)
  /-- A number without a unit. -/
  | bare
  /-- Any other word. -/
  | word
deriving DecidableEq

/-- Read the word `word` with `next?` behind it. -/
def Reading.of (word : String) (next? : Option String) : Reading :=
  match if word = "until" then next?.bind Condition.ofWord? else none with
  | some c => .condition c
  | none =>
    match Numeral.ofWord? word with
    | none => .word
    | some numeral =>
      match numeral.value? with
      | none => .word
      | some x =>
        if numeral.suffix = "" then
          match next?.bind ExtentUnit.ofWord? with
          | some unit => .measure x unit true
          | none => .bare
        else
          match ExtentUnit.ofWord? numeral.suffix with
          | some unit => .measure x unit false
          | none => .word

/-! ## Scanning -/

/-- What a scan found. -/
structure Scan where
  extent : Option Extent := none
  /-- A bare number with no unit, when no extent was found. -/
  bareNumber : Option String := none
  /-- The first extent that was too large; its words are gone. -/
  outOfRange : Option String := none
  /-- The words that remain. -/
  rest : List String := []
deriving DecidableEq

/-- A scan under way. -/
structure Progress where
  /-- The first bare number, and the words kept before it, the last one first. -/
  bare : Option (String × List String) := none
  /-- The words kept after the bare number, or all kept words; the last one first. -/
  kept : List String := []
  outOfRange : Option String := none
deriving DecidableEq

namespace Progress

/-- All words kept so far, in order, the bare number among them. -/
def words (p : Progress) : List String :=
  match p.bare with
  | some (number, before) => before.reverse ++ number :: p.kept.reverse
  | none => p.kept.reverse

def keep (p : Progress) (word : String) : Progress := { p with kept := word :: p.kept }

/-- Keep a bare number; the first one splits the kept words. -/
def keepBare (p : Progress) (number : String) : Progress :=
  match p.bare with
  | none => { p with bare := some (number, p.kept), kept := [] }
  | some _ => p.keep number

/-- Drop a `for` that was kept last. -/
def dropFor (p : Progress) : Progress := { p with kept := Quantity.dropFor p.kept }

/-- Note an extent that was too large, if it is the first. -/
def reject (p : Progress) (word : String) : Progress :=
  { p with outOfRange := p.outOfRange.or (some word) }

/-- The result when an extent was found and `after` follows it. -/
def found (p : Progress) (e : Extent) (after : List String) : Scan :=
  { extent := some e, outOfRange := p.outOfRange, rest := p.words ++ after }

/-- The result when no extent was found. -/
def ended (p : Progress) : Scan :=
  match p.bare with
  | some (number, before) =>
    { bareNumber := some number, outOfRange := p.outOfRange,
      rest := before.reverse ++ p.kept.reverse }
  | none => { outOfRange := p.outOfRange, rest := p.kept.reverse }

end Progress

/-- Scan the words after `skip` ones that are read already. -/
def scanFrom (p : Progress) : (skip : Nat) → List String → Scan
  | _, [] => p.ended
  | skip + 1, _ :: rest => scanFrom p skip rest
  | 0, word :: rest =>
    match Reading.of word rest.head? with
    | .condition c => p.found { condition := c } rest.tail
    | .measure x unit split =>
      match ofNumber? x unit with
      | some e => p.dropFor.found e (if split then rest.tail else rest)
      | none => scanFrom (p.dropFor.reject word) (if split then 1 else 0) rest
    | .bare => scanFrom (p.keepBare word) 0 rest
    | .word => scanFrom (p.keep word) 0 rest

/-- Scan words for the first extent. -/
def scan (words : List String) : Scan := scanFrom {} 0 words

example : scan ["east", "for", "2", "hours"] =
    { extent := some { minutes := some 120 }, rest := ["east"] } := by decide +kernel
example : scan ["5", "north", "300m"] =
    { extent := some { meters := some 300 }, rest := ["5", "north"] } := by decide +kernel
example : scan ["north", "99999999999km"] =
    { outOfRange := some "99999999999km", rest := ["north"] } := by decide +kernel

end Extent

end PlayerCommands
