import PlayerCommands.Intent.Basic

/-!
# Command text

A command text is an intent written back as one line: the verb, its arguments, and the extent or
the quantity.  An intent without a verb has an empty one.
-/

namespace PlayerCommands

/-- An extent in words, of its first component that is set. -/
def Extent.words (e : Extent) : Option String :=
  match e.meters, e.minutes, e.tiles, e.condition with
  | some n, _, _, _ => some (toString n ++ "m")
  | _, some n, _, _ => some (toString n ++ "min")
  | _, _, some n, _ => some (toString n ++ " tiles")
  | _, _, _, .dark => some "until dark"
  | _, _, _, .tired => some "until exhausted"
  | _, _, _, .none => none

namespace Intent

/-- The last part of a command text: the extent if there is one, else the quantity. -/
def amountText (i : Intent) : Option String :=
  match i.extent with
  | some e => e.words
  | none => i.quantity.map (·.raw)

/-- The command text of an intent; empty if it has no verb. -/
def commandText (i : Intent) : String :=
  match i.verb with
  | some verb => " ".intercalate (verb.name :: i.args ++ i.amountText.toList)
  | none => ""

end Intent

end PlayerCommands
