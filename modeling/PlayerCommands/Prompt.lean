import PlayerCommands.Confidence
import PlayerCommands.Registry.Match
import PlayerCommands.Scene

/-!
# Prompts

The wording of every question, and the questions that are put when a target is missing.
-/

namespace PlayerCommands

namespace Prompt

def unmapped : String :=
  "I couldn't map that to an action. Try \"help\" to see what I understand."

def extent : String := "How far or how long? (e.g. 500m, 1km, 10min, until dark)"

def extentAgain : String := "Give me a distance or a time, like 500m, 2km, 10min or until dark."

def direction : String := "Which direction?"

def directionAgain (known : List String) : String :=
  "I need a direction: " ++ ", ".intercalate known ++ "."

/-- A bare number has no unit. -/
def unit (number : String) : String := number ++ " what: meters, km, tiles, or minutes?"

def pronoun (word : String) : String := "What does \"" ++ word ++ "\" refer to?"

def whichOne (names : List String) : String :=
  "Which one did you mean: " ++ " or ".intercalate names ++ "?"

def needsArgs (verb : Verb) (min : Nat) : String :=
  verb.name ++ " needs at least " ++ toString min ++ " argument(s)"

/-- The name of a verb with a capital first letter. -/
def capitalized (verb : Verb) : String :=
  match verb.name.toList with
  | [] => ""
  | c :: rest => String.ofList (c.toUpper :: rest)

def target (verb : Verb) : String := capitalized verb ++ " what?"

def targetAgain (verb : Verb) : String :=
  target verb ++ " Name something nearby or in your pack."

def lowConfidence (command : String) : String := "Did you mean \"" ++ command ++ "\"?"

def choiceAgain (labels : List String) : String :=
  "Pick a number from 1 to " ++ toString labels.length ++ ", or name one of: " ++
    ", ".intercalate labels ++ "."

end Prompt

namespace Question

/-- The question about a line without a verb. -/
def unmapped : Question Intent := { prompt := Prompt.unmapped }

/-- One option per name, up to the greatest number of options. -/
def optionsFor (verb : Verb) (names : List String) (confidence : Score) : List Intent :=
  (names.take maxOptions).map fun name => Intent.forVerb verb [name] confidence

/-- The names that a verb without a target may be offered: things nearby for taking, carried ones
otherwise. -/
def targetsFor (verb : Verb) (scene : Scene) : List String :=
  if verb.offersTargets then
    normalNames (if verb = .take then scene.nearby else scene.inventory)
  else []

/-- The question about a missing target: a choice of the things at hand, or a plain one. -/
def missingTarget (verb : Verb) (minArgs : Nat) (scene : Scene) : Question Intent :=
  match targetsFor verb scene with
  | [] => { prompt := Prompt.needsArgs verb minArgs, missing := [.target] }
  | names =>
    let options := optionsFor verb names Confidence.threshold
    { prompt := Prompt.target verb, options,
      missing := if 1 < options.length then [.choice] else [.target] }

end Question

end PlayerCommands
