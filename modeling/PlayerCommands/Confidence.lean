import PlayerCommands.Intent.Basic

/-!
# Confidence

The scores of a verb and of its arguments are blended into the confidence of an intent.  An intent
at or above the threshold may be acted on; one that asks stays strictly below it.
-/

namespace PlayerCommands

namespace Confidence

/-- Intents at or above this may be acted on without asking. -/
def threshold : Score := 0.52

/-- The greatest confidence of an intent that asks. -/
def askCeiling : Score := 0.5

/-- The cost of an argument that was not resolved. -/
def literalPenalty : Score := 0.02

/-- The cost of an argument beyond the maximum. -/
def surplusPenalty : Score := 0.03

/-- Confidence when a pronoun refers to nothing. -/
def unknownPronoun : Score := 0.4

/-- Confidence when a name is a close call. -/
def closeCall : Score := 0.48

/-- Confidence when something is missing. -/
def incomplete : Score := 0.45

/-- Confidence of a line without a verb. -/
def unmapped : Score := 0

/-- Three parts of the verb's score and one of the arguments', between 0 and 1. -/
def blend (command argument : Score) : Score := (0.75 * command + 0.25 * argument).clamp

end Confidence

/-- The intent with a question attached and its confidence held under the threshold. -/
def Intent.ask (i : Intent) (question : Question Intent) (confidence : Score) : Intent :=
  { i with confidence := (min confidence Confidence.askCeiling).clamp, clarify := some question }

/-! ## Lemmas -/

namespace Intent

variable (i : Intent) (q : Question Intent) (c : Score)

@[simp] theorem ask_verb : (i.ask q c).verb = i.verb := rfl

@[simp] theorem ask_kind : (i.ask q c).kind = i.kind := rfl

@[simp] theorem ask_args : (i.ask q c).args = i.args := rfl

@[simp] theorem ask_quantity : (i.ask q c).quantity = i.quantity := rfl

@[simp] theorem ask_extent : (i.ask q c).extent = i.extent := rfl

@[simp] theorem ask_clarify : (i.ask q c).clarify = some q := rfl

end Intent

end PlayerCommands
