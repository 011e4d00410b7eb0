import PlayerCommands.Amount.Extent
import PlayerCommands.Verb

/-!
# Intents, questions and pending intents

An intent is what one line of a player was taken to mean: a verb with arguments and amounts, how
sure that is, and possibly a question to put before acting.  A pending intent is what a host keeps
of a questioned intent until the player has answered.
-/

namespace PlayerCommands

/-! ## Questions -/

/-- What an answer is expected to supply. -/
inductive Field where
  | direction | extent | choice | target
deriving DecidableEq

namespace Field

def name : Field → String
  | direction => "direction"
  | extent => "extent"
  | choice => "choice"
  | target => "target"

def all : List Field := [direction, extent, choice, target]

end Field

/-- A question to the player, whose options are of some type. -/
structure Question (α : Type) where
  prompt : String
  /-- Ranked candidates; empty for a question without a choice. -/
  options : List α := []
  /-- The fields the answers are expected to supply, in asking order. -/
  missing : List Field := []

/-! ## Intents -/

/-- The meaning of one line. -/
structure Intent where
  raw : String
  normalized : String
  kind : Kind := .unknown
  verb : Option Verb := none
  args : List String := []
  quantity : Option Quantity := none
  extent : Option Extent := none
  confidence : Score := 0
  clarify : Option (Question Intent) := none
  /-- The player has confirmed a risky action. -/
  riskConfirmed : Bool := false

namespace Intent

/-- An intent that means no verb. -/
def unresolved (raw normalized : String) : Intent := { raw, normalized }

/-- The text of a verb with arguments. -/
def textOf (verb : Verb) (args : List String) : String :=
  args.foldl (fun text arg => text ++ " " ++ arg) verb.spaced

/-- An intent for a verb with arguments and nothing else, as options are. -/
def forVerb (verb : Verb) (args : List String) (confidence : Score) : Intent :=
  { raw := textOf verb args, normalized := textOf verb args, kind := verb.kind, verb := some verb,
    args, confidence }

/-- The intent has a verb and needs nothing more from the player. -/
def isResolved (i : Intent) : Bool := i.verb.isSome && i.clarify.isNone

def needsClarification (i : Intent) : Bool := i.clarify.isSome

def confirmRisk (i : Intent) : Intent := { i with riskConfirmed := true }

/-- How an intent is named as an option: its arguments, or else its text. -/
def label (i : Intent) : String :=
  if i.args.isEmpty then i.normalized else " ".intercalate i.args

end Intent

/-! ## Pending intents -/

/-- An intent with fields still missing, between a question and its answer. -/
structure Pending where
  kind : Kind
  verb : Verb
  args : List String := []
  missing : List Field
  prompt : String
  options : List Intent := []
  quantity : Option Quantity := none
  extent : Option Extent := none
  /-- How many answers were rejected so far. -/
  attempts : Nat := 0

namespace Pending

/-- What to keep of a questioned intent; nothing if it has no verb, or if its question waits for no
field. -/
def ofIntent? (i : Intent) : Option Pending :=
  match i.verb, i.clarify with
  | some verb, some question =>
    if question.missing.isEmpty then none
    else some
      { kind := i.kind, verb, args := i.args, missing := question.missing,
        prompt := question.prompt, options := question.options, quantity := i.quantity,
        extent := i.extent }
  | _, _ => none

/-- The field the next answer should fill. -/
def next? (p : Pending) : Option Field := p.missing.head?

end Pending

end PlayerCommands
