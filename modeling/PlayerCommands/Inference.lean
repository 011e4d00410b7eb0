import PlayerCommands.Direction
import PlayerCommands.Text.Normal

/-!
# Verbs from free text

When no phrase of the registry starts a line, a verb may still be guessed from it.  The rules are
tried in order and the first one that fires decides: phrases anywhere in the line, a motion word
with a direction behind it, a bare verb, and phrases of taking.  The words behind the trigger are
left for the arguments.
-/

namespace PlayerCommands

/-- The rules of inference. -/
inductive InferenceRule where
  | help | inventory | fire | look | motion | bareVerb | take
deriving DecidableEq

def InferenceRule.name : InferenceRule → String
  | help => "help"
  | inventory => "inventory"
  | fire => "fire"
  | look => "look"
  | motion => "motion"
  | bareVerb => "bare verb"
  | take => "take"

/-- A verb guessed from free text. -/
structure Inference where
  verb : Verb
  score : Score
  /-- The words left for the arguments. -/
  rest : List String
  rule : InferenceRule
deriving DecidableEq

namespace Inference

/-! ## Phrases -/

/-- Phrases that all imply one verb. -/
structure PhraseRule where
  rule : InferenceRule
  verb : Verb
  score : Score
  phrases : List (List String)

def helpRule : PhraseRule :=
  ⟨.help, .help, 0.8, ["what can i do", "how do i play", "i need help", "help me"].map Text.words⟩

def inventoryRule : PhraseRule :=
  ⟨.inventory, .inventory, 0.92,
    ["check my bag", "check my inventory", "check my pack", "what do i have",
      "what am i carrying", "what's in my bag", "whats in my bag"].map Text.words⟩

def fireRule : PhraseRule :=
  ⟨.fire, .buildFire, 0.84,
    ["i need a fire", "need a fire", "build fire", "build a fire", "make a fire", "start a fire",
      "light a fire", "get a fire going"].map Text.words⟩

def lookRule : PhraseRule :=
  ⟨.look, .look, 0.88,
    ["where am i", "look around", "what is here", "what's here", "whats around",
      "what do i see"].map Text.words⟩

def takeRule : PhraseRule :=
  ⟨.take, .take, 0.82, ["pick up", "pickup", "grab"].map Text.words⟩

/-- The words behind the first occurrence of a phrase. -/
def afterPhrase? (phrase : List String) : List String → Option (List String)
  | [] => none
  | word :: rest =>
    if phrase.isPrefixOf (word :: rest) then some ((word :: rest).drop phrase.length)
    else afterPhrase? phrase rest

/-- What a phrase rule infers: its first listed phrase that occurs decides what is left. -/
def PhraseRule.infer? (r : PhraseRule) (words : List String) : Option Inference :=
  (r.phrases.findSome? (afterPhrase? · words)).map fun rest => ⟨r.verb, r.score, rest, r.rule⟩

/-! ## Motion -/

def isMotionWord (word : String) : Bool := ["go", "walk", "head", "travel", "move"].contains word

/-- Words that may stand between a motion word and its direction. -/
def isMotionFiller (word : String) : Bool := ["to", "toward", "towards", "the"].contains word

/-- A word that is a direction as it stands. -/
def isDirection (scene : Scene) (word : String) : Bool :=
  (Direction.ofWord? word).isSome || scene.knownDirections.contains word

/-- The words from the direction on, behind the first motion word that has one. -/
def afterMotion? (scene : Scene) : List String → Option (List String)
  | [] => none
  | word :: rest =>
    let target := rest.dropWhile isMotionFiller
    if isMotionWord word && target.head?.any (isDirection scene) then some target
    else afterMotion? scene rest

def motion? (words : List String) (scene : Scene) : Option Inference :=
  (afterMotion? scene words).map fun rest => ⟨.go, 0.86, rest, .motion⟩

/-! ## Bare verbs -/

/-- The verbs that are recognised anywhere in a line, with their scores. -/
def bareVerbs : List (Verb × Score) :=
  [(.eat, 0.78), (.drink, 0.78), (.sleep, 0.8), (.rest, 0.8)]

/-- The words behind the first occurrence of a word. -/
def afterWord? (wanted : String) : List String → Option (List String)
  | [] => none
  | word :: rest => if word = wanted then some rest else afterWord? wanted rest

def bareVerb? (words : List String) : Option Inference :=
  bareVerbs.findSome? fun (verb, score) =>
    (afterWord? verb.name words).map fun rest => ⟨verb, score, rest, .bareVerb⟩

/-! ## All rules -/

/-- Guess a verb from the words of a line. -/
def infer? (words : List String) (scene : Scene) : Option Inference :=
  [helpRule, inventoryRule, fireRule, lookRule].findSome? (·.infer? words)
    <|> motion? words scene <|> bareVerb? words <|> takeRule.infer? words

end Inference

end PlayerCommands
