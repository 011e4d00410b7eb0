import PlayerCommands.Entity
import PlayerCommands.Prompt

/-!
# Arguments

The words after the verb, amounts taken out, become arguments from left to right: articles vanish,
a pronoun stands for the last thing spoken of, the first argument of a movement is a direction, the
arguments of a verb with targets are things at hand, and any other word stands for itself.  The
first question that has to be asked ends the resolution.
-/

namespace PlayerCommands.Argument

/-! ## One place -/

def isPronoun (word : String) : Bool := ["it", "that", "them", "this", "those"].contains word

def isArticle (word : String) : Bool := ["the", "a", "an"].contains word

/-- What the words at one place contribute. -/
inductive Reading where
  /-- Nothing. -/
  | article
  /-- An argument, how well it was matched, and how many words name it. -/
  | resolved (arg : String) (score : Score) (consumed : Nat)
  /-- The word itself. -/
  | literal
  /-- A question, and the confidence to report with it. -/
  | unclear (question : Question Intent) (confidence : Score)

/-- The question which of two close names was meant; each option is one of them. -/
def closeQuestion (prompt : List String → String) (option : String → List String) (verb : Verb)
    (ranked : List (Scored String)) : Question Intent :=
  let two := ranked.take 2
  { prompt := prompt (two.map (·.value)),
    options := two.map fun s => Intent.forVerb verb (option s.value) (min s.score 1),
    missing := [.choice] }

/-- The question which of two close directions was meant. -/
def directionQuestion (ranked : List (Scored String)) : Question Intent :=
  closeQuestion (fun _ => Prompt.direction) (fun name => [name]) .go ranked

/-- The question which of two close things was meant, after the arguments `args`. -/
def entityQuestion (verb : Verb) (args : List String) (ranked : List (Scored String)) :
    Question Intent :=
  closeQuestion Prompt.whichOne (fun name => args ++ [name]) verb ranked

/-- What a match against names contributes; `ask` is the question about a close call. -/
def Reading.ofMatch (ask : List (Scored String) → Question Intent) : Name.Match → Reading
  | .found name score consumed => .resolved name score consumed
  | .ambiguous ranked => .unclear (ask ranked) Confidence.closeCall
  | .none => .literal

/-- Read the word at one place, with `next?` behind it and the arguments `args` before it. -/
def Reading.of (verb : Verb) (scene : Scene) (args : List String) (word : String)
    (next? : Option String) : Reading :=
  if isArticle word then .article
  else if isPronoun word then
    match scene.referent? with
    | some entity => .resolved entity 1 1
    | none =>
      .unclear { prompt := Prompt.pronoun word, missing := [.target] } Confidence.unknownPronoun
  else if verb = .go ∧ args = [] then
    Reading.ofMatch directionQuestion (scene.resolveDirection word)
  else if verb.takesTarget ∧ (args = [] ∨ verb = .use) then
    Reading.ofMatch (entityQuestion verb args) ((EntityPools.ofScene scene).resolve word next?)
  else .literal

/-! ## All places -/

/-- The arguments of a command, or the question that interrupted them. -/
structure Resolution where
  args : List String
  /-- The lowest score of an argument, less the cost of the literal ones. -/
  score : Score
  /-- The question to ask, and the confidence to report with it. -/
  question : Option (Question Intent × Score) := none

/-- A resolution under way. -/
structure Progress where
  args : List String := []
  lowest : Score := 1
  penalty : Score := 0

namespace Progress

def push (p : Progress) (arg : String) (score : Score) : Progress :=
  { p with args := p.args ++ [arg], lowest := min p.lowest (min score 1) }

def pushLiteral (p : Progress) (word : String) : Progress :=
  { p with args := p.args ++ [word], penalty := p.penalty + Confidence.literalPenalty }

def finish (p : Progress) (question : Option (Question Intent × Score)) : Resolution :=
  ⟨p.args, (p.lowest - p.penalty).clamp, question⟩

end Progress

/-- Resolve the words after `skip` ones that are used up. -/
def resolveFrom (verb : Verb) (scene : Scene) (p : Progress) :
    (skip : Nat) → List String → Resolution
  | _, [] => p.finish none
  | skip + 1, _ :: rest => resolveFrom verb scene p skip rest
  | 0, word :: rest =>
    match Reading.of verb scene p.args word rest.head? with
    | .article => resolveFrom verb scene p 0 rest
    | .resolved arg score consumed =>
      resolveFrom verb scene (p.push arg score) (consumed - 1) rest
    | .literal => resolveFrom verb scene (p.pushLiteral word) 0 rest
    | .unclear question confidence => p.finish (some (question, confidence))

/-- Resolve the argument words of a verb. -/
def resolve (verb : Verb) (words : List String) (scene : Scene) : Resolution :=
  resolveFrom verb scene {} 0 words

end PlayerCommands.Argument
