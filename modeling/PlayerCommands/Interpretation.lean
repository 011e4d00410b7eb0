import PlayerCommands.Argument
import PlayerCommands.Inference
import PlayerCommands.Intent.CommandText

/-!
# Interpreting a line

A line is matched against the registry, or else its verb is inferred; amounts are taken out of its
words and the rest become arguments.  The intent asks if it is unclear, incomplete or not sure
enough.
-/

namespace PlayerCommands

/-! ## The verb -/

/-- The verb of a line, how sure it is, the words left over, and the other verbs it may mean. -/
structure Reading where
  verb : Verb
  score : Score
  rest : List String
  alternates : List CommandMatch
deriving DecidableEq

/-- A match with typos yields to an inference that scores higher. -/
def CommandMatch.standsAgainst (m : CommandMatch) (inferred : Option Inference) : Bool :=
  m.kind != .fuzzy || inferred.all fun found => decide (found.score ≤ m.score)

/-- The verb of a line with these words, if there is one. -/
def Registry.readVerb? (r : Registry) (scene : Scene) (words : List String) : Option Reading :=
  let outcome := r.matchCommand words (Text.unwords words)
  let inferred := (Inference.infer? words scene).filter fun found => r.isRegistered found.verb
  match outcome.best.filter (·.standsAgainst inferred), inferred with
  | some best, _ => some ⟨best.verb, best.score, words.drop best.consumed, outcome.alternates⟩
  | none, some found => some ⟨found.verb, found.score, found.rest, []⟩
  | none, none => none

/-! ## Amounts -/

/-- The amounts of a command and the words without them. -/
structure Amounts where
  quantity : Option Quantity := none
  extent : Option Extent := none
  /-- A bare number of a movement, whose unit is missing. -/
  bareNumber : Option String := none
  rest : List String

/-- A movement takes an extent and every other verb a quantity.  A bare number of a movement is
kept as a quantity, for its unit to be filled in later. -/
def Amounts.of (verb : Verb) (words : List String) : Amounts :=
  if verb = .go then
    let scan := Extent.scan words
    { quantity := scan.bareNumber.bind Quantity.ofWord?, extent := scan.extent,
      bareNumber := scan.bareNumber, rest := scan.rest }
  else
    let (quantity, rest) := Quantity.extract words
    { quantity, rest }

/-! ## Questions -/

namespace Intent

/-- Ask for what a movement still lacks: the unit of a bare number, then the direction, then the
extent. -/
def askMovement (i : Intent) (bareNumber : Option String) : Intent :=
  let ask (prompt : String) (missing : List Field) : Intent :=
    i.ask { prompt, missing } Confidence.incomplete
  match bareNumber with
  | some number =>
    ask (Prompt.unit number) (if i.args.isEmpty then [.extent, .direction] else [.extent])
  | none =>
    if i.args.isEmpty then
      ask Prompt.direction (if i.extent.isNone then [.direction, .extent] else [.direction])
    else if i.extent.isNone then ask Prompt.extent [.extent]
    else i

/-- Offer the intent itself and the other verbs it may mean. -/
def askLowConfidence (i : Intent) (alternates : List CommandMatch) (argScore : Score) : Intent :=
  let itself := { i with clarify := none }
  let others := (alternates.take (maxOptions - 1)).map fun m =>
    Intent.forVerb m.verb i.args (Confidence.blend m.score argScore)
  i.ask
    { prompt := Prompt.lowConfidence itself.commandText, options := itself :: others,
      missing := [.choice] }
    i.confidence

/-- An option with the amounts of the intent where it has none of its own. -/
def inherit (i option : Intent) : Intent :=
  if option.verb = i.verb then
    { option with quantity := option.quantity.or i.quantity, extent := option.extent.or i.extent }
  else option

/-- The options for the same verb take over the amounts of the intent. -/
def shareAmounts (i : Intent) : Intent :=
  { i with clarify := i.clarify.map fun q => { q with options := q.options.map i.inherit } }

/-- `all` stands for the targets of taking and dropping. -/
def coversAll (i : Intent) : Bool :=
  (i.verb = some .take || i.verb = some .drop) && i.quantity.any (·.isAll)

/-- Ask the first question that is due, if any: about a name among the words, about what a movement
lacks, or about a missing target. -/
def askDue (i : Intent) (verb : Verb) (command : Command) (scene : Scene) (amounts : Amounts)
    (question : Option (Question Intent × Score)) : Intent :=
  match question with
  | some (q, confidence) => i.ask q confidence
  | none =>
    if verb = .go then i.askMovement amounts.bareNumber
    else if i.args.length < command.minArgs && ! i.coversAll then
      i.ask (Question.missingTarget verb command.minArgs scene) Confidence.incomplete
    else i

/-- Ask what has to be asked before acting, if anything. -/
def askIfUnclear (i : Intent) (reading : Reading) (command : Command) (scene : Scene)
    (amounts : Amounts) (question : Option (Question Intent × Score)) (argScore : Score) :
    Intent :=
  let asked := i.askDue reading.verb command scene amounts question
  if asked.clarify.isNone && asked.confidence < Confidence.threshold then
    asked.askLowConfidence reading.alternates argScore
  else asked

/-! Whatever is asked, the intent stays the same but for its question and its confidence. -/

theorem askMovement_eq_or (i : Intent) (bareNumber : Option String) :
    i.askMovement bareNumber = i ∨ ∃ q c, i.askMovement bareNumber = i.ask q c := by
  unfold askMovement
  simp only
  split
  · exact Or.inr ⟨_, _, rfl⟩
  · split
    · exact Or.inr ⟨_, _, rfl⟩
    · split
      · exact Or.inr ⟨_, _, rfl⟩
      · exact Or.inl rfl

theorem askDue_eq_or (i : Intent) (verb : Verb) (command : Command) (scene : Scene)
    (amounts : Amounts) (question : Option (Question Intent × Score)) :
    i.askDue verb command scene amounts question = i ∨
      ∃ q c, i.askDue verb command scene amounts question = i.ask q c := by
  unfold askDue
  split
  · exact Or.inr ⟨_, _, rfl⟩
  · split
    · exact i.askMovement_eq_or _
    · split
      · exact Or.inr ⟨_, _, rfl⟩
      · exact Or.inl rfl

theorem askIfUnclear_eq_or (i : Intent) (reading : Reading) (command : Command) (scene : Scene)
    (amounts : Amounts) (question : Option (Question Intent × Score)) (argScore : Score) :
    i.askIfUnclear reading command scene amounts question argScore = i ∨
      ∃ q c, i.askIfUnclear reading command scene amounts question argScore = i.ask q c := by
  unfold askIfUnclear
  rcases i.askDue_eq_or reading.verb command scene amounts question with h | ⟨q, c, h⟩
  · simp only [h]
    split
    · exact Or.inr ⟨_, _, rfl⟩
    · exact Or.inl rfl
  · exact Or.inr ⟨q, c, by simp [h]⟩

theorem askIfUnclear_keeps (i : Intent) (reading : Reading) (command : Command) (scene : Scene)
    (amounts : Amounts) (question : Option (Question Intent × Score)) (argScore : Score) :
    let asked := i.askIfUnclear reading command scene amounts question argScore
    asked.verb = i.verb ∧ asked.args = i.args ∧ asked.quantity = i.quantity ∧
      asked.extent = i.extent := by
  intro asked
  rcases i.askIfUnclear_eq_or reading command scene amounts question argScore with h | ⟨q, c, h⟩
  · rw [show asked = i from h]
    exact ⟨rfl, rfl, rfl, rfl⟩
  · rw [show asked = i.ask q c from h]
    exact ⟨rfl, rfl, rfl, rfl⟩

end Intent

/-! ## Lines -/

/-- The score of arguments of which `surplus` are beyond the maximum. -/
def surplusScore (score : Score) (surplus : Nat) : Score :=
  if surplus = 0 then score
  else max (score - Confidence.surplusPenalty * Score.ofNat surplus) 0

namespace Registry

/-- The intent of a line whose verb was read and is registered as `command`. -/
def buildIntent (scene : Scene) (i : Intent) (reading : Reading) (command : Command) : Intent :=
  let amounts := Amounts.of reading.verb reading.rest
  let resolution := Argument.resolve reading.verb amounts.rest scene
  let argScore := surplusScore resolution.score (resolution.args.length - command.maxArgs)
  let built : Intent :=
    { i with
      verb := some reading.verb, kind := reading.verb.kind,
      args := resolution.args.take command.maxArgs,
      quantity := amounts.quantity, extent := amounts.extent,
      confidence := Confidence.blend reading.score argScore }
  (built.askIfUnclear reading command scene amounts resolution.question argScore).shareAmounts

/-- Interpret one line of a player. -/
def interpret (r : Registry) (scene : Scene) (line : String) : Intent :=
  let i := Intent.unresolved line (Text.normalize line)
  match r.readVerb? scene (Text.words line) with
  | none => i.ask Question.unmapped Confidence.unmapped
  | some reading =>
    match r.command? reading.verb with
    | none => i.ask Question.unmapped Confidence.unmapped
    | some command => buildIntent scene i reading command

/-- What is read off a line stays whatever is asked about it. -/
theorem buildIntent_keeps (scene : Scene) (i : Intent) (reading : Reading) (command : Command) :
    let amounts := Amounts.of reading.verb reading.rest
    let built := buildIntent scene i reading command
    built.verb = some reading.verb ∧
      built.args = (Argument.resolve reading.verb amounts.rest scene).args.take command.maxArgs ∧
      built.quantity = amounts.quantity ∧ built.extent = amounts.extent :=
  Intent.askIfUnclear_keeps _ _ _ _ _ _ _

end Registry

end PlayerCommands
