import PlayerCommands.Interpretation

/-!
# Answering a question

The line after a question answers it.  The first missing field decides how the answer is read; it
fills the field, picks an option, is asked for again, or raises a question of its own.  A pending
intent with nothing missing is resolved.
-/

namespace PlayerCommands

/-- What became of a pending intent after one answer. -/
inductive Outcome where
  /-- Nothing is missing any more. -/
  | resolved (intent : Intent)
  /-- A field was filled and another one is missing. -/
  | awaitingMore (pending : Pending)
  /-- The answer did not fit; the question is put again. -/
  | retry (pending : Pending)
  | cancelled
  /-- The answer raised a new question. -/
  | escalated (pending : Pending)

/-- How an answer was taken for the field that it was meant to fill.  `pending` holds what the
answer has changed besides. -/
inductive Reply where
  | filled (pending : Pending) (score : Score)
  | chosen (option : Intent)
  | again (pending : Pending) (prompt : String)
  | asks (pending : Pending) (question : Question Intent)

/-- The whole answer asks to drop the question. -/
def isCancel (line : String) : Bool :=
  ["cancel", "nevermind", "never mind", "forget it", "abort", "stop"].contains line

namespace Pending

/-! ## Filling fields -/

/-- The pending intent without a missing field. -/
def without (p : Pending) (field : Field) : Pending :=
  { p with missing := p.missing.filter (· ≠ field) }

/-- A bare number from an earlier line whose unit is missing. -/
def storedCount? (p : Pending) : Option Int :=
  (p.quantity.filter (·.unit = .count)).map (·.count)

/-- Fill in the extent; a bare number has served its purpose then. -/
def takeExtent (p : Pending) (e : Extent) : Pending :=
  { p.without .extent with
    extent := some e, quantity := if p.storedCount?.isSome then none else p.quantity }

/-- Keep a bare number until its unit is known. -/
def keepNumber (p : Pending) (number : String) : Pending :=
  { p with quantity := Quantity.ofWord? number }

/-! ## Directions -/

def isFiller (word : String) : Bool := ["go", "to", "toward", "towards", "the"].contains word

/-- The pending intent with what was said of an extent beside a direction. -/
def takeAmounts (p : Pending) (scan : Extent.Scan) : Pending :=
  match scan.extent, scan.bareNumber with
  | some e, _ => p.takeExtent e
  | none, some number => if p.missing.contains .extent then p.keepNumber number else p
  | none, none => p

/-- An answer that names a direction, possibly with an extent that is missing as well. -/
def answerDirection (p : Pending) (words : List String) (scene : Scene) : Reply :=
  let scan := Extent.scan words
  let p := p.takeAmounts scan
  match (scan.rest.find? (! isFiller ·)).map scene.resolveDirection with
  | some (.found name score _) => .filled { p with args := [name] } score
  | some (.ambiguous ranked) =>
    let question := Argument.directionQuestion ranked
    .asks p { question with options := question.options.map ({ · with extent := p.extent }) }
  | some .none | none => .again p (Prompt.directionAgain scene.knownDirections)

/-! ## Extents -/

/-- An answer that consists of a unit word, for the number given before. -/
def answerUnit (p : Pending) (unit : String) : Reply :=
  match p.storedCount? with
  | none => .again p Prompt.extentAgain
  | some count =>
    match (Extent.scan [toString count, unit]).extent with
    | some e => .filled (p.takeExtent e) 1
    | none => .again p Prompt.extentAgain

/-- The pending intent with the direction among the words of an answer, if one is missing and is
found there. -/
def fillDirection (p : Pending) (words : List String) (scene : Scene) : Pending :=
  if p.missing.contains .direction then
    match (words.find? (! isFiller ·)).map scene.resolveDirection with
    | some (.found name _ _) => { p.without .direction with args := [name] }
    | _ => p
  else p

/-- An answer with an extent among its words, possibly with a direction that is missing as well. -/
def answerMeasure (p : Pending) (words : List String) (scene : Scene) : Reply :=
  let scan := Extent.scan words
  match scan.extent, scan.bareNumber with
  | some e, _ => .filled ((p.fillDirection scan.rest scene).takeExtent e) 1
  | none, some number => .again (p.keepNumber number) (Prompt.unit number)
  | none, none => .again p Prompt.extentAgain

/-- An answer that gives an extent, or only the unit of one. -/
def answerExtent (p : Pending) (words : List String) (scene : Scene) : Reply :=
  match words with
  | [word] =>
    if (ExtentUnit.ofWord? word).isSome then p.answerUnit word else p.answerMeasure words scene
  | _ => p.answerMeasure words scene

/-! ## Choices -/

/-- The texts that an option goes by: its arguments, its command text and its verb. -/
def optionTexts (option : Intent) : List String :=
  [" ".intercalate option.args, option.normalized, (option.verb.map Verb.name).getD ""]

/-- How well an answer names an option. -/
def optionScore? (answer : String) (option : Intent) : Option Score :=
  match (optionTexts option).filterMap (Name.score? answer) with
  | [] => none
  | score :: scores => some (scores.foldl max score)

/-- The options that an answer may name, by their places, ranked. -/
def rankOptions (answer : String) (options : List Intent) : List (Scored Nat) :=
  Scored.ranking (options.zipIdx.filterMap fun (option, i) =>
    (optionScore? answer option).map fun score => ⟨i, score⟩)

/-- The greatest number that an answer is read as. -/
def greatestPosition : Nat := 18446744073709551615

/-- A position in a list, written in digits. -/
def position? (answer : String) : Option Nat :=
  if answer = "" then none
  else (Numeral.digitsValue? answer.toList).filter (· ≤ greatestPosition)

/-- The options at the places of a ranking. -/
def optionsAt (options : List Intent) (ranked : List (Scored Nat)) : List Intent :=
  ranked.filterMap fun s => options[s.value]?

/-- An answer that picks an option by its position or its name. -/
def answerChoice (p : Pending) (answer : String) : Reply :=
  if p.options.isEmpty then .again p p.prompt
  else
    let again : Reply := .again p (Prompt.choiceAgain (p.options.map Intent.label))
    match position? answer with
    | some n =>
      match if n = 0 then none else p.options[n - 1]? with
      | some option => .chosen option
      | none => again
    | none =>
      let ranked := rankOptions answer p.options
      if isCloseCall ranked (fun second => decide (tieFloor ≤ second)) then
        let two := optionsAt p.options (ranked.take 2)
        .asks p
          { prompt := Prompt.whichOne (two.map Intent.label), options := two, missing := [.choice] }
      else
        match optionsAt p.options (ranked.take 1) with
        | option :: _ => .chosen option
        | [] => again

/-! ## Targets -/

/-- An answer that names a target; unknown names are taken as written. -/
def answerTarget (p : Pending) (words : List String) (scene : Scene) : Reply :=
  let resolution := Argument.resolve p.verb words scene
  match resolution.question with
  | some (question, _) =>
    let options := question.options.map fun option =>
      Intent.forVerb (option.verb.getD p.verb) (p.args ++ option.args) option.confidence
    .asks p { question with options }
  | none =>
    if resolution.args.isEmpty then .again p (Prompt.targetAgain p.verb)
    else .filled { p with args := p.args ++ resolution.args } resolution.score

/-! ## After the answer -/

/-- The prompt for a missing field. -/
def promptFor (p : Pending) : Field → String
  | .direction => Prompt.direction
  | .extent =>
    match p.storedCount? with
    | some count => Prompt.unit (toString count)
    | none => Prompt.extent
  | .target => Prompt.target p.verb
  | .choice => p.prompt

/-- The pending intent with a field missing at the end, unless it is missing already. -/
def require (p : Pending) (field : Field) : Pending :=
  if p.missing.contains field then p else { p with missing := p.missing ++ [field] }

/-- A movement without an open choice needs a direction and an extent. -/
def requireMovement (p : Pending) : Pending :=
  if p.verb = .go ∧ ¬ p.missing.contains .choice then
    let p := if p.args.isEmpty then p.require .direction else p
    if p.extent.isNone then p.require .extent else p
  else p

/-- Resolve the pending intent if nothing is missing, otherwise ask for the next field. -/
def finish (r : Registry) (p : Pending) (score : Score) : Outcome :=
  let p := p.requireMovement
  match p.next? with
  | some field => .awaitingMore { p with prompt := p.promptFor field, attempts := 0 }
  | none =>
    let args :=
      match r.command? p.verb with
      | some command => p.args.take command.maxArgs
      | none => p.args
    .resolved
      { Intent.forVerb p.verb args (Confidence.blend 1 score) with
        quantity := p.quantity, extent := p.extent }

/-- The pending intent after an option was chosen. -/
def choose (p : Pending) (option : Intent) : Pending :=
  let verb := option.verb.getD p.verb
  { p.without .choice with
    verb, kind := if option.verb.isSome then verb.kind else p.kind, args := option.args,
    quantity := option.quantity.or p.quantity, extent := option.extent.or p.extent, options := [] }

/-- The pending intent with the question that an answer for `field` has raised. -/
def escalate (p : Pending) (field : Field) (question : Question Intent) : Pending :=
  let others := p.missing.filter (· ≠ field)
  { p with
    missing := others.foldl (fun missing f => if missing.contains f then missing else missing ++ [f])
      question.missing,
    prompt := question.prompt, options := question.options, attempts := 0 }

/-- Read an answer for a missing field. -/
def reply (p : Pending) (scene : Scene) (line : String) : Field → Reply
  | .direction => p.answerDirection (Text.words line) scene
  | .extent => p.answerExtent (Text.words line) scene
  | .choice => p.answerChoice (Text.normalize line)
  | .target => p.answerTarget (Text.words line) scene

/-- What becomes of a pending intent whose answer for `field` was taken in some way. -/
def settle (r : Registry) (p : Pending) (field : Field) : Reply → Outcome
  | .filled next score => (next.without field).finish r score
  | .chosen option => (p.choose option).finish r 1
  | .again next prompt => .retry { next with prompt, attempts := next.attempts + 1 }
  | .asks next question => .escalated (next.escalate field question)

/-- Apply an answer to a pending intent. -/
def answer (r : Registry) (scene : Scene) (p : Pending) (line : String) : Outcome :=
  if isCancel (Text.normalize line) then .cancelled
  else match p.next? with
    | none => p.finish r 1
    | some field => p.settle r field (p.reply scene line field)

/-! ## Lemmas -/

theorem mem_missing_without {p : Pending} {field other : Field} :
    other ∈ (p.without field).missing ↔ other ∈ p.missing ∧ other ≠ field := by
  simp [without]

theorem mem_missing_require {p : Pending} {field other : Field} :
    other ∈ (p.require field).missing ↔ other ∈ p.missing ∨ other = field := by
  unfold require
  split
  · next h =>
    constructor
    · exact Or.inl
    · rintro (hm | rfl)
      · exact hm
      · simpa using h
  · simp

end Pending

end PlayerCommands
