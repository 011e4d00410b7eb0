import PlayerCommands.Registry.Basic

/-!
# Matching a line against the registry

The words at the start of a line are matched against every phrase: word for word, by an alias that
starts the first word, or with a few typos.  Of the phrases of a verb the best one counts; verbs are
ranked by score, then by the number of words taken, then by name.
-/

namespace PlayerCommands

/-- How a phrase matched. -/
inductive MatchKind where
  /-- Word for word. -/
  | exact
  /-- A one-word alias starts the first word. -/
  | stem
  /-- With typos. -/
  | fuzzy
deriving DecidableEq

/-- A verb that the start of a line may mean. -/
structure CommandMatch where
  verb : Verb
  score : Score
  /-- The number of words that the phrase covers. -/
  consumed : Nat
  phrase : String
  kind : MatchKind
deriving DecidableEq

namespace CommandMatch

/-- A higher score first, then more words taken, then the smaller name. -/
def outranks (a b : CommandMatch) : Bool :=
  decide (b.score < a.score) || (decide (a.score ≤ b.score) && decide (b.score ≤ a.score) &&
    (decide (b.consumed < a.consumed) || (decide (a.consumed = b.consumed) &&
      decide (a.verb.name < b.verb.name))))

end CommandMatch

namespace Entry

def canonicalScore : Score := 1
def aliasScore : Score := 0.97
def stemScore : Score := 0.9

/-- The score of a match with `edits` typos; it rises if the phrase occurs elsewhere in the line,
and for an alias. -/
def fuzzyScore (edits : Nat) (inLine : Bool) (canonical : Bool) : Score :=
  let base := 0.72 - 0.08 * Score.ofNat edits
  let base := if inLine then base + 0.04 else base
  if canonical then base else base + 0.03

/-- Whether `part` occurs in a list of characters. -/
def occursIn (part : List Char) : List Char → Bool
  | [] => part.isEmpty
  | c :: rest => part.isPrefixOf (c :: rest) || occursIn part rest

/-- How an entry matches the words of a line with the normal form `line`. -/
def match? (e : Entry) (words : List String) (line : String) : Option CommandMatch :=
  let text := e.phrase.text
  let size := e.phrase.words.length
  if e.phrase.words.isPrefixOf words then
    some ⟨e.verb, if e.canonical then canonicalScore else aliasScore, size, text, .exact⟩
  else if ! e.canonical && size = 1 && 2 ≤ text.utf8ByteSize &&
      words.head?.any (fun first => text.toList.isPrefixOf first.toList) then
    some ⟨e.verb, stemScore, 1, text, .stem⟩
  else if words.length < size then none
  else
    let limit := Name.editLimit text.length
    if limit = 0 then none
    else
      let edits := Name.editDistance (Text.unwords (words.take size)) text
      if limit < edits then none
      else
        let inLine := occursIn text.toList line.toList
        some ⟨e.verb, fuzzyScore edits inLine e.canonical, size, text, .fuzzy⟩

end Entry

/-- The ranked verbs that a line may mean: the first one and the next few. -/
structure MatchOutcome where
  best : Option CommandMatch := none
  alternates : List CommandMatch := []
deriving DecidableEq

/-- How many options a question offers at most. -/
def maxOptions : Nat := 4

namespace Registry

/-- The better one of the best match so far and a new one; the earlier one if they rank alike. -/
def better (best : Option CommandMatch) (new : CommandMatch) : Option CommandMatch :=
  match best with
  | some old => if new.outranks old then some new else some old
  | none => some new

/-- The best match among the phrases of a verb, if it reaches the floor. -/
def bestOf (r : Registry) (words : List String) (line : String) (v : Verb) :
    Option CommandMatch :=
  let matched := (((r.command? v).map (entriesOf v)).getD []).filterMap (·.match? words line)
  (matched.foldl better none).filter fun m => decide (matchFloor ≤ m.score)

/-- All verbs that a line may mean, ranked. -/
def ranked (r : Registry) (words : List String) (line : String) : List CommandMatch :=
  Ranking.sort CommandMatch.outranks (Verb.all.filterMap (r.bestOf words line))

/-- The verbs that the start of `words` may mean; `line` is the normal form of the whole line. -/
def matchCommand (r : Registry) (words : List String) (line : String) : MatchOutcome :=
  if words.isEmpty then {}
  else match r.ranked words line with
    | [] => {}
    | best :: others => ⟨some best, others.take maxOptions⟩

end Registry

end PlayerCommands
