import PlayerCommands.Answer
import PlayerCommands.Session.Notice

/-!
# Sessions

A session plays the host: it keeps the scene and the open question from one line to the next, asks
before a risky command is done, and folds the effects of accepted intents into the scene.  Lines
that start with a colon are meta commands.
-/

namespace PlayerCommands

/-- The state between two lines. -/
structure Session where
  scene : Scene := {}
  /-- The open question. -/
  pending : Option Pending := none
  /-- A risky intent that waits for a yes or no. -/
  confirming : Option Intent := none
  /-- Show the document of every intent. -/
  showDocuments : Bool := false
  /-- The accepted intents, in order. -/
  accepted : List Intent := []

/-- What a line leads to. -/
structure Reaction where
  session : Session
  notices : List Notice := []
  quit : Bool := false

/-! ## Meta commands -/

/-- A line that starts with a colon. -/
inductive MetaCommand where
  | help
  | scene
  | nearby (names : List String)
  | inventory (names : List String)
  | directions (names : List String)
  | last (name : Option String)
  | documents
  | quit
  | unknown (name : String)
deriving DecidableEq

namespace MetaCommand

/-- The items of a list with commas, blanks at their ends and empty ones left out. -/
def items (text : String) : List String :=
  (((text.toList.splitOnP (· == ',')).map fun item => Text.trim (String.ofList item))).filter
    (· ≠ "")

/-- Read what stands behind the colon. -/
def ofText (text : String) : MetaCommand :=
  let name := String.ofList (text.toList.takeWhile (! Text.isBlank ·))
  let rest := Text.trim (String.ofList (text.toList.dropWhile (! Text.isBlank ·)))
  match name with
  | "help" => .help
  | "ctx" => .scene
  | "nearby" => .nearby (items rest)
  | "inv" => .inventory (items rest)
  | "dirs" => .directions (items rest)
  | "last" => .last (if rest = "" then none else some rest)
  | "json" => .documents
  | "quit" | "q" => .quit
  | other => .unknown other

end MetaCommand

namespace Session

/-- Carry out a meta command. -/
def handleMeta (r : Registry) (s : Session) : MetaCommand → Reaction
  | .help => { session := s, notices := [.help r.definitions] }
  | .scene => { session := s, notices := [.scene s.scene s.pending] }
  | .nearby names => { session := { s with scene := { s.scene with nearby := names } } }
  | .inventory names => { session := { s with scene := { s.scene with inventory := names } } }
  | .directions names => { session := { s with scene := { s.scene with directions := names } } }
  | .last name => { session := { s with scene := { s.scene with lastEntity := name } } }
  | .documents =>
    { session := { s with showDocuments := ! s.showDocuments },
      notices := [.documents (! s.showDocuments)] }
  | .quit => { session := s, quit := true }
  | .unknown name => { session := s, notices := [.unknownMeta name] }

/-! ## Accepting -/

/-- The document of an intent, if documents are shown. -/
def documentOf (s : Session) (i : Intent) : List Notice :=
  if s.showDocuments then [.document i] else []

/-- The verb of an intent is registered as risky. -/
def isRisky (r : Registry) (i : Intent) : Bool := (i.verb.bind r.command?).any (·.risky)

/-- Do an intent: the scene and the list of accepted intents change. -/
def run (s : Session) (i : Intent) : Reaction :=
  { session := { s with scene := s.scene.after i, accepted := s.accepted ++ [i] },
    notices := [.accepted i] }

/-- Do an intent, or ask first if it is risky and not confirmed. -/
def accept (r : Registry) (s : Session) (i : Intent) : Reaction :=
  if isRisky r i && ! i.riskConfirmed then
    { session := { s with confirming := some i }, notices := [.confirm i] }
  else s.run i

/-- An accepted intent, with its document first. -/
def acceptShown (r : Registry) (s : Session) (i : Intent) : Reaction :=
  let reaction := s.accept r i
  { reaction with notices := s.documentOf i ++ reaction.notices }

/-- The answers that confirm a risky intent. -/
def isYes (line : String) : Bool := ["y", "yes", "sure", "do it"].contains line

/-- The line after a risky intent was asked about. -/
def confirm (r : Registry) (s : Session) (i : Intent) (line : String) : Reaction :=
  if isYes (Text.normalize line) then s.accept r i.confirmRisk
  else { session := s, notices := [.refused] }

/-! ## Lines -/

/-- Put a question and keep what it is about. -/
def put (s : Session) (p : Pending) : Reaction :=
  { session := { s with pending := some p }, notices := [.question p.prompt p.options] }

/-- A line without an open question. -/
def handleCommand (r : Registry) (s : Session) (line : String) : Reaction :=
  let i := r.interpret s.scene line
  match i.clarify with
  | some question =>
    { session := { s with pending := Pending.ofIntent? i },
      notices := s.documentOf i ++ [.question question.prompt question.options] }
  | none => s.acceptShown r i

/-- A line that answers the question of `p`.  A complete command replaces a question that it does
not answer. -/
def handleAnswer (r : Registry) (s : Session) (p : Pending) (line : String) : Reaction :=
  match p.answer r s.scene line with
  | .resolved i => s.acceptShown r i
  | .retry next =>
    let fresh := r.interpret s.scene line
    if fresh.clarify.isNone && Confidence.threshold ≤ fresh.confidence then s.acceptShown r fresh
    else s.put next
  | .awaitingMore next | .escalated next => s.put next
  | .cancelled => { session := s, notices := [.cancelled] }

/-- Handle one line. -/
def handleLine (r : Registry) (s : Session) (line : String) : Reaction :=
  let line := Text.trim line
  match line.toList with
  | ':' :: text => s.handleMeta r (MetaCommand.ofText (String.ofList text))
  | _ =>
    match s.confirming with
    | some i => { s with confirming := none }.confirm r i line
    | none =>
      if line = "" then { session := s }
      else
        match s.pending with
        | some p => { s with pending := none }.handleAnswer r p line
        | none => s.handleCommand r line

/-! ## Expected answers -/

/-- Extents as a player might put them. -/
def extentAnswers : List String :=
  ["meters", "km", "tiles", "minutes", "hours", "until dark", "until exhausted"]

/-- Words that would answer the question of a pending intent. -/
def answersTo (scene : Scene) (p : Pending) : List String :=
  match p.next? with
  | some .choice => p.options.map Intent.label
  | some .direction => scene.knownDirections
  | some .extent => extentAnswers
  | some .target => (scene.nearby ++ scene.inventory).map Text.normalize
  | none => []

/-- Words in ascending order, each once. -/
def sorted (words : List String) : List String :=
  Name.distinct (Ranking.sort (fun a b => decide (a < b)) words)

/-- Words that would answer whatever is being asked. -/
def expectedAnswers (s : Session) : List String :=
  if s.confirming.isSome then ["no", "yes"]
  else
    match s.pending with
    | some p => sorted (answersTo s.scene p ++ ["cancel"])
    | none => []

end Session

end PlayerCommands
