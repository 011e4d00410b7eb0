import PlayerCommands.Session.Basic

/-!
# Transcripts

A session over a whole input: before every line a prompt is printed that tells whether a question is
open, until the player quits or the input ends.  A line that is not valid UTF-8 is reported and
passed over.
-/

namespace PlayerCommands.Transcript

/-! ## Input -/

/-- The lines of an input, each up to its line feed. -/
def splitLines (bytes : List UInt8) : List (List UInt8) :=
  let pieces := bytes.splitOnP (· == 10)
  if pieces.getLast?.any (·.isEmpty) then pieces.dropLast else pieces

/-- The text of a line without the line ends at its end, if it is valid UTF-8. -/
def decodeLine? (bytes : List UInt8) : Option String :=
  (String.fromUTF8? ⟨bytes.toArray⟩).map fun s =>
    String.ofList (s.toList.reverse.dropWhile fun c => c = '\n' || c = '\r').reverse

/-- The lines of an input; nothing for one that cannot be read. -/
def inputLines (bytes : List UInt8) : List (Option String) := (splitLines bytes).map decodeLine?

/-! ## Output -/

/-- The prompt before a line. -/
def prompt (color : Bool) (s : Session) : String :=
  Style.prompt.apply color
    (if s.pending.isSome || s.confirming.isSome then "\n?> " else "\n>> ")

/-- Why a line cannot be read. -/
def invalidText : String := "stream did not contain valid UTF-8"

/-- What one line of the input leads to. -/
def react (r : Registry) (s : Session) : Option String → Reaction
  | some line => s.handleLine r line
  | none => { session := s, notices := [.unreadable invalidText] }

/-- Everything that is printed from a state on. -/
def printedFrom (r : Registry) (color : Bool) (s : Session) : List (Option String) → String
  | [] => prompt color s
  | line :: rest =>
    let reaction := react r s line
    prompt color s ++ Notice.render color reaction.notices ++
      if reaction.quit then "" else printedFrom r color reaction.session rest

/-- Everything that a session in a scene prints for an input. -/
def printed (r : Registry) (color : Bool) (scene : Scene) (input : List UInt8) : String :=
  printedFrom r color { scene } (inputLines input)

end PlayerCommands.Transcript
