import PlayerCommands.Loading
import PlayerCommands.Session.Transcript

/-!
# The command line

The program loads its command table and its scene from a data directory, greets the player, and
holds a session over its standard input.  If either file cannot be loaded it reports the chain of
causes instead.
-/

namespace PlayerCommands.CommandLine

/-! ## The data directory -/

/-- Where the data is in a working copy. -/
def workspaceData : String := "wayfarer_parser/data"

/-- Where the data may be below some directories. -/
def candidates (bases : List String) : List String :=
  bases.flatMap fun base => [Files.join base workspaceData, Files.join base "data"]

/-- The data directory: the one given, else the first one there is below the bases. -/
def dataRoot (isDirectory : String → Bool) (bases : List String) : Option String → String
  | some directory => directory
  | none => ((candidates bases).find? isDirectory).getD workspaceData

/-! ## Failures -/

/-- A file that is loaded at the start. -/
inductive Source where
  | commandTable | scene
deriving DecidableEq

def Source.fileName : Source → String
  | commandTable => "commands.toml"
  | scene => "context.toml"

/-- What the file is called in reports. -/
def Source.title : Source → String
  | commandTable => "command table"
  | scene => "context"

/-- What was done when loading failed. -/
def Source.step : Source → String
  | commandTable => "while loading command table"
  | scene => "while loading demo context"

/-- The causes of a failure, the nearest one first. -/
def causes (source : Source) (path : String) : LoadFault → List String
  | .unreadable fault =>
    ["reading " ++ source.title ++ " from '" ++ path ++ "'", fault.message]
  | .malformed => ["parsing " ++ source.title ++ " from '" ++ path ++ "'", "TOML parse error"]
  | .invalidTable faults =>
    ["applying " ++ source.title ++ " '" ++ path ++ "'", TableFault.report faults]

/-- A text whose lines after the first one are indented. -/
def indented (text : String) : String :=
  String.ofList (text.toList.flatMap fun c =>
    if c = '\n' then '\n' :: List.replicate 7 ' ' else [c])

/-- The report of a failure: what was done, then the numbered causes. -/
def report (step : String) (causes : List String) : String :=
  "Error: " ++ step ++ "\n\nCaused by:\n" ++
    String.join (causes.zipIdx.map fun (cause, i) =>
      "    " ++ toString i ++ ": " ++ indented cause ++ "\n")

/-! ## The program -/

def version : String := "0.3.0"

/-- The greeting. -/
def greeting (color : Bool) : String :=
  Style.banner.apply color ("WAYFARER " ++ version ++ ": type a command, or :help") ++ "\n" ++
    Style.aside.apply color "Type :ctx to see what is nearby and carried." ++ "\n"

/-- Load what a session needs from a data directory, or report why it cannot be had. -/
def load (files : Files) (root : String) : Except String (Registry × Scene) :=
  let path (source : Source) : String := Files.join root source.fileName
  let fail (source : Source) (fault : LoadFault) : Except String (Registry × Scene) :=
    .error (report source.step (causes source (path source) fault))
  match Loading.registry files (path .commandTable) with
  | .error fault => fail .commandTable fault
  | .ok registry =>
    match Loading.scene files (path .scene) with
    | .error fault => fail .scene fault
    | .ok scene => .ok (registry, scene)

/-- What the program leaves behind. -/
structure Exit where
  code : Nat
  stdout : String
  stderr : String

/-- A whole run without colours. -/
def run (files : Files) (dataDirectory : Option String) (input : List UInt8) : Exit :=
  match load files (dataRoot files.isDirectory [""] dataDirectory) with
  | .error message => ⟨1, "", message⟩
  | .ok (registry, scene) =>
    ⟨0, greeting false ++ Transcript.printed registry false scene input, ""⟩

end PlayerCommands.CommandLine
