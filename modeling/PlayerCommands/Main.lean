import PlayerCommands.CommandLine

/-!
# The program

Reads the data files, then holds a session line by line over standard input and output.
-/

namespace PlayerCommands.Main

/-- The number of a system error, which some operations report negated. -/
def errorNumber (code : UInt32) : Nat := min code.toNat (4294967296 - code.toNat)

/-- Why the system refused to read a file. -/
def faultOf : IO.Error → FileFault
  | .noFileOrDirectory .. => .notFound
  | .inappropriateType _ code _ =>
    if errorNumber code = 20 then .notDirectory else .isDirectory
  | .invalidArgument _ code details =>
    if errorNumber code = 36 then .nameTooLong else .other details
  | .permissionDenied .. => .permissionDenied
  | error => .other (toString error)

/-- Read a text file. -/
def readText (path : String) : IO (Except FileFault String) := do
  match ← (IO.FS.readBinFile path).toBaseIO with
  | .error error => return .error (faultOf error)
  | .ok bytes =>
    match String.fromUTF8? bytes with
    | some text => return .ok text
    | none => return .error .invalidText

def isDirectory (path : String) : IO Bool := do
  match ← readText path with
  | .error .isDirectory => return true
  | _ => return false

/-- The data directory of this run: below the working directory, or beside the program. -/
def dataRoot : IO String := do
  let explicit ← IO.getEnv "WAYFARER_DATA"
  let program := toString (← IO.appPath)
  let bases := ["", Files.parent program, Files.parent (Files.parent program)]
  let present ← (CommandLine.candidates bases).filterM isDirectory
  return CommandLine.dataRoot present.contains bases explicit

/-- The bytes of the next line of the input, with its line feed. -/
partial def readLine (input : IO.FS.Stream) (bytes : ByteArray) : IO ByteArray := do
  let next ← input.read 1
  if next.isEmpty then return bytes
  let bytes := bytes ++ next
  if next.toList == [10] then return bytes else readLine input bytes

/-- Handle lines until the player quits or the input ends. -/
partial def serve (r : Registry) (color : Bool) (s : Session) : IO Unit := do
  let output ← IO.getStdout
  output.putStr (Transcript.prompt color s)
  output.flush
  let bytes ← readLine (← IO.getStdin) ByteArray.empty
  if bytes.isEmpty then return
  let reaction := Transcript.react r s (Transcript.decodeLine? bytes.toList)
  output.putStr (Notice.render color reaction.notices)
  output.flush
  unless reaction.quit do serve r color reaction.session

/-- Load the data and hold a session, or report what went wrong. -/
def run : IO UInt32 := do
  let root ← dataRoot
  let tablePath := Files.join root CommandLine.Source.commandTable.fileName
  let table ← readText tablePath
  let scene ← readText (Files.join root CommandLine.Source.scene.fileName)
  let files : Files :=
    { read := fun path => if path = tablePath then table else scene, isDirectory := fun _ => false }
  match CommandLine.load files root with
  | .error message =>
    (← IO.getStderr).putStr message
    return 1
  | .ok (registry, scene) =>
    let output ← IO.getStdout
    let color ← output.isTty
    output.putStr (CommandLine.greeting color)
    serve registry color { scene }
    return 0

end PlayerCommands.Main

def main : IO UInt32 := PlayerCommands.Main.run
