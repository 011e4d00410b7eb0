import PlayerCommands.Files
import PlayerCommands.Registry.Builtin
import PlayerCommands.Scene
import PlayerCommands.Toml.Document

/-!
# Loading command tables and scenes

Tables and scenes are TOML documents.  Fields that are absent take their defaults, unknown ones are
ignored, and a field of the wrong type spoils the document.  A definition may also be written as the
array of its fields in their order, and a verb as a table with its name as the only key.
-/

namespace PlayerCommands

/-! ## Decoding -/

namespace Decode

open Toml

def string? : Value → Option String
  | .string s => some s
  | _ => none

def natural? : Value → Option Nat
  | .integer n => if 0 ≤ n then some n.toNat else none
  | _ => none

def boolean? : Value → Option Bool
  | .boolean b => some b
  | _ => none

/-- The items of an array of either spelling. -/
def items? : Value → Option (List Value)
  | .array items => some items
  | .tables items => some (items.map (.table .header))
  | _ => none

def list? {α : Type} (decode : Value → Option α) (v : Value) : Option (List α) := do
  (← items? v).mapM decode

/-- A value without content. -/
def isEmpty : Value → Bool
  | .array [] | .tables [] | .table _ [] => true
  | _ => false

/-- A verb by its exact name. -/
def verb? : Value → Option Verb
  | .string name => Verb.ofName? name
  | .table _ [(name, content)] => if isEmpty content then Verb.ofName? name else none
  | _ => none

/-- A field with a default for when it is absent. -/
def withDefault {α : Type} (decode : Value → Option α) (default : α) : Option Value → Option α
  | none => some default
  | some v => decode v

def strings (v : Option Value) : Option (List String) := withDefault (list? string?) [] v

/-- A definition from its fields. -/
def definitionOf? (verb aliases minArgs maxArgs risky : Option Value) : Option CommandDef := do
  return { verb := ← verb? (← verb), aliases := ← strings aliases,
           minArgs := ← withDefault natural? 0 minArgs,
           maxArgs := ← withDefault natural? 1 maxArgs,
           risky := ← withDefault boolean? false risky }

def definition? : Value → Option CommandDef
  | .table _ fields =>
    definitionOf? (Fields.get? fields "verb") (Fields.get? fields "aliases")
      (Fields.get? fields "min_args") (Fields.get? fields "max_args") (Fields.get? fields "risky")
  | .array items => definitionOf? items[0]? items[1]? items[2]? items[3]? items[4]?
  | _ => none

/-- The command table of a document. -/
def table? (fields : Fields) : Option CommandTable :=
  withDefault (list? definition?) [] (Fields.get? fields "commands")

/-- The scene of a document. -/
def scene? (fields : Fields) : Option Scene := do
  return { inventory := ← strings (Fields.get? fields "inventory"),
           nearby := ← strings (Fields.get? fields "nearby"),
           directions := ← strings (Fields.get? fields "directions"),
           lastEntity := ← withDefault (fun v => (string? v).map some) none
             (Fields.get? fields "last_entity") }

end Decode

/-! ## Loading -/

/-- Why something could not be loaded. -/
inductive LoadFault where
  | unreadable (fault : FileFault)
  /-- The text is no TOML, or a field has the wrong type. -/
  | malformed
  | invalidTable (faults : List TableFault)
deriving DecidableEq

namespace Loading

def tableOf (text : String) : Except LoadFault CommandTable :=
  match (Toml.ofText? text).bind Decode.table? with
  | some table => .ok table
  | none => .error .malformed

def sceneOf (text : String) : Except LoadFault Scene :=
  match (Toml.ofText? text).bind Decode.scene? with
  | some scene => .ok scene
  | none => .error .malformed

/-- The text of a file. -/
def text (files : Files) (path : String) : Except LoadFault String :=
  match files.read path with
  | .ok text => .ok text
  | .error fault => .error (.unreadable fault)

/-- The command table in a file. -/
def commandTable (files : Files) (path : String) : Except LoadFault CommandTable := do
  tableOf (← text files path)

/-- The built-in registry with the table in a file applied. -/
def registry (files : Files) (path : String) : Except LoadFault Registry := do
  match Registry.builtin.apply (← commandTable files path) with
  | .ok r => .ok r
  | .error faults => .error (.invalidTable faults)

/-- The scene in a file. -/
def scene (files : Files) (path : String) : Except LoadFault Scene := do
  sceneOf (← text files path)

end Loading

end PlayerCommands
