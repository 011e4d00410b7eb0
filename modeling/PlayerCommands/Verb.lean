import PlayerCommands.Text.Blank
import PlayerCommands.Text.Casing

/-!
# Verbs

The closed set of commands a line can mean, in the order in which tables and listings show them.
A verb is read by its name in any case, with blanks or hyphens in place of the underscore.
-/

namespace PlayerCommands

/-- Every command that a line can mean. -/
inductive Verb where
  | go | take | drop | use | inspect | craft | eat | drink | sleep | rest | inventory | look
  | buildFire | help
deriving DecidableEq

/-- What kind of thing an intent is. -/
inductive Kind where
  /-- Changes the state of the game. -/
  | command
  /-- Only reports on it. -/
  | query
  | help
  | unknown
deriving DecidableEq

namespace Kind

def name : Kind → String
  | command => "command"
  | query => "query"
  | help => "help"
  | unknown => "unknown"

def all : List Kind := [command, query, help, unknown]

end Kind

namespace Verb

/-- The verbs in their order. -/
def all : List Verb :=
  [go, take, drop, use, inspect, craft, eat, drink, sleep, rest, inventory, look, buildFire, help]

/-- The name of a verb, as tables and command lines write it. -/
def name : Verb → String
  | go => "go"
  | take => "take"
  | drop => "drop"
  | use => "use"
  | inspect => "inspect"
  | craft => "craft"
  | eat => "eat"
  | drink => "drink"
  | sleep => "sleep"
  | rest => "rest"
  | inventory => "inventory"
  | look => "look"
  | buildFire => "build_fire"
  | help => "help"

def kind : Verb → Kind
  | inventory | look => .query
  | help => .help
  | _ => .command

/-- Verbs whose arguments name things nearby or carried. -/
def takesTarget : Verb → Bool
  | take | drop | use | inspect | craft | eat | drink => true
  | _ => false

/-- Verbs that offer the things at hand when their target is missing. -/
def offersTargets : Verb → Bool
  | take | drop | use | inspect => true
  | _ => false

/-- The verb with exactly this name. -/
def ofName? (name : String) : Option Verb := all.find? (·.name = name)

/-- The verb that a text names, blanks at its ends and case apart. -/
def ofText? (text : String) : Option Verb :=
  let joined := (Text.lowercase (Text.trim text)).toList.map fun c =>
    if c = ' ' ∨ c = '-' then '_' else c
  ofName? (String.ofList joined)

/-- What is said about a text that names no verb. -/
def unknownMessage (text : String) : String := "unknown verb '" ++ text ++ "'"

/-- The words of a verb's name with spaces between them. -/
def spaced (v : Verb) : String :=
  String.ofList (v.name.toList.map fun c => if c = '_' then ' ' else c)

/-! ## Lemmas -/

theorem mem_all (v : Verb) : v ∈ all := by cases v <;> decide

theorem nodup_all : all.Nodup := by decide

theorem name_injective {v w : Verb} (h : v.name = w.name) : v = w := by
  cases v <;> cases w <;> first | rfl | exact absurd h (by decide)

theorem ofName?_name (v : Verb) : ofName? v.name = some v := by cases v <;> decide

example : ofText? " Build-Fire " = some buildFire := by decide +kernel

end Verb

end PlayerCommands
