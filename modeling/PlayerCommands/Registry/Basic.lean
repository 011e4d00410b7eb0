import PlayerCommands.Command.Validation
import PlayerCommands.Name.Ranking
import PlayerCommands.Text.Normal

/-!
# The registry of commands

A registry knows for every verb whether it is registered, and if so its phrases and bounds.
Registering a verb again replaces what was known of it.  The phrases of a verb are its name in
normal form and its aliases in normal form; an alias with nothing left is dropped, and a repeated
one is listed once.
-/

namespace PlayerCommands

/-! ## Phrases -/

/-- A text in normal form with at least one word. -/
structure Phrase where
  text : String
  isPhrase : text ≠ "" ∧ ∃ s, Text.normalize s = text
deriving DecidableEq

namespace Phrase

/-- The normal form of a text, if there is anything left of it. -/
def ofText? (s : String) : Option Phrase :=
  if h : Text.normalize s = "" then none else some ⟨Text.normalize s, h, s, rfl⟩

/-- The words of a phrase. -/
def words (p : Phrase) : List String := Text.tokens p.text

end Phrase

/-- The name of a verb as a phrase. -/
def Verb.phrase (v : Verb) : Phrase :=
  ⟨v.spaced, by cases v <;> decide, v.name, by cases v <;> decide⟩

/-! ## Registries -/

/-- What is registered for one verb. -/
structure Command where
  aliases : List Phrase
  minArgs : Nat
  maxArgs : Nat
  risky : Bool

/-- What is registered for every verb. -/
structure Registry where
  command? : Verb → Option Command

/-- A phrase of a registered verb. -/
structure Entry where
  verb : Verb
  phrase : Phrase
  /-- The name of the verb, not an alias. -/
  canonical : Bool

namespace Registry

/-- The registry without commands. -/
def empty : Registry := ⟨fun _ => none⟩

/-- What a definition registers. -/
def commandOf (d : CommandDef) : Command :=
  ⟨d.aliases.filterMap Phrase.ofText?, d.minArgs, d.maxArgs, d.risky⟩

/-- Register a command in place of any earlier definition of its verb. -/
def register (r : Registry) (d : CommandDef) : Registry :=
  let command := commandOf d
  ⟨fun v => if v = d.verb then some command else r.command? v⟩

/-- Register commands in order. -/
def registerAll (r : Registry) (defs : List CommandDef) : Registry := defs.foldl register r

def isRegistered (r : Registry) (v : Verb) : Bool := (r.command? v).isSome

/-- The definition of a verb, with its aliases in normal form. -/
def definition? (r : Registry) (v : Verb) : Option CommandDef :=
  (r.command? v).map fun c => ⟨v, c.aliases.map (·.text), c.minArgs, c.maxArgs, c.risky⟩

/-- The registered definitions in the order of their verbs. -/
def definitions (r : Registry) : List CommandDef := Verb.all.filterMap r.definition?

/-- The phrases of one verb: its name, then its aliases. -/
def entriesOf (v : Verb) (c : Command) : List Entry :=
  match Name.distinct (v.phrase :: c.aliases) with
  | [] => []
  | name :: aliases => ⟨v, name, true⟩ :: aliases.map fun a => ⟨v, a, false⟩

/-- All phrases in the order of their verbs. -/
def entries (r : Registry) : List Entry :=
  Verb.all.flatMap fun v => ((r.command? v).map (entriesOf v)).getD []

/-- Apply a table: register every definition of it, or none if the table has faults. -/
def apply (r : Registry) (table : CommandTable) : Except (List TableFault) Registry :=
  match CommandTable.faults table with
  | [] => .ok (r.registerAll table)
  | faults => .error faults

/-! ## Lemmas -/

theorem command?_register (r : Registry) (d : CommandDef) (v : Verb) :
    (r.register d).command? v = if v = d.verb then some (commandOf d) else r.command? v := rfl

end Registry

end PlayerCommands
