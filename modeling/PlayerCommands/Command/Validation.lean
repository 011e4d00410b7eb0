import PlayerCommands.Command.Definition
import PlayerCommands.Text.Alphanumeric

/-!
# Validation of command tables

A table is checked definition by definition for four faults, and all of them are reported in the
order in which they are met.  Aliases are compared by their key: their lower-cased words of letters
and digits, joined by single spaces.
-/

namespace PlayerCommands

/-- What can be wrong with a command table. -/
inductive TableFault where
  /-- A verb with an earlier definition. -/
  | duplicateVerb (verb : Verb)
  | invalidBounds (verb : Verb) (min max : Nat)
  /-- An alias without letters and digits. -/
  | emptyAlias (verb : Verb) (text : String)
  /-- A key that an alias of another verb has claimed. -/
  | sharedAlias (key : String) (first second : Verb)
deriving DecidableEq

namespace TableFault

def message : TableFault → String
  | duplicateVerb verb => "command '" ++ verb.name ++ "' is defined more than once"
  | invalidBounds verb min max =>
    "command '" ++ verb.name ++ "' has min_args " ++ toString min ++
      " greater than max_args " ++ toString max
  | emptyAlias verb text =>
    "command '" ++ verb.name ++ "' has an alias with no words ('" ++ text ++ "')"
  | sharedAlias key first second =>
    "alias '" ++ key ++ "' is claimed by both '" ++ first.name ++ "' and '" ++ second.name ++ "'"

/-- What is said about a table with faults: every one of them on a line of its own. -/
def report (faults : List TableFault) : String :=
  "command table failed validation:\n" ++
    "\n".intercalate (faults.map fun fault => "- " ++ fault.message)

end TableFault

namespace CommandTable

/-- The key of an alias: its words of letters and digits, each in lower case. -/
def aliasKey (text : String) : String :=
  " ".intercalate ((Text.pieces (! Text.isAlphanumeric ·) text.toList).map
    fun word => Text.lowercase (String.ofList word))

/-- The verb that has claimed a key. -/
def owner? (owners : List (String × Verb)) (key : String) : Option Verb :=
  (owners.find? (·.1 = key)).map (·.2)

/-- The faults of the aliases of a verb, and the claimed keys with theirs added. -/
def aliasFaults (verb : Verb) (owners : List (String × Verb)) :
    List String → List TableFault × List (String × Verb)
  | [] => ([], owners)
  | text :: rest =>
    let key := aliasKey text
    if key = "" then
      let (faults, owners) := aliasFaults verb owners rest
      (.emptyAlias verb text :: faults, owners)
    else
      match owner? owners key with
      | some first =>
        let (faults, owners) := aliasFaults verb owners rest
        (if first = verb then faults else .sharedAlias key first verb :: faults, owners)
      | none => aliasFaults verb (owners ++ [(key, verb)]) rest

/-- The faults of definitions after the verbs `seen`, with the keys claimed so far. -/
def faultsFrom (seen : List Verb) (owners : List (String × Verb)) :
    CommandTable → List TableFault
  | [] => []
  | d :: rest =>
    let (faults, owners) := aliasFaults d.verb owners d.aliases
    (if d.verb ∈ seen then [.duplicateVerb d.verb] else []) ++
      (if d.maxArgs < d.minArgs then [.invalidBounds d.verb d.minArgs d.maxArgs] else []) ++
      faults ++ faultsFrom (d.verb :: seen) owners rest

/-- Everything that is wrong with a table. -/
def faults (table : CommandTable) : List TableFault := faultsFrom [] [] table

end CommandTable

end PlayerCommands
