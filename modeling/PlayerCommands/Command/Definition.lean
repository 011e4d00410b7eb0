import PlayerCommands.Verb

/-!
# Command definitions

What a table says about one verb: the phrases that mean it besides its name, how many arguments it
takes, and whether it should be confirmed before it is done.
-/

namespace PlayerCommands

/-- The definition of one command. -/
structure CommandDef where
  verb : Verb
  /-- Other phrases for the verb; each may have several words. -/
  aliases : List String := []
  minArgs : Nat := 0
  maxArgs : Nat := 1
  /-- To be confirmed before it is done. -/
  risky : Bool := false
deriving DecidableEq

/-- A command table: definitions in the order in which they are registered. -/
abbrev CommandTable := List CommandDef

end PlayerCommands
