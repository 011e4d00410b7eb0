import PlayerCommands.Registry.Basic

/-!
# The built-in commands

The commands of the survival game that are there before any table is applied.
-/

namespace PlayerCommands

/-- The built-in definitions. -/
def builtinTable : CommandTable :=
  [{ verb := .go, aliases := ["walk", "head", "travel", "move", "hike", "run"] },
   { verb := .take, aliases := ["pick up", "pickup", "grab", "get", "collect", "gather"],
     minArgs := 1, maxArgs := 2 },
   { verb := .drop, aliases := ["discard", "put down", "toss", "throw away"],
     minArgs := 1, maxArgs := 2 },
   { verb := .use, aliases := ["apply", "activate", "operate"], minArgs := 1, maxArgs := 3 },
   { verb := .inspect, aliases := ["examine", "x", "study"], minArgs := 1 },
   { verb := .craft, aliases := ["make", "build", "assemble"], minArgs := 1, maxArgs := 3 },
   { verb := .eat, aliases := ["consume", "devour"] },
   { verb := .drink, aliases := ["sip"] },
   { verb := .sleep, aliases := ["nap", "doze"], maxArgs := 0 },
   { verb := .rest, aliases := ["wait", "relax"], maxArgs := 0 },
   { verb := .inventory, aliases := ["inv", "bag", "pack", "items"], maxArgs := 0 },
   { verb := .look, aliases := ["l", "survey", "look around"], maxArgs := 0 },
   { verb := .buildFire,
     aliases := ["make fire", "light fire", "start fire", "campfire", "build a fire",
       "make a fire", "start a fire", "light a fire"],
     maxArgs := 0 },
   { verb := .help, aliases := ["h", "commands"], maxArgs := 0 }]

/-- The registry of the built-in commands. -/
def Registry.builtin : Registry := Registry.empty.registerAll builtinTable

end PlayerCommands
