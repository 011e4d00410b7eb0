import PlayerCommands.Intent.CommandText
import PlayerCommands.Intent.Document
import PlayerCommands.Registry.Basic
import PlayerCommands.Scene
import PlayerCommands.Session.Style

/-!
# Notices

What a session tells the player, apart from how it looks: each notice is rendered to one or more
lines of text.
-/

namespace PlayerCommands

/-- A piece of output. -/
inductive Notice where
  /-- The document of an intent. -/
  | document (intent : Intent)
  /-- A question with its numbered options. -/
  | question (prompt : String) (options : List Intent)
  /-- An accepted intent. -/
  | accepted (intent : Intent)
  /-- A risky intent that is to be confirmed. -/
  | confirm (intent : Intent)
  /-- A risky intent was not confirmed. -/
  | refused
  /-- A question was dropped. -/
  | cancelled
  /-- All commands and meta commands. -/
  | help (definitions : List CommandDef)
  | scene (scene : Scene) (pending : Option Pending)
  /-- Documents are shown from now on, or not. -/
  | documents (shown : Bool)
  | unknownMeta (name : String)
  /-- A line of the input could not be read. -/
  | unreadable (cause : String)

namespace Notice

/-- The names of the meta commands, as the help lists them. -/
def metaCommands : List String :=
  [":help", ":ctx", ":nearby", ":inv", ":last", ":dirs", ":json", ":quit"]

/-- Names in the style of things, or a note that there are none. -/
def entityList (color : Bool) (names : List String) : String :=
  if names.isEmpty then "(none)"
  else ", ".intercalate (names.map (Style.entity.apply color))

/-- An option with its number. -/
def optionLine (color : Bool) (option : Intent) (place : Nat) : String :=
  "  " ++ Style.option.apply color (toString (place + 1) ++ ". " ++ option.commandText)

/-- A command with its aliases. -/
def helpLine (color : Bool) (d : CommandDef) : String :=
  "  " ++ Style.option.apply color d.verb.name ++
    if d.aliases.isEmpty then "" else " (" ++ ", ".intercalate d.aliases ++ ")"

/-- The lines of a notice. -/
def lines (color : Bool) : Notice → List String
  | document intent => [intent.document.pretty]
  | question prompt options =>
    Style.question.apply color prompt :: options.zipIdx.map fun (o, i) => optionLine color o i
  | accepted intent =>
    [Style.command.apply color ("-> " ++ intent.commandText) ++ " " ++
      Style.confidence.apply color ("(" ++ intent.confidence.toFixed 2 ++ ")")]
  | confirm intent =>
    [Style.question.apply color
      ("\"" ++ intent.commandText ++ "\" could go badly. Are you sure? (yes/no)")]
  | refused => [Style.aside.apply color "Okay, not doing that."]
  | cancelled => [Style.aside.apply color "Cancelled."]
  | help definitions =>
    Style.command.apply color "Commands" :: definitions.map (helpLine color) ++
      [Style.command.apply color "Meta commands",
        "  " ++ Style.aside.apply color (" ".intercalate metaCommands),
        Style.aside.apply color
          "List arguments are comma separated, e.g. `:nearby stick, flint stone`."]
  | scene s pending =>
    [Style.aside.apply color "nearby:" ++ " " ++ entityList color s.nearby,
      Style.aside.apply color "carried:" ++ " " ++ entityList color s.inventory,
      Style.aside.apply color "directions:" ++ " " ++ entityList color s.directions,
      Style.aside.apply color "last:" ++ " " ++
        Style.entity.apply color (s.lastEntity.getD "(none)")] ++
      pending.toList.map fun p =>
        Style.aside.apply color "pending:" ++ " " ++ p.verb.name ++ " (" ++ p.prompt ++ ")"
  | documents shown =>
    [Style.aside.apply color (if shown then "JSON output on." else "JSON output off.")]
  | unknownMeta name =>
    [Style.error.apply color ("Unknown meta command ':" ++ name ++ "'. Try :help.")]
  | unreadable cause =>
    [Style.error.apply color ("Failed to read input (" ++ cause ++ "). Try again.")]

/-- The text of notices, every line ended. -/
def render (color : Bool) (notices : List Notice) : String :=
  String.join ((notices.flatMap (lines color)).map (· ++ "\n"))

end Notice

end PlayerCommands
