/-!
# Styles of terminal text

Every part of the session's output has a style of its own.  With colour on, a text is put between
the sequence that starts its style and the one that resets it, and the style is started again after
every reset inside the text.  With colour off a text stays as it is.
-/

namespace PlayerCommands

/-- The styles of the output. -/
inductive Style where
  | prompt | command | question | option | confidence | entity | aside | error | banner
deriving DecidableEq

namespace Style

def name : Style → String
  | prompt => "prompt"
  | command => "command"
  | question => "question"
  | option => "option"
  | confidence => "confidence"
  | entity => "entity"
  | aside => "meta"
  | error => "error"
  | banner => "banner"

def all : List Style :=
  [prompt, command, question, option, confidence, entity, aside, error, banner]

/-- The codes that start a style. -/
def codes : Style → String
  | prompt => "38;2;110;220;110"
  | command => "1;38;2;223;77;10"
  | question => "3;38;2;102;208;250"
  | option => "38;2;220;180;40"
  | confidence => "2"
  | entity => "4;38;2;13;130;60"
  | aside => "3;38;2;75;180;255"
  | error => "1;38;2;200;50;50"
  | banner => "4;93"

/-- The sequence that starts a style. -/
def start (s : Style) : String := "\x1b[" ++ s.codes ++ "m"

/-- The sequence that ends every style. -/
def reset : String := "\x1b[0m"

/-- A text with `insertion` behind every occurrence of `mark`; `skip` characters belong to an
occurrence that is copied already. -/
def insertAfter (mark insertion : List Char) : (skip : Nat) → List Char → List Char
  | _, [] => []
  | skip + 1, c :: rest => c :: (if skip = 0 then insertion else []) ++ insertAfter mark insertion skip rest
  | 0, c :: rest =>
    if mark.isPrefixOf (c :: rest) then c :: insertAfter mark insertion (mark.length - 1) rest
    else c :: insertAfter mark insertion 0 rest

/-- A text in a style. -/
def apply (s : Style) (color : Bool) (text : String) : String :=
  if color then
    s.start ++ String.ofList (insertAfter reset.toList s.start.toList 0 text.toList) ++ reset
  else text

example : prompt.apply true "" = "\x1b[38;2;110;220;110m\x1b[0m" := by decide
example : confidence.apply true "a\x1b[0mb" = "\x1b[2ma\x1b[0m\x1b[2mb\x1b[0m" := by decide

end Style

end PlayerCommands
