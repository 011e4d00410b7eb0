import PlayerCommands.Intent.Basic
import PlayerCommands.Json
import PlayerCommands.Score.Decimal

/-!
# Intents as documents

The JSON document of an intent: all its fields in their order, absent ones as `null`, scores in the
fewest digits that read back.
-/

namespace PlayerCommands

def Quantity.document (q : Quantity) : Json :=
  .object [("raw", .string q.raw), ("count", .number (toString q.count)),
    ("unit", .string q.unit.name)]

def Extent.document (e : Extent) : Json :=
  .object [("distance_meters", Json.ofOption Json.ofNat e.meters),
    ("duration_minutes", Json.ofOption Json.ofNat e.minutes),
    ("tiles", Json.ofOption Json.ofNat e.tiles), ("condition", .string e.condition.name)]

namespace Intent

mutual

/-- The document of an intent. -/
def document : Intent → Json
  | { raw, normalized, kind, verb, args, quantity, extent, confidence, clarify, riskConfirmed } =>
    .object [("raw", .string raw), ("normalized", .string normalized),
      ("kind", .string kind.name), ("verb", Json.ofOption (.string ·.name) verb),
      ("args", .array (args.map .string)),
      ("quantity", Json.ofOption Quantity.document quantity),
      ("movement", Json.ofOption Extent.document extent),
      ("confidence", .number confidence.toShortest),
      ("clarify", clarifyDocument clarify),
      ("risk_confirmed", .bool riskConfirmed)]

/-- The document of the question of an intent. -/
def clarifyDocument : Option (Question Intent) → Json
  | none => .null
  | some { prompt, options, missing } =>
    .object [("prompt", .string prompt), ("options", .array (documents options)),
      ("missing", .array (missing.map (.string ·.name)))]

def documents : List Intent → List Json
  | [] => []
  | i :: rest => document i :: documents rest

end

end Intent

end PlayerCommands
