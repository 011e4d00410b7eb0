import PlayerCommands.Proofs.Dialogue
import PlayerCommands.Proofs.MovementWords
import PlayerCommands.Proofs.NamedVerb

/-!
# Movements in any order

A movement has two slots, a direction and an extent.  They may be filled on one line or on several,
in either order, and beside the verb or after it: every such dialogue comes to the same intent.

    dialogue ∈ orders word text →
      ∃ i, r.converse scene dialogue = some i ∧ i.IsMovement d e         (movement_of_mem_orders)

Between two lines a movement is known by its arguments and its extent, and what is missing follows
from these (`Pending.IsMovement`).  A line is known by what a scan finds in its words and by what it
leaves of them (`Extent.Offers`): nothing, or one direction word.
-/

namespace PlayerCommands

/-! ## Slots -/

/-- A movement that is ready to be done. -/
structure Intent.IsMovement (i : Intent) (d : Direction) (e : Extent) : Prop where
  verb : i.verb = some .go
  args : i.args = [d.name]
  extent : i.extent = some e
  quantity : i.quantity = none
  clarify : i.clarify = none
  confidence : i.confidence = 1

/-- The slots of a movement that nothing fills. -/
def Field.unfilled (args : List String) (extent : Option Extent) : List Field :=
  (if args.isEmpty then [.direction] else []) ++ (if extent.isNone then [.extent] else [])

/-- A movement between two lines, with what fills its slots so far. -/
structure Pending.IsMovement (p : Pending) (args : List String) (extent : Option Extent) :
    Prop where
  missing : p.missing = Field.unfilled args extent
  verb : p.verb = .go
  quantity : p.quantity = none
  args : p.args = args
  extent : p.extent = extent

/-- The words of a line offer an extent, or none, and the words `rest` besides. -/
structure Extent.Offers (words : List String) (extent : Option Extent) (rest : List String) :
    Prop where
  extent : (scan words).extent = extent
  bareNumber : (scan words).bareNumber = none
  rest : (scan words).rest = rest

variable {r : Registry} {c : Command} {scene : Scene} {d : Direction} {e : Extent}
  {word text line : String} {words args rest : List String} {extent offered : Option Extent}

namespace Extent

theorem offers_nil : Offers [] none [] := ⟨rfl, rfl, rfl⟩

theorem IsSaidBy.offers (h : e.IsSaidBy text) : Offers (Text.words text) (some e) [] :=
  ⟨h.extent, h.bareNumber, h.complete⟩

/-- A direction word is offered besides. -/
theorem Offers.cons (h : Offers words extent rest) (hword : d.IsPlain word) :
    Offers (word :: words) extent (word :: rest) := by
  have hscan := hword.scan_cons words
  refine ⟨?_, ?_, ?_⟩
  · rw [hscan]
    exact h.extent
  · rw [hscan]
    exact h.bareNumber
  · rw [hscan]
    exact congrArg (word :: ·) h.rest

end Extent

/-! ## The first line -/

/-- The movement of a line, before it asks for what it lacks. -/
def Intent.movement (line : String) (args : List String) (extent : Option Extent) : Intent :=
  { Intent.unresolved line (Text.normalize line) with
    verb := some .go, kind := .command, args, extent, confidence := 1 }

/-- A movement asks for its empty slots, without options. -/
theorem Intent.askMovement_none_eq (i : Intent) :
    i.askMovement none = if Field.unfilled i.args i.extent = [] then i else
      i.ask { prompt := if i.args.isEmpty then Prompt.direction else Prompt.extent,
              missing := Field.unfilled i.args i.extent } Confidence.incomplete := by
  unfold Field.unfilled
  by_cases hargs : i.args = []
  · rw [askMovement_of_nil hargs]
    cases i.extent <;> simp [hargs]
  · rw [askMovement_of_ne_nil hargs]
    cases i.extent <;> simp [hargs]

namespace Registry

theorem blend_canonicalScore : Confidence.blend Entry.canonicalScore (surplusScore 1 0) = 1 := by
  decide +kernel

/-- An intent that is sure asks for what a movement lacks, and for nothing else. -/
theorem askIfUnclear_of_go {i : Intent} {reading : Reading} (hgo : reading.verb = .go)
    {amounts : Amounts} (hbare : amounts.bareNumber = none) (hclarify : i.clarify = none)
    (hsure : i.confidence = 1) (argScore : Score) :
    (i.askIfUnclear reading c scene amounts none argScore).shareAmounts = i.askMovement none := by
  have hthreshold : ¬ (1 : Score) < Confidence.threshold := by decide +kernel
  have hdue : i.askDue reading.verb c scene amounts none = i.askMovement none := by
    unfold Intent.askDue
    simp only [hgo, hbare, if_true]
  unfold Intent.askIfUnclear
  simp only [hdue, Intent.askMovement_none_eq]
  split
  · rw [if_neg (by simp [hsure, hthreshold]), Intent.shareAmounts_of_none hclarify]
  · rw [if_neg (by simp)]
    rfl

/-- A line with the words of a movement is taken as that movement. -/
theorem interpret_movement (hc : r.command? .go = some c)
    (hwords : Text.words line = "go" :: words) (hoffers : Extent.Offers words extent rest)
    (hresolve : Argument.resolve .go rest scene = ⟨args, 1, none⟩)
    (hfits : args.length ≤ c.maxArgs) :
    r.interpret scene line = (Intent.movement line args extent).askMovement none := by
  obtain ⟨alternates, heq⟩ := interpret_of_name hc scene hwords
  have hamounts : Amounts.of .go words = { extent, rest } := by
    rw [Amounts.of_go, hoffers.extent, hoffers.bareNumber, hoffers.rest]
    rfl
  have hsurplus : args.length - c.maxArgs = 0 := Nat.sub_eq_zero_of_le hfits
  have hdraft : draftIntent scene (Intent.unresolved line (Text.normalize line))
      ⟨.go, Entry.canonicalScore, words, alternates⟩ c = Intent.movement line args extent := by
    unfold draftIntent
    simp only [hamounts, hresolve, hsurplus, blend_canonicalScore, List.take_of_length_le hfits]
    rfl
  rw [heq, buildIntent_eq, hdraft]
  simp only [hamounts, hresolve]
  exact askIfUnclear_of_go rfl rfl rfl rfl _

end Registry

theorem Intent.isMovement_movement (line : String) (d : Direction) (e : Extent) :
    ((movement line [d.name] (some e)).askMovement none).IsMovement d e :=
  ⟨rfl, rfl, rfl, rfl, rfl, rfl⟩

/-- A movement with an empty slot is kept until the next line. -/
theorem Pending.ofIntent?_movement (line : String) (h : Field.unfilled args extent ≠ []) :
    ∃ p, ofIntent? ((Intent.movement line args extent).askMovement none) = some p ∧
      p.IsMovement args extent := by
  have h : Field.unfilled (Intent.movement line args extent).args
      (Intent.movement line args extent).extent ≠ [] := h
  rw [Intent.askMovement_none_eq, if_neg h, ofIntent?_ask _ rfl h]
  exact ⟨_, rfl, rfl, rfl, rfl, rfl, rfl⟩

/-! ## The next lines -/

namespace Pending

variable {p : Pending}

namespace IsMovement

theorem takeExtent (hp : p.IsMovement args extent) (e : Extent) :
    (p.takeExtent e).IsMovement args (some e) := by
  refine ⟨?_, hp.verb, ?_, hp.args, rfl⟩
  · show p.missing.filter (· ≠ .extent) = Field.unfilled args (some e)
    rw [hp.missing]
    unfold Field.unfilled
    cases extent <;> cases args <;> rfl
  · show (if p.storedCount?.isSome then none else p.quantity) = none
    rw [hp.quantity]
    exact ite_self _

/-- A line fills the extent if it offers one, and keeps it otherwise. -/
theorem takeAmounts (hp : p.IsMovement args extent) (hoffers : Extent.Offers words offered rest) :
    (p.takeAmounts (Extent.scan words)).IsMovement args (offered.or extent) := by
  unfold Pending.takeAmounts
  rw [hoffers.extent, hoffers.bareNumber]
  cases offered with
  | some e => exact hp.takeExtent e
  | none => exact hp

theorem direct (hp : p.IsMovement [] extent) (d : Direction) :
    IsMovement ({ p with args := [d.name] }.without .direction) [d.name] extent := by
  refine ⟨?_, hp.verb, hp.quantity, rfl, hp.extent⟩
  show p.missing.filter (· ≠ .direction) = Field.unfilled [d.name] extent
  rw [hp.missing]
  unfold Field.unfilled
  cases extent <;> rfl

/-- Nothing is missing but what is asked for already. -/
theorem requireMovement_eq_self (hp : p.IsMovement args extent) : p.requireMovement = p := by
  have hchoice : .choice ∉ p.missing := by
    rw [hp.missing]
    unfold Field.unfilled
    cases args <;> cases extent <;> simp
  have hdirection : (if p.args.isEmpty then p.require .direction else p) = p := by
    split
    · next hargs =>
      refine if_pos ?_
      rw [hp.missing, ← hp.args, Field.unfilled, if_pos hargs]
      rfl
    · rfl
  rw [requireMovement_of_go hp.verb hchoice, hdirection]
  split
  · next hextent =>
    refine if_pos ?_
    rw [hp.missing, ← hp.extent, Field.unfilled, if_pos hextent]
    simp
  · rfl

/-- A movement with both slots filled is resolved. -/
theorem finish_resolved (hp : p.IsMovement [d.name] (some e)) (hc : r.command? .go = some c)
    (hmax : 1 ≤ c.maxArgs) : ∃ i, p.finish r 1 = .resolved i ∧ i.IsMovement d e := by
  have hnext : p.next? = none := by
    unfold next?
    rw [hp.missing]
    rfl
  have hargs : p.args.take c.maxArgs = [d.name] := by
    rw [hp.args]
    exact List.take_of_length_le hmax
  have hblend : Confidence.blend 1 1 = 1 := by decide +kernel
  unfold finish
  simp only [hp.requireMovement_eq_self, hnext, hp.verb, hc, hargs, hblend]
  exact ⟨_, rfl, rfl, rfl, hp.extent, hp.quantity, rfl, rfl⟩

/-- A movement with a direction only waits for its extent. -/
theorem finish_awaitingMore (hp : p.IsMovement [d.name] none) (r : Registry) :
    ∃ q, p.finish r 1 = .awaitingMore q ∧ q.IsMovement [d.name] none := by
  have hnext : p.next? = some .extent := by
    unfold next?
    rw [hp.missing]
    rfl
  unfold finish
  simp only [hp.requireMovement_eq_self, hnext]
  exact ⟨_, rfl, hp.missing, hp.verb, hp.quantity, hp.args, hp.extent⟩

theorem answer_eq_settle {field : Field} (hnext : p.next? = some field)
    (hcontinues : isCancel (Text.normalize line) = false) (r : Registry) (scene : Scene) :
    p.answer r scene line = p.settle r field (p.reply scene line field) := by
  unfold answer
  simp only [hcontinues, hnext]
  rfl

theorem next?_direction (hp : p.IsMovement [] extent) : p.next? = some .direction := by
  unfold next?
  rw [hp.missing]
  rfl

/-- A direction word fills the direction, with an extent beside it or without. -/
theorem answer_direction (hp : p.IsMovement [] extent) (hword : d.IsPlain word)
    (hcontinues : isCancel (Text.normalize line) = false)
    (hoffers : Extent.Offers (Text.words line) offered [word]) (r : Registry) (scene : Scene) :
    ∃ q : Pending, p.answer r scene line = q.finish r 1 ∧
      q.IsMovement [d.name] (offered.or extent) := by
  have hfind : [word].find? (! isFiller ·) = some word := by
    simp [hword.counts]
  refine ⟨_, ?_, (hp.takeAmounts hoffers).direct d⟩
  rw [answer_eq_settle hp.next?_direction hcontinues]
  unfold reply answerDirection
  simp only [hoffers.rest, hfind, Option.map_some, hword.resolveDirection]
  rfl

/-- A line without a direction is rejected, but an extent on it is kept. -/
theorem answer_no_direction (hp : p.IsMovement [] extent)
    (hcontinues : isCancel (Text.normalize line) = false)
    (hoffers : Extent.Offers (Text.words line) offered []) (r : Registry) (scene : Scene) :
    ∃ q : Pending, p.answer r scene line = .retry q ∧ q.IsMovement [] (offered.or extent) := by
  have hq := hp.takeAmounts hoffers
  refine ⟨{ p.takeAmounts (Extent.scan (Text.words line)) with
      prompt := Prompt.directionAgain scene.knownDirections,
      attempts := (p.takeAmounts (Extent.scan (Text.words line))).attempts + 1 },
    ?_, hq.missing, hq.verb, hq.quantity, hq.args, hq.extent⟩
  rw [answer_eq_settle hp.next?_direction hcontinues]
  unfold reply answerDirection
  simp only [hoffers.rest, List.find?_nil, Option.map_none]
  rfl

/-- An extent fills the slot that is left. -/
theorem answer_extent (hp : p.IsMovement [d.name] none) (htext : e.IsSaidBy text) (r : Registry)
    (scene : Scene) :
    ∃ q : Pending, p.answer r scene text = q.finish r 1 ∧
      q.IsMovement [d.name] (some e) := by
  have hnext : p.next? = some .extent := by
    unfold next?
    rw [hp.missing]
    rfl
  have hmeasure : p.answerExtent (Text.words text) scene =
      p.answerMeasure (Text.words text) scene := by
    unfold answerExtent
    split
    · next unit hunit =>
      refine if_neg fun h => ?_
      have hnone := Extent.extent_scan_unit h
      rw [← hunit, htext.extent] at hnone
      cases hnone
    · rfl
  have hfill : p.fillDirection [] scene = p := by
    unfold fillDirection
    simp
  have hq := hp.takeExtent e
  refine ⟨(p.takeExtent e).without .extent, ?_, ?_, hq.verb, hq.quantity, hq.args, hq.extent⟩
  · rw [answer_eq_settle hnext (Extent.continues_of_extent htext.extent)]
    unfold reply
    simp only [hmeasure]
    unfold answerMeasure
    simp only [htext.extent, htext.complete, hfill]
    rfl
  · show (p.takeExtent e).missing.filter _ = _
    rw [hq.missing]
    rfl

end IsMovement

/-! ## Dialogues -/

/-- The intent that answers come to, if the last of them and no earlier one resolves it. -/
def conclude (r : Registry) (scene : Scene) : Pending → List String → Option Intent
  | _, [] => none
  | p, [line] => (p.answer r scene line).intent?
  | p, line :: next :: answers =>
    (p.answer r scene line).pending?.bind (conclude r scene · (next :: answers))

end Pending

/-- The intent that a dialogue comes to: its first line is interpreted, and every later one answers
the question that the line before it has left open. -/
def Registry.converse (r : Registry) (scene : Scene) : List String → Option Intent
  | [] => none
  | [line] =>
    let i := r.interpret scene line
    if i.clarify.isNone then some i else none
  | line :: next :: answers =>
    (Pending.ofIntent? (r.interpret scene line)).bind (·.conclude r scene (next :: answers))

/-- The dialogues that say a direction and an extent of a movement. -/
def orders (word text : String) : List (List String) :=
  [["go" ++ " " ++ word ++ " " ++ text], ["go", word ++ " " ++ text], ["go", word, text],
    ["go", text, word], ["go" ++ " " ++ word, text], ["go" ++ " " ++ text, word]]

namespace Pending

variable {p q : Pending}

theorem conclude_resolved {i : Intent} (h : p.answer r scene line = .resolved i) :
    p.conclude r scene [line] = some i := by
  show (p.answer r scene line).intent? = some i
  rw [h]
  rfl

theorem conclude_of_pending? (h : (p.answer r scene line).pending? = some q) (next : String) :
    p.conclude r scene [line, next] = q.conclude r scene [next] := by
  show (p.answer r scene line).pending?.bind _ = _
  rw [h]
  rfl

namespace IsMovement

/-- The last answer concludes the dialogue. -/
theorem conclude_finish (hq : q.IsMovement [d.name] (some e)) (hc : r.command? .go = some c)
    (hmax : 1 ≤ c.maxArgs) (h : p.answer r scene line = q.finish r 1) :
    ∃ i, p.conclude r scene [line] = some i ∧ i.IsMovement d e := by
  obtain ⟨i, hi, hmovement⟩ := hq.finish_resolved hc hmax
  exact ⟨i, conclude_resolved (h.trans hi), hmovement⟩

theorem conclude_direction (hp : p.IsMovement [] (some e)) (hc : r.command? .go = some c)
    (hmax : 1 ≤ c.maxArgs) (hword : d.IsPlain word) (scene : Scene) :
    ∃ i, p.conclude r scene [word] = some i ∧ i.IsMovement d e := by
  have hoffers : Extent.Offers (Text.words word) none [word] := by
    rw [hword.words]
    exact Extent.offers_nil.cons hword
  obtain ⟨q, hanswer, hq⟩ := hp.answer_direction hword hword.continues hoffers r scene
  exact hq.conclude_finish hc hmax hanswer

theorem conclude_extent (hp : p.IsMovement [d.name] none) (hc : r.command? .go = some c)
    (hmax : 1 ≤ c.maxArgs) (htext : e.IsSaidBy text) (scene : Scene) :
    ∃ i, p.conclude r scene [text] = some i ∧ i.IsMovement d e := by
  obtain ⟨q, hanswer, hq⟩ := hp.answer_extent htext r scene
  exact hq.conclude_finish hc hmax hanswer

theorem conclude_both (hp : p.IsMovement [] none) (hc : r.command? .go = some c)
    (hmax : 1 ≤ c.maxArgs) (hword : d.IsPlain word) (htext : e.IsSaidBy text) (scene : Scene) :
    ∃ i, p.conclude r scene [word ++ " " ++ text] = some i ∧ i.IsMovement d e := by
  have hoffers : Extent.Offers (Text.words (word ++ " " ++ text)) (some e) [word] := by
    rw [Text.words_append_space, hword.words]
    exact htext.offers.cons hword
  obtain ⟨q, hanswer, hq⟩ := hp.answer_direction hword
    (Extent.continues_of_extent hoffers.extent) hoffers r scene
  exact hq.conclude_finish hc hmax hanswer

/-- The two slots may be filled by two answers, in this order or in the other. -/
theorem conclude_each (hp : p.IsMovement [] none) (hc : r.command? .go = some c)
    (hmax : 1 ≤ c.maxArgs) (hword : d.IsPlain word) (htext : e.IsSaidBy text) (scene : Scene) :
    (∃ i, p.conclude r scene [word, text] = some i ∧ i.IsMovement d e) ∧
      ∃ i, p.conclude r scene [text, word] = some i ∧ i.IsMovement d e := by
  constructor
  · have hoffers : Extent.Offers (Text.words word) none [word] := by
      rw [hword.words]
      exact Extent.offers_nil.cons hword
    obtain ⟨q, hanswer, hq⟩ := hp.answer_direction hword hword.continues hoffers r scene
    obtain ⟨next, hnext, hmovement⟩ := hq.finish_awaitingMore r
    rw [conclude_of_pending? (by rw [hanswer, hnext]; rfl)]
    exact hmovement.conclude_extent hc hmax htext scene
  · obtain ⟨next, hnext, hmovement⟩ := hp.answer_no_direction
      (Extent.continues_of_extent htext.extent) htext.offers r scene
    rw [conclude_of_pending? (by rw [hnext]; rfl)]
    exact hmovement.conclude_direction hc hmax hword scene

end IsMovement

end Pending

namespace Registry

/-- The words of a movement as the first line. -/
theorem converse_alone (hc : r.command? .go = some c) (hmax : 1 ≤ c.maxArgs)
    (hword : d.IsPlain word) (htext : e.IsSaidBy text) (scene : Scene) :
    ∃ i, r.converse scene ["go" ++ " " ++ word ++ " " ++ text] = some i ∧ i.IsMovement d e := by
  have hwords : Text.words ("go" ++ " " ++ word ++ " " ++ text) =
      "go" :: word :: Text.words text := by
    rw [Text.words_append_space, Text.words_append_space, hword.words]
    rfl
  have hline := interpret_movement hc hwords (htext.offers.cons hword) (hword.resolve scene) hmax
  have hmovement := Intent.isMovement_movement ("go" ++ " " ++ word ++ " " ++ text) d e
  rw [← hline] at hmovement
  exact ⟨_, if_pos (Option.isNone_iff_eq_none.mpr hmovement.clarify), hmovement⟩

/-- A first line that leaves a slot empty is kept for the answers. -/
theorem converse_answers (hc : r.command? .go = some c)
    (hwords : Text.words line = "go" :: words) (hoffers : Extent.Offers words extent rest)
    (hresolve : Argument.resolve .go rest scene = ⟨args, 1, none⟩)
    (hfits : args.length ≤ c.maxArgs) (hempty : Field.unfilled args extent ≠ []) :
    ∃ p, Pending.ofIntent? (r.interpret scene line) = some p ∧ p.IsMovement args extent ∧
      ∀ next answers, r.converse scene (line :: next :: answers) =
        p.conclude r scene (next :: answers) := by
  obtain ⟨p, hp, hmovement⟩ := Pending.ofIntent?_movement line hempty
  rw [← interpret_movement hc hwords hoffers hresolve hfits] at hp
  refine ⟨p, hp, hmovement, fun next answers => ?_⟩
  show (Pending.ofIntent? (r.interpret scene line)).bind _ = _
  rw [hp]
  rfl

/-- **Every order of the words of a movement comes to the same intent.**  An extent that answers the
question for the direction is rejected, but kept. -/
theorem movement_of_mem_orders (hc : r.command? .go = some c) (hmax : 1 ≤ c.maxArgs)
    (scene : Scene) (hword : word = d.name ∨ word = d.abbreviation) (htext : e.IsSaidBy text) :
    (∀ dialogue ∈ orders word text,
      ∃ i, r.converse scene dialogue = some i ∧ i.IsMovement d e) ∧
    ∃ first next, Pending.ofIntent? (r.interpret scene "go") = some first ∧
      first.answer r scene text = .retry next ∧ next.extent = some e := by
  have hword : d.IsPlain word := by
    rcases hword with rfl | rfl
    · exact d.isPlain_name
    · exact d.isPlain_abbreviation
  have hgo : Text.words "go" = ["go"] := by decide
  have hsplit : ∀ line, Text.words ("go" ++ " " ++ line) = "go" :: Text.words line := fun line => by
    rw [Text.words_append_space, hgo]
    rfl
  obtain ⟨first, hfirst, hempty, hanswers⟩ := converse_answers hc hgo Extent.offers_nil
    (Argument.resolve_nil .go scene) (Nat.zero_le _) (by decide)
  obtain ⟨directed, -, hdirected, hextents⟩ := converse_answers hc
    ((hsplit word).trans (congrArg ("go" :: ·) hword.words)) (Extent.offers_nil.cons hword)
    (hword.resolve scene) hmax (by simp [Field.unfilled])
  obtain ⟨measured, -, hmeasured, hdirections⟩ := converse_answers hc (hsplit text) htext.offers
    (Argument.resolve_nil .go scene) (Nat.zero_le _) (by simp [Field.unfilled])
  obtain ⟨hinOrder, hinTurn⟩ := hempty.conclude_each hc hmax hword htext scene
  refine ⟨fun dialogue hdialogue => ?_, ?_⟩
  · simp only [orders, List.mem_cons, List.not_mem_nil, or_false] at hdialogue
    rcases hdialogue with rfl | rfl | rfl | rfl | rfl | rfl
    · exact converse_alone hc hmax hword htext scene
    · rw [hanswers]
      exact hempty.conclude_both hc hmax hword htext scene
    · rw [hanswers]
      exact hinOrder
    · rw [hanswers]
      exact hinTurn
    · rw [hextents]
      exact hdirected.conclude_extent hc hmax htext scene
    · rw [hdirections]
      exact hmeasured.conclude_direction hc hmax hword scene
  · obtain ⟨next, hnext, hmovement⟩ := hempty.answer_no_direction
      (Extent.continues_of_extent htext.extent) htext.offers r scene
    exact ⟨first, next, hfirst, hnext, hmovement.extent⟩

/-- An extent out of range stands before the one that counts. -/
theorem movement_of_mem_orders_north :
    let r := Registry.empty.register { verb := .go }
    let text := "99999999999km for 2 hours"
    Extent.IsSaidBy { minutes := some 120 } text ∧
    (∀ dialogue ∈ orders "n" text,
      ∃ i, r.converse {} dialogue = some i ∧ i.IsMovement .north { minutes := some 120 }) ∧
    ∃ first next, Pending.ofIntent? (r.interpret {} "go") = some first ∧
      first.answer r {} text = .retry next ∧ next.extent = some { minutes := some 120 } := by
  intro r text
  have htext : Extent.IsSaidBy { minutes := some 120 } text := ⟨by decide +kernel, by decide +kernel⟩
  exact ⟨htext, movement_of_mem_orders (c := ⟨[], 0, 1, false⟩) rfl (by decide) {}
    (Or.inr rfl) htext⟩

end Registry

end PlayerCommands
