import PlayerCommands.Proofs.WrittenNumbers

/-!
# Units that complete a number

A movement with a bare number asks for its unit.  The number is kept until then, but as a count, and
only a whole number makes one.  With a unit for an answer the count gives the extent which number
and unit give on one line; a number with a point is lost, so that no unit completes it.

    p.quantity = Quantity.ofWord? n.text → (scan [n.text, word]).extent = some e →
      n.places = [] → p.answer r scene word = ((p.takeExtent e).without .extent).finish r 1
                                                                        (answer_unit_of_whole)
      n.places ≠ [] → p.answer r scene word is a retry                (answer_unit_of_fraction)

It makes no difference whether the number was on the line that named the movement or answered a
question about its extent.
-/

namespace PlayerCommands

/-! ## Answers -/

/-- The extent of an intent that an answer has brought further. -/
def Outcome.extent? : Outcome → Option Extent
  | .resolved i => i.extent
  | .awaitingMore p => p.extent
  | .retry _ | .cancelled | .escalated _ => none

/-- A number does not drop a question. -/
theorem WrittenNumber.continues (n : WrittenNumber) : isCancel (Text.normalize n.text) = false := by
  have hcancels : ∀ line ∈ ["cancel", "nevermind", "never mind", "forget it", "abort", "stop"],
      Numeral.ofWord? line = none := by decide
  have hnormal : Text.normalize n.text = n.text := by
    unfold Text.normalize
    rw [n.words_text]
    exact String.intercalate_singleton
  rw [hnormal]
  cases hcancel : isCancel n.text with
  | false => rfl
  | true => exact absurd rfl (n.text_ne (hcancels _ (List.contains_iff_mem.mp hcancel)))

namespace Pending

variable {r : Registry} {scene : Scene} {p : Pending} {n : WrittenNumber} {word : String}
  {unit : ExtentUnit} {e : Extent}

theorem extent?_finish (p : Pending) (r : Registry) (score : Score) :
    (p.finish r score).extent? = p.extent := by
  rcases p.finish_cases r score with ⟨field, -, heq⟩ | ⟨-, heq⟩ <;> rw [heq] <;> rfl

/-- A number alone is kept, and its unit is asked for. -/
theorem answer_number (hnext : p.next? = some .extent) (n : WrittenNumber) (r : Registry)
    (scene : Scene) :
    ∃ q, p.answer r scene n.text = .retry q ∧ q.next? = some .extent ∧
      q.quantity = Quantity.ofWord? n.text := by
  have hunit : ¬ (ExtentUnit.ofWord? n.text).isSome = true := by
    rw [n.ofUnit?_text]
    exact Bool.false_ne_true
  have hreply : p.reply scene n.text .extent =
      .again (p.keepNumber n.text) (Prompt.unit n.text) := by
    unfold reply
    simp only [n.words_text]
    unfold answerExtent
    simp only [if_neg hunit]
    unfold answerMeasure
    rw [n.scan_alone]
  rw [IsMovement.answer_eq_settle hnext n.continues, hreply]
  exact ⟨_, rfl, hnext, rfl⟩

theorem answer_eq_answerUnit (hnext : p.next? = some .extent)
    (hunit : ExtentUnit.ofWord? word = some unit) (r : Registry) (scene : Scene) :
    p.answer r scene word = p.settle r .extent (p.answerUnit word) := by
  have hplain := ExtentUnit.isPlain_of_ofWord? hunit
  rw [IsMovement.answer_eq_settle hnext hplain.continues]
  unfold reply
  simp only [hplain.words]
  unfold answerExtent
  simp only [hunit, Option.isSome_some, if_true]

/-- **A unit completes a whole number**: the extent is that of the two on one line. -/
theorem answer_unit_of_whole (hnext : p.next? = some .extent)
    (hkept : p.quantity = Quantity.ofWord? n.text) (hwhole : n.places = [])
    (hunit : ExtentUnit.ofWord? word = some unit)
    (hscan : (Extent.scan [n.text, word]).extent = some e) (r : Registry) (scene : Scene) :
    p.answer r scene word = ((p.takeExtent e).without .extent).finish r 1 := by
  have hcountOf := Quantity.countOf_of_digits fun _ hc => n.isDigit_of_mem_whole hc
  have hvalue := n.value?_of_whole hwhole
  generalize Nat.ofDigitChars 10 n.whole 0 = v at hcountOf hvalue
  rw [n.extent_scan_unit hvalue hunit] at hscan
  have hsmall : v ≤ Quantity.greatestCount :=
    Nat.le_trans (Extent.le_greatest_of_ofNumber? hscan) (by decide)
  -- so the count is the value of the digits, and its own digits are read with the same unit
  have hcount : p.storedCount? = some (v : Int) := by
    unfold storedCount?
    rw [hkept, n.ofQuantity?_text, if_pos hwhole, hcountOf, Nat.min_eq_left hsmall]
    simp
  have hagain : (Extent.scan [toString (v : Int), word]).extent = some e := by
    have hreading : Extent.Reading.of (toString (v : Int)) (some word) =
        .measure (Score.ofNat v) unit true := Extent.reading_split hunit v
    rw [Extent.scan_measure [word] hreading hscan]
  rw [answer_eq_answerUnit hnext hunit]
  unfold answerUnit
  simp only [hcount, hagain]
  rfl

/-- No unit completes a number with a point, which was not kept. -/
theorem answer_unit_of_fraction (hnext : p.next? = some .extent)
    (hkept : p.quantity = Quantity.ofWord? n.text) (hplaces : n.places ≠ [])
    (hunit : ExtentUnit.ofWord? word = some unit) (r : Registry) (scene : Scene) :
    p.answer r scene word =
      .retry { p with prompt := Prompt.extentAgain, attempts := p.attempts + 1 } := by
  have hcount : p.storedCount? = none := by
    unfold storedCount?
    rw [hkept, n.ofQuantity?_text, if_neg hplaces]
    rfl
  rw [answer_eq_answerUnit hnext hunit]
  unfold answerUnit
  simp only [hcount]
  rfl

end Pending

/-! ## Movements -/

/-- A movement that waits for the unit of a number and then for a direction. -/
structure Pending.IsCounting (p : Pending) (number : String) : Prop where
  verb : p.verb = .go
  missing : p.missing = [.extent, .direction]
  args : p.args = []
  extent : p.extent = none
  quantity : p.quantity = Quantity.ofWord? number
  prompt : p.prompt = Prompt.unit number

variable {r : Registry} {c : Command} {n : WrittenNumber} {word : String} {unit : ExtentUnit}
  {e : Extent} {p : Pending}

/-- A bare number is asked about before anything else that a movement lacks. -/
theorem Intent.askIfUnclear_of_bareNumber {i : Intent} {reading : Reading} {scene : Scene}
    {amounts : Amounts} {number : String} (hgo : reading.verb = .go)
    (hbare : amounts.bareNumber = some number) (argScore : Score) :
    (i.askIfUnclear reading c scene amounts none argScore).shareAmounts =
      i.askMovement (some number) := by
  unfold askIfUnclear askDue
  simp only [hgo, hbare, if_true, askMovement_some]
  rw [if_neg (by simp)]
  rfl

/-- A movement with a bare number asks for its unit. -/
theorem Registry.isCounting_of_interpret (hc : r.command? .go = some c) (n : WrittenNumber)
    (scene : Scene) :
    ∃ p, Pending.ofIntent? (r.interpret scene ("go " ++ n.text)) = some p ∧
      p.IsCounting n.text := by
  have hwords : Text.words ("go " ++ n.text) = Verb.go.phrase.words ++ [n.text] := by
    have htext : "go " ++ n.text = "go" ++ " " ++ n.text := rfl
    rw [htext, Text.words_append_space, n.words_text]
    rfl
  obtain ⟨alternates, heq⟩ := interpret_of_name hc scene hwords
  have hamounts : Amounts.of .go [n.text] =
      { quantity := Quantity.ofWord? n.text, bareNumber := some n.text, rest := [] } := by
    rw [Amounts.of_go, n.scan_alone]
    rfl
  let i := draftIntent scene (Intent.unresolved ("go " ++ n.text) (Text.normalize ("go " ++ n.text)))
    ⟨.go, Entry.canonicalScore, [n.text], alternates⟩ c
  have hargs : i.args = [] := by
    show (Argument.resolve .go (Amounts.of .go [n.text]).rest scene).args.take c.maxArgs = []
    rw [hamounts, Argument.resolve_nil, List.take_nil]
  have hextent : i.extent = none := congrArg Amounts.extent hamounts
  have hquantity : i.quantity = Quantity.ofWord? n.text := congrArg Amounts.quantity hamounts
  rw [heq, buildIntent_eq]
  simp only [hamounts, Argument.resolve_nil]
  rw [Intent.askIfUnclear_of_bareNumber rfl rfl, Intent.askMovement_some, hargs,
    Pending.ofIntent?_ask (v := .go) _ rfl (by simp)]
  exact ⟨_, rfl, rfl, rfl, hargs, hextent, hquantity, rfl⟩

/-- A number and its unit on one line offer their extent, and nothing else. -/
theorem WrittenNumber.offers (hunit : ExtentUnit.ofWord? word = some unit)
    (hscan : (Extent.scan [n.text, word]).extent = some e) :
    Extent.Offers [n.text, word] (some e) [] := by
  obtain ⟨x, hx⟩ := n.exists_value?
  have hnumber := (n.extent_scan_unit hx hunit).symm.trans hscan
  have hreading : Extent.Reading.of n.text (some word) = .measure x unit true := by
    rw [n.reading hx]
    simp only [Option.bind_some, hunit]
  have hall := Extent.scan_measure [word] hreading hnumber
  exact ⟨by rw [hall], by rw [hall], by rw [hall]; rfl⟩

/-- A movement whose number and unit are on one line waits for its direction alone. -/
theorem Registry.isMovement_of_interpret_unit (hc : r.command? .go = some c)
    (hunit : ExtentUnit.ofWord? word = some unit)
    (hscan : (Extent.scan [n.text, word]).extent = some e) (scene : Scene) :
    ∃ p, Pending.ofIntent? (r.interpret scene ("go " ++ n.text ++ " " ++ word)) = some p ∧
      p.IsMovement [] (some e) := by
  have hwords : Text.words ("go " ++ n.text ++ " " ++ word) = "go" :: [n.text, word] := by
    have htext : "go " ++ n.text = "go" ++ " " ++ n.text := rfl
    rw [htext, Text.words_append_space, Text.words_append_space, n.words_text,
      (ExtentUnit.isPlain_of_ofWord? hunit).words]
    rfl
  rw [interpret_movement hc hwords (WrittenNumber.offers hunit hscan)
    (Argument.resolve_nil .go scene) (Nat.zero_le _)]
  exact Pending.ofIntent?_movement _ (List.cons_ne_nil _ _)

/-- The direction is asked for once the unit is known. -/
theorem Pending.IsCounting.isMovement (hp : p.IsCounting n.text) (hwhole : n.places = []) :
    ((p.takeExtent e).without .extent).IsMovement [] (some e) := by
  have hkept : p.storedCount?.isSome = true := by
    unfold storedCount?
    rw [hp.quantity, n.ofQuantity?_text, if_pos hwhole]
    rfl
  refine ⟨?_, hp.verb, if_pos hkept, hp.args, rfl⟩
  show (p.missing.filter (· ≠ .extent)).filter (· ≠ .extent) = [.direction]
  rw [hp.missing]
  rfl

theorem Pending.IsMovement.finish_direction (hp : p.IsMovement [] (some e)) (r : Registry) :
    ∃ q, p.finish r 1 = .awaitingMore q ∧ q.IsMovement [] (some e) ∧
      q.prompt = Prompt.direction := by
  unfold finish
  simp only [hp.requireMovement_eq_self, hp.next?_direction]
  exact ⟨_, rfl, ⟨hp.missing, hp.verb, hp.quantity, hp.args, hp.extent⟩, rfl⟩

/-- **A unit completes the whole number that was asked about**, as on one line; a number with a point
is asked about as well, but no unit completes it. -/
theorem Registry.unit_completes_number (hc : r.command? .go = some c) (n : WrittenNumber)
    (hunit : ExtentUnit.ofWord? word = some unit)
    (hscan : (Extent.scan [n.text, word]).extent = some e) (scene now : Scene) :
    (∃ first said,
      Pending.ofIntent? (r.interpret scene ("go " ++ n.text)) = some first ∧
      first.IsCounting n.text ∧
      Pending.ofIntent? (r.interpret scene ("go " ++ n.text ++ " " ++ word)) = some said ∧
      said.IsMovement [] (some e) ∧
      if n.places = [] then
        ∃ q, first.answer r now word = .awaitingMore q ∧ q.IsMovement [] (some e) ∧
          q.prompt = Prompt.direction
      else ∃ q, first.answer r now word = .retry q ∧ q.extent = none) ∧
    ∀ p : Pending, p.next? = some .extent →
      ∃ q, p.answer r scene n.text = .retry q ∧ q.next? = some .extent ∧
        if n.places = [] then (q.answer r now word).extent? = some e
        else ∃ q', q.answer r now word = .retry q' := by
  constructor
  · obtain ⟨first, hfirst, hcounting⟩ := isCounting_of_interpret hc n scene
    obtain ⟨said, hsaid, hmovement⟩ := isMovement_of_interpret_unit hc hunit hscan scene
    have hnext : first.next? = some .extent := by
      unfold Pending.next?
      rw [hcounting.missing]
      rfl
    refine ⟨first, said, hfirst, hcounting, hsaid, hmovement, ?_⟩
    split
    · next hwhole =>
      rw [Pending.answer_unit_of_whole hnext hcounting.quantity hwhole hunit hscan]
      exact (hcounting.isMovement hwhole).finish_direction r
    · next hplaces =>
      exact ⟨_, Pending.answer_unit_of_fraction hnext hcounting.quantity hplaces hunit r now,
        hcounting.extent⟩
  · intro p hnext
    obtain ⟨q, hq, hnext, hkept⟩ := Pending.answer_number hnext n r scene
    refine ⟨q, hq, hnext, ?_⟩
    split
    · next hwhole =>
      rw [Pending.answer_unit_of_whole hnext hkept hwhole hunit hscan, Pending.extent?_finish]
      rfl
    · next hplaces =>
      exact ⟨_, Pending.answer_unit_of_fraction hnext hkept hplaces hunit r now⟩

/-- Five kilometers in two steps; a zero before the digit changes nothing. -/
theorem Registry.unit_completes_number_five :
    let r := empty.register { verb := .go }
    let n : WrittenNumber :=
      { whole := ['0', '5'], nonempty := List.cons_ne_nil _ _, digits := List.all_eq_true.mp rfl }
    r.command? .go = some (commandOf { verb := .go }) ∧
      ExtentUnit.ofWord? "km" = some .kilometers ∧
      (Extent.scan [n.text, "km"]).extent = some { meters := some 5000 } ∧
      ∃ first q, Pending.ofIntent? (r.interpret {} "go 05") = some first ∧
        first.answer r {} "km" = .awaitingMore q ∧
        q.IsMovement [] (some { meters := some 5000 }) := by
  intro r n
  have hscan : (Extent.scan [n.text, "km"]).extent = some { meters := some 5000 } := by
    decide +kernel
  have htext : "go " ++ n.text = "go 05" := by decide
  obtain ⟨⟨first, said, hfirst, -, -, -, hanswer⟩, -⟩ :=
    unit_completes_number (r := r) (c := commandOf { verb := .go }) rfl n rfl hscan {} {}
  rw [htext] at hfirst
  rw [if_pos rfl] at hanswer
  obtain ⟨q, hq, hmovement, -⟩ := hanswer
  exact ⟨rfl, rfl, hscan, first, q, hfirst, hq, hmovement⟩

/-- One and a half kilometers are an extent on one line, but not in two steps. -/
theorem Registry.unit_not_taken_one_and_a_half :
    ¬ ∀ (r : Registry) (c : Command) (scene now : Scene) (n : WrittenNumber) (word : String)
      (unit : ExtentUnit) (e : Extent), r.command? .go = some c →
      ExtentUnit.ofWord? word = some unit → (Extent.scan [n.text, word]).extent = some e →
      ∃ first q, Pending.ofIntent? (r.interpret scene ("go " ++ n.text)) = some first ∧
        first.answer r now word = .awaitingMore q ∧ q.extent = some e := by
  intro hall
  let r := empty.register { verb := .go }
  let n : WrittenNumber :=
    { whole := ['1'], places := ['5'], nonempty := List.cons_ne_nil _ _,
      digits := List.all_eq_true.mp rfl }
  have hscan : (Extent.scan [n.text, "km"]).extent = some { meters := some 1500 } := by
    decide +kernel
  have hrun : (Pending.ofIntent? (r.interpret {} ("go " ++ n.text))).all (fun first =>
      (first.answer r {} "km").extent?.isNone) = true := by decide +kernel
  obtain ⟨first, q, hfirst, hq, hextent⟩ :=
    hall r (commandOf { verb := .go }) {} {} n "km" .kilometers _ rfl rfl hscan
  rw [hfirst, Option.all_some, hq] at hrun
  have hnone : q.extent.isNone = true := hrun
  rw [hextent] at hnone
  cases hnone

end PlayerCommands
