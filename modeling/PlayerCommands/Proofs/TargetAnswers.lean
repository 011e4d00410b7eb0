import PlayerCommands.Proofs.ExtractedQuantities
import PlayerCommands.Proofs.Movement
import PlayerCommands.Proofs.Options

/-!
# Targets that are asked for

A verb that is named alone asks for its target, and the answer is taken as it would have been behind
the name of the verb.  Asked and answered, or said at once: the same intent comes of it, as long as
no amount is among the words.

    ofIntent? (r.interpret scene v.name) = some p → p.next? = some .target →
      (r.interpret scene (v.name ++ " " ++ text)).clarify = none →
      ∃ j, p.answer r scene text = .resolved j ∧ j.args = (r.interpret scene …).args
                                                                         (resolved_as_said)

The line is read by its verb, and the answer by what is missing.  Both come to the same resolution of
the same words, and both cut its arguments to those that the verb takes.
-/

namespace PlayerCommands

variable {r : Registry} {scene : Scene} {v : Verb} {c : Command} {line text : String}
  {words : List String} {p : Pending}

/-! ## Lines that are accepted -/

/-- Nothing is asked about a verb other than `go` that has the arguments it needs, if none of them
is unclear and the line is sure. -/
theorem Intent.clarify_askIfUnclear_eq_none_iff {i : Intent} {reading : Reading}
    {amounts : Amounts} {question : Option (Question Intent × Score)} {argScore : Score}
    (hclarify : i.clarify = none) (hgo : reading.verb ≠ .go) :
    (i.askIfUnclear reading c scene amounts question argScore).clarify = none ↔
      question = none ∧ (c.minArgs ≤ i.args.length ∨ i.coversAll = true) ∧
        Confidence.threshold ≤ i.confidence := by
  unfold askIfUnclear askDue
  cases question with
  | some pair => simp
  | none =>
    simp only [hgo, if_false, true_and]
    by_cases henough : c.minArgs ≤ i.args.length ∨ i.coversAll = true
    · have hshort : (decide (i.args.length < c.minArgs) && ! i.coversAll) = false := by
        rcases henough with h | h
        · simp [Nat.not_lt.mpr h]
        · simp [h]
      simp only [hshort, Bool.false_eq_true, if_false, hclarify, Option.isNone_none, Bool.true_and,
        decide_eq_true_eq, henough, true_and]
      by_cases hsure : i.confidence < Confidence.threshold
      · have hunsure : ¬ Confidence.threshold ≤ i.confidence := Rat.not_le.mpr hsure
        simp [hsure, hunsure, askLowConfidence]
      · simp [hsure, hclarify, Score.le_of_not_lt hsure]
    · have hshort : (decide (i.args.length < c.minArgs) && ! i.coversAll) = true := by
        simpa [not_or] using henough
      simp [hshort, henough]

/-- What comes of the name of a verb with words behind it of which none is an amount. -/
structure Intent.IsSaid (i : Intent) (scene : Scene) (v : Verb) (c : Command)
    (words : List String) : Prop where
  verb : i.verb = some v
  args : i.args = (Argument.resolve v words scene).args.take c.maxArgs
  quantity : i.quantity = none
  extent : i.extent = none
  clear : i.clarify = none ↔ (Argument.resolve v words scene).question = none ∧
    c.minArgs ≤ i.args.length ∧
    Confidence.threshold ≤ Confidence.blend Entry.canonicalScore
      (surplusScore (Argument.resolve v words scene).score
        ((Argument.resolve v words scene).args.length - c.maxArgs))

theorem Registry.isSaid_of_interpret (hc : r.command? v = some c) (hgo : v ≠ .go) (scene : Scene)
    (hwords : Text.words line = v.phrase.words ++ words)
    (hplain : ∀ word ∈ words, Quantity.ofWord? word = none) :
    (r.interpret scene line).IsSaid scene v c words := by
  obtain ⟨alternates, heq⟩ := interpret_of_name hc scene hwords
  have hamounts : Amounts.of v words = { rest := words } := by
    rw [Amounts.of_ne_go hgo, (Quantity.Extracts.nothing hplain).extract_eq]
  obtain ⟨hverb, hargs, hquantity, hextent⟩ := buildIntent_keeps scene
    (Intent.unresolved line (Text.normalize line)) ⟨v, Entry.canonicalScore, words, alternates⟩ c
  rw [← heq] at hverb hargs hquantity hextent
  simp only [hamounts] at hargs hquantity hextent
  -- without a quantity no argument is stood for by `all`
  have hall : (draftIntent scene (Intent.unresolved line (Text.normalize line))
      ⟨v, Entry.canonicalScore, words, alternates⟩ c).coversAll = false := by
    unfold Intent.coversAll draftIntent
    rw [hamounts]
    exact Bool.and_false _
  refine ⟨hverb, hargs, hquantity, hextent, ?_⟩
  rw [hargs, heq, buildIntent_eq]
  simp only [hamounts]
  rw [Intent.shareAmounts, Option.map_eq_none_iff, Intent.clarify_askIfUnclear_eq_none_iff rfl hgo,
    hall]
  unfold draftIntent
  simp only [hamounts, Bool.false_eq_true, or_false]

theorem Registry.isSaid_of_name (hc : r.command? v = some c) (hgo : v ≠ .go) (scene : Scene) :
    (r.interpret scene v.name).IsSaid scene v c [] := by
  have hwords : Text.words v.name = v.phrase.words ++ [] := by
    rw [v.words_name, List.append_nil]
  exact isSaid_of_interpret hc hgo scene hwords fun _ h => (by cases h)

/-! ## The question and its answer -/

/-- A verb that is named alone is asked about only if it needs an argument. -/
theorem Registry.minArgs_pos_of_asked (hc : r.command? v = some c) (hgo : v ≠ .go)
    (hp : Pending.ofIntent? (r.interpret scene v.name) = some p) : 0 < c.minArgs := by
  have hsure : Confidence.threshold ≤ Confidence.blend Entry.canonicalScore (surplusScore 1 0) := by
    rw [blend_canonicalScore]
    decide +kernel
  obtain ⟨-, -, -, -, q, hclarify, -⟩ := Pending.of_ofIntent? hp
  refine Nat.pos_of_ne_zero fun hzero => ?_
  have hclear : (r.interpret scene v.name).clarify = none := by
    rw [(isSaid_of_name hc hgo scene).clear, Argument.resolve_nil, List.length_nil, Nat.zero_sub]
    exact ⟨rfl, by omega, hsure⟩
  rw [hclear] at hclarify
  cases hclarify

namespace Pending

/-- Words with a clear meaning resolve a pending intent that nothing but a target is missing of. -/
theorem answer_of_target {args : List String} {score : Score} (hmissing : p.missing = [.target])
    (hgo : p.verb ≠ .go) (hcancel : isCancel (Text.normalize text) = false)
    (hresolve : Argument.resolve p.verb (Text.words text) scene = ⟨args, score, none⟩)
    (hsome : args ≠ []) (r : Registry) :
    p.answer r scene text = .resolved
      { Intent.forVerb p.verb (r.fit p.verb (p.args ++ args)) (Confidence.blend 1 score) with
        quantity := p.quantity, extent := p.extent } := by
  have hnext : p.next? = some .target := by
    unfold next?
    rw [hmissing]
    rfl
  have hreply : p.answerTarget (Text.words text) scene =
      .filled { p with args := p.args ++ args } score := by
    unfold answerTarget
    simp only [hresolve]
    rw [if_neg (by simpa using hsome)]
  have hdone : (without { p with args := p.args ++ args } .target).missing = [] := by
    show p.missing.filter (· ≠ .target) = []
    rw [hmissing]
    rfl
  unfold answer
  simp only [hcancel, hnext]
  show p.settle r .target (p.answerTarget (Text.words text) scene) = _
  rw [hreply]
  exact finish_of_nil (p := without { p with args := p.args ++ args } .target) hgo hdone r score

/-- **Asking for a target and answering is the same as saying it at once**, whatever the target is
called and whatever is registered. -/
theorem resolved_as_said (hregistered : r.isRegistered v = true) (hgo : v ≠ .go)
    (hp : ofIntent? (r.interpret scene v.name) = some p) (hfield : p.next? = some .target)
    (hcancel : isCancel (Text.normalize text) = false)
    (hplain : ∀ word ∈ Text.words text, Quantity.ofWord? word = none)
    (hclear : (r.interpret scene (v.name ++ " " ++ text)).clarify = none) :
    ∃ j, p.answer r scene text = .resolved j ∧
      j.verb = (r.interpret scene (v.name ++ " " ++ text)).verb ∧
      j.args = (r.interpret scene (v.name ++ " " ++ text)).args ∧
      j.quantity = none ∧ j.extent = none := by
  obtain ⟨c, hc⟩ := Registry.exists_command_of_isRegistered hregistered
  -- what was said at once
  have hwords : Text.words (v.name ++ " " ++ text) = v.phrase.words ++ Text.words text := by
    rw [Text.words_append_space, v.words_name]
  have hsaid := Registry.isSaid_of_interpret hc hgo scene hwords hplain
  obtain ⟨hquestion, henough, -⟩ := hsaid.clear.mp hclear
  -- what the name alone has left open
  have hasked := Registry.isSaid_of_name hc hgo scene
  obtain ⟨hverb, hextent, hargs, hquantity, -⟩ := of_ofIntent? hp
  obtain rfl : v = p.verb := Option.some.inj (hasked.verb.symm.trans hverb)
  have hnil : p.args = [] := by
    rw [hargs, hasked.args, Argument.resolve_nil, List.take_nil]
  have hmissing : p.missing = [.target] :=
    (isCoherent_of_interpret r scene _ hp).target (List.mem_of_mem_head? hfield)
  -- the answer is resolved like the words behind the name
  cases hresolve : Argument.resolve p.verb (Text.words text) scene with
  | mk args score question =>
    have htaken := hsaid.args
    rw [hresolve] at hquestion htaken
    obtain rfl : question = none := hquestion
    have hsome : args ≠ [] := by
      rintro rfl
      have hpos := Registry.minArgs_pos_of_asked hc hgo hp
      rw [htaken, List.take_nil, List.length_nil] at henough
      omega
    refine ⟨_, answer_of_target hmissing hgo hcancel hresolve hsome r, hsaid.verb.symm, ?_,
      hquantity.trans hasked.quantity, hextent.trans hasked.extent⟩
    show r.fit p.verb (p.args ++ args) = _
    rw [htaken, hnil, List.nil_append]
    unfold Registry.fit
    rw [hc]

/-- Words beyond those that the verb takes are dropped either way. -/
theorem resolved_as_said_ferro_rod :
    let r := Registry.empty.register { verb := .take, minArgs := 1, maxArgs := 2 }
    let scene : Scene := { nearby := ["ferro rod"] }
    let text := "the ferro rod quickly now"
    ∃ p j, ofIntent? (r.interpret scene "take") = some p ∧ p.answer r scene text = .resolved j ∧
      j.args = ["ferro rod", "quickly"] ∧
      j.args = (r.interpret scene ("take" ++ " " ++ text)).args := by
  intro r scene text
  have hregistered : r.isRegistered .take = true := by decide
  have hplain : ∀ word ∈ Text.words text, Quantity.ofWord? word = none := by decide +kernel
  have hcancel : isCancel (Text.normalize text) = false := by decide +kernel
  have hclear : (r.interpret scene ("take" ++ " " ++ text)).clarify.isNone = true := by
    decide +kernel
  have hsaid : (r.interpret scene ("take" ++ " " ++ text)).args = ["ferro rod", "quickly"] := by
    decide +kernel
  have hrun : ((ofIntent? (r.interpret scene "take")).any fun p =>
      p.next? = some .target) = true := by
    decide +kernel
  obtain ⟨p, hp, hfield⟩ := (Option.any_eq_true _ _).mp hrun
  obtain ⟨j, hj, -, hargs, -⟩ := resolved_as_said (v := .take) hregistered (by decide) hp
    (of_decide_eq_true hfield) hcancel hplain (Option.isNone_iff_eq_none.mp hclear)
  exact ⟨p, j, hp, hj, hargs.trans hsaid, hargs⟩

end Pending

end PlayerCommands
