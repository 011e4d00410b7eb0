import PlayerCommands.Proofs.WrittenExtents

/-!
# Options and their numbers

The options of a question are listed with numbers.  Wherever a dialogue has led, options stand
beside a choice, and then each number stands for its option; or a single one stands beside a target
that is asked for in free text, as a suggestion.

    p.Reachable → p.options ≠ [] →
      p.NumbersSelect r scene ∨ (p.missing = [.target] ∧ p.options.length = 1)
                                                                (numbersSelect_of_reachable)

No other question has options, since an answer for a direction or an extent meets none, and a chosen
option leaves none behind.
-/

namespace PlayerCommands

/-! ## Selections -/

/-- The arguments that a registered verb takes. -/
def Registry.fit (r : Registry) (v : Verb) (args : List String) : List String :=
  match r.command? v with
  | some command => args.take command.maxArgs
  | none => args

/-- The outcome goes on with a verb and its arguments: it resolves them, or keeps them while
something else is missing. -/
def Outcome.Selects (r : Registry) (v : Verb) (args : List String) : Outcome → Prop
  | .resolved i => i.verb = some v ∧ i.args = r.fit v args
  | .awaitingMore p => p.verb = v ∧ p.args = args
  | .retry _ | .cancelled | .escalated _ => False

namespace Pending

/-- Every number of an option, from 1 on, selects that option. -/
def NumbersSelect (r : Registry) (scene : Scene) (p : Pending) : Prop :=
  ∀ n o, 1 ≤ n → p.options[n - 1]? = some o →
    ∃ v, o.verb = some v ∧ (p.answer r scene (toString n)).Selects r v o.args

/-- Where the options of a pending intent come from: they have verbs, and stand beside a choice, or
one alone beside a target. -/
structure IsOffering (p : Pending) : Prop where
  verbs : ∀ o ∈ p.options, ∃ v, o.verb = some v
  kind : p.options = [] ∨ .choice ∈ p.missing ∨
    (p.missing = [.target] ∧ p.options.length = 1 ∧ p.verb ≠ .go)

variable {r : Registry} {scene : Scene} {line : String} {p next q : Pending} {field : Field}

/-! ## Where options stand -/

theorem isOffering_of_nil (h : p.options = []) : p.IsOffering :=
  ⟨fun o ho => (by rw [h] at ho; cases ho), Or.inl h⟩

theorem isOffering_of_interpret (h : ofIntent? (r.interpret scene line) = some p) :
    p.IsOffering := by
  obtain ⟨i, v, command, question, -, hi, hq, rfl⟩ := of_ofIntent?_interpret h
  refine ⟨fun o ho => ?_, ?_⟩
  · obtain ⟨v, hv, -⟩ := hq.registered o ho
    exact ⟨v, hv⟩
  · show question.options = [] ∨ .choice ∈ question.missing ∨
      (question.missing = [.target] ∧ question.options.length = 1 ∧ v ≠ .go)
    rcases hq.kind with hchoice | ⟨-, hnil⟩ | ⟨htarget, hone, hgo⟩
    · exact Or.inr (Or.inl (by simp [hchoice]))
    · exact Or.inl hnil
    · rcases Nat.le_one_iff_eq_zero_or_eq_one.mp hone with hzero | hone
      · exact Or.inl (List.length_eq_zero_iff.mp hzero)
      · exact Or.inr (Or.inr ⟨htarget, hone, fun h => hgo (hi.verb.trans (congrArg some h))⟩)

/-- No options stand beside a question for a direction or an extent. -/
theorem IsOffering.options_eq_nil (h : p.IsOffering) (hp : p.IsCoherent)
    (hfield : p.next? = some field) (hasked : field = .direction ∨ field = .extent) :
    p.options = [] := by
  rcases h.kind with hnil | hchoice | ⟨htarget, -⟩
  · exact hnil
  · have hfirst := hfield.symm.trans (hp.choice hchoice).first
    rcases hasked with rfl | rfl <;> cases hfirst
  · unfold next? at hfield
    rw [htarget] at hfield
    rcases hasked with rfl | rfl <;> cases hfield

theorem Amends.keeps (ha : p.Amends field next) :
    next.verb = p.verb ∧ next.options = p.options := by
  cases ha <;> exact ⟨rfl, rfl⟩

theorem Replies.keeps {score : Score} (hreply : p.Replies field (.filled next score)) :
    next.verb = p.verb ∧ next.options = p.options := by
  cases hreply with
  | direction amends name scored => exact amends.keeps
  | extent real => exact ⟨rfl, rfl⟩
  | both waiting name real => exact ⟨rfl, rfl⟩
  | target scored given => exact ⟨rfl, rfl⟩

theorem IsOffering.amends (h : p.IsOffering) (hp : p.IsCoherent) (hfield : p.next? = some field)
    (ha : p.Amends field next) : next.IsOffering := by
  have hoptions := ha.keeps.2
  cases ha with
  | nothing => exact h
  | extent real =>
    exact isOffering_of_nil (hoptions.trans (h.options_eq_nil hp hfield (Or.inl rfl)))
  | number asked waiting number =>
    exact isOffering_of_nil (hoptions.trans (h.options_eq_nil hp hfield asked))

/-- The fields of a new question are missing from then on. -/
theorem mem_missing_escalate {question : Question Intent} {f : Field}
    (h : f ∈ question.missing) : f ∈ (p.escalate field question).missing := by
  rw [missing_escalate]
  exact List.mem_append_left _ h

theorem IsOffering.escalate (h : p.IsOffering) {question : Question Intent}
    (hq : p.Raises next field question) : (next.escalate field question).IsOffering := by
  cases hq with
  | pronoun missing options => exact isOffering_of_nil options
  | close about missing two each =>
    refine ⟨fun o ho => ⟨p.verb, (each o ho).1⟩, Or.inr (Or.inl (mem_missing_escalate ?_))⟩
    rw [missing]
    exact List.mem_singleton_self _
  | among missing two offered =>
    refine ⟨fun o ho => h.verbs o (offered o ho), Or.inr (Or.inl (mem_missing_escalate ?_))⟩
    rw [missing]
    exact List.mem_singleton_self _

theorem keeps_of_finish {score : Score} (hq : (p.finish r score).pending? = some q) :
    q.verb = p.verb ∧ q.options = p.options := by
  obtain ⟨field, -, rfl⟩ := of_pending?_finish hq
  exact ⟨rfl, rfl⟩

/-- What lacks nothing and is no movement is resolved as it is. -/
theorem finish_of_nil (hgo : p.verb ≠ .go) (hmissing : p.missing = []) (r : Registry)
    (score : Score) :
    p.finish r score = .resolved
      { Intent.forVerb p.verb (r.fit p.verb p.args) (Confidence.blend 1 score) with
        quantity := p.quantity, extent := p.extent } := by
  rcases p.finish_cases r score with ⟨field, hfield, -⟩ | ⟨-, heq⟩
  · rw [requireMovement_of_not fun h => hgo h.1, next?, hmissing] at hfield
    cases hfield
  · exact heq

theorem pending?_finish_of_nil (hgo : p.verb ≠ .go) (hmissing : p.missing = []) (r : Registry)
    (score : Score) : (p.finish r score).pending? = none := by
  rw [finish_of_nil hgo hmissing]
  rfl

/-- A filled field leaves no options behind, or nothing is missing any more. -/
theorem IsOffering.filled (h : p.IsOffering) (hp : p.IsCoherent) (hfield : p.next? = some field)
    {score : Score} (hreply : p.Replies field (.filled next score))
    (hq : ((next.without field).finish r score).pending? = some q) : q.options = [] := by
  have hoptions : q.options = p.options := (keeps_of_finish hq).2.trans hreply.keeps.2
  rw [hoptions]
  cases hreply with
  | direction amends name scored => exact h.options_eq_nil hp hfield (Or.inl rfl)
  | extent real => exact h.options_eq_nil hp hfield (Or.inr rfl)
  | both waiting name real => exact h.options_eq_nil hp hfield (Or.inr rfl)
  | @target args _ scored given =>
    rcases h.kind with hnil | hchoice | ⟨htarget, -, hgo⟩
    · exact hnil
    · cases hfield.symm.trans (hp.choice hchoice).first
    · -- the target was all that was missing
      have hmissing : (without { p with args } .target).missing = [] := by
        show p.missing.filter (· ≠ .target) = []
        rw [htarget]
        rfl
      have hverb : (without { p with args } .target).verb ≠ .go := hgo
      cases hq.symm.trans (pending?_finish_of_nil hverb hmissing r score)

theorem isOffering_answer (hp : p.IsCoherent) (h : p.IsOffering)
    (hq : (p.answer r scene line).pending? = some q) : q.IsOffering := by
  obtain ⟨field, reply, hfield, hreply, hq⟩ := hp.settle_of_pending? hq
  cases reply with
  | filled next score => exact isOffering_of_nil (h.filled hp hfield hreply hq)
  | chosen option => exact isOffering_of_nil (keeps_of_finish hq).2
  | again next prompt =>
    cases hreply with
    | again amends =>
      cases hq
      have hnext := h.amends hp hfield amends
      exact ⟨hnext.verbs, hnext.kind⟩
  | asks next question =>
    cases hreply with
    | asks amends raises =>
      cases hq
      exact h.escalate raises

theorem isOffering_of_reachable (h : p.Reachable) : p.IsOffering := by
  induction h with
  | asked r scene line h => exact isOffering_of_interpret h
  | answered r scene line hp h ih => exact isOffering_answer (isCoherent_of_reachable hp) ih h

/-! ## Numbers as answers -/

theorem normalize_toString (n : Nat) : Text.normalize (toString n) = toString n := by
  have hwords : Text.words (toString n) = [toString n] := by
    rw [Nat.toString_eq_ofList_toDigits]
    exact Text.words_eq_singleton Nat.toDigits_ne_nil fun c hc =>
      Or.inl (Numeral.isDigit_of_mem_toDigits hc)
  unfold Text.normalize
  rw [hwords]
  exact String.intercalate_singleton

/-- A number is read as the place that it stands for, unless it is too large for one. -/
theorem position?_toString {n : Nat} (hn : n ≤ greatestPosition) :
    position? (toString n) = some n := by
  have hne : toString n ≠ "" := fun heq => by
    have hlist := congrArg String.toList heq
    rw [Nat.toString_eq_ofList_toDigits, String.toList_ofList] at hlist
    exact Nat.toDigits_ne_nil hlist
  unfold position?
  rw [if_neg hne, Nat.toString_eq_ofList_toDigits, String.toList_ofList,
    Numeral.digitsValue?_toDigits, Option.filter_some, if_pos (decide_eq_true hn)]

/-- What is read as a place drops no question. -/
theorem isCancel_of_position? {answer : String} {n : Nat} (h : position? answer = some n) :
    isCancel answer = false := by
  have hwords : ∀ line ∈ ["cancel", "nevermind", "never mind", "forget it", "abort", "stop"],
      position? line = none := by decide
  cases hcancel : isCancel answer with
  | false => rfl
  | true =>
    rw [hwords answer (List.contains_iff_mem.mp hcancel)] at h
    cases h

theorem answerChoice_of_position {answer : String} {n : Nat} {o : Intent}
    (hposition : position? answer = some n) (hpos : 1 ≤ n) (ho : p.options[n - 1]? = some o) :
    p.answerChoice answer = .chosen o := by
  have hoptions : p.options.isEmpty = false := by
    rw [List.isEmpty_eq_false_iff]
    exact List.ne_nil_of_mem (List.mem_of_getElem? ho)
  have hn : n ≠ 0 := Nat.ne_of_gt hpos
  unfold answerChoice
  simp only [hoptions, hposition, hn, ho, if_false, Bool.false_eq_true]

/-- An answer that picks an option goes on with it. -/
theorem answer_of_chosen {o : Intent} (hnext : p.next? = some .choice)
    (hcancel : isCancel (Text.normalize line) = false)
    (hchosen : p.answerChoice (Text.normalize line) = .chosen o) (r : Registry) (scene : Scene) :
    p.answer r scene line = (p.choose o).finish r 1 := by
  unfold answer
  simp only [hcancel, hnext]
  show p.settle r .choice (p.answerChoice (Text.normalize line)) = _
  rw [hchosen]
  rfl

/-- The number of an option picks it. -/
theorem answer_position {n : Nat} {o : Intent} (hnext : p.next? = some .choice) (hpos : 1 ≤ n)
    (hn : n ≤ greatestPosition) (ho : p.options[n - 1]? = some o) (r : Registry) (scene : Scene) :
    p.answer r scene (toString n) = (p.choose o).finish r 1 := by
  have hposition := position?_toString hn
  refine answer_of_chosen hnext ?_ ?_ r scene
  · rw [normalize_toString, isCancel_of_position? hposition]
  · rw [normalize_toString]
    exact answerChoice_of_position hposition hpos ho

theorem selects_finish (p : Pending) (r : Registry) (score : Score) :
    (p.finish r score).Selects r p.verb p.args := by
  rcases p.finish_cases r score with ⟨field, -, heq⟩ | ⟨-, heq⟩
  · rw [heq]
    exact ⟨rfl, rfl⟩
  · rw [heq]
    exact ⟨rfl, rfl⟩

/-- The numbers of the options of a choice select them. -/
theorem numbersSelect_of_choice (hp : p.IsCoherent) (h : p.IsOffering)
    (hchoice : .choice ∈ p.missing) (r : Registry) (scene : Scene) : p.NumbersSelect r scene := by
  intro n o hpos ho
  have hoffer := hp.choice hchoice
  obtain ⟨v, hv⟩ := h.verbs o (List.mem_of_getElem? ho)
  obtain ⟨hbound, -⟩ := List.getElem?_eq_some_iff.mp ho
  have hfew := hoffer.few
  have hcountable : maxOptions ≤ greatestPosition := by decide
  have hanswer := answer_position hoffer.first hpos (n := n) (by omega) ho r scene
  have hselects := (p.choose o).selects_finish r 1
  have hverb : (p.choose o).verb = v := by
    show o.verb.getD p.verb = v
    rw [hv]
    rfl
  rw [hverb] at hselects
  refine ⟨v, hv, ?_⟩
  rw [hanswer]
  exact hselects

/-- **The numbers of options select them**, unless a single one is suggested for a target that is
asked for in free text. -/
theorem numbersSelect_of_reachable (h : p.Reachable) (hoptions : p.options ≠ []) (r : Registry)
    (scene : Scene) :
    p.NumbersSelect r scene ∨ (p.missing = [.target] ∧ p.options.length = 1) := by
  have hp := isCoherent_of_reachable h
  have hoffering := isOffering_of_reachable h
  rcases hoffering.kind with hnil | hchoice | ⟨htarget, hone, -⟩
  · exact absurd hnil hoptions
  · exact Or.inl (numbersSelect_of_choice hp hoffering hchoice r scene)
  · exact Or.inr ⟨htarget, hone⟩

/-- Two things may be dropped. -/
theorem numbersSelect_knife_or_rope :
    let r := Registry.empty.register { verb := .drop, minArgs := 1 }
    let scene : Scene := { inventory := ["knife", "rope"] }
    ∃ p, ofIntent? (r.interpret scene "drop") = some p ∧ p.options ≠ [] ∧
      (p.NumbersSelect r scene ∨ (p.missing = [.target] ∧ p.options.length = 1)) := by
  intro r scene
  have hrun : ((ofIntent? (r.interpret scene "drop")).any fun p => ! p.options.isEmpty) = true := by
    decide +kernel
  obtain ⟨p, hp, hsome⟩ := (Option.any_eq_true _ _).mp hrun
  have hoptions : p.options ≠ [] := by simpa using hsome
  exact ⟨p, hp, hoptions, numbersSelect_of_reachable (.asked _ _ _ hp) hoptions r scene⟩

/-- With one thing to drop its number is taken as the name of a target. -/
theorem not_numbersSelect_knife :
    ¬ ∀ (r : Registry) (scene : Scene) (p : Pending), p.Reachable → p.options ≠ [] →
      p.NumbersSelect r scene := by
  intro hall
  let r := Registry.empty.register { verb := .drop, minArgs := 1 }
  let scene : Scene := { inventory := ["knife"] }
  -- the thing is not what is dropped
  have hrun : ((ofIntent? (r.interpret scene "drop")).any fun p =>
      (p.answer r scene "1").intent?.any fun i => p.options.head?.any fun o =>
        o.verb = some .drop && i.args != r.fit .drop o.args) = true := by
    decide +kernel
  obtain ⟨p, hp, hsome⟩ := (Option.any_eq_true _ _).mp hrun
  obtain ⟨i, hi, hsome⟩ := (Option.any_eq_true _ _).mp hsome
  obtain ⟨o, ho, hsome⟩ := (Option.any_eq_true _ _).mp hsome
  rw [Bool.and_eq_true, decide_eq_true_eq, bne_iff_ne] at hsome
  rw [List.head?_eq_getElem?] at ho
  have hoptions : p.options ≠ [] := List.ne_nil_of_mem (List.mem_of_getElem? ho)
  obtain ⟨v, hv, hselects⟩ := hall r scene p (.asked _ _ _ hp) hoptions 1 o (Nat.le_refl 1) ho
  obtain rfl : .drop = v := Option.some.inj (hsome.1.symm.trans hv)
  have hone : toString 1 = "1" := by decide
  rw [hone, Outcome.eq_resolved hi] at hselects
  exact hsome.2 hselects.2

end Pending

end PlayerCommands
