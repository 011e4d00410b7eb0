import PlayerCommands.Proofs.Amounts
import PlayerCommands.Proofs.Questions
import PlayerCommands.Proofs.Readings

/-!
# What an intent asks

An intent asks one question at most.  Whichever it is (about a name, about what a movement lacks,
about a missing target, or whether the verb was meant at all), it waits for at least one field, and
for none twice; it asks for a direction only if there is no argument and for an extent only if there
is none; a choice has options, at most four, for registered verbs and with no amounts but those of
the intent.  An option has an argument for the verb of the intent, or else the arguments of the
intent, which are as many as its own verb needs.

    i.askIfUnclear … = i.ask q c, and `q` is posed well, or
    i.askIfUnclear … = i, and `i` lacks nothing                                (askIfUnclear_cases)
-/

namespace PlayerCommands

/-- The intent has the arguments that its verb needs. -/
def Intent.HasEnough (r : Registry) (i : Intent) : Prop :=
  ∀ v c, i.verb = some v → r.command? v = some c → v ≠ .go →
    c.minArgs ≤ i.args.length ∨ i.coversAll = true

/-- A question posed well for an intent, in a registry. -/
structure Question.IsPosed (r : Registry) (i : Intent) (q : Question Intent) : Prop where
  missing : q.missing ≠ []
  nodup : q.missing.Nodup
  choice : .choice ∈ q.missing → q.missing = [.choice] ∧ q.options ≠ []
  target : .target ∈ q.missing → q.missing = [.target]
  direction : .direction ∈ q.missing → i.verb = some .go ∧ i.args = []
  extent : .extent ∈ q.missing → i.extent = none
  few : q.options.length ≤ maxOptions
  registered : ∀ o ∈ q.options, ∃ v, o.verb = some v ∧ r.isRegistered v = true
  amounts : ∀ o ∈ q.options,
    (o.quantity = none ∨ o.quantity = i.quantity) ∧ (o.extent = none ∨ o.extent = i.extent)
  /-- Options are for a choice, but one may stand beside a target to be named. -/
  kind : q.missing = [.choice] ∨ (i.verb = some .go ∧ q.options = []) ∨
    (q.missing = [.target] ∧ q.options.length ≤ 1 ∧ i.verb ≠ some .go)
  supplied : ∀ o ∈ q.options, (o.verb = i.verb ∧ o.args ≠ []) ∨
    (q.missing = [.choice] ∧ o.args = i.args ∧ i.HasEnough r)

namespace Question

variable {r : Registry} {i : Intent} {v : Verb} {q : Question Intent}

/-- A choice or a free text alone, with options for registered verbs. -/
theorem isPosed_of_single
    (hfield : q.missing = [.choice] ∧ q.options ≠ [] ∨
      q.missing = [.target] ∧ q.options.length ≤ 1 ∧ (i.verb = some .go → q.options = []))
    (hfew : q.options.length ≤ maxOptions)
    (hregistered : ∀ o ∈ q.options, ∃ v, o.verb = some v ∧ r.isRegistered v = true)
    (hamounts : ∀ o ∈ q.options, (o.quantity = none ∨ o.quantity = i.quantity) ∧
      (o.extent = none ∨ o.extent = i.extent))
    (hsupplied : ∀ o ∈ q.options, (o.verb = i.verb ∧ o.args ≠ []) ∨
      (q.missing = [.choice] ∧ o.args = i.args ∧ i.HasEnough r)) : q.IsPosed r i := by
  rcases hfield with ⟨hmissing, hne⟩ | ⟨hmissing, hone, hgo⟩
  · exact ⟨by simp [hmissing], by simp [hmissing], fun _ => ⟨hmissing, hne⟩, by simp [hmissing],
      by simp [hmissing], by simp [hmissing], hfew, hregistered, hamounts, Or.inl hmissing,
      hsupplied⟩
  · refine ⟨by simp [hmissing], by simp [hmissing], by simp [hmissing], fun _ => hmissing,
      by simp [hmissing], by simp [hmissing], hfew, hregistered, hamounts, ?_, hsupplied⟩
    by_cases h : i.verb = some .go
    · exact Or.inr (Or.inl ⟨h, hgo h⟩)
    · exact Or.inr (Or.inr ⟨hmissing, hone, h⟩)

/-- The same for options that carry the verb of the intent and arguments only. -/
theorem isPosed_of_forVerb (hi : i.verb = some v) (hv : r.isRegistered v = true)
    (hfield : q.missing = [.choice] ∧ q.options ≠ [] ∨
      q.missing = [.target] ∧ q.options.length ≤ 1 ∧ (i.verb = some .go → q.options = []))
    (hfew : q.options.length ≤ maxOptions)
    (heach : ∀ o ∈ q.options, ∃ args c, args ≠ [] ∧ o = Intent.forVerb v args c) :
    q.IsPosed r i := by
  refine isPosed_of_single hfield hfew (fun o ho => ?_) (fun o ho => ?_) fun o ho => ?_
  · obtain ⟨args, c, -, rfl⟩ := heach o ho
    exact ⟨v, rfl, hv⟩
  · obtain ⟨args, c, -, rfl⟩ := heach o ho
    exact ⟨Or.inl rfl, Or.inl rfl⟩
  · obtain ⟨args, c, hargs, rfl⟩ := heach o ho
    exact Or.inl ⟨hi.symm, hargs⟩

theorem isPosed_of_isAboutName (hi : i.verb = some v) (hv : r.isRegistered v = true)
    (h : q.IsAboutName v) : q.IsPosed r i := by
  cases h with
  | pronoun missing options =>
    refine isPosed_of_forVerb hi hv (Or.inr ⟨missing, ?_, fun _ => options⟩) ?_ ?_
    · rw [options]
      exact Nat.zero_le _
    · rw [options]
      exact Nat.zero_le _
    · rw [options]
      intro o ho
      cases ho
  | close missing two each =>
    refine isPosed_of_forVerb hi hv (Or.inl ⟨missing, ?_⟩) ?_ each
    · intro h0
      rw [h0] at two
      cases two
    · rw [two]
      decide

theorem missingTarget_cases (v : Verb) (minArgs : Nat) (scene : Scene) :
    ((missingTarget v minArgs scene).missing = [.choice] ∧
        (missingTarget v minArgs scene).options ≠ [] ∨
      (missingTarget v minArgs scene).missing = [.target] ∧
        (missingTarget v minArgs scene).options.length ≤ 1) ∧
    ∃ names, (missingTarget v minArgs scene).options = optionsFor v names Confidence.threshold := by
  unfold missingTarget
  split
  · exact ⟨Or.inr ⟨rfl, Nat.zero_le _⟩, [], rfl⟩
  · next names hnames =>
    refine ⟨?_, _, rfl⟩
    simp only
    split
    · next hmany =>
      refine Or.inl ⟨rfl, fun h0 => ?_⟩
      rw [h0] at hmany
      cases hmany
    · next hone => exact Or.inr ⟨rfl, Nat.le_of_not_lt hone⟩

theorem isPosed_missingTarget (hi : i.verb = some v) (hv : r.isRegistered v = true) (hgo : v ≠ .go)
    (minArgs : Nat) (scene : Scene) : (missingTarget v minArgs scene).IsPosed r i := by
  obtain ⟨hfield, names, hnames⟩ := missingTarget_cases v minArgs scene
  have hne : i.verb ≠ some .go := fun h => hgo (Option.some.inj (hi.symm.trans h))
  refine isPosed_of_forVerb hi hv (hfield.imp id fun h => ⟨h.1, h.2, fun h => absurd h hne⟩) ?_ ?_
  · rw [hnames, optionsFor, List.length_map, List.length_take]
    omega
  · intro o ho
    rw [hnames] at ho
    obtain ⟨name, -, rfl⟩ := List.mem_map.mp ho
    exact ⟨_, _, List.cons_ne_nil _ _, rfl⟩

/-- A movement that has no option is asked for its direction and its extent only. -/
theorem isPosed_of_movement (hgo : i.verb = some .go) (hoptions : q.options = [])
    (hmissing : q.missing ≠ []) (hnodup : q.missing.Nodup)
    (hfields : ∀ f ∈ q.missing, f = .direction ∨ f = .extent)
    (hdirection : .direction ∈ q.missing → i.args = [])
    (hextent : .extent ∈ q.missing → i.extent = none) : q.IsPosed r i := by
  refine ⟨hmissing, hnodup, fun h => ?_, fun h => ?_, fun h => ⟨hgo, hdirection h⟩, hextent, ?_, ?_,
    ?_, Or.inr (Or.inl ⟨hgo, hoptions⟩), ?_⟩
  · rcases hfields _ h with h | h <;> cases h
  · rcases hfields _ h with h | h <;> cases h
  · rw [hoptions]
    exact Nat.zero_le _
  all_goals
    rw [hoptions]
    intro o ho
    cases ho

end Question

namespace Intent

variable {r : Registry} {i : Intent}

/-! ## The questions of an intent -/

theorem askMovement_some (i : Intent) (number : String) :
    i.askMovement (some number) =
      i.ask { prompt := Prompt.unit number,
              missing := if i.args.isEmpty then [.extent, .direction] else [.extent] }
        Confidence.incomplete := rfl

theorem askMovement_of_nil (h : i.args = []) :
    i.askMovement none =
      i.ask { prompt := Prompt.direction,
              missing := if i.extent.isNone then [.direction, .extent] else [.direction] }
        Confidence.incomplete := by
  unfold askMovement
  simp only
  rw [if_pos (by rw [h]; rfl)]

theorem askMovement_of_ne_nil (h : i.args ≠ []) :
    i.askMovement none =
      if i.extent.isNone then i.ask { prompt := Prompt.extent, missing := [.extent] }
        Confidence.incomplete
      else i := by
  unfold askMovement
  simp only
  rw [if_neg (by simpa using h)]

/-- A movement asks for what it lacks, or it has a direction and an extent. -/
theorem askMovement_cases {bareNumber : Option String} (hgo : i.verb = some .go)
    (hbare : bareNumber.isSome = true → i.extent = none) :
    (∃ q c, i.askMovement bareNumber = i.ask q c ∧ q.IsPosed r i) ∨
      (i.askMovement bareNumber = i ∧ i.args ≠ [] ∧ i.extent.isSome = true) := by
  cases bareNumber with
  | some number =>
    have he : i.extent = none := hbare rfl
    refine Or.inl ⟨_, _, askMovement_some i number,
      Question.isPosed_of_movement hgo rfl ?_ ?_ ?_ ?_ ?_⟩
    all_goals by_cases hargs : i.args = [] <;> simp [hargs, he]
  | none =>
    by_cases hargs : i.args = []
    · refine Or.inl ⟨_, _, askMovement_of_nil hargs,
        Question.isPosed_of_movement hgo rfl ?_ ?_ ?_ ?_ ?_⟩
      all_goals cases he : i.extent <;> simp [hargs]
    · rw [askMovement_of_ne_nil hargs]
      cases he : i.extent with
      | none =>
        refine Or.inl ⟨_, _, if_pos rfl, Question.isPosed_of_movement hgo rfl ?_ ?_ ?_ ?_ ?_⟩
        all_goals simp [he]
      | some e => exact Or.inr ⟨if_neg (by simp), hargs, rfl⟩

/-- The intent itself is the first option, and three others follow at most. -/
theorem askLowConfidence_eq {v : Verb} (hv : i.verb = some v)
    (hregistered : r.isRegistered v = true) {alternates : List CommandMatch}
    (halternates : ∀ m ∈ alternates, r.isRegistered m.verb = true) (henough : i.HasEnough r)
    (argScore : Score) :
    ∃ q c, i.askLowConfidence alternates argScore = i.ask q c ∧ q.IsPosed r i := by
  refine ⟨_, _, rfl, Question.isPosed_of_single (Or.inl ⟨rfl, by simp⟩) ?_ ?_ ?_ ?_⟩
  · simp only [List.length_cons, List.length_map, List.length_take, maxOptions]
    omega
  · intro o ho
    rcases List.mem_cons.mp ho with rfl | ho
    · exact ⟨v, hv, hregistered⟩
    · obtain ⟨m, hm, rfl⟩ := List.mem_map.mp ho
      exact ⟨m.verb, rfl, halternates m (List.mem_of_mem_take hm)⟩
  · intro o ho
    rcases List.mem_cons.mp ho with rfl | ho
    · exact ⟨Or.inr rfl, Or.inr rfl⟩
    · obtain ⟨m, hm, rfl⟩ := List.mem_map.mp ho
      exact ⟨Or.inl rfl, Or.inl rfl⟩
  · intro o ho
    refine Or.inr ⟨rfl, ?_, henough⟩
    rcases List.mem_cons.mp ho with rfl | ho
    · rfl
    · obtain ⟨m, hm, rfl⟩ := List.mem_map.mp ho
      rfl

/-- The intent is sure enough, and no question about what it lacks is due. -/
structure LacksNothing (i : Intent) (v : Verb) (command : Command) : Prop where
  sure : Confidence.threshold ≤ i.confidence
  movement : v = .go → i.args ≠ [] ∧ i.extent.isSome = true
  enough : v ≠ .go → command.minArgs ≤ i.args.length ∨ i.coversAll = true

/-- The first question that is due is posed well, or nothing is missing. -/
theorem askDue_cases {v : Verb} (command : Command) (scene : Scene) {amounts : Amounts}
    {question : Option (Question Intent × Score)} (hv : i.verb = some v)
    (hregistered : r.isRegistered v = true)
    (hquestion : ∀ q c, question = some (q, c) → q.IsAboutName v)
    (hbare : amounts.bareNumber.isSome = true → i.extent = none) :
    (∃ q c, i.askDue v command scene amounts question = i.ask q c ∧ q.IsPosed r i) ∨
      (i.askDue v command scene amounts question = i ∧
        (v = .go → i.args ≠ [] ∧ i.extent.isSome = true) ∧
        (v ≠ .go → command.minArgs ≤ i.args.length ∨ i.coversAll = true)) := by
  unfold askDue
  cases question with
  | some pair =>
    obtain ⟨q, c⟩ := pair
    exact Or.inl ⟨q, c, rfl, Question.isPosed_of_isAboutName hv hregistered (hquestion q c rfl)⟩
  | none =>
    simp only
    by_cases hgo : v = .go
    · rw [if_pos hgo]
      rcases askMovement_cases (r := r) (hv.trans (congrArg some hgo)) hbare with h | ⟨h, hargs, he⟩
      · exact Or.inl h
      · exact Or.inr ⟨h, fun _ => ⟨hargs, he⟩, fun hne => absurd hgo hne⟩
    · rw [if_neg hgo]
      split
      · exact Or.inl ⟨_, _, rfl, Question.isPosed_missingTarget hv hregistered hgo _ _⟩
      · next hfew =>
        refine Or.inr ⟨rfl, fun h => absurd h hgo, fun _ => ?_⟩
        simp only [Bool.and_eq_true, decide_eq_true_eq, Bool.not_eq_true', not_and,
          Bool.not_eq_false] at hfew
        rcases Nat.lt_or_ge i.args.length command.minArgs with hlt | hge
        · exact Or.inr (hfew hlt)
        · exact Or.inl hge

/-- **An intent asks a question posed well, or lacks nothing.** -/
theorem askIfUnclear_cases {command : Command} (scene : Scene) (argScore : Score)
    {reading : Reading} {amounts : Amounts} {question : Option (Question Intent × Score)}
    (hclarify : i.clarify = none) (hv : i.verb = some reading.verb)
    (hcommand : r.command? reading.verb = some command)
    (halternates : ∀ m ∈ reading.alternates, r.isRegistered m.verb = true)
    (hquestion : ∀ q c, question = some (q, c) → q.IsAboutName reading.verb)
    (hbare : amounts.bareNumber.isSome = true → i.extent = none) :
    (∃ q c, i.askIfUnclear reading command scene amounts question argScore = i.ask q c ∧
        q.IsPosed r i) ∨
      (i.askIfUnclear reading command scene amounts question argScore = i ∧
        i.LacksNothing reading.verb command) := by
  have hregistered := Registry.isRegistered_of_command hcommand
  unfold askIfUnclear
  simp only
  rcases askDue_cases command scene hv hregistered hquestion hbare with
    ⟨q, c, hasked, hposed⟩ | ⟨hasked, hmovement, henough⟩
  · rw [hasked, if_neg (by simp)]
    exact Or.inl ⟨q, c, rfl, hposed⟩
  · rw [hasked]
    split
    · refine Or.inl (askLowConfidence_eq hv hregistered halternates (fun v c hverb hc => ?_) argScore)
      obtain rfl : reading.verb = v := Option.some.inj (hv.symm.trans hverb)
      rw [Option.some.inj (hc.symm.trans hcommand)]
      exact henough
    · next hsure =>
      simp only [hclarify, Option.isNone_none, Bool.true_and, decide_eq_true_eq] at hsure
      exact Or.inr ⟨rfl, Score.le_of_not_lt hsure, hmovement, henough⟩

/-! ## Sharing amounts -/

theorem inherit_verb (i option : Intent) : (i.inherit option).verb = option.verb := by
  unfold inherit
  split <;> rfl

theorem inherit_args (i option : Intent) : (i.inherit option).args = option.args := by
  unfold inherit
  split <;> rfl

theorem shareAmounts_of_none (h : i.clarify = none) : i.shareAmounts = i := by
  unfold shareAmounts
  rw [h]
  cases i
  cases h
  rfl

theorem shareAmounts_ask (i : Intent) (q : Question Intent) (c : Score) :
    (i.ask q c).shareAmounts = i.ask { q with options := q.options.map i.inherit } c := rfl

theorem or_eq_of_none_or {α : Type} {a b : Option α} (h : a = none ∨ a = b) : a.or b = b := by
  rcases h with rfl | rfl
  · rfl
  · cases a <;> rfl

theorem amounts_inherit {i option : Intent}
    (h : (option.quantity = none ∨ option.quantity = i.quantity) ∧
      (option.extent = none ∨ option.extent = i.extent)) :
    ((i.inherit option).quantity = none ∨ (i.inherit option).quantity = i.quantity) ∧
      ((i.inherit option).extent = none ∨ (i.inherit option).extent = i.extent) := by
  unfold inherit
  split
  · exact ⟨Or.inr (or_eq_of_none_or h.1), Or.inr (or_eq_of_none_or h.2)⟩
  · exact h

/-- A question stays posed well when its options take over the amounts of the intent. -/
theorem isPosed_share {q : Question Intent} (h : q.IsPosed r i) :
    Question.IsPosed r i { q with options := q.options.map i.inherit } := by
  refine ⟨h.missing, h.nodup, fun hc => ?_, h.target, h.direction, h.extent, ?_, ?_, ?_, ?_, ?_⟩
  · obtain ⟨hmissing, hne⟩ := h.choice hc
    exact ⟨hmissing, by simpa using hne⟩
  · rw [List.length_map]
    exact h.few
  · intro o ho
    obtain ⟨option, hoption, rfl⟩ := List.mem_map.mp ho
    rw [inherit_verb]
    exact h.registered option hoption
  · intro o ho
    obtain ⟨option, hoption, rfl⟩ := List.mem_map.mp ho
    exact amounts_inherit (h.amounts option hoption)
  · simpa using h.kind
  · intro o ho
    obtain ⟨option, hoption, rfl⟩ := List.mem_map.mp ho
    rw [inherit_verb, inherit_args]
    exact h.supplied option hoption

end Intent

end PlayerCommands
