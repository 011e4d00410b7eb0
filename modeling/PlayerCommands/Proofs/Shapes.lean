import PlayerCommands.Proofs.Posing

/-!
# The three shapes of an intent

A line is interpreted in three steps: its verb is read, a draft is made of its amounts and its
arguments, and the draft asks if it is unclear.  A draft respects the bounds of its command whatever
the line was, so what comes of it depends on the question alone.

    r.interpret scene line asks what an unmapped line is asked, or
    it is `i.ask q c` for a draft `i` and a question `q` posed well for it, or
    it is a draft that lacks nothing                                            (interpret_cases)

The last theorem reads the three cases off the intent itself: it is unmapped, it asks, or it may be
acted on, and no two of these at once.
-/

namespace PlayerCommands

/-! ## Drafts -/

/-- An intent for a verb that is registered as `command`, before it has asked anything. -/
structure Intent.IsDraft (i : Intent) (v : Verb) (command : Command) : Prop where
  verb : i.verb = some v
  kind : i.kind = v.kind
  fits : i.args.length ≤ command.maxArgs
  clarify : i.clarify = none
  bounded : i.confidence ≤ 1
  unconfirmed : i.riskConfirmed = false
  /-- A number that waits for its unit is not kept beside an extent. -/
  apart : i.quantity = none ∨ i.extent = none
  real : ∀ e, i.extent = some e → e.isEmpty = false

namespace Registry

/-- The intent of a line whose verb was read and is registered as `command`, before any question. -/
def draftIntent (scene : Scene) (i : Intent) (reading : Reading) (command : Command) : Intent :=
  let amounts := Amounts.of reading.verb reading.rest
  let resolution := Argument.resolve reading.verb amounts.rest scene
  { i with
    verb := some reading.verb, kind := reading.verb.kind,
    args := resolution.args.take command.maxArgs,
    quantity := amounts.quantity, extent := amounts.extent,
    confidence := Confidence.blend reading.score
      (surplusScore resolution.score (resolution.args.length - command.maxArgs)) }

theorem buildIntent_eq (scene : Scene) (i : Intent) (reading : Reading) (command : Command) :
    buildIntent scene i reading command =
      ((draftIntent scene i reading command).askIfUnclear reading command scene
        (Amounts.of reading.verb reading.rest)
        (Argument.resolve reading.verb (Amounts.of reading.verb reading.rest).rest scene).question
        (surplusScore
          (Argument.resolve reading.verb (Amounts.of reading.verb reading.rest).rest scene).score
          ((Argument.resolve reading.verb (Amounts.of reading.verb reading.rest).rest
            scene).args.length - command.maxArgs))).shareAmounts := rfl

theorem isDraft_draftIntent (scene : Scene) (line : String) (reading : Reading)
    (command : Command) :
    (draftIntent scene (Intent.unresolved line (Text.normalize line)) reading command).IsDraft
      reading.verb command := by
  refine ⟨rfl, rfl, ?_, rfl, Confidence.blend_le_one _ _, rfl,
    Amounts.quantity_or_extent reading.verb reading.rest, fun e he => Amounts.isEmpty_of_extent he⟩
  simp only [draftIntent, List.length_take]
  omega

/-! ## Lines -/

variable (r : Registry) (scene : Scene) (line : String)

/-- **A line is unmapped, or its draft asks a question posed well, or lacks nothing.** -/
theorem interpret_cases :
    r.interpret scene line =
        (Intent.unresolved line (Text.normalize line)).ask Question.unmapped Confidence.unmapped ∨
      ∃ i v command, r.command? v = some command ∧ i.IsDraft v command ∧
        ((∃ q c, r.interpret scene line = i.ask q c ∧ q.IsPosed r i) ∨
          (r.interpret scene line = i ∧ i.LacksNothing v command)) := by
  unfold interpret
  simp only
  split
  · exact Or.inl rfl
  · next reading hreading =>
    split
    · exact Or.inl rfl
    · next command hcommand =>
      obtain ⟨-, halternates⟩ := isRegistered_of_readVerb? hreading
      -- sharing amounts with the options changes neither the draft nor what is missing
      refine Or.inr ⟨_, reading.verb, command, hcommand,
        isDraft_draftIntent scene line reading command, ?_⟩
      rw [buildIntent_eq]
      rcases Intent.askIfUnclear_cases (r := r)
          (i := draftIntent scene (Intent.unresolved line (Text.normalize line)) reading command)
          scene _ rfl rfl hcommand halternates
          (fun q c hq => Argument.isAboutName_of_resolve hq)
          (fun hbare => Amounts.extent_eq_none (Or.inr hbare)) with
        ⟨q, c, hasks, hposed⟩ | ⟨hasks, hlacks⟩
      · rw [hasks, Intent.shareAmounts_ask]
        exact Or.inl ⟨_, c, rfl, Intent.isPosed_share hposed⟩
      · rw [hasks, Intent.shareAmounts_of_none rfl]
        exact Or.inr ⟨rfl, hlacks⟩

end Registry

namespace Pending

theorem ofIntent?_ask {i : Intent} {v : Verb} {q : Question Intent} (c : Score)
    (hv : i.verb = some v) (hq : q.missing ≠ []) :
    ofIntent? (i.ask q c) = some
      { kind := i.kind, verb := v, args := i.args, missing := q.missing, prompt := q.prompt,
        options := q.options, quantity := i.quantity, extent := i.extent } := by
  have hmissing : q.missing.isEmpty = false := by simpa using hq
  simp [ofIntent?, hv, hmissing]

/-- A pending intent keeps what its intent says and what is asked about it. -/
theorem of_ofIntent? {i : Intent} {p : Pending} (h : ofIntent? i = some p) :
    i.verb = some p.verb ∧ p.extent = i.extent ∧ p.args = i.args ∧ p.quantity = i.quantity ∧
      ∃ q, i.clarify = some q ∧ p.missing = q.missing ∧ p.options = q.options := by
  unfold ofIntent? at h
  split at h
  · next v question hverb hclarify =>
    split at h
    · cases h
    · cases h
      exact ⟨hverb, rfl, rfl, rfl, question, hclarify, rfl, rfl⟩
  · cases h

/-- A pending intent that a line leads to is a draft with the fields of a question posed well. -/
theorem of_ofIntent?_interpret {r : Registry} {scene : Scene} {line : String} {p : Pending}
    (h : ofIntent? (r.interpret scene line) = some p) :
    ∃ i v command q, r.command? v = some command ∧ Intent.IsDraft i v command ∧
      Question.IsPosed r i q ∧
      p = { kind := i.kind, verb := v, args := i.args, missing := q.missing, prompt := q.prompt,
            options := q.options, quantity := i.quantity, extent := i.extent } := by
  rcases r.interpret_cases scene line with
    heq | ⟨i, v, command, hcommand, hi, ⟨q, c, heq, hq⟩ | ⟨heq, -⟩⟩
  · rw [heq] at h
    cases h
  · rw [heq, ofIntent?_ask c hi.verb hq.missing] at h
    exact ⟨i, v, command, q, hcommand, hi, hq, (Option.some.inj h).symm⟩
  · rw [heq] at h
    simp [ofIntent?, hi.verb, hi.clarify] at h

end Pending

/-! ## Shapes -/

namespace Intent

variable (r : Registry) (i : Intent)

/-- The line was not taken to mean any verb. -/
structure IsUnmapped : Prop where
  verb : i.verb = none
  kind : i.kind = .unknown
  args : i.args = []
  confidence : i.confidence = 0
  clarify : ∃ q, i.clarify = some q ∧ q.options = [] ∧ q.missing = []

/-- The intent has a registered verb and waits for an answer. -/
structure IsAsking : Prop where
  verb : ∃ v, i.verb = some v ∧ r.isRegistered v = true ∧ i.kind = v.kind
  clarify : ∃ q, i.clarify = some q ∧ q.missing ≠ [] ∧ q.options.length ≤ 4 ∧
    (∀ o ∈ q.options, ∃ v, o.verb = some v ∧ r.isRegistered v = true) ∧
    (.choice ∈ q.missing → q.options ≠ [])
  pending : (Pending.ofIntent? i).isSome = true
  nonnegative : 0 ≤ i.confidence
  ceiling : i.confidence ≤ 0.5
  unsure : i.confidence < Confidence.threshold

/-- The intent may be acted on: nothing is asked, and it fits the command of its verb. -/
structure IsActionable (v : Verb) (command : Command) : Prop where
  verb : i.verb = some v
  kind : i.kind = v.kind
  clarify : i.clarify = none
  sure : Confidence.threshold ≤ i.confidence
  bounded : i.confidence ≤ 1
  fits : i.args.length ≤ command.maxArgs

/-- A movement with a direction and an extent that says something. -/
def HasMovement : Prop := i.args ≠ [] ∧ ∃ e, i.extent = some e ∧ e.isEmpty = false

/-- The line was understood completely. -/
def IsAccepted : Prop :=
  ∃ v command, r.command? v = some command ∧ i.IsActionable v command ∧
    (v = .go ∨ ((v = .take ∨ v = .drop) ∧ ∃ q, i.quantity = some q ∧ q.isAll = true) ∨
      command.minArgs ≤ i.args.length) ∧
    (v = .go → i.HasMovement)

variable {r i} {v : Verb} {command : Command}

theorem IsDraft.isActionable (h : i.IsDraft v command)
    (hsure : Confidence.threshold ≤ i.confidence) : i.IsActionable v command :=
  ⟨h.verb, h.kind, h.clarify, hsure, h.bounded, h.fits⟩

theorem IsDraft.hasMovement (h : i.IsDraft v command) (hargs : i.args ≠ [])
    (he : i.extent.isSome = true) : i.HasMovement := by
  obtain ⟨e, he⟩ := Option.isSome_iff_exists.mp he
  exact ⟨hargs, e, he, h.real e he⟩

theorem IsDraft.isAccepted (h : i.IsDraft v command) (hcommand : r.command? v = some command)
    (hlacks : i.LacksNothing v command) : i.IsAccepted r := by
  refine ⟨v, command, hcommand, h.isActionable hlacks.sure, ?_, fun hgo => ?_⟩
  · by_cases hgo : v = .go
    · exact Or.inl hgo
    · right
      rcases hlacks.enough hgo with henough | hall
      · exact Or.inr henough
      · left
        simpa [coversAll, h.verb, Option.any_eq_true] using hall
  · obtain ⟨hargs, he⟩ := hlacks.movement hgo
    exact h.hasMovement hargs he

theorem IsDraft.isAsking_ask (h : i.IsDraft v command) (hcommand : r.command? v = some command)
    {q : Question Intent} (c : Score) (hq : q.IsPosed r i) : (i.ask q c).IsAsking r := by
  refine ⟨⟨v, h.verb, Registry.isRegistered_of_command hcommand, h.kind⟩,
    ⟨q, rfl, hq.missing, hq.few, hq.registered, fun hchoice => (hq.choice hchoice).2⟩, ?_,
    zero_le_ask_confidence i q c, ask_confidence_le i q c,
    Score.lt_of_le_of_lt (ask_confidence_le i q c) Confidence.askCeiling_lt_threshold⟩
  rw [Pending.ofIntent?_ask c h.verb hq.missing]
  rfl

/-! The three shapes exclude each other. -/

theorem IsUnmapped.not_isAsking (h : i.IsUnmapped) : ¬ i.IsAsking r := by
  intro hasking
  obtain ⟨v, hv, -⟩ := hasking.verb
  rw [h.verb] at hv
  cases hv

theorem IsUnmapped.not_isAccepted (h : i.IsUnmapped) : ¬ i.IsAccepted r := by
  rintro ⟨v, command, -, hactionable, -⟩
  have hv := hactionable.verb
  rw [h.verb] at hv
  cases hv

theorem IsAsking.not_isAccepted (h : i.IsAsking r) : ¬ i.IsAccepted r := by
  rintro ⟨v, command, -, hactionable, -⟩
  obtain ⟨q, hq, -⟩ := h.clarify
  rw [hactionable.clarify] at hq
  cases hq

theorem isUnmapped_ask (raw normalized : String) :
    ((unresolved raw normalized).ask Question.unmapped Confidence.unmapped).IsUnmapped := by
  have hzero : (min Confidence.unmapped Confidence.askCeiling).clamp = 0 := by decide +kernel
  exact ⟨rfl, rfl, rfl, hzero, Question.unmapped, rfl, rfl, rfl⟩

end Intent

/-- **Every line has exactly one of three shapes**, whatever is registered. -/
theorem Registry.shape_of_interpret (r : Registry) (scene : Scene) (line : String) :
    let i := r.interpret scene line
    (i.IsUnmapped ∧ ¬ i.IsAsking r ∧ ¬ i.IsAccepted r) ∨
      (i.IsAsking r ∧ ¬ i.IsUnmapped ∧ ¬ i.IsAccepted r) ∨
      (i.IsAccepted r ∧ ¬ i.IsUnmapped ∧ ¬ i.IsAsking r) := by
  intro i
  have hshape : i.IsUnmapped ∨ i.IsAsking r ∨ i.IsAccepted r := by
    rcases r.interpret_cases scene line with
      h | ⟨draft, v, command, hcommand, hdraft, ⟨q, c, h, hq⟩ | ⟨h, hlacks⟩⟩
    · left
      rw [show i = _ from h]
      exact Intent.isUnmapped_ask _ _
    · right; left
      rw [show i = _ from h]
      exact hdraft.isAsking_ask hcommand c hq
    · right; right
      rw [show i = _ from h]
      exact hdraft.isAccepted hcommand hlacks
  rcases hshape with hunmapped | hasking | haccepted
  · exact Or.inl ⟨hunmapped, hunmapped.not_isAsking, hunmapped.not_isAccepted⟩
  · exact Or.inr (Or.inl ⟨hasking, fun h => h.not_isAsking hasking, hasking.not_isAccepted⟩)
  · exact Or.inr (Or.inr
      ⟨haccepted, fun h => h.not_isAccepted haccepted, fun h => h.not_isAccepted haccepted⟩)

/-- Each shape occurs: no verb is read, a direction and an extent are missing, nothing is missing. -/
example :
    let r := Registry.empty.registerAll [⟨.go, [], 0, 1, false⟩, ⟨.rest, [], 0, 0, false⟩]
    let shape (line : String) :=
      let i := r.interpret {} line
      (i.verb, i.clarify.map (·.missing), decide (Confidence.threshold ≤ i.confidence))
    shape "xyzzy" = (none, some [], false) ∧
      shape "go" = (some .go, some [.direction, .extent], false) ∧
      shape "rest" = (some .rest, none, true) := by
  decide +kernel

end PlayerCommands
