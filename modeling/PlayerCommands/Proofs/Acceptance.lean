import PlayerCommands.Proofs.Dialogue
import PlayerCommands.Session.Basic

/-!
# What a session accepts

An intent is accepted as it was interpreted, or after a dialogue, or in place of a question that was
not answered, or after a risk was confirmed.  On each of these ways it is complete: its verb is
registered, it asks nothing, it is sure enough, it keeps to the bounds of its command, and a
movement has a direction and an extent.

    (r.interpret scene line).clarify = none → (r.interpret scene line).IsRunnable r
                                                                       (isRunnable_of_interpret)
    p.answer r scene line = .resolved i → i.IsRunnable r                  (isRunnable_of_answer)
    s.IsSound r → (s.handleLine r line).session.IsSound r                   (isSound_handleLine)

A resolved intent is always sure, since the verb was settled before the dialogue began.  That its
amounts and its verb are in order rests on what is known of the pending intent: whatever it asks,
its verb and those of its options are registered, and its extent says something.
-/

namespace PlayerCommands

variable {r : Registry} {scene : Scene} {line : String}

/-! ## Interpreted intents -/

namespace Intent

/-- The intent may be done as a command of the registry.  A movement has a direction and an extent
then, unless its command takes no argument at all. -/
def IsRunnable (r : Registry) (i : Intent) : Prop :=
  ∃ v command, r.command? v = some command ∧ i.IsActionable v command ∧
    (v = .go → 1 ≤ command.maxArgs → i.HasMovement)

theorem isRunnable_of_interpret (h : (r.interpret scene line).clarify = none) :
    (r.interpret scene line).IsRunnable r := by
  rcases r.interpret_cases scene line with
    heq | ⟨i, v, command, hcommand, hi, ⟨q, c, heq, -⟩ | ⟨heq, hlacks⟩⟩
  · rw [heq] at h
    cases h
  · rw [heq] at h
    cases h
  · rw [heq]
    refine ⟨v, command, hcommand, hi.isActionable hlacks.sure, fun hgo _ => ?_⟩
    obtain ⟨hargs, he⟩ := hlacks.movement hgo
    exact hi.hasMovement hargs he

theorem IsRunnable.confirmRisk {i : Intent} (h : i.IsRunnable r) : i.confirmRisk.IsRunnable r := by
  obtain ⟨v, command, hcommand, hactionable, hmovement⟩ := h
  exact ⟨v, command, hcommand, ⟨hactionable.verb, hactionable.kind, hactionable.clarify,
    hactionable.sure, hactionable.bounded, hactionable.fits⟩, hmovement⟩

end Intent

/-! ## Pending intents of one registry -/

namespace Pending

/-- The verbs of a pending intent are registered, and its extent says something. -/
structure IsKnown (r : Registry) (p : Pending) : Prop where
  verb : r.isRegistered p.verb = true
  options : ∀ o ∈ p.options, ∃ v, o.verb = some v ∧ r.isRegistered v = true
  real : ∀ e, p.extent = some e → e.isEmpty = false

variable {p next q : Pending} {field : Field}

theorem isKnown_of_interpret (h : ofIntent? (r.interpret scene line) = some p) : p.IsKnown r := by
  obtain ⟨i, v, command, question, hcommand, hi, hq, rfl⟩ := of_ofIntent?_interpret h
  exact ⟨Registry.isRegistered_of_command hcommand, hq.registered, hi.real⟩

theorem IsKnown.takeExtent (h : p.IsKnown r) {e : Extent} (he : e.isEmpty = false) :
    (p.takeExtent e).IsKnown r := by
  refine ⟨h.verb, h.options, fun e' he' => ?_⟩
  cases he'
  exact he

theorem IsKnown.amends (h : p.IsKnown r) (ha : p.Amends field next) : next.IsKnown r := by
  cases ha with
  | nothing => exact h
  | extent real => exact h.takeExtent real
  | number asked waiting number => exact ⟨h.verb, h.options, h.real⟩

theorem IsKnown.escalate (h : p.IsKnown r) (ha : p.Amends field next) {question : Question Intent}
    (hq : p.Raises next field question) : (next.escalate field question).IsKnown r := by
  have hnext := h.amends ha
  refine ⟨hnext.verb, fun o ho => ?_, hnext.real⟩
  cases hq with
  | pronoun missing options =>
    have hnil : (next.escalate .target question).options = [] := options
    rw [hnil] at ho
    cases ho
  | close about missing two each => exact ⟨p.verb, (each o ho).1, h.verb⟩
  | among missing two offered => exact h.options o (offered o ho)

theorem IsKnown.filled (h : p.IsKnown r) {score : Score}
    (hreply : p.Replies field (.filled next score)) : (next.without field).IsKnown r := by
  cases hreply with
  | direction amends name scored =>
    have hnext := h.amends amends
    exact ⟨hnext.verb, hnext.options, hnext.real⟩
  | extent real =>
    have hnext := h.takeExtent real
    exact ⟨hnext.verb, hnext.options, hnext.real⟩
  | both waiting name real =>
    have hnext := h.takeExtent real
    exact ⟨hnext.verb, hnext.options, hnext.real⟩
  | target scored => exact ⟨h.verb, h.options, h.real⟩

theorem IsKnown.choose (h : p.IsKnown r) (hp : p.IsCoherent) (hfield : p.next? = some .choice)
    {option : Intent} (hoption : option ∈ p.options) : (p.choose option).IsKnown r := by
  have hoffer := hp.choice (List.mem_of_mem_head? hfield)
  have hextent : (p.choose option).extent = p.extent :=
    Intent.or_eq_of_none_or (hoffer.amounts option hoption).2
  refine ⟨?_, fun o ho => (by cases ho), fun e he => h.real e (hextent ▸ he)⟩
  obtain ⟨v, hv, hregistered⟩ := h.options option hoption
  show r.isRegistered (option.verb.getD p.verb) = true
  rw [hv]
  exact hregistered

theorem isKnown_finish (h : p.IsKnown r) (score : Score)
    (hq : (p.finish r score).pending? = some q) : q.IsKnown r := by
  obtain ⟨field, -, rfl⟩ := of_pending?_finish hq
  exact ⟨h.verb, h.options, h.real⟩

/-- The registry knows what an answer leaves behind if it knows what was asked. -/
theorem isKnown_answer (hp : p.IsCoherent) (h : p.IsKnown r)
    (hq : (p.answer r scene line).pending? = some q) : q.IsKnown r := by
  obtain ⟨field, reply, hfield, hreply, hq⟩ := hp.settle_of_pending? hq
  cases reply with
  | filled next score => exact isKnown_finish (h.filled hreply) score hq
  | chosen option =>
    cases hreply with
    | choice offered => exact isKnown_finish (h.choose hp hfield offered) 1 hq
  | again next prompt =>
    cases hreply with
    | again amends =>
      cases hq
      have hnext := h.amends amends
      exact ⟨hnext.verb, hnext.options, hnext.real⟩
  | asks next question =>
    cases hreply with
    | asks amends raises =>
      cases hq
      exact h.escalate amends raises

/-! ## Resolved intents -/

/-- Nothing is missing from a resolved intent, and a movement has a direction and an extent. -/
theorem of_finish_resolved {score : Score} {i : Intent} (h : p.finish r score = .resolved i) :
    (p.verb = .go → p.args ≠ [] ∧ p.extent.isSome = true) ∧
      i = { Intent.forVerb p.verb
              (match r.command? p.verb with
                | some command => p.args.take command.maxArgs
                | none => p.args)
              (Confidence.blend 1 score) with quantity := p.quantity, extent := p.extent } := by
  have hmem := fun f => mem_missing_requireMovement (p := p) (f := f)
  rcases p.finish_cases r score with ⟨field, -, heq⟩ | ⟨hnil, heq⟩
  · cases heq.symm.trans h
  · -- whatever a movement lacked would be missing now
    rw [hnil] at hmem
    have hchoice : .choice ∉ p.missing := fun hc => by
      cases (hmem _).mpr (Or.inl hc)
    refine ⟨fun hgo => ⟨fun hargs => ?_, ?_⟩, (Outcome.resolved.inj (heq.symm.trans h)).symm⟩
    · cases (hmem _).mpr (Or.inr ⟨⟨hgo, hchoice⟩, Or.inl ⟨rfl, hargs⟩⟩)
    · cases hextent : p.extent with
      | some e => rfl
      | none => cases (hmem _).mpr (Or.inr ⟨⟨hgo, hchoice⟩, Or.inr ⟨rfl, hextent⟩⟩)

theorem isRunnable_of_finish (h : p.IsKnown r) {score : Score} (hscore : 0 ≤ score) {i : Intent}
    (hi : p.finish r score = .resolved i) : i.IsRunnable r := by
  obtain ⟨hgo, rfl⟩ := of_finish_resolved hi
  obtain ⟨command, hcommand⟩ := Registry.exists_command_of_isRegistered h.verb
  rw [hcommand]
  refine ⟨p.verb, command, hcommand, ⟨rfl, rfl, rfl, Confidence.threshold_le_blend_one hscore,
    Confidence.blend_le_one _ _, ?_⟩, fun hverb hmax => ?_⟩
  · simp only [Intent.forVerb, List.length_take]
    omega
  · obtain ⟨hargs, he⟩ := hgo hverb
    obtain ⟨e, he⟩ := Option.isSome_iff_exists.mp he
    refine ⟨?_, e, he, h.real e he⟩
    simp only [Intent.forVerb, ne_eq, List.take_eq_nil_iff, hargs, or_false]
    omega

/-- **What a dialogue resolves may be done.** -/
theorem isRunnable_of_answer (hp : p.IsCoherent) (h : p.IsKnown r) {i : Intent}
    (hi : p.answer r scene line = .resolved i) : i.IsRunnable r := by
  obtain ⟨field, reply, hfield, hreply, hi⟩ := hp.settle_of_resolved hi
  cases reply with
  | filled next score =>
    obtain ⟨-, -, hscore⟩ := hp.filled hfield hreply
    exact isRunnable_of_finish (h.filled hreply) hscore hi
  | chosen option =>
    cases hreply with
    | choice offered =>
      exact isRunnable_of_finish (h.choose hp hfield offered) (by decide +kernel) hi
  | again next prompt => cases hi
  | asks next question => cases hi

end Pending

/-! ## Sessions -/

namespace Session

/-- The session after some lines. -/
def afterLines (r : Registry) (s : Session) (lines : List String) : Session :=
  lines.foldl (fun s line => (s.handleLine r line).session) s

theorem afterLines_cons (r : Registry) (s : Session) (line : String) (rest : List String) :
    afterLines r s (line :: rest) = afterLines r (s.handleLine r line).session rest := by
  unfold afterLines
  rw [List.foldl_cons]

/-! ## What holds from line to line -/

/-- What holds of every pending intent and of every intent to be done, whatever lines they come
from. -/
structure IsKept (r : Registry) (P : Pending → Prop) (Q : Intent → Prop) : Prop where
  asked : ∀ {scene line p}, Pending.ofIntent? (r.interpret scene line) = some p → P p
  clear : ∀ {scene line}, (r.interpret scene line).clarify = none → Q (r.interpret scene line)
  left : ∀ {scene line p q}, P p → (p.answer r scene line).pending? = some q → P q
  resolved : ∀ {scene line p i}, P p → p.answer r scene line = .resolved i → Q i
  confirmed : ∀ {i}, Q i → Q i.confirmRisk

/-- A session in which `P` holds of the pending intent, and `Q` of the one to be confirmed and of
those that were accepted. -/
structure Holds (P : Pending → Prop) (Q : Intent → Prop) (s : Session) : Prop where
  pending : ∀ p, s.pending = some p → P p
  confirming : ∀ i, s.confirming = some i → Q i
  accepted : ∀ i ∈ s.accepted, Q i

variable {s : Session} {i : Intent} {p : Pending} {P : Pending → Prop} {Q : Intent → Prop}

theorem holds_handleMeta (h : s.Holds P Q) (command : MetaCommand) :
    (s.handleMeta r command).session.Holds P Q := by
  cases command <;> exact ⟨h.pending, h.confirming, h.accepted⟩

theorem holds_run (h : s.Holds P Q) (hi : Q i) : (s.run i).session.Holds P Q := by
  refine ⟨h.pending, h.confirming, fun j hj => ?_⟩
  rcases List.mem_append.mp hj with hj | hj
  · exact h.accepted j hj
  · rw [List.mem_singleton.mp hj]
    exact hi

theorem holds_accept (h : s.Holds P Q) (hi : Q i) : (s.accept r i).session.Holds P Q := by
  unfold accept
  split
  · refine ⟨h.pending, fun j hj => ?_, h.accepted⟩
    cases hj
    exact hi
  · exact holds_run h hi

theorem holds_put (h : s.Holds P Q) (hp : P p) : (s.put p).session.Holds P Q := by
  refine ⟨fun q hq => ?_, h.confirming, h.accepted⟩
  cases hq
  exact hp

theorem holds_confirm (hk : IsKept r P Q) (h : s.Holds P Q) (hi : Q i) (line : String) :
    (s.confirm r i line).session.Holds P Q := by
  unfold confirm
  split
  · exact holds_accept h (hk.confirmed hi)
  · exact h

theorem holds_handleCommand (hk : IsKept r P Q) (h : s.Holds P Q) (line : String) :
    (s.handleCommand r line).session.Holds P Q := by
  unfold handleCommand
  simp only
  split
  · exact ⟨fun q hq => hk.asked hq, h.confirming, h.accepted⟩
  · next hclarify => exact holds_accept h (hk.clear hclarify)

theorem holds_handleAnswer (hk : IsKept r P Q) (h : s.Holds P Q) (hp : P p) (line : String) :
    (s.handleAnswer r p line).session.Holds P Q := by
  have hleaves : ∀ q, (p.answer r s.scene line).pending? = some q →
      (s.put q).session.Holds P Q := fun q hq => holds_put h (hk.left hp hq)
  unfold handleAnswer
  split
  · next i hresolved => exact holds_accept h (hk.resolved hp hresolved)
  · next next hretry =>
    simp only
    split
    · next hfresh =>
      rw [Bool.and_eq_true, Option.isNone_iff_eq_none] at hfresh
      exact holds_accept h (hk.clear hfresh.1)
    · exact hleaves next (by rw [hretry]; rfl)
  · next next hmore => exact hleaves next (by rw [hmore]; rfl)
  · next next hescalated => exact hleaves next (by rw [hescalated]; rfl)
  · exact h

/-- **What is kept holds after every line.** -/
theorem holds_handleLine (hk : IsKept r P Q) (h : s.Holds P Q) (line : String) :
    (s.handleLine r line).session.Holds P Q := by
  unfold handleLine
  simp only
  split
  · exact holds_handleMeta h _
  · split
    · next i hi =>
      have hs : Holds P Q { s with confirming := none } :=
        ⟨h.pending, fun _ hnone => (by cases hnone), h.accepted⟩
      exact holds_confirm hk hs (h.confirming i hi) _
    · split
      · exact h
      · split
        · next p hp =>
          have hs : Holds P Q { s with pending := none } :=
            ⟨fun _ hnone => (by cases hnone), h.confirming, h.accepted⟩
          exact holds_handleAnswer hk hs (h.pending p hp) _
        · exact holds_handleCommand hk h _

/-! ## Sound sessions -/

/-- Whatever a session keeps is in order: the pending intent, the one to be confirmed, and those
that were accepted. -/
structure IsSound (r : Registry) (s : Session) : Prop where
  pending : ∀ p, s.pending = some p → p.IsCoherent ∧ p.IsKnown r
  confirming : ∀ i, s.confirming = some i → i.IsRunnable r
  accepted : ∀ i ∈ s.accepted, i.IsRunnable r

theorem isKept_isRunnable (r : Registry) :
    IsKept r (fun p => p.IsCoherent ∧ p.IsKnown r) (·.IsRunnable r) where
  asked hp := ⟨Pending.isCoherent_of_interpret r _ _ hp, Pending.isKnown_of_interpret hp⟩
  clear := Intent.isRunnable_of_interpret
  left hp hq := ⟨Pending.isCoherent_answer hp.1 r _ _ hq, Pending.isKnown_answer hp.1 hp.2 hq⟩
  resolved hp hi := Pending.isRunnable_of_answer hp.1 hp.2 hi
  confirmed hi := hi.confirmRisk

/-- **Every line leaves a sound session.** -/
theorem isSound_handleLine (h : s.IsSound r) (line : String) :
    (s.handleLine r line).session.IsSound r := by
  have hs := holds_handleLine (isKept_isRunnable r) ⟨h.pending, h.confirming, h.accepted⟩ line
  exact ⟨hs.pending, hs.confirming, hs.accepted⟩

theorem isSound_afterLines (h : s.IsSound r) (lines : List String) :
    (afterLines r s lines).IsSound r := by
  induction lines generalizing s with
  | nil => exact h
  | cons line rest ih =>
    rw [afterLines_cons]
    exact ih (isSound_handleLine h line)

theorem isSound_start (r : Registry) (scene : Scene) : IsSound r { scene } :=
  ⟨fun _ hp => (by cases hp), fun _ hi => (by cases hi), fun _ hi => (by cases hi)⟩

/-- **Every intent that a session ever accepts may be done**, in whatever way it came about. -/
theorem isRunnable_of_mem_accepted (r : Registry) (scene : Scene) (lines : List String)
    {i : Intent} (hi : i ∈ (afterLines r { scene } lines).accepted) : i.IsRunnable r :=
  (isSound_afterLines (isSound_start r scene) lines).accepted i hi

theorem isRunnable_after_dialogue :
    ∃ i ∈ (afterLines (Registry.empty.register { verb := .go }) {}
        ["go", "north", "2 km"]).accepted,
      i.IsRunnable (Registry.empty.register { verb := .go }) := by
  have hone : (afterLines (Registry.empty.register { verb := .go }) {}
      ["go", "north", "2 km"]).accepted.length = 1 := by decide +kernel
  obtain ⟨i, hi⟩ := List.exists_mem_of_length_pos (Nat.lt_of_lt_of_eq Nat.zero_lt_one hone.symm)
  exact ⟨i, hi, isRunnable_of_mem_accepted _ _ _ hi⟩

end Session

end PlayerCommands
