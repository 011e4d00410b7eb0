import PlayerCommands.Proofs.Movement
import PlayerCommands.Proofs.Supply

/-!
# Extents that a dialogue carries over

Only a movement has an extent when a line is interpreted, and until its question is settled nothing
changes it.  But an option that is chosen for another verb does not take the extent of the movement
away: the resolved intent keeps it.

    (r.interpret scene line).verb ≠ some .go → (r.interpret scene line).extent = none
    first.Leads r p → p.answer r now answer = .resolved j → j.verb ≠ some .go →
      first.verb ≠ .go ∧ j.extent = none ∨
        first.verb = .go ∧ first.missing = [.choice] ∧ ∃ e, first.extent = some e ∧ j.extent = some e
                                                                          (extent_of_other_verb)

A movement offers another verb only where it lacks nothing but confidence.  So its extent is known by
then, and it is the one carried over.
-/

namespace PlayerCommands

variable {r : Registry} {scene : Scene} {line : String} {i j : Intent} {p next q first : Pending}
  {field : Field} {score : Score}

/-! ## The first line -/

namespace Intent

variable {reading : Reading} {command : Command} {amounts : Amounts}
  {question : Option (Question Intent × Score)} {argScore : Score}

/-- A movement that asks for what it lacks offers nothing. -/
theorem askMovement_offers (i : Intent) (bareNumber : Option String) :
    (∃ q, (i.askMovement bareNumber).clarify = some q ∧ q.options = []) ∨
      i.extent.isSome = true := by
  cases bareNumber with
  | some number => exact Or.inl ⟨_, rfl, rfl⟩
  | none =>
    rw [askMovement_none_eq]
    split
    · next hfilled =>
      refine Or.inr ?_
      cases he : i.extent with
      | some e => rfl
      | none => simp [Field.unfilled, he] at hfilled
    · exact Or.inl ⟨_, rfl, rfl⟩

/-- **A movement offers other verbs only if its extent is known.** -/
theorem options_askIfUnclear (hgo : reading.verb = .go)
    (hquestion : ∀ q c, question = some (q, c) → q.IsAboutName .go) {q : Question Intent}
    (hq : (i.askIfUnclear reading command scene amounts question argScore).clarify = some q) :
    (∀ o ∈ q.options, o.verb = some .go) ∨ i.extent.isSome = true := by
  unfold askIfUnclear askDue at hq
  cases question with
  | some pair =>
    -- a question about a name comes first, and its options are for the verb
    left
    cases hq
    cases hquestion pair.1 pair.2 rfl with
    | pronoun missing options =>
      intro o ho
      rw [options] at ho
      cases ho
    | close missing two each =>
      intro o ho
      obtain ⟨args, c, -, rfl⟩ := each o ho
      rfl
  | none =>
    simp only [hgo, if_true] at hq
    rcases i.askMovement_offers amounts.bareNumber with ⟨asked, hasked, hoptions⟩ | hextent
    · left
      rw [hasked, if_neg (by simp), hasked] at hq
      cases hq
      intro o ho
      rw [hoptions] at ho
      cases ho
    · exact Or.inr hextent

end Intent

namespace Registry

theorem extent_buildIntent (scene : Scene) (i : Intent) (reading : Reading) (command : Command) :
    (buildIntent scene i reading command).extent = (Amounts.of reading.verb reading.rest).extent :=
  (buildIntent_keeps scene i reading command).2.2.2

/-- No line is given an extent but a movement. -/
theorem extent_interpret (hverb : (r.interpret scene line).verb ≠ some .go) :
    (r.interpret scene line).extent = none := by
  revert hverb
  unfold interpret
  simp only
  split
  · exact fun _ => rfl
  · split
    · exact fun _ => rfl
    · next reading _ _ command _ =>
      rw [verb_buildIntent, extent_buildIntent]
      intro hverb
      exact Amounts.extent_eq_none (Or.inl fun hgo => hverb (congrArg some hgo))

/-- The options of a line that was read as a movement. -/
theorem options_interpret (hverb : (r.interpret scene line).verb = some .go) {q : Question Intent}
    (hq : (r.interpret scene line).clarify = some q) :
    (∀ o ∈ q.options, o.verb = some .go) ∨ (r.interpret scene line).extent.isSome = true := by
  revert hverb hq
  unfold interpret
  simp only
  split
  · intro hverb
    cases hverb
  · split
    · intro hverb
      cases hverb
    · next reading _ _ command _ =>
      rw [verb_buildIntent, extent_buildIntent]
      intro hverb hq
      have hgo : reading.verb = .go := Option.some.inj hverb
      rw [buildIntent_eq] at hq
      obtain ⟨asked, hasked, rfl⟩ := Option.map_eq_some_iff.mp hq
      rcases Intent.options_askIfUnclear hgo (fun q c h => hgo ▸ Argument.isAboutName_of_resolve h)
        hasked with hall | hextent
      · left
        intro o ho
        obtain ⟨option, hoption, rfl⟩ := List.mem_map.mp ho
        rw [Intent.inherit_verb]
        exact hall option hoption
      · exact Or.inr hextent

end Registry

namespace Pending

/-! ## The question of the first line -/

/-- While the first question is open the extent stays. -/
theorem extent_of_finish (hq : (p.finish r score).pending? = some q) : q.extent = p.extent := by
  obtain ⟨field, -, rfl⟩ := of_pending?_finish hq
  rfl

/-- A chosen option has no extent of its own. -/
theorem IsCoherent.extent_choose (h : p.IsCoherent) (hfield : p.next? = some .choice)
    {option : Intent} (hoption : option ∈ p.options) : (p.choose option).extent = p.extent :=
  Intent.or_eq_of_none_or ((h.choice (List.mem_of_mem_head? hfield)).amounts option hoption).2

theorem IsWeighing.extent_of_settle (h : p.IsWeighing r i) (hp : p.IsCoherent)
    (hfield : p.next? = some field) {reply : Reply} (hreply : p.Replies field reply)
    (hq : (p.settle r field reply).pending? = some q) : q.extent = p.extent := by
  cases reply with
  | filled next score =>
    obtain ⟨rfl, args, -, rfl⟩ := h.filled hfield hreply
    exact extent_of_finish (p := without { p with args } .target) hq
  | chosen option =>
    cases hreply with
    | choice offered => exact (extent_of_finish hq).trans (hp.extent_choose hfield offered)
  | again next prompt =>
    cases hreply with
    | again amends =>
      obtain rfl : next = p := amends.eq_self (h.field_eq hfield).symm
      cases hq
      rfl
  | asks next question =>
    cases hreply with
    | asks amends raises =>
      obtain rfl : next = p := amends.eq_self (h.field_eq hfield).symm
      cases hq
      rfl

/-- Along a dialogue the extent of the first line stays, unless it has become one about a movement
for good. -/
theorem extent_of_leads (h : first.IsGathering r i) (hp : Leads r first p) :
    p.IsMoving ∨ p.extent = first.extent := by
  -- a movement stays one; what waits for its one question has kept the extent so far
  induction hp with
  | here => exact Or.inr rfl
  | @answered scene line p q hp hq ih =>
    have hgathering := isGathering_of_leads h hp
    obtain ⟨field, reply, hfield, hreply, hq⟩ := hgathering.coherent.settle_of_pending? hq
    rcases hgathering.stage with hmoving | hweighing
    · exact Or.inl (hmoving.settle hreply hq)
    · rcases ih with hmoving | hextent
      · exact Or.inl (hmoving.settle hreply hq)
      · exact Or.inr
          ((hweighing.extent_of_settle hgathering.coherent hfield hreply hq).trans hextent)

/-! ## Resolved intents -/

theorem IsMoving.verb_of_finish (h : p.IsMoving) (hj : p.finish r score = .resolved j) :
    j.verb = some .go := by
  obtain ⟨-, rfl⟩ := of_finish_resolved hj
  exact congrArg some h.verb

theorem IsMoving.verb_of_settle (h : p.IsMoving) {reply : Reply} (hreply : p.Replies field reply)
    (hj : p.settle r field reply = .resolved j) : j.verb = some .go := by
  cases reply with
  | filled next score =>
    have hnext : (next.without field).IsMoving := h.congr hreply.keeps
    exact hnext.verb_of_finish hj
  | chosen option =>
    cases hreply with
    | choice offered => exact (h.choose offered).verb_of_finish hj
  | again next prompt => cases hj
  | asks next question => cases hj

/-- What answers the first question leaves the extent to the resolved intent. -/
theorem IsWeighing.extent_of_settle_resolved (h : p.IsWeighing r i) (hp : p.IsCoherent)
    (hfield : p.next? = some field) {reply : Reply} (hreply : p.Replies field reply)
    (hj : p.settle r field reply = .resolved j) :
    j.extent = p.extent := by
  cases reply with
  | filled next score =>
    obtain ⟨-, rfl⟩ := of_finish_resolved hj
    obtain ⟨rfl, args, -, rfl⟩ := h.filled hfield hreply
    rfl
  | chosen option =>
    obtain ⟨-, rfl⟩ := of_finish_resolved hj
    cases hreply with
    | choice offered => exact hp.extent_choose hfield offered
  | again next prompt => cases hj
  | asks next question => cases hj

/-! ## Dialogues -/

theorem isMoving_of_leads (h : first.IsMoving) (hfirst : first.IsCoherent)
    (hp : Leads r first p) : p.IsMoving ∧ p.IsCoherent := by
  induction hp with
  | here => exact ⟨h, hfirst⟩
  | answered scene line hp hq ih =>
    obtain ⟨hmoving, hcoherent⟩ := ih
    obtain ⟨field, reply, hfield, hreply, hsettle⟩ := hcoherent.settle_of_pending? hq
    exact ⟨hmoving.settle hreply hsettle, isCoherent_answer hcoherent r _ _ hq⟩

theorem verb_of_moving_leads (h : first.IsMoving) (hfirst : first.IsCoherent)
    (hp : Leads r first p) (hj : p.answer r scene line = .resolved j) : j.verb = some .go := by
  obtain ⟨hmoving, hcoherent⟩ := isMoving_of_leads h hfirst hp
  obtain ⟨field, reply, hfield, hreply, hsettle⟩ := hcoherent.settle_of_resolved hj
  exact hmoving.verb_of_settle hreply hsettle

/-- An intent with another verb than `go` has the extent of the first line. -/
theorem extent_of_resolved (h : first.IsGathering r i) (hp : Leads r first p)
    (hj : p.answer r scene line = .resolved j) (hverb : j.verb ≠ some .go) :
    j.extent = first.extent := by
  have hgathering := isGathering_of_leads h hp
  obtain ⟨field, reply, hfield, hreply, hsettle⟩ := hgathering.coherent.settle_of_resolved hj
  rcases hgathering.stage with hmoving | hweighing
  · exact absurd (hmoving.verb_of_settle hreply hsettle) hverb
  · have hextent := hweighing.extent_of_settle_resolved hgathering.coherent hfield hreply hsettle
    rcases extent_of_leads h hp with hmoving | hkept
    · exact absurd (hmoving.verb_of_settle hreply hsettle) hverb
    · exact hextent.trans hkept

/-- A movement that a line was read as stays one, unless it only waits for a choice and its extent
is known. -/
theorem isMoving_of_interpret (hfirst : ofIntent? (r.interpret scene line) = some first)
    (hgo : first.verb = .go) :
    first.IsMoving ∨ (first.missing = [.choice] ∧ first.extent.isSome = true) := by
  obtain ⟨hverb, hextent, -, -, question, hclarify, -, hoptions⟩ := of_ofIntent? hfirst
  obtain ⟨i, verb, command, posed, -, hi, hq, rfl⟩ := of_ofIntent?_interpret hfirst
  obtain rfl : verb = .go := hgo
  rcases hq.kind with hchoice | ⟨-, hnil⟩ | ⟨-, -, hne⟩
  · rcases Registry.options_interpret hverb hclarify with hall | hknown
    · exact Or.inl ⟨rfl, hoptions ▸ hall⟩
    · exact Or.inr ⟨hchoice, hextent ▸ hknown⟩
  · exact Or.inl (isMoving_of_nil rfl hnil)
  · exact absurd hi.verb hne

end Pending

/-- **What becomes of an extent under another verb than `go`**: no line that is read has one, and a
resolved intent has one only if it was chosen in place of a movement whose extent was known. -/
theorem Registry.extent_of_other_verb (r : Registry) (scene : Scene) (line : String) :
    ((r.interpret scene line).verb ≠ some .go → (r.interpret scene line).extent = none) ∧
      ∀ (first p : Pending) (now : Scene) (answer : String) (j : Intent),
        Pending.ofIntent? (r.interpret scene line) = some first → Pending.Leads r first p →
        p.answer r now answer = .resolved j → j.verb ≠ some .go →
        (first.verb ≠ .go ∧ j.extent = none) ∨
          (first.verb = .go ∧ first.missing = [.choice] ∧
            ∃ e, first.extent = some e ∧ j.extent = some e) := by
  refine ⟨Registry.extent_interpret, fun first p now answer j hfirst hp hj hverb => ?_⟩
  have hcoherent := Pending.isCoherent_of_interpret r scene line hfirst
  have hknown := Pending.isKnown_of_interpret hfirst
  obtain ⟨hread, hextent, -⟩ := Pending.of_ofIntent? hfirst
  obtain ⟨i, verb, command, question, -, hi, hq, rfl⟩ := Pending.of_ofIntent?_interpret hfirst
  have hcarried := Pending.extent_of_resolved
    ⟨hcoherent, hknown, Pending.isMoving_or_isWeighing hq hi.verb rfl rfl rfl⟩ hp hj hverb
  by_cases hgo : verb = .go
  · subst hgo
    right
    rcases Pending.isMoving_of_interpret hfirst rfl with hmoving | ⟨hchoice, hsome⟩
    · exact absurd (Pending.verb_of_moving_leads hmoving hcoherent hp hj) hverb
    · obtain ⟨e, he⟩ := Option.isSome_iff_exists.mp hsome
      exact ⟨rfl, hchoice, e, he, hcarried.trans he⟩
  · have hother : (r.interpret scene line).verb ≠ some .go :=
      fun hsame => hgo (Option.some.inj (hread.symm.trans hsame))
    exact Or.inl ⟨hgo, hcarried.trans (hextent.trans (Registry.extent_interpret hother))⟩

/-- A long line with a slip in its verb, which may have been meant for `walk` or for `wait`: once
another verb is chosen, one rests for two kilometers. -/
theorem Registry.rest_in_place_of_walk :
    let r := (empty.register { verb := .go, aliases := ["walk"] }).register
      { verb := .rest, aliases := ["wait"], maxArgs := 0 }
    ∃ first j, Pending.ofIntent?
        (r.interpret {} "walt north 2km b c d e f g h i j k l m n o p q r s t") = some first ∧
      first.answer r {} "2" = .resolved j ∧ j.verb = some .rest ∧ j.commandText = "rest 2000m" ∧
      j.extent.isSome = true := by
  intro r
  have hrun : ((Pending.ofIntent?
      (r.interpret {} "walt north 2km b c d e f g h i j k l m n o p q r s t")).any fun first =>
        (first.answer r {} "2").intent?.any fun j =>
          j.verb = some .rest && j.commandText = "rest 2000m" && j.extent.isSome) = true := by
    decide +kernel
  obtain ⟨first, hfirst, hrun⟩ := (Option.any_eq_true _ _).mp hrun
  obtain ⟨j, hj, hrun⟩ := (Option.any_eq_true _ _).mp hrun
  simp only [Bool.and_eq_true, decide_eq_true_eq] at hrun
  obtain ⟨⟨hverb, htext⟩, hextent⟩ := hrun
  exact ⟨first, j, hfirst, Outcome.eq_resolved hj, hverb, htext, hextent⟩

theorem Registry.extent_of_other_verb_rest :
    let r := (empty.register { verb := .go, aliases := ["walk"] }).register
      { verb := .rest, aliases := ["wait"], maxArgs := 0 }
    (r.interpret {} "rest").extent = none ∧
      ∃ first j, Pending.ofIntent?
          (r.interpret {} "walt north 2km b c d e f g h i j k l m n o p q r s t") = some first ∧
        first.answer r {} "2" = .resolved j ∧ j.verb ≠ some .go ∧
        ((first.verb ≠ .go ∧ j.extent = none) ∨
          (first.verb = .go ∧ first.missing = [.choice] ∧
            ∃ e, first.extent = some e ∧ j.extent = some e)) := by
  intro r
  have hrest : (r.interpret {} "rest").verb ≠ some .go := by decide +kernel
  obtain ⟨first, j, hfirst, hj, hverb, -⟩ := rest_in_place_of_walk
  have hverb : j.verb ≠ some .go := by
    rw [hverb]
    decide
  exact ⟨(r.extent_of_other_verb {} "rest").1 hrest, first, j, hfirst, hj, hverb,
    (r.extent_of_other_verb {} _).2 first first {} "2" j hfirst .here hj hverb⟩

/-- The extent of a walk is carried over to the rest that was chosen in its place. -/
theorem Registry.extent_carried_to_rest :
    ¬ ∀ (r : Registry) (scene now : Scene) (line answer : String) (first p : Pending) (j : Intent),
      Pending.ofIntent? (r.interpret scene line) = some first → Pending.Leads r first p →
      p.answer r now answer = .resolved j → j.verb ≠ some .go → j.extent = none := by
  intro hall
  obtain ⟨first, j, hfirst, hj, hverb, -, hsome⟩ := rest_in_place_of_walk
  have hnone := hall _ _ _ _ _ first first j hfirst .here hj (by rw [hverb]; decide)
  rw [hnone] at hsome
  cases hsome

end PlayerCommands
