import PlayerCommands.Proofs.Movement
import PlayerCommands.Proofs.Retention

/-!
# Dialogues that come to an end

An accepted answer brings a dialogue closer to its end.  What is left to ask never grows by a
rejected answer and shrinks by an accepted one, so that two answers are followed by another question
at most, and the third one resolves the intent, wherever each of them is given.  Only an answer that
is unclear itself may raise a further question.

    p.answer r scene line = .awaitingMore q → q.answersLeft < p.answersLeft
                                                                     (answersLeft_of_awaitingMore)
    p.Reachable → no outcome is escalated →
      (p.outcomes turns).countP isAccepted ≤ 3                              (closes_of_reachable)

A choice may switch to a movement that has neither a direction nor an extent yet, so it is counted
as all three answers; so is a target, since a pronoun may stand for a direction.
-/

namespace PlayerCommands

/-! ## Runs of answers -/

/-- An answer, the commands that are registered when it is given, and where the player stands. -/
structure Turn where
  registry : Registry
  scene : Scene
  line : String

namespace Outcome

/-- A field was filled and another one is asked for. -/
def isAwaiting : Outcome → Bool
  | .awaitingMore _ => true
  | .resolved _ | .retry _ | .cancelled | .escalated _ => false

/-- The answer was taken, and nothing was asked about the answer itself. -/
def isAccepted : Outcome → Bool
  | .awaitingMore _ | .resolved _ => true
  | .retry _ | .cancelled | .escalated _ => false

def isEscalated : Outcome → Bool
  | .escalated _ => true
  | .awaitingMore _ | .resolved _ | .retry _ | .cancelled => false

/-- What leaves something to ask is accepted only as long as it asks for another field. -/
theorem isAccepted_eq_isAwaiting {o : Outcome} {q : Pending} (h : o.pending? = some q) :
    o.isAccepted = o.isAwaiting := by
  cases o with
  | resolved i => cases h
  | _ => rfl

end Outcome

namespace Pending

/-- The outcomes of one answer after the other, until nothing is left to ask. -/
def outcomes : Pending → List Turn → List Outcome
  | _, [] => []
  | p, turn :: rest =>
    let outcome := p.answer turn.registry turn.scene turn.line
    outcome :: match outcome.pending? with
      | some q => q.outcomes rest
      | none => []

/-- How many more answers can be accepted.  Between a direction and an extent it is the slots that
count, also those that are not asked for yet. -/
def answersLeft (p : Pending) : Nat :=
  match p.next? with
  | none => 0
  | some .choice | some .target => 3
  | some .direction | some .extent => (Field.unfilled p.args p.extent).length

variable {r : Registry} {scene : Scene} {line : String} {p next q : Pending} {field : Field}
  {score : Score} {turns : List Turn}

/-! ## What is left to answer -/

theorem length_unfilled_le (args : List String) (extent : Option Extent) :
    (Field.unfilled args extent).length ≤ 2 := by
  unfold Field.unfilled
  split <;> split <;> decide

/-- Another extent leaves no more to fill. -/
theorem length_unfilled_mono (args : List String) {extent other : Option Extent}
    (h : extent.isSome = true → other.isSome = true) :
    (Field.unfilled args other).length ≤ (Field.unfilled args extent).length := by
  cases extent with
  | some e =>
    obtain ⟨e', rfl⟩ := Option.isSome_iff_exists.mp (h rfl)
    exact Nat.le_refl _
  | none => cases other <;> simp [Field.unfilled]

theorem answersLeft_of_slot (hfield : p.next? = some field)
    (hslot : field = .direction ∨ field = .extent) :
    p.answersLeft = (Field.unfilled p.args p.extent).length := by
  unfold answersLeft
  rw [hfield]
  rcases hslot with rfl | rfl <;> rfl

theorem answersLeft_of_name (hfield : p.next? = some field)
    (hname : field = .choice ∨ field = .target) : p.answersLeft = 3 := by
  unfold answersLeft
  rw [hfield]
  rcases hname with rfl | rfl <;> rfl

theorem answersLeft_le (p : Pending) : p.answersLeft ≤ 3 := by
  have hslots := length_unfilled_le p.args p.extent
  unfold answersLeft
  split <;> omega

/-- Something is left as long as something is asked. -/
theorem IsCoherent.answersLeft_pos (h : p.IsCoherent) : 0 < p.answersLeft := by
  obtain ⟨field, rest, hmissing⟩ := List.exists_cons_of_ne_nil h.waits
  have hfield : p.next? = some field := by
    unfold next?
    rw [hmissing]
    rfl
  have hmem : field ∈ p.missing := List.mem_of_mem_head? hfield
  cases field with
  | choice => simp [answersLeft, hfield]
  | target => simp [answersLeft, hfield]
  | direction =>
    rw [answersLeft_of_slot hfield (Or.inl rfl), (h.direction hmem).2]
    simp [Field.unfilled]
  | extent =>
    rw [answersLeft_of_slot hfield (Or.inr rfl), h.extent hmem]
    simp [Field.unfilled]

/-! ## Steps -/

/-- A rejected answer leaves no more to answer. -/
theorem answersLeft_of_retry (hq : p.answer r scene line = .retry q) :
    q.answersLeft ≤ p.answersLeft := by
  have hagain := putsAgain_of_retry hq
  unfold answersLeft
  rw [hagain.next, hagain.args]
  split
  · exact Nat.le_refl _
  · exact Nat.le_refl _
  · exact Nat.le_refl _
  · exact length_unfilled_mono _ hagain.fields.isSome_extent
  · exact length_unfilled_mono _ hagain.fields.isSome_extent

/-- Where only a movement can be asked about, its open slots are what is left. -/
theorem answersLeft_of_finish (hopen : p.IsOpen) (hq : (p.finish r score).pending? = some q) :
    q.answersLeft = (Field.unfilled p.args p.extent).length := by
  obtain ⟨field, hfield, rfl⟩ := of_pending?_finish hq
  exact answersLeft_of_slot hfield (hopen.requireMovement field (List.mem_of_mem_head? hfield))

/-- A filled field leaves fewer slots open than there were answers left. -/
theorem IsCoherent.slots_of_filled (h : p.IsCoherent) (hfield : p.next? = some field)
    (hreply : p.Replies field (.filled next score)) :
    (Field.unfilled next.args next.extent).length < p.answersLeft := by
  have hmem : field ∈ p.missing := List.mem_of_mem_head? hfield
  cases hreply with
  | direction amends name scored =>
    rw [answersLeft_of_slot hfield (Or.inl rfl), (h.direction hmem).2]
    exact Nat.lt_of_le_of_lt (length_unfilled_mono [name] amends.retains.extent)
      (by simp [Field.unfilled])
  | extent real =>
    rw [answersLeft_of_slot hfield (Or.inr rfl), h.extent hmem]
    simp [Field.unfilled, takeExtent, without]
  | both waiting name real =>
    rw [answersLeft_of_slot hfield (Or.inr rfl), h.extent hmem]
    show (Field.unfilled [name] (some _)).length < _
    simp [Field.unfilled]
  | target scored given =>
    rw [answersLeft_of_name hfield (Or.inr rfl)]
    exact Nat.lt_succ_of_le (length_unfilled_le _ _)

/-- **An accepted answer leaves less to answer.** -/
theorem answersLeft_of_awaitingMore (h : p.IsCoherent)
    (hq : p.answer r scene line = .awaitingMore q) : q.answersLeft < p.answersLeft := by
  rcases h.answer_cases r scene line with heq | ⟨field, reply, hfield, hreply, heq⟩
  · cases heq.symm.trans hq
  · rw [heq] at hq
    cases reply with
    | filled next score =>
      obtain ⟨-, hopen, -⟩ := h.filled hfield hreply
      have hslots := answersLeft_of_finish hopen (congrArg Outcome.pending? hq)
      have hless := h.slots_of_filled hfield hreply
      exact Nat.lt_of_le_of_lt (Nat.le_of_eq hslots) hless
    | chosen option =>
      cases hreply with
      | choice offered =>
        obtain ⟨-, hopen⟩ := h.choose hfield offered
        rw [answersLeft_of_finish hopen (congrArg Outcome.pending? hq),
          answersLeft_of_name hfield (Or.inl rfl)]
        exact Nat.lt_succ_of_le (length_unfilled_le _ _)
    | again next prompt => cases hq
    | asks next question => cases hq

/-! ## Dialogues without new questions -/

theorem outcomes_cons (p : Pending) (turn : Turn) (rest : List Turn) :
    p.outcomes (turn :: rest) = p.answer turn.registry turn.scene turn.line ::
      match (p.answer turn.registry turn.scene turn.line).pending? with
      | some q => q.outcomes rest
      | none => [] := rfl

/-- Fewer answers are accepted and followed by another question than there are answers left. -/
theorem IsCoherent.countP_isAwaiting_lt (h : p.IsCoherent)
    (hnone : ∀ o ∈ p.outcomes turns, o.isEscalated = false) :
    (p.outcomes turns).countP Outcome.isAwaiting < p.answersLeft := by
  induction turns generalizing p with
  | nil => exact h.answersLeft_pos
  | cons turn rest ih =>
    rw [outcomes_cons] at hnone ⊢
    cases hanswer : p.answer turn.registry turn.scene turn.line with
    | resolved i => exact h.answersLeft_pos
    | cancelled => exact h.answersLeft_pos
    | escalated q =>
      rw [hanswer] at hnone
      cases hnone _ List.mem_cons_self
    | retry q =>
      rw [hanswer] at hnone
      have hq := isCoherent_answer h _ _ _ (congrArg Outcome.pending? hanswer)
      have hrest := ih hq fun o ho => hnone o (List.mem_cons_of_mem _ ho)
      rw [List.countP_cons_of_neg Bool.false_ne_true]
      exact Nat.lt_of_lt_of_le hrest (answersLeft_of_retry hanswer)
    | awaitingMore q =>
      rw [hanswer] at hnone
      have hq := isCoherent_answer h _ _ _ (congrArg Outcome.pending? hanswer)
      have hrest := ih hq fun o ho => hnone o (List.mem_cons_of_mem _ ho)
      have hless := answersLeft_of_awaitingMore h hanswer
      rw [List.countP_cons_of_pos rfl]
      exact Nat.lt_of_le_of_lt hrest hless

/-- An answer that is accepted and followed by no question resolves the intent. -/
theorem countP_isAccepted (p : Pending) (turns : List Turn) :
    (p.outcomes turns).countP Outcome.isAccepted = (p.outcomes turns).countP Outcome.isAwaiting ∨
      (p.outcomes turns).countP Outcome.isAccepted =
          (p.outcomes turns).countP Outcome.isAwaiting + 1 ∧
        ∃ i, (p.outcomes turns).getLast? = some (.resolved i) := by
  induction turns generalizing p with
  | nil => exact Or.inl rfl
  | cons turn rest ih =>
    rw [outcomes_cons]
    cases hpending : (p.answer turn.registry turn.scene turn.line).pending? with
    | none =>
      cases hanswer : p.answer turn.registry turn.scene turn.line with
      | resolved i => exact Or.inr ⟨rfl, i, rfl⟩
      | cancelled => exact Or.inl rfl
      | _ =>
        rw [hanswer] at hpending
        cases hpending
    | some q =>
      simp only [List.countP_cons, Outcome.isAccepted_eq_isAwaiting hpending]
      rcases ih q with heq | ⟨heq, i, hlast⟩
      · exact Or.inl (by rw [heq])
      · refine Or.inr ⟨by rw [heq, Nat.add_right_comm], i, ?_⟩
        rw [List.getLast?_cons, hlast]
        rfl

/-- **A dialogue in which no answer is unclear itself comes to an end**: two accepted answers are
followed by another question at most, and the third one resolves the intent. -/
theorem closes_of_reachable (h : p.Reachable) (turns : List Turn)
    (hnone : ∀ o ∈ p.outcomes turns, o.isEscalated = false) :
    (p.outcomes turns).countP Outcome.isAwaiting ≤ 2 ∧
      (p.outcomes turns).countP Outcome.isAccepted ≤ 3 ∧
      ((p.outcomes turns).countP Outcome.isAccepted = 3 →
        ∃ i, (p.outcomes turns).getLast? = some (.resolved i)) := by
  have hawaiting := (isCoherent_of_reachable h).countP_isAwaiting_lt hnone
  have hleft := p.answersLeft_le
  rcases p.countP_isAccepted turns with heq | ⟨heq, hresolved⟩
  · exact ⟨by omega, by omega, fun h => (by omega)⟩
  · exact ⟨by omega, by omega, fun _ => hresolved⟩

/-- A choice, a direction and an extent are three answers. -/
theorem closes_of_reachable_heat :
    let r := (Registry.empty.register { verb := .eat, maxArgs := 0 }).register
      { verb := .go, aliases := ["head"] }
    let scene : Scene := { directions := ["north"] }
    let line := "heat up so we do not sit by an old oak or in ice as my dog or my cat is on us"
    let turns := ["2", "north", "2km"].map fun line => Turn.mk r scene line
    ∃ p, ofIntent? (r.interpret scene line) = some p ∧
      (p.outcomes turns).countP Outcome.isAwaiting = 2 ∧
      (p.outcomes turns).countP Outcome.isAccepted = 3 ∧
      ∃ i, (p.outcomes turns).getLast? = some (.resolved i) := by
  intro r scene line turns
  have hrun : ((ofIntent? (r.interpret scene line)).any fun p =>
      (p.outcomes turns).all (! ·.isEscalated) &&
        (p.outcomes turns).countP Outcome.isAwaiting = 2 &&
        (p.outcomes turns).countP Outcome.isAccepted = 3) = true := by
    decide +kernel
  obtain ⟨p, hp, hrun⟩ := (Option.any_eq_true _ _).mp hrun
  simp only [Bool.and_eq_true, decide_eq_true_eq, List.all_eq_true, Bool.not_eq_true'] at hrun
  obtain ⟨⟨hnone, hawaiting⟩, haccepted⟩ := hrun
  obtain ⟨-, -, hresolved⟩ := closes_of_reachable (.asked _ _ _ hp) turns hnone
  exact ⟨p, hp, hawaiting, haccepted, hresolved haccepted⟩

end Pending

end PlayerCommands
