import Mathlib.Data.List.Induction
import PlayerCommands.Proofs.Acceptance

/-!
# Confirming a risk

A risky intent is done only after the player has said yes to it, on the first line after the
question that is not a meta command.  Nothing else confirms a risk: neither a line nor a dialogue
makes an intent that is confirmed already.  Any other line drops the intent and leaves the rest of
the session as it was.

    (s.handleLine r line).session is that of a meta command,
    or `s` with the answer to a confirmation taken,
    or `s` after a line that proceeds without one                            (handleLine_cases)
    s.confirming = some i → i was asked about, and only meta commands followed
                                                                           (isCautious_afterLines)
-/

namespace PlayerCommands

variable {r : Registry} {scene : Scene} {line : String} {i : Intent}

/-! ## Unconfirmed intents -/

theorem Registry.riskConfirmed_interpret (r : Registry) (scene : Scene) (line : String) :
    (r.interpret scene line).riskConfirmed = false := by
  rcases r.interpret_cases scene line with
    heq | ⟨i, v, command, -, hi, ⟨q, c, heq, -⟩ | ⟨heq, -⟩⟩
  · rw [heq]
    rfl
  · rw [heq]
    exact hi.unconfirmed
  · rw [heq]
    exact hi.unconfirmed

theorem Pending.riskConfirmed_of_finish {p : Pending} {score : Score}
    (h : p.finish r score = .resolved i) : i.riskConfirmed = false := by
  obtain ⟨-, rfl⟩ := of_finish_resolved h
  rfl

theorem Pending.riskConfirmed_of_answer {p : Pending} (h : p.answer r scene line = .resolved i) :
    i.riskConfirmed = false := by
  unfold answer at h
  split at h
  · cases h
  · split at h
    · exact riskConfirmed_of_finish h
    · unfold settle at h
      split at h
      · exact riskConfirmed_of_finish h
      · exact riskConfirmed_of_finish h
      · cases h
      · cases h

namespace Session

variable {s : Session}

/-! ## One line -/

/-- A line that starts with a colon, blanks before it apart. -/
def isMeta (line : String) : Bool := (Text.trim line).toList.head? = some ':'

theorem handleLine_of_isMeta (r : Registry) (s : Session) (h : isMeta line = true) :
    ∃ command, s.handleLine r line = s.handleMeta r command := by
  obtain ⟨text, htext⟩ := List.head?_eq_some_iff.mp (of_decide_eq_true h)
  unfold handleLine
  simp only [htext]
  exact ⟨_, rfl⟩

theorem handleLine_of_not_isMeta (r : Registry) (s : Session) (h : isMeta line = false) :
    s.handleLine r line =
      match s.confirming with
      | some i => { s with confirming := none }.confirm r i (Text.trim line)
      | none =>
        if Text.trim line = "" then { session := s }
        else
          match s.pending with
          | some p => { s with pending := none }.handleAnswer r p (Text.trim line)
          | none => s.handleCommand r (Text.trim line) := by
  unfold handleLine
  simp only
  split
  · next text htext =>
    simp [isMeta, htext] at h
  · rfl

/-- A confirmed intent is done, any other answer drops it. -/
theorem confirm_eq (r : Registry) (s : Session) (i : Intent) (line : String) :
    s.confirm r i line =
      if isYes (Text.normalize line) then s.run i.confirmRisk
      else { session := s, notices := [.refused] } := by
  unfold confirm accept
  simp [Intent.confirmRisk]

/-- What a line may lead to where no confirmation is waited for and the intents `before` have been
accepted.  No intent is confirmed. -/
inductive Proceeds (r : Registry) (before : List Intent) (t : Reaction) : Prop
  | quietly (accepted : t.session.accepted = before) (confirming : t.session.confirming = none)
  | asking {i : Intent} (unconfirmed : i.riskConfirmed = false)
      (accepted : t.session.accepted = before) (confirming : t.session.confirming = some i)
      (notice : .confirm i ∈ t.notices)
  | doing {i : Intent} (unconfirmed : i.riskConfirmed = false) (safe : isRisky r i = false)
      (accepted : t.session.accepted = before ++ [i]) (confirming : t.session.confirming = none)

theorem proceeds_acceptShown (hs : s.confirming = none) (hi : i.riskConfirmed = false) :
    Proceeds r s.accepted (s.acceptShown r i) := by
  unfold acceptShown accept
  simp only [hi, Bool.not_false, Bool.and_true]
  cases hrisky : isRisky r i with
  | true => exact .asking hi rfl rfl (List.mem_append_right _ List.mem_cons_self)
  | false => exact .doing hi hrisky rfl hs

theorem proceeds_handleCommand (hs : s.confirming = none) (line : String) :
    Proceeds r s.accepted (s.handleCommand r line) := by
  unfold handleCommand
  simp only
  split
  · exact .quietly rfl hs
  · exact proceeds_acceptShown hs (r.riskConfirmed_interpret _ _)

theorem proceeds_handleAnswer (hs : s.confirming = none) (p : Pending) (line : String) :
    Proceeds r s.accepted (s.handleAnswer r p line) := by
  unfold handleAnswer
  split
  · next i hresolved => exact proceeds_acceptShown hs (Pending.riskConfirmed_of_answer hresolved)
  · simp only
    split
    · exact proceeds_acceptShown hs (r.riskConfirmed_interpret _ _)
    · exact .quietly rfl hs
  · exact .quietly rfl hs
  · exact .quietly rfl hs
  · exact .quietly rfl hs

theorem handleLine_of_confirming (r : Registry) (hmeta : isMeta line = false)
    (hi : s.confirming = some i) :
    s.handleLine r line =
      if isYes (Text.normalize line) then { s with confirming := none }.run i.confirmRisk
      else { session := { s with confirming := none }, notices := [.refused] } := by
  rw [handleLine_of_not_isMeta r s hmeta]
  split
  · next j hj =>
    obtain rfl : i = j := Option.some.inj (hi.symm.trans hj)
    rw [confirm_eq, Text.normalize_trim]
  · next hnone =>
    rw [hi] at hnone
    cases hnone

theorem proceeds_handleLine (r : Registry) (hmeta : isMeta line = false)
    (hs : s.confirming = none) : Proceeds r s.accepted (s.handleLine r line) := by
  rw [handleLine_of_not_isMeta r s hmeta]
  split
  · next i hi =>
    rw [hs] at hi
    cases hi
  · split
    · exact .quietly rfl hs
    · split
      · next p _ => exact proceeds_handleAnswer (s := { s with pending := none }) hs p _
      · exact proceeds_handleCommand hs _

/-- All that a line can do: carry out a meta command, answer a confirmation, or proceed. -/
theorem handleLine_cases (r : Registry) (s : Session) (line : String) :
    (isMeta line = true ∧ ∃ command, s.handleLine r line = s.handleMeta r command) ∨
      (isMeta line = false ∧ ∃ i, s.confirming = some i ∧
        s.handleLine r line =
          if isYes (Text.normalize line) then { s with confirming := none }.run i.confirmRisk
          else { session := { s with confirming := none }, notices := [.refused] }) ∨
      (isMeta line = false ∧ s.confirming = none ∧
        Proceeds r s.accepted (s.handleLine r line)) := by
  cases hmeta : isMeta line with
  | true => exact Or.inl ⟨rfl, handleLine_of_isMeta r s hmeta⟩
  | false =>
    right
    rcases Option.eq_none_or_eq_some s.confirming with hs | ⟨i, hi⟩
    · exact Or.inr ⟨rfl, hs, proceeds_handleLine r hmeta hs⟩
    · exact Or.inl ⟨rfl, i, hi, handleLine_of_confirming r hmeta hi⟩

/-! ## Runs -/

/-- The player was asked to confirm the intent, and only meta commands followed. -/
def WasAsked (r : Registry) (s : Session) (lines : List String) (i : Intent) : Prop :=
  ∃ before asked metas, lines = before ++ asked :: metas ∧ isMeta asked = false ∧
    (∀ line ∈ metas, isMeta line = true) ∧
    .confirm i ∈ ((afterLines r s before).handleLine r asked).notices ∧
    ((afterLines r s before).handleLine r asked).session.confirming = some i

theorem WasAsked.append {lines : List String} (h : WasAsked r s lines i)
    (hmeta : isMeta line = true) : WasAsked r s (lines ++ [line]) i := by
  obtain ⟨before, asked, metas, rfl, hasked, hmetas, hasks⟩ := h
  refine ⟨before, asked, metas ++ [line], by simp, hasked, fun l hl => ?_, hasks⟩
  rcases List.mem_append.mp hl with hl | hl
  · exact hmetas l hl
  · rw [List.mem_singleton.mp hl]
    exact hmeta

theorem afterLines_append_singleton (r : Registry) (s : Session) (lines : List String)
    (line : String) :
    afterLines r s (lines ++ [line]) = ((afterLines r s lines).handleLine r line).session := by
  simp [afterLines]

/-- What holds of a session `t` that some lines have led to from `s`: no risky intent is accepted
unconfirmed, and an intent to be confirmed is the last one that was asked about. -/
structure IsCautious (r : Registry) (s : Session) (lines : List String) (t : Session) : Prop where
  accepted : ∀ i ∈ t.accepted, isRisky r i = true → i.riskConfirmed = true
  confirming : ∀ i, t.confirming = some i → i.riskConfirmed = false ∧ WasAsked r s lines i

theorem handleMeta_keeps (r : Registry) (s : Session) (command : MetaCommand) :
    (s.handleMeta r command).session.accepted = s.accepted ∧
      (s.handleMeta r command).session.confirming = s.confirming := by
  cases command <;> exact ⟨rfl, rfl⟩

/-- One more line leaves a session cautious. -/
theorem isCautious_append {lines : List String} (line : String)
    (h : IsCautious r s lines (afterLines r s lines)) :
    IsCautious r s (lines ++ [line]) (afterLines r s (lines ++ [line])) := by
  rw [afterLines_append_singleton]
  rcases handleLine_cases r (afterLines r s lines) line with
    ⟨hmeta, command, heq⟩ | ⟨hmeta, j, hj, heq⟩ | ⟨hmeta, hnone, hproceeds⟩
  · obtain ⟨haccepted, hconfirming⟩ := handleMeta_keeps r (afterLines r s lines) command
    rw [heq]
    refine ⟨fun i hi => h.accepted i (haccepted ▸ hi), fun i hi => ?_⟩
    obtain ⟨hunconfirmed, hasked⟩ := h.confirming i (hconfirming ▸ hi)
    exact ⟨hunconfirmed, hasked.append hmeta⟩
  · rw [heq]
    split
    · refine ⟨fun i hi _ => ?_, fun i hi => (by cases hi)⟩
      rcases List.mem_append.mp hi with hi | hi
      · exact h.accepted i hi ‹_›
      · rw [List.mem_singleton.mp hi]
        rfl
    · exact ⟨h.accepted, fun i hi => (by cases hi)⟩
  · cases hproceeds with
    | quietly accepted confirming =>
      refine ⟨fun i hi => h.accepted i (accepted ▸ hi), fun i hi => ?_⟩
      rw [confirming] at hi
      cases hi
    | @asking j unconfirmed accepted confirming notice =>
      refine ⟨fun i hi => h.accepted i (accepted ▸ hi), fun i hi => ?_⟩
      -- this line is the one that asks, and nothing has followed yet
      obtain rfl : j = i := Option.some.inj (confirming.symm.trans hi)
      exact ⟨unconfirmed, lines, line, [], rfl, hmeta, fun _ hl => (by cases hl), notice,
        confirming⟩
    | doing unconfirmed safe accepted confirming =>
      -- what is done at once is not risky
      refine ⟨fun i hi hrisky => ?_, fun i hi => ?_⟩
      · rw [accepted] at hi
        rcases List.mem_append.mp hi with hi | hi
        · exact h.accepted i hi hrisky
        · rw [List.mem_singleton.mp hi, safe] at hrisky
          cases hrisky
      · rw [confirming] at hi
        cases hi

theorem isCautious_afterLines (r : Registry) (scene : Scene) (lines : List String) :
    IsCautious r { scene } lines (afterLines r { scene } lines) := by
  induction lines using List.reverseRecOn with
  | nil => exact ⟨fun _ hi => (by cases hi), fun _ hi => (by cases hi)⟩
  | append_singleton lines line ih => exact isCautious_append line ih

/-! ## Confirmed intents -/

/-- The line says yes to the intent that waits to be confirmed, which was not confirmed so far. -/
structure SaysYes (s : Session) (line : String) (i : Intent) : Prop where
  plain : isMeta line = false
  yes : isYes (Text.normalize line) = true
  waits : s.confirming = some i
  unconfirmed : i.riskConfirmed = false

/-- A line appends to the accepted intents, and a confirmed one only by saying yes to it. -/
theorem exists_appended (s : Session) (line : String)
    (h : ∀ i, s.confirming = some i → i.riskConfirmed = false) :
    ∃ new, (s.handleLine r line).session.accepted = s.accepted ++ new ∧
      ∀ i ∈ new, i.riskConfirmed = true → ∃ j, s.SaysYes line j ∧ i = j.confirmRisk := by
  rcases handleLine_cases r s line with
    ⟨-, command, heq⟩ | ⟨hmeta, j, hj, heq⟩ | ⟨-, -, hproceeds⟩
  · rw [heq, (handleMeta_keeps r s command).1]
    exact ⟨[], by simp, fun _ hi => (by cases hi)⟩
  · rw [heq]
    split
    · next hyes =>
      refine ⟨[j.confirmRisk], rfl, fun i hi _ => ?_⟩
      exact ⟨j, ⟨hmeta, hyes, hj, h j hj⟩, List.mem_singleton.mp hi⟩
    · exact ⟨[], by simp, fun _ hi => (by cases hi)⟩
  · cases hproceeds with
    | quietly accepted confirming => exact ⟨[], by simp [accepted], fun _ hi => (by cases hi)⟩
    | asking unconfirmed accepted confirming notice =>
      exact ⟨[], by simp [accepted], fun _ hi => (by cases hi)⟩
    | @doing j unconfirmed safe accepted confirming =>
      refine ⟨[j], accepted, fun i hi hconfirmed => ?_⟩
      rw [List.mem_singleton.mp hi, unconfirmed] at hconfirmed
      cases hconfirmed

/-- **A risky intent is done only after a yes**: whatever lines came before, every accepted one is
confirmed; a line accepts a confirmed intent only by saying yes to it, as the first line after the
question that is not a meta command; and any other such line just drops the question. -/
theorem risky_only_confirmed (r : Registry) (scene : Scene) (lines : List String) (line : String) :
    let s := afterLines r { scene } lines
    let t := (s.handleLine r line).session
    (∀ i ∈ s.accepted, isRisky r i = true → i.riskConfirmed = true) ∧
      (∃ new, t.accepted = s.accepted ++ new ∧ ∀ i ∈ new, i.riskConfirmed = true →
        ∃ j, s.SaysYes line j ∧ i = j.confirmRisk ∧ WasAsked r { scene } lines j) ∧
      ∀ i, s.confirming = some i → isMeta line = false → isYes (Text.normalize line) = false →
        t = { s with confirming := none } := by
  intro s t
  have hs : IsCautious r { scene } lines s := isCautious_afterLines r scene lines
  refine ⟨hs.accepted, ?_, fun i hi hmeta hno => ?_⟩
  · obtain ⟨new, hnew, hconfirmed⟩ :=
      exists_appended (r := r) s line fun i hi => (hs.confirming i hi).1
    refine ⟨new, hnew, fun i hi hrisk => ?_⟩
    obtain ⟨j, hyes, rfl⟩ := hconfirmed i hi hrisk
    exact ⟨j, hyes, rfl, (hs.confirming j hyes.waits).2⟩
  · show (s.handleLine r line).session = _
    rw [handleLine_of_confirming r hmeta hi, if_neg (by simp [hno])]

example :
    (afterLines (Registry.empty.register { verb := .eat, risky := true }) {}
      ["eat moss", "no", "eat moss", ":json", "yes"]).accepted.map (·.riskConfirmed) = [true] := by
  decide +kernel

end Session

end PlayerCommands
