import PlayerCommands.Proofs.Confirmation

/-!
# What a line changes

A line changes one thing at most.  A meta command sets one part of the scene or shows documents; any
other line either does one intent, or leaves scene and accepted intents alone and may open a
question.  The question that a line answers is taken out of the session first, so no two questions
are ever open at once.

    metaCommand? line = some c → s.handleLine r line = s.handleMeta r c    (handleLine_of_metaCommand)
    isMeta line = false → (s.unasked line).Advances (s.handleLine r line).session
                                                                                (advances_handleLine)

Every handler is followed through `Advances`, which compares a session with the one before it field
by field: what is done keeps both questions, and what is not done opens one of them at most.
-/

namespace PlayerCommands.Session

variable {r : Registry} {s t : Session} {line : String} {i : Intent}

/-! ## Meta commands -/

/-- The meta command of a line, if it is one. -/
def metaCommand? (line : String) : Option MetaCommand :=
  match (Text.trim line).toList with
  | ':' :: text => some (MetaCommand.ofText (String.ofList text))
  | _ => none

theorem handleLine_of_metaCommand {c : MetaCommand} (h : metaCommand? line = some c)
    (r : Registry) (s : Session) : s.handleLine r line = s.handleMeta r c := by
  unfold metaCommand? at h
  split at h
  · next text htext =>
    cases h
    unfold handleLine
    simp only [htext]
  · cases h

theorem isMeta_eq (line : String) : isMeta line = (metaCommand? line).isSome := by
  unfold isMeta metaCommand?
  split
  · next text htext =>
    rw [htext]
    rfl
  · next hother =>
    cases hhead : (Text.trim line).toList with
    | nil => rfl
    | cons c rest =>
      have hc : c ≠ ':' := fun hc => hother rest (hc ▸ hhead)
      simp [hc]

/-- A session with at most one of its settings set anew: one part of the scene, or whether documents
are shown. -/
inductive Sets (s : Session) : Session → Prop
  | nothing : Sets s s
  | nearby (names : List String) : Sets s { s with scene := { s.scene with nearby := names } }
  | inventory (names : List String) :
    Sets s { s with scene := { s.scene with inventory := names } }
  | directions (names : List String) :
    Sets s { s with scene := { s.scene with directions := names } }
  | lastEntity (name : Option String) :
    Sets s { s with scene := { s.scene with lastEntity := name } }
  | documents (shown : Bool) : Sets s { s with showDocuments := shown }

theorem sets_handleMeta (r : Registry) (s : Session) (c : MetaCommand) :
    s.Sets (s.handleMeta r c).session := by
  cases c with
  | help => exact .nothing
  | scene => exact .nothing
  | nearby names => exact .nearby names
  | inventory names => exact .inventory names
  | directions names => exact .directions names
  | last name => exact .lastEntity name
  | documents => exact .documents _
  | quit => exact .nothing
  | unknown name => exact .nothing

/-! ## Other lines -/

/-- At most one question is open. -/
def AsksOnce (s : Session) : Prop := s.pending = none ∨ s.confirming = none

/-- What the session `t` after a line may differ in from `s`, the one in which the question that the
line answers is not open any more. -/
inductive Advances (s t : Session) : Prop
  /-- Nothing was done, and one question was opened at most. -/
  | waits (documents : t.showDocuments = s.showDocuments) (accepted : t.accepted = s.accepted)
      (scene : t.scene = s.scene) (once : t.pending = s.pending ∨ t.confirming = s.confirming)
  /-- One intent was done, and no question was opened. -/
  | does (i : Intent) (documents : t.showDocuments = s.showDocuments)
      (accepted : t.accepted = s.accepted ++ [i]) (scene : t.scene = s.scene.after i)
      (pending : t.pending = s.pending) (confirming : t.confirming = s.confirming)

theorem advances_run (s : Session) (i : Intent) : s.Advances (s.run i).session :=
  .does i rfl rfl rfl rfl rfl

theorem advances_put (s : Session) (p : Pending) : s.Advances (s.put p).session :=
  .waits rfl rfl rfl (Or.inr rfl)

theorem advances_accept (r : Registry) (s : Session) (i : Intent) :
    s.Advances (s.accept r i).session := by
  unfold accept
  split
  · exact .waits rfl rfl rfl (Or.inl rfl)
  · exact s.advances_run i

theorem advances_confirm (r : Registry) (s : Session) (i : Intent) (line : String) :
    s.Advances (s.confirm r i line).session := by
  unfold confirm
  split
  · exact s.advances_accept r _
  · exact .waits rfl rfl rfl (Or.inl rfl)

theorem advances_handleCommand (r : Registry) (s : Session) (line : String) :
    s.Advances (s.handleCommand r line).session := by
  unfold handleCommand
  simp only
  split
  · exact .waits rfl rfl rfl (Or.inr rfl)
  · exact s.advances_accept r _

theorem advances_handleAnswer (r : Registry) (s : Session) (p : Pending) (line : String) :
    s.Advances (s.handleAnswer r p line).session := by
  unfold handleAnswer
  split
  · exact s.advances_accept r _
  · simp only
    split
    · exact s.advances_accept r _
    · exact s.advances_put _
  · exact s.advances_put _
  · exact s.advances_put _
  · exact .waits rfl rfl rfl (Or.inl rfl)

/-- The session without the question that a line answers: the one about a risk, or else the pending
one.  A blank line answers only the former. -/
def unasked (s : Session) (line : String) : Session :=
  match s.confirming with
  | some _ => { s with confirming := none }
  | none => if Text.trim line = "" then s else { s with pending := none }

/-- A blank line does nothing at all unless a risk was asked about. -/
theorem handleLine_of_blank (r : Registry) (hblank : Text.trim line = "")
    (hs : s.confirming = none) : s.handleLine r line = { session := s } := by
  have hmeta : isMeta line = false := by
    unfold isMeta
    rw [hblank]
    rfl
  rw [handleLine_of_not_isMeta r s hmeta, hs]
  simp only [hblank, if_true]

theorem unasked_of_confirming (hi : s.confirming = some i) (line : String) :
    s.unasked line = { s with confirming := none } := by
  unfold unasked
  rw [hi]

theorem unasked_of_not_confirming (hs : s.confirming = none) (line : String) :
    s.unasked line = if Text.trim line = "" then s else { s with pending := none } := by
  unfold unasked
  split
  · next i hi =>
    rw [hs] at hi
    cases hi
  · rfl

theorem advances_handleLine (r : Registry) (s : Session) (hmeta : isMeta line = false) :
    (s.unasked line).Advances (s.handleLine r line).session := by
  rw [handleLine_of_not_isMeta r s hmeta]
  split
  · next i hi =>
    rw [unasked_of_confirming hi]
    exact advances_confirm r _ i _
  · next hs =>
    rw [unasked_of_not_confirming hs]
    split
    · exact .waits rfl rfl rfl (Or.inl rfl)
    · split
      · next p _ => exact advances_handleAnswer r _ p _
      · next hpending =>
        -- no question was taken out
        have hself : { s with pending := none } = s := by rw [← hpending]
        rw [hself]
        exact s.advances_handleCommand r _

theorem unasked_keeps (s : Session) (line : String) :
    (s.unasked line).showDocuments = s.showDocuments ∧
      (s.unasked line).accepted = s.accepted ∧ (s.unasked line).scene = s.scene := by
  unfold unasked
  split
  · exact ⟨rfl, rfl, rfl⟩
  · split <;> exact ⟨rfl, rfl, rfl⟩

/-- Once its question is taken out, a session with one question at most has none left, unless the
line is blank. -/
theorem AsksOnce.unasked (h : s.AsksOnce) (line : String) :
    ((s.unasked line).pending = none ∧ (s.unasked line).confirming = none) ∨
      (Text.trim line = "" ∧ s.confirming = none) := by
  rcases Option.eq_none_or_eq_some s.confirming with hs | ⟨i, hi⟩
  · rw [unasked_of_not_confirming hs]
    split
    · next hblank => exact Or.inr ⟨hblank, hs⟩
    · exact Or.inl ⟨rfl, hs⟩
  · rw [unasked_of_confirming hi]
    rcases h with h | h
    · exact Or.inl ⟨h, rfl⟩
    · rw [hi] at h
      cases h

/-! ## The frame -/

/-- What a line leaves of a session `s`, where `t` is the session after it. -/
structure KeepsFrame (s : Session) (line : String) (t : Session) : Prop where
  /-- A meta command sets one thing at most, none of them a question or an accepted intent. -/
  settings : isMeta line = true → s.Sets t
  /-- No other line shows documents or stops to show them. -/
  documents : isMeta line = false → t.showDocuments = s.showDocuments
  /-- Any other line does nothing, or it does one intent and leaves no question. -/
  acting : isMeta line = false → (t.accepted = s.accepted ∧ t.scene = s.scene) ∨
    ∃ i, t.accepted = s.accepted ++ [i] ∧ t.scene = s.scene.after i ∧
      t.pending = none ∧ t.confirming = none
  /-- No two questions are open. -/
  once : t.AsksOnce
  /-- A blank line changes nothing, unless it drops an intent that was to be confirmed. -/
  blank : Text.trim line = "" → s.confirming = none → t = s

theorem asksOnce_of_sets (h : s.AsksOnce) (hsets : s.Sets t) : t.AsksOnce := by
  cases hsets <;> exact h

theorem asksOnce_handleLine (r : Registry) (h : s.AsksOnce) (line : String) :
    (s.handleLine r line).session.AsksOnce := by
  cases hmeta : isMeta line with
  | true =>
    obtain ⟨c, heq⟩ := handleLine_of_isMeta r s hmeta
    rw [heq]
    exact asksOnce_of_sets h (sets_handleMeta r s c)
  | false =>
    rcases h.unasked line with ⟨hpending, hconfirming⟩ | ⟨hblank, hs⟩
    · cases advances_handleLine r s hmeta with
      | waits _ _ _ once => exact once.imp (·.trans hpending) (·.trans hconfirming)
      | does i _ _ _ pending _ => exact Or.inl (pending.trans hpending)
    · rw [handleLine_of_blank r hblank hs]
      exact h

/-- A line that is no meta command does nothing, or it does one intent and leaves no question. -/
theorem acting_handleLine (r : Registry) (h : s.AsksOnce) (hmeta : isMeta line = false) :
    let t := (s.handleLine r line).session
    (t.accepted = s.accepted ∧ t.scene = s.scene) ∨
      ∃ i, t.accepted = s.accepted ++ [i] ∧ t.scene = s.scene.after i ∧
        t.pending = none ∧ t.confirming = none := by
  intro t
  obtain ⟨-, haccepted, hscene⟩ := s.unasked_keeps line
  rcases h.unasked line with ⟨hpending, hconfirming⟩ | ⟨hblank, hs⟩
  · cases advances_handleLine r s hmeta with
    | waits _ accepted scene _ =>
      exact Or.inl ⟨accepted.trans haccepted, scene.trans hscene⟩
    | does i _ accepted scene pending confirming =>
      rw [haccepted] at accepted
      rw [hscene] at scene
      exact Or.inr ⟨i, accepted, scene, pending.trans hpending, confirming.trans hconfirming⟩
  · have heq : t = s := by
      show (s.handleLine r line).session = s
      rw [handleLine_of_blank r hblank hs]
    rw [heq]
    exact Or.inl ⟨rfl, rfl⟩

theorem documents_handleLine (r : Registry) (s : Session) (hmeta : isMeta line = false) :
    (s.handleLine r line).session.showDocuments = s.showDocuments := by
  obtain ⟨hdocuments, -, -⟩ := s.unasked_keeps line
  cases advances_handleLine r s hmeta with
  | waits documents => exact documents.trans hdocuments
  | does _ documents => exact documents.trans hdocuments

/-- **A line changes one thing at most**, and leaves one question open at most. -/
theorem keepsFrame_handleLine (r : Registry) (h : s.AsksOnce) (line : String) :
    s.KeepsFrame line (s.handleLine r line).session := by
  have hblank : Text.trim line = "" → s.confirming = none →
      (s.handleLine r line).session = s := fun hblank hs => by
    rw [handleLine_of_blank r hblank hs]
  have honce := asksOnce_handleLine r h line
  cases hmeta : isMeta line with
  | true =>
    rw [isMeta_eq, Option.isSome_iff_exists] at hmeta
    obtain ⟨c, hc⟩ := hmeta
    have hsets : s.Sets (s.handleLine r line).session := by
      rw [handleLine_of_metaCommand hc]
      exact sets_handleMeta r s c
    have hmeta : isMeta line ≠ false := by simp [isMeta_eq, hc]
    exact ⟨fun _ => hsets, fun hnot => absurd hnot hmeta, fun hnot => absurd hnot hmeta,
      honce, hblank⟩
  | false =>
    have hnot : isMeta line ≠ true := by simp [hmeta]
    exact ⟨fun hm => absurd hm hnot, fun _ => documents_handleLine r s hmeta,
      fun _ => acting_handleLine r h hmeta, honce, hblank⟩

/-- A risky intent is confirmed. -/
theorem keepsFrame_handleLine_yes :
    let r := Registry.empty.register { verb := .eat, risky := true }
    let s : Session := { confirming := some (Intent.forVerb .eat ["moss"] 1) }
    s.AsksOnce ∧ s.KeepsFrame "yes" (s.handleLine r "yes").session := by
  intro r s
  have h : s.AsksOnce := Or.inl rfl
  exact ⟨h, keepsFrame_handleLine r h "yes"⟩

end PlayerCommands.Session
