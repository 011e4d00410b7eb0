import PlayerCommands.Proofs.Frame

/-!
# Things are conserved

Nothing that lies nearby or is carried is lost or doubled, and nothing comes in, unless the player
sets one of the two lists by a meta command.  A line moves one entry at most, and only by an intent
that it has just accepted: taking moves the first entry of that name from nearby to the end of the
inventory, and dropping moves one back.

    setsThings line = false → s.MovesAtMostOne (s.handleLine r line).session
                                                                          (movesAtMostOne_handleLine)
    (∀ line ∈ lines, setsThings line = false) →
      (afterLines r s lines).scene.things.Perm s.scene.things             (things_conserved)

Entries are compared by their normal form, and they keep the spelling in which they came.
-/

namespace PlayerCommands

namespace Scene

variable {name entry : String} {entries others : List String}

/-- What lies nearby and what is carried, as it was entered. -/
def things (s : Scene) : List String := s.nearby ++ s.inventory

/-! ## One entry -/

/-- An entry of that name has left one list and stands at the end of the other.  All other entries
are where they were, in the same order. -/
def Moves (name : String) (source target source' target' : List String) : Prop :=
  ∃ before entry after, source = before ++ entry :: after ∧ Text.normalize entry = name ∧
    source' = before ++ after ∧ target' = target ++ [entry]

theorem moves_moveEntry (name : String) (source target : List String) :
    moveEntry name source target = (source, target) ∨
      Moves name source target (moveEntry name source target).1
        (moveEntry name source target).2 := by
  rcases h : takeOut name source with _ | ⟨entry, others⟩
  · exact Or.inl (by simp [moveEntry, h])
  · obtain ⟨hname, before, after, hsource, hothers⟩ := split_of_takeOut h
    refine Or.inr ⟨before, entry, after, hsource, hname, ?_, ?_⟩
    · simp [moveEntry, h, hothers]
    · simp [moveEntry, h]

/-! ## One intent -/

/-- All that an intent does to the things of a scene. -/
theorem after_cases (s : Scene) (i : Intent) :
    ((s.after i).nearby = s.nearby ∧ (s.after i).inventory = s.inventory) ∨
      (∃ name others, i.verb = some .take ∧ i.args = name :: others ∧
        ((s.after i).nearby, (s.after i).inventory) = moveEntry name s.nearby s.inventory) ∨
      ∃ name others, i.verb = some .drop ∧ i.args = name :: others ∧
        ((s.after i).inventory, (s.after i).nearby) = moveEntry name s.inventory s.nearby := by
  unfold after
  split
  · next verb name others hverb hargs =>
    split
    · simp only
      split
      · exact Or.inr (Or.inl ⟨name, others, hverb, hargs, rfl⟩)
      · exact Or.inr (Or.inr ⟨name, others, hverb, hargs, rfl⟩)
      · exact Or.inl ⟨rfl, rfl⟩
    · exact Or.inl ⟨rfl, rfl⟩
  · exact Or.inl ⟨rfl, rfl⟩

/-- The intent has moved the thing that its first argument names: into the inventory by taking it,
or out of it by dropping it. -/
inductive MovesOne (i : Intent) (s t : Scene) : Prop
  | taken (name : String) (others : List String) (verb : i.verb = some .take)
      (args : i.args = name :: others)
      (moves : Moves name s.nearby s.inventory t.nearby t.inventory)
  | dropped (name : String) (others : List String) (verb : i.verb = some .drop)
      (args : i.args = name :: others)
      (moves : Moves name s.inventory s.nearby t.inventory t.nearby)

theorem movesOne_after (s : Scene) (i : Intent) :
    ((s.after i).nearby = s.nearby ∧ (s.after i).inventory = s.inventory) ∨
      MovesOne i s (s.after i) := by
  rcases s.after_cases i with hsame | ⟨name, others, hverb, hargs, heq⟩ |
    ⟨name, others, hverb, hargs, heq⟩
  · exact Or.inl hsame
  · rcases moves_moveEntry name s.nearby s.inventory with hnone | hmoves
    · exact Or.inl (Prod.mk.inj (heq.trans hnone))
    · rw [← heq] at hmoves
      exact Or.inr (.taken name others hverb hargs hmoves)
  · rcases moves_moveEntry name s.inventory s.nearby with hnone | hmoves
    · exact Or.inl (Prod.mk.inj (heq.trans hnone)).symm
    · rw [← heq] at hmoves
      exact Or.inr (.dropped name others hverb hargs hmoves)

theorem perm_things_after (s : Scene) (i : Intent) : (s.after i).things.Perm s.things := by
  unfold things
  rcases s.after_cases i with ⟨hnearby, hinventory⟩ | ⟨name, others, -, -, heq⟩ |
    ⟨name, others, -, -, heq⟩
  · rw [hnearby, hinventory]
  · have hperm := perm_moveEntry name s.nearby s.inventory
    rw [← heq] at hperm
    exact hperm
  · have hperm := perm_moveEntry name s.inventory s.nearby
    rw [← heq] at hperm
    exact (List.perm_append_comm.trans hperm).trans List.perm_append_comm

end Scene

namespace Session

variable {r : Registry} {s : Session} {line : String} {lines : List String}

/-! ## One line -/

/-- A meta command that sets what lies nearby or what is carried. -/
def setsThings (line : String) : Bool :=
  match metaCommand? line with
  | some (.nearby _) => true
  | some (.inventory _) => true
  | _ => false

/-- Between two lines nothing has moved, or one thing has, by an intent accepted just now. -/
def MovesAtMostOne (s t : Session) : Prop :=
  (t.scene.nearby = s.scene.nearby ∧ t.scene.inventory = s.scene.inventory) ∨
    ∃ i, t.accepted = s.accepted ++ [i] ∧ Scene.MovesOne i s.scene t.scene

/-- Unless it sets the things, a line leaves them or does one intent. -/
theorem things_handleLine (r : Registry) (s : Session) (h : setsThings line = false) :
    ((s.handleLine r line).session.scene.nearby = s.scene.nearby ∧
        (s.handleLine r line).session.scene.inventory = s.scene.inventory) ∨
      ∃ i, (s.handleLine r line).session.accepted = s.accepted ++ [i] ∧
        (s.handleLine r line).session.scene = s.scene.after i := by
  cases hc : metaCommand? line with
  | some c =>
    left
    unfold setsThings at h
    rw [hc] at h
    rw [handleLine_of_metaCommand hc]
    cases c with
    | nearby names => cases h
    | inventory names => cases h
    | _ => exact ⟨rfl, rfl⟩
  | none =>
    have hmeta : isMeta line = false := by simp [isMeta_eq, hc]
    obtain ⟨-, haccepted, hscene⟩ := s.unasked_keeps line
    cases advances_handleLine r s hmeta with
    | waits documents accepted scene once =>
      rw [scene, hscene]
      exact Or.inl ⟨rfl, rfl⟩
    | does i documents accepted scene pending confirming =>
      rw [haccepted] at accepted
      rw [hscene] at scene
      exact Or.inr ⟨i, accepted, scene⟩

theorem movesAtMostOne_handleLine (r : Registry) (s : Session) (h : setsThings line = false) :
    s.MovesAtMostOne (s.handleLine r line).session := by
  rcases things_handleLine r s h with hsame | ⟨i, haccepted, hscene⟩
  · exact Or.inl hsame
  · rcases s.scene.movesOne_after i with hsame | hmoves
    · rw [← hscene] at hsame
      exact Or.inl hsame
    · rw [← hscene] at hmoves
      exact Or.inr ⟨i, haccepted, hmoves⟩

theorem perm_things_handleLine (r : Registry) (s : Session) (h : setsThings line = false) :
    (s.handleLine r line).session.scene.things.Perm s.scene.things := by
  rcases things_handleLine r s h with ⟨hnearby, hinventory⟩ | ⟨i, -, hscene⟩
  · unfold Scene.things
    rw [hnearby, hinventory]
  · rw [hscene]
    exact s.scene.perm_things_after i

/-! ## Runs -/

theorem perm_things_afterLines (r : Registry) (s : Session)
    (h : ∀ line ∈ lines, setsThings line = false) :
    (afterLines r s lines).scene.things.Perm s.scene.things := by
  induction lines generalizing s with
  | nil => exact .refl _
  | cons line rest ih =>
    have hfirst := perm_things_handleLine r s (h line List.mem_cons_self)
    have hrest := ih (s.handleLine r line).session fun l hl => h l (List.mem_cons_of_mem _ hl)
    rw [afterLines_cons]
    exact hrest.trans hfirst

/-- **No line loses or doubles a thing**, and each moves one at most, by the intent it accepts. -/
theorem things_conserved (r : Registry) (s : Session)
    (h : ∀ line ∈ lines, setsThings line = false) :
    (afterLines r s lines).scene.things.Perm s.scene.things ∧
      ∀ before line after, lines = before ++ line :: after →
        (afterLines r s before).MovesAtMostOne (afterLines r s (before ++ [line])) := by
  refine ⟨perm_things_afterLines r s h, fun before line after hlines => ?_⟩
  have hline : setsThings line = false := h line (by simp [hlines])
  rw [afterLines_append_singleton]
  exact movesAtMostOne_handleLine r _ hline

/-- Two things of one name lie nearby; the first one is taken, the other one stays. -/
theorem things_conserved_stick :
    let r := (Registry.empty.register { verb := .take, minArgs := 1 }).register
      { verb := .drop, minArgs := 1 }
    let s : Session := { scene := { nearby := ["stone", "Stick!", "stick"] } }
    let lines := ["take the stick", ":last stone", "take it", "drop stick"]
    (∀ line ∈ lines, setsThings line = false) ∧
      (afterLines r s lines).scene.things.Perm s.scene.things ∧
      ∀ before line after, lines = before ++ line :: after →
        (afterLines r s before).MovesAtMostOne (afterLines r s (before ++ [line])) := by
  intro r s lines
  have h : ∀ line ∈ lines, setsThings line = false := by decide
  exact ⟨h, things_conserved r s h⟩

example :
    let r := Registry.empty.register { verb := .take, minArgs := 1 }
    let s : Session := { scene := { nearby := ["stone", "Stick!", "stick"] } }
    (s.handleLine r "take the stick").session.scene =
      { inventory := ["Stick!"], nearby := ["stone", "stick"], lastEntity := some "stick" } := by
  decide +kernel

end Session

end PlayerCommands
