import PlayerCommands.Intent.Basic
import PlayerCommands.Name.Ranking
import PlayerCommands.Text.Normal

/-!
# Scenes

The part of the game that names in a line refer to: what is nearby, what is carried, which ways
lead on, and what was last spoken of.  An accepted intent changes it: its target becomes the last
thing, a taken thing moves from nearby into the inventory, and a dropped one moves back.
-/

namespace PlayerCommands

/-- What names in a line are resolved against. -/
structure Scene where
  inventory : List String := []
  nearby : List String := []
  directions : List String := []
  lastEntity : Option String := none
deriving DecidableEq

/-- Names in normal form, without empty and repeated ones. -/
def normalNames (names : List String) : List String :=
  Name.distinct ((names.map Text.normalize).filter (· ≠ ""))

namespace Scene

/-- The last thing spoken of, in normal form. -/
def referent? (s : Scene) : Option String := (s.lastEntity.map Text.normalize).filter (· ≠ "")

/-- The first of `entries` whose normal form is `name`, and the others. -/
def takeOut (name : String) : List String → Option (String × List String)
  | [] => none
  | entry :: rest =>
    if Text.normalize entry = name then some (entry, rest)
    else (takeOut name rest).map fun (found, others) => (found, entry :: others)

/-- Two lists after the first entry named `name` has moved from one to the end of the other. -/
def moveEntry (name : String) (source target : List String) : List String × List String :=
  match takeOut name source with
  | some (entry, others) => (others, target ++ [entry])
  | none => (source, target)

/-- The scene after an accepted intent. -/
def after (s : Scene) (i : Intent) : Scene :=
  match i.verb, i.args with
  | some verb, target :: _ =>
    if verb.takesTarget then
      let s := { s with lastEntity := some target }
      match verb with
      | .take =>
        let (nearby, inventory) := moveEntry target s.nearby s.inventory
        { s with nearby, inventory }
      | .drop =>
        let (inventory, nearby) := moveEntry target s.inventory s.nearby
        { s with nearby, inventory }
      | _ => s
    else s
  | _, _ => s

/-! ## Lemmas -/

/-- What is taken out is an entry of that name, and the others stay where they are. -/
theorem split_of_takeOut {name entry : String} {entries others : List String}
    (h : takeOut name entries = some (entry, others)) :
    Text.normalize entry = name ∧
      ∃ before after, entries = before ++ entry :: after ∧ others = before ++ after := by
  induction entries generalizing others with
  | nil => cases h
  | cons first rest ih =>
    simp only [takeOut] at h
    split at h
    · next hfirst =>
      cases h
      exact ⟨hfirst, [], rest, rfl, rfl⟩
    · obtain ⟨⟨found, left⟩, hrest, heq⟩ := Option.map_eq_some_iff.1 h
      cases heq
      obtain ⟨hname, before, after, rfl, rfl⟩ := ih hrest
      exact ⟨hname, first :: before, after, rfl, rfl⟩

theorem perm_of_takeOut {name entry : String} {entries others : List String}
    (h : takeOut name entries = some (entry, others)) : entries.Perm (entry :: others) := by
  obtain ⟨-, before, after, rfl, rfl⟩ := split_of_takeOut h
  exact List.perm_middle

theorem takeOut_eq_none_iff {name : String} {entries : List String} :
    takeOut name entries = none ↔ ∀ entry ∈ entries, Text.normalize entry ≠ name := by
  induction entries with
  | nil => simp [takeOut]
  | cons first rest ih =>
    by_cases h : Text.normalize first = name <;> simp [takeOut, h, ih]

theorem perm_moveEntry (name : String) (source target : List String) :
    ((moveEntry name source target).1 ++ (moveEntry name source target).2).Perm
      (source ++ target) := by
  rcases h : takeOut name source with _ | ⟨entry, others⟩
  · simp [moveEntry, h]
  · have moved : (others ++ (target ++ [entry])).Perm (entry :: (others ++ target)) := by
      rw [← List.append_assoc]
      exact List.perm_append_comm
    simp only [moveEntry, h]
    exact moved.trans ((perm_of_takeOut h).symm.append_right target)

end Scene

end PlayerCommands
