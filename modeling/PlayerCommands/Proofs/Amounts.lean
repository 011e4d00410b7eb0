import PlayerCommands.Interpretation

/-!
# Amounts that exclude each other

An extent that a scan finds says something: a distance, a time, a number of tiles, or when to stop.
A scan that finds one reports no bare number, so a movement never has both an extent and a number
that waits for its unit, and no other verb has an extent at all.

    (scan words).extent = some e → e.isEmpty = false ∧ (scan words).bareNumber = none
                                                                                (isSound_scan)
    (Amounts.of verb words).quantity = none ∨ (Amounts.of verb words).extent = none
                                                                                (quantity_or_extent)
-/

namespace PlayerCommands

namespace Extent

theorem ne_none_of_conditionWord {word : String} {c : Condition}
    (h : Condition.ofWord? word = some c) : c ≠ .none := by
  unfold Condition.ofWord? at h
  split at h <;> cases h <;> decide

theorem isEmpty_unitExtent (n : Nat) (unit : ExtentUnit) : (unit.extent n).isEmpty = false := by
  cases unit <;> rfl

theorem isEmpty_of_ofNumber? {x : Score} {unit : ExtentUnit} {e : Extent}
    (h : ofNumber? x unit = some e) : e.isEmpty = false := by
  obtain ⟨n, rfl⟩ : ∃ n, unit.extent n = e := by
    unfold ofNumber? at h
    exact ⟨_, (Option.ite_none_right_eq_some.mp h).2 |> Option.some.inj⟩
  exact isEmpty_unitExtent n unit

theorem ne_none_of_reading {word : String} {next? : Option String} {c : Condition}
    (h : Reading.of word next? = .condition c) : c ≠ .none := by
  unfold Reading.of at h
  split at h
  · next c' hcondition =>
    cases h
    split at hcondition
    · obtain ⟨next, -, hnext⟩ := Option.bind_eq_some_iff.mp hcondition
      exact ne_none_of_conditionWord hnext
    · cases hcondition
  · split at h
    · cases h
    · split at h
      · cases h
      · split at h
        · split at h <;> cases h
        · split at h <;> cases h

/-- A scan that found an extent found a real one, and no bare number besides. -/
def Scan.IsSound (s : Scan) : Prop :=
  ∀ e, s.extent = some e → e.isEmpty = false ∧ s.bareNumber = none

theorem Progress.isSound_found (p : Progress) {e : Extent} (after : List String)
    (h : e.isEmpty = false) : (p.found e after).IsSound := by
  intro e' he
  cases he
  exact ⟨h, rfl⟩

theorem Progress.isSound_ended (p : Progress) : p.ended.IsSound := by
  unfold Progress.ended
  split <;> (intro e he; cases he)

theorem isSound_scanFrom (p : Progress) (skip : Nat) (words : List String) :
    (scanFrom p skip words).IsSound := by
  induction words generalizing p skip with
  | nil =>
    unfold scanFrom
    exact p.isSound_ended
  | cons word rest ih =>
    cases skip with
    | succ skip =>
      unfold scanFrom
      exact ih _ _
    | zero =>
      unfold scanFrom
      split
      · next c hreading =>
        have hc := ne_none_of_reading hreading
        exact p.isSound_found _ (by cases c <;> first | rfl | exact absurd rfl hc)
      · next x unit joined hreading =>
        split
        · next e he => exact Progress.isSound_found _ _ (isEmpty_of_ofNumber? he)
        · exact ih _ _
      · exact ih _ _
      · exact ih _ _

theorem isSound_scan (words : List String) : (scan words).IsSound := isSound_scanFrom _ _ _

end Extent

/-! ## Amounts of a command -/

namespace Amounts

variable {verb : Verb} {words : List String}

theorem of_go (words : List String) :
    Amounts.of .go words =
      { quantity := (Extent.scan words).bareNumber.bind Quantity.ofWord?,
        extent := (Extent.scan words).extent, bareNumber := (Extent.scan words).bareNumber,
        rest := (Extent.scan words).rest } := rfl

theorem of_ne_go (h : verb ≠ .go) :
    Amounts.of verb words =
      { quantity := (Quantity.extract words).1, rest := (Quantity.extract words).2 } := by
  unfold Amounts.of
  rw [if_neg h]

theorem isEmpty_of_extent {e : Extent} (h : (Amounts.of verb words).extent = some e) :
    e.isEmpty = false := by
  by_cases hgo : verb = .go
  · subst hgo
    exact (Extent.isSound_scan words e h).1
  · rw [of_ne_go hgo] at h
    cases h

/-- A movement whose number waits for a unit has no extent, and other verbs never have one. -/
theorem extent_eq_none (h : verb ≠ .go ∨ (Amounts.of verb words).bareNumber.isSome = true) :
    (Amounts.of verb words).extent = none := by
  by_cases hgo : verb = .go
  · subst hgo
    have hbare : (Extent.scan words).bareNumber.isSome = true := by
      rcases h with h | h
      · exact absurd rfl h
      · exact h
    cases he : (Extent.scan words).extent with
    | none => exact he
    | some e =>
      rw [(Extent.isSound_scan words e he).2] at hbare
      cases hbare
  · rw [of_ne_go hgo]

/-- A command has a quantity or an extent, never both. -/
theorem quantity_or_extent (verb : Verb) (words : List String) :
    (Amounts.of verb words).quantity = none ∨ (Amounts.of verb words).extent = none := by
  by_cases hgo : verb = .go
  · subst hgo
    cases he : (Extent.scan words).extent with
    | none => exact Or.inr he
    | some e =>
      left
      rw [of_go, (Extent.isSound_scan words e he).2]
      rfl
  · exact Or.inr (extent_eq_none (Or.inl hgo))

end Amounts

end PlayerCommands
