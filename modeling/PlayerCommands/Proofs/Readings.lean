import PlayerCommands.Interpretation

/-!
# Readings mean registered verbs

The phrases that a line is matched against belong to registered verbs, and an inference counts only
if its verb is registered.  So whatever verb is read off a line, and whatever other verbs are listed
beside it, they are all registered.

    r.readVerb? scene words = some reading →
      r.isRegistered reading.verb ∧ ∀ m ∈ reading.alternates, r.isRegistered m.verb
                                                                       (isRegistered_of_readVerb?)
-/

namespace PlayerCommands

theorem Entry.verb_of_match? {e : Entry} {words : List String} {line : String} {m : CommandMatch}
    (h : e.match? words line = some m) : m.verb = e.verb := by
  unfold Entry.match? at h
  simp only at h
  split at h
  · cases h; rfl
  · split at h
    · cases h; rfl
    · split at h
      · cases h
      · split at h
        · cases h
        · split at h
          · cases h
          · cases h; rfl

namespace Registry

variable {r : Registry} {words : List String} {line : String} {v : Verb} {m : CommandMatch}
  {e : Entry}

theorem verb_of_mem_entriesOf {c : Command} (h : e ∈ entriesOf v c) : e.verb = v := by
  unfold entriesOf at h
  split at h
  · cases h
  · rcases List.mem_cons.mp h with rfl | h
    · rfl
    · obtain ⟨a, -, rfl⟩ := List.mem_map.mp h
      rfl

/-- The phrases of a verb are those of what is registered for it. -/
theorem mem_getD_entriesOf : e ∈ ((r.command? v).map (entriesOf v)).getD [] ↔
    ∃ c, r.command? v = some c ∧ e ∈ entriesOf v c := by
  cases r.command? v with
  | none => simp
  | some c => simp

theorem verb_of_mem_getD_entriesOf (h : e ∈ ((r.command? v).map (entriesOf v)).getD []) :
    e.verb = v := by
  obtain ⟨c, -, he⟩ := mem_getD_entriesOf.mp h
  exact verb_of_mem_entriesOf he

theorem mem_entries_iff :
    e ∈ r.entries ↔ ∃ c, r.command? e.verb = some c ∧ e ∈ entriesOf e.verb c := by
  unfold entries
  rw [List.mem_flatMap]
  constructor
  · rintro ⟨v, -, he⟩
    obtain rfl := verb_of_mem_getD_entriesOf he
    exact mem_getD_entriesOf.mp he
  · exact fun h => ⟨e.verb, Verb.mem_all _, mem_getD_entriesOf.mpr h⟩

/-- The best of some matches is one of them. -/
theorem mem_of_foldl_better {matched : List CommandMatch} {best : Option CommandMatch}
    (h : matched.foldl better best = some m) : m ∈ matched ∨ best = some m := by
  induction matched generalizing best with
  | nil => exact Or.inr h
  | cons new rest ih =>
    rw [List.foldl_cons] at h
    rcases ih h with h | h
    · exact Or.inl (List.mem_cons_of_mem _ h)
    · have hnew : new = m ∨ best = some m := by
        unfold better at h
        split at h
        · split at h
          · exact Or.inl (Option.some.inj h)
          · exact Or.inr h
        · exact Or.inl (Option.some.inj h)
      rcases hnew with rfl | h
      · exact Or.inl List.mem_cons_self
      · exact Or.inr h

/-- The best match of a verb is a match of one of its phrases, and reaches the floor. -/
theorem of_bestOf (h : r.bestOf words line v = some m) :
    matchFloor ≤ m.score ∧
      ∃ c, r.command? v = some c ∧ ∃ e ∈ entriesOf v c, e.match? words line = some m := by
  unfold bestOf at h
  simp only at h
  obtain ⟨hfold, hfloor⟩ := Option.filter_eq_some_iff.mp h
  refine ⟨of_decide_eq_true hfloor, ?_⟩
  rcases mem_of_foldl_better hfold with hmem | hnone
  · obtain ⟨e, he, hmatch⟩ := List.mem_filterMap.mp hmem
    obtain ⟨c, hc, he⟩ := mem_getD_entriesOf.mp he
    exact ⟨c, hc, e, he, hmatch⟩
  · cases hnone

theorem isRegistered_of_bestOf (h : r.bestOf words line v = some m) :
    m.verb = v ∧ r.isRegistered v = true := by
  obtain ⟨-, c, hc, e, he, hmatch⟩ := of_bestOf h
  refine ⟨(Entry.verb_of_match? hmatch).trans (verb_of_mem_entriesOf he), ?_⟩
  unfold isRegistered
  rw [hc]
  rfl

theorem isRegistered_of_mem_ranked (h : m ∈ r.ranked words line) :
    r.isRegistered m.verb = true := by
  unfold ranked at h
  rw [Ranking.mem_sort] at h
  obtain ⟨v, -, hbest⟩ := List.mem_filterMap.mp h
  obtain ⟨rfl, hv⟩ := isRegistered_of_bestOf hbest
  exact hv

theorem matchCommand_subset_ranked (r : Registry) (words : List String) (line : String) :
    (∀ m, (r.matchCommand words line).best = some m → m ∈ r.ranked words line) ∧
      ∀ m ∈ (r.matchCommand words line).alternates, m ∈ r.ranked words line := by
  unfold matchCommand
  split
  · exact ⟨fun m hm => (by cases hm), fun m hm => (by cases hm)⟩
  · split
    · exact ⟨fun m hm => (by cases hm), fun m hm => (by cases hm)⟩
    · next best others hranked =>
      rw [hranked]
      refine ⟨fun m hm => ?_, fun m hm => List.mem_cons_of_mem _ (List.mem_of_mem_take hm)⟩
      cases hm
      exact List.mem_cons_self

/-- **Only registered verbs are read off a line.** -/
theorem isRegistered_of_readVerb? {scene : Scene} {reading : Reading}
    (h : r.readVerb? scene words = some reading) :
    r.isRegistered reading.verb = true ∧
      ∀ m ∈ reading.alternates, r.isRegistered m.verb = true := by
  obtain ⟨hbest, halternates⟩ :=
    r.matchCommand_subset_ranked words (Text.unwords words)
  unfold readVerb? at h
  simp only at h
  split at h
  · next best hfilter =>
    cases h
    obtain ⟨hmatch, -⟩ := Option.filter_eq_some_iff.mp hfilter
    exact ⟨isRegistered_of_mem_ranked (hbest _ hmatch),
      fun m hm => isRegistered_of_mem_ranked (halternates m hm)⟩
  · next found hnone hfound =>
    cases h
    obtain ⟨-, hregistered⟩ := Option.filter_eq_some_iff.mp hfound
    exact ⟨hregistered, fun m hm => (by cases hm)⟩
  · cases h

theorem exists_command_of_isRegistered (h : r.isRegistered v = true) :
    ∃ c, r.command? v = some c :=
  Option.isSome_iff_exists.mp h

theorem isRegistered_of_command {c : Command} (h : r.command? v = some c) :
    r.isRegistered v = true :=
  Option.isSome_iff_exists.mpr ⟨c, h⟩

end Registry

end PlayerCommands
