import Mathlib.Data.List.Nodup
import PlayerCommands.Proofs.Bounds
import PlayerCommands.Proofs.Readings

/-!
# Lines that name their verb

A line that starts with the name of a registered verb means that verb, whatever phrases are
registered besides and whatever follows the name.  Only a name that is matched word for word has the
full score: an alias, the stem of an alias and a match with typos all have less, and no two names
share their first word.  An exact match does not yield to an inference either.

    words line = v.phrase.words ++ rest →
      r.readVerb? scene (words line) = some ⟨v, Entry.canonicalScore, rest, alternates⟩
                                                                              (readVerb?_of_name)
    i.verb = some v → (r.interpret scene i.commandText).verb = some v
                                                                  (verb_of_interpret_commandText)
-/

namespace PlayerCommands

/-! ## Rankings with a leader -/

/-- What outranks everything else comes first. -/
theorem Ranking.sort_eq_cons {α : Type} {outranks : α → α → Bool} {a : α} {l : List α}
    (hirrefl : outranks a a = false) (hmem : a ∈ l)
    (hlead : ∀ b ∈ l, b = a ∨ outranks a b = true ∧ outranks b a = false) :
    ∃ rest, sort outranks l = a :: rest := by
  -- whatever does not lead is inserted behind the leader, once that one is there
  have hbehind : ∀ {b : α} {rest : List α}, outranks a b = true →
      insert outranks b (a :: rest) = a :: insert outranks b rest := fun h => if_pos h
  have hbefore : ∀ {l : List α}, (∀ b ∈ l, outranks b a = false) → insert outranks a l = a :: l := by
    intro l hl
    cases l with
    | nil => rfl
    | cons b rest => exact if_neg (by simp [hl b List.mem_cons_self])
  induction l with
  | nil => cases hmem
  | cons b rest ih =>
    have hrest : ∀ c ∈ rest, c = a ∨ outranks a c = true ∧ outranks c a = false :=
      fun c hc => hlead c (List.mem_cons_of_mem _ hc)
    have hcons : sort outranks (b :: rest) = insert outranks b (sort outranks rest) := rfl
    rw [hcons]
    rcases hlead b List.mem_cons_self with rfl | ⟨hab, hba⟩
    · refine ⟨sort outranks rest, hbefore fun c hc => ?_⟩
      rcases hrest c (mem_sort.mp hc) with rfl | ⟨-, hca⟩
      · exact hirrefl
      · exact hca
    · have hmem' : a ∈ rest := by
        rcases List.mem_cons.mp hmem with rfl | h
        · rw [hirrefl] at hab
          cases hab
        · exact h
      obtain ⟨others, hothers⟩ := ih hmem' hrest
      exact ⟨insert outranks b others, by rw [hothers, hbehind hab]⟩

namespace CommandMatch

theorem outranks_of_lt {a b : CommandMatch} (h : b.score < a.score) : a.outranks b = true := by
  simp [outranks, h]

theorem outranks_eq_false_of_lt {a b : CommandMatch} (h : a.score < b.score) :
    a.outranks b = false := by
  have hle : ¬ b.score ≤ a.score := Rat.not_le.mpr h
  have hlt : ¬ b.score < a.score := fun hlt => hle (Rat.le_of_lt hlt)
  simp [outranks, hle, hlt]

theorem outranks_self (a : CommandMatch) : a.outranks a = false := by
  have hscore : ¬ a.score < a.score := Rat.lt_irrefl
  simp [outranks, hscore]

end CommandMatch

/-! ## Scores of matches -/

namespace Entry

theorem aliasScore_lt : aliasScore < canonicalScore := by decide +kernel

theorem stemScore_lt : stemScore < canonicalScore := by decide +kernel

theorem editLimit_le (length : Nat) : Name.editLimit length ≤ 3 := by
  unfold Name.editLimit
  split
  · decide
  · split
    · decide
    · split <;> decide

theorem fuzzyScore_lt {edits : Nat} (h : edits ≤ 3) (inLine canonical : Bool) :
    fuzzyScore edits inLine canonical < canonicalScore := by
  have hall : ∀ n : Fin 4, ∀ inLine canonical,
      fuzzyScore n inLine canonical < canonicalScore := by decide +kernel
  exact hall ⟨edits, Nat.lt_succ_of_le h⟩ inLine canonical

/-- Nothing but a name that starts the line word for word has the full score. -/
theorem score_lt_of_match? {e : Entry} {words : List String} {line : String}
    {m : CommandMatch} (h : e.match? words line = some m)
    (hname : e.canonical = true → ¬ e.phrase.words <+: words) : m.score < canonicalScore := by
  unfold match? at h
  simp only at h
  split at h
  · next hexact =>
    cases h
    have halias : e.canonical ≠ true := fun hc => hname hc (List.isPrefixOf_iff_prefix.mp hexact)
    rw [if_neg halias]
    exact aliasScore_lt
  · split at h
    · cases h
      exact stemScore_lt
    · split at h
      · cases h
      · split at h
        · cases h
        · split at h
          · cases h
          · next hedits =>
            cases h
            exact fuzzyScore_lt (Nat.le_trans (Nat.not_lt.mp hedits) (editLimit_le _)) _ _

end Entry

/-! ## Names -/

namespace Verb

theorem words_name (v : Verb) : Text.words v.name = v.phrase.words := by cases v <;> decide

theorem words_phrase_ne_nil (v : Verb) : v.phrase.words ≠ [] := by cases v <;> decide

/-- The first word of a name tells the verb. -/
theorem eq_of_head?_words {v w : Verb} (h : v.phrase.words.head? = w.phrase.words.head?) :
    v = w := by
  have hfirst : (all.map fun v => v.phrase.words.head?).Nodup := by decide +kernel
  exact List.inj_on_of_nodup_map hfirst (mem_all v) (mem_all w) h

theorem eq_of_prefix {v w : Verb} {rest : List String}
    (h : w.phrase.words <+: v.phrase.words ++ rest) : w = v := by
  obtain ⟨others, hothers⟩ := h
  refine eq_of_head?_words ?_
  have hhead := congrArg List.head? hothers
  rw [List.head?_append, List.head?_append] at hhead
  rcases hw : w.phrase.words with _ | ⟨first, others⟩
  · exact absurd hw w.words_phrase_ne_nil
  · rcases hv : v.phrase.words with _ | ⟨first', others'⟩
    · exact absurd hv v.words_phrase_ne_nil
    · rw [hw, hv] at hhead
      simpa using hhead

end Verb

/-- The match of a verb by its name. -/
def CommandMatch.ofName (v : Verb) : CommandMatch :=
  ⟨v, Entry.canonicalScore, v.phrase.words.length, v.phrase.text, .exact⟩

theorem matchFloor_le : matchFloor ≤ Entry.canonicalScore := by decide +kernel

namespace Registry

variable {r : Registry} {scene : Scene} {v w : Verb} {c : Command} {m : CommandMatch}
  {rest : List String} {line : String}

/-! ## Matching a name -/

/-- The name of a verb comes first among its phrases. -/
theorem entriesOf_eq (v : Verb) (c : Command) :
    entriesOf v c = ⟨v, v.phrase, true⟩ ::
      ((Name.distinct c.aliases).filter (· ≠ v.phrase)).map fun a => ⟨v, a, false⟩ := rfl

theorem foldl_better_eq {matched : List CommandMatch}
    (h : ∀ a ∈ matched, a.score < m.score) : matched.foldl better (some m) = some m := by
  induction matched with
  | nil => rfl
  | cons a others ih =>
    have hkeep : better (some m) a = some m := by
      have hbelow := CommandMatch.outranks_eq_false_of_lt (h a List.mem_cons_self)
      exact if_neg (by simp [hbelow])
    rw [List.foldl_cons, hkeep]
    exact ih fun b hb => h b (List.mem_cons_of_mem _ hb)

theorem match?_name (v : Verb) (rest : List String) (line : String) :
    Entry.match? ⟨v, v.phrase, true⟩ (v.phrase.words ++ rest) line = some (.ofName v) := by
  have hexact : v.phrase.words.isPrefixOf (v.phrase.words ++ rest) = true :=
    List.isPrefixOf_iff_prefix.mpr (List.prefix_append _ _)
  unfold Entry.match?
  simp only [hexact, if_true]
  rfl

theorem bestOf_of_name (hc : r.command? v = some c) (rest : List String) (line : String) :
    r.bestOf (v.phrase.words ++ rest) line v = some (.ofName v) := by
  have hfold : ((entriesOf v c).filterMap (·.match? (v.phrase.words ++ rest) line)).foldl
      better none = some (.ofName v) := by
    have hname := match?_name v rest line
    have hfirst : better none (.ofName v) = some (.ofName v) := rfl
    simp only [entriesOf_eq, List.filterMap_cons, hname, List.foldl_cons, hfirst]
    refine foldl_better_eq fun a ha => ?_
    obtain ⟨e, he, hmatch⟩ := List.mem_filterMap.mp ha
    obtain ⟨phrase, -, rfl⟩ := List.mem_map.mp he
    exact Entry.score_lt_of_match? hmatch fun hcanonical => by cases hcanonical
  unfold bestOf
  rw [hc]
  simp only [Option.map_some, Option.getD_some]
  rw [hfold, Option.filter_eq_some_iff]
  exact ⟨rfl, decide_eq_true matchFloor_le⟩

/-- Every other verb is matched with less than the full score. -/
theorem score_lt_of_bestOf (h : r.bestOf (v.phrase.words ++ rest) line w = some m)
    (hne : w ≠ v) : m.score < Entry.canonicalScore := by
  obtain ⟨-, c, -, e, he, hmatch⟩ := of_bestOf h
  refine Entry.score_lt_of_match? hmatch fun hcanonical hprefix => hne ?_
  rw [entriesOf_eq] at he
  rcases List.mem_cons.mp he with rfl | he
  · exact Verb.eq_of_prefix hprefix
  · obtain ⟨phrase, -, rfl⟩ := List.mem_map.mp he
    cases hcanonical

theorem ranked_of_name (hc : r.command? v = some c) (rest : List String) (line : String) :
    ∃ others, r.ranked (v.phrase.words ++ rest) line = .ofName v :: others := by
  have hbest := bestOf_of_name hc rest line
  have hmem : .ofName v ∈ Verb.all.filterMap (r.bestOf (v.phrase.words ++ rest) line) :=
    List.mem_filterMap.mpr ⟨v, Verb.mem_all v, hbest⟩
  unfold ranked
  refine Ranking.sort_eq_cons (CommandMatch.outranks_self _) hmem fun m hm => ?_
  obtain ⟨w, -, hw⟩ := List.mem_filterMap.mp hm
  by_cases hwv : w = v
  · subst hwv
    exact Or.inl (Option.some.inj (hw.symm.trans hbest))
  · have hlt := score_lt_of_bestOf hw hwv
    exact Or.inr ⟨CommandMatch.outranks_of_lt hlt, CommandMatch.outranks_eq_false_of_lt hlt⟩

/-- **A name at the start of a line is read as its verb**, and the words after it are left. -/
theorem readVerb?_of_name (hc : r.command? v = some c) (scene : Scene) (rest : List String) :
    ∃ alternates, r.readVerb? scene (v.phrase.words ++ rest) =
      some ⟨v, Entry.canonicalScore, rest, alternates⟩ := by
  obtain ⟨others, hranked⟩ := ranked_of_name hc rest (Text.unwords (v.phrase.words ++ rest))
  have hmatch : r.matchCommand (v.phrase.words ++ rest) (Text.unwords (v.phrase.words ++ rest)) =
      ⟨some (.ofName v), others.take maxOptions⟩ := by
    unfold matchCommand
    rw [if_neg (by simp [v.words_phrase_ne_nil]), hranked]
  have hstands : ∀ inferred, (CommandMatch.ofName v).standsAgainst inferred = true := fun _ => rfl
  refine ⟨others.take maxOptions, ?_⟩
  unfold readVerb?
  simp only [hmatch, Option.filter_some, hstands, if_true]
  simp only [CommandMatch.ofName, List.drop_left]

end Registry

/-! ## Lines with a name -/

namespace Registry

variable {r : Registry} {v : Verb} {c : Command} {rest : List String} {line : String}

theorem verb_buildIntent (scene : Scene) (i : Intent) (reading : Reading) (command : Command) :
    (buildIntent scene i reading command).verb = some reading.verb :=
  (buildIntent_keeps scene i reading command).1

/-- A line with the name of a verb at its start is taken as that verb with the words after it. -/
theorem interpret_of_name (hc : r.command? v = some c) (scene : Scene)
    (hwords : Text.words line = v.phrase.words ++ rest) :
    ∃ alternates, r.interpret scene line =
      buildIntent scene (Intent.unresolved line (Text.normalize line))
        ⟨v, Entry.canonicalScore, rest, alternates⟩ c := by
  obtain ⟨alternates, hread⟩ := readVerb?_of_name hc scene rest
  refine ⟨alternates, ?_⟩
  unfold interpret
  simp only [hwords, hread, hc]

end Registry

/-! ## Command texts -/

/-- The words of a command text: those of its verb's name, of each argument and of the amount. -/
theorem Intent.words_commandText_eq {i : Intent} {v : Verb} (hv : i.verb = some v) :
    Text.words i.commandText =
      v.phrase.words ++ (i.args ++ i.amountText.toList).flatMap Text.words := by
  have htext : i.commandText = " ".intercalate (v.name :: (i.args ++ i.amountText.toList)) := by
    unfold commandText
    rw [hv]
    rfl
  rw [htext, Text.words_intercalate, List.flatMap_cons, v.words_name]

/-- A command text starts with the words of its verb's name. -/
theorem Intent.words_commandText {i : Intent} {v : Verb} (hv : i.verb = some v) :
    ∃ rest, Text.words i.commandText = v.phrase.words ++ rest :=
  ⟨_, words_commandText_eq hv⟩

/-- **A command text is read back as its verb**, whatever phrases are registered, and whatever its
arguments and amounts are. -/
theorem Registry.verb_of_interpret_commandText {r : Registry} {i : Intent} {v : Verb}
    (hv : i.verb = some v) (hregistered : r.isRegistered v = true) (scene : Scene) :
    (r.interpret scene i.commandText).verb = some v := by
  obtain ⟨c, hc⟩ := exists_command_of_isRegistered hregistered
  obtain ⟨rest, hwords⟩ := i.words_commandText hv
  obtain ⟨alternates, heq⟩ := interpret_of_name hc scene hwords
  rw [heq, verb_buildIntent]

/-- Another verb has the same name for an alias, and the argument names a third one. -/
theorem Registry.verb_of_interpret_commandText_buildFire :
    let r := (Registry.empty.register { verb := .buildFire }).register
      { verb := .help, aliases := ["build fire", "build"] }
    let i := Intent.forVerb .buildFire ["help", "me"] 1
    i.verb = some .buildFire ∧ r.isRegistered .buildFire = true ∧
      (r.interpret {} i.commandText).verb = some .buildFire := by
  intro r i
  have hregistered : r.isRegistered .buildFire = true := by decide
  exact ⟨rfl, hregistered, verb_of_interpret_commandText rfl hregistered {}⟩

end PlayerCommands
