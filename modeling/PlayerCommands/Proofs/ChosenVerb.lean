import PlayerCommands.Proofs.RankedMatches

/-!
# Which verb a line means

A line says a verb if it starts with its name, or else with an alias, or else if an alias is the
start of its first word; then it does not matter what could be inferred from it.  Otherwise the best
guess with typos stands against an inference that scores no higher.  What a line means is stated
here without the scores of names, aliases and stems; those put the three in this order.

    r.Says words v → r.Says words w → v = w                                         (Says.unique)
    r.Means words inferred v? → r.Means words inferred w? → v? = w?                (Means.unique)
    (r.interpret scene line).verb = v? ↔
      r.Means (Text.words line) (r.inferred? scene (Text.words line)) v?  (verb_of_interpret_iff)
-/

namespace PlayerCommands

/-! ## Comparing matches -/

namespace CommandMatch

variable {a b : CommandMatch}

theorem score_le_of_rank_le (h : a.rank ≤ b.rank) : b.score ≤ a.score :=
  Score.le_of_not_lt fun hlt => absurd (rank_lt_of_score_lt hlt) (not_lt.mpr h)

theorem rank_le_iff (h : a.score = b.score) :
    a.rank ≤ b.rank ↔
      b.consumed < a.consumed ∨ b.consumed = a.consumed ∧ a.verb.name ≤ b.verb.name := by
  simp only [rank, h, Prod.Lex.toLex_le_toLex, lt_irrefl, false_or, true_and,
    OrderDual.toDual_lt_toDual, OrderDual.toDual_inj, eq_comm (a := b.consumed)]

theorem standsAgainst_iff {m : CommandMatch} {inferred : Option Inference} :
    m.standsAgainst inferred = true ↔
      m.kind ≠ .fuzzy ∨ ∀ found, inferred = some found → found.score ≤ m.score := by
  simp only [standsAgainst, Bool.or_eq_true, bne_iff_ne, Option.all_eq_true, decide_eq_true_eq]

end CommandMatch

namespace Entry

theorem stemScore_lt_aliasScore : stemScore < aliasScore := by decide +kernel

theorem matchFloor_le_stemScore : matchFloor ≤ stemScore := by decide +kernel

end Entry

namespace Registry

variable {r : Registry} {scene : Scene} {words : List String} {line : String} {v w : Verb}
  {p : Phrase} {e : Entry} {m c : CommandMatch} {inferred : Option Inference}
  {v? w? : Option Verb}

/-! ## What a line says -/

/-- The phrase is an alias of the verb.  The verb's own name is none, even if it is given as one. -/
def HasAlias (r : Registry) (v : Verb) (p : Phrase) : Prop :=
  ∃ command, r.command? v = some command ∧ p ∈ command.aliases ∧ p ≠ v.phrase

/-- No name of a registered verb starts the words. -/
def Unnamed (r : Registry) (words : List String) : Prop :=
  ∀ v, r.isRegistered v = true → ¬ v.phrase.words <+: words

/-- No alias starts the words. -/
def Unaliased (r : Registry) (words : List String) : Prop :=
  ∀ v p, r.HasAlias v p → ¬ p.words <+: words

/-- No alias is the start of the first word. -/
def Unstemmed (r : Registry) (words : List String) : Prop :=
  ∀ v p, r.HasAlias v p → ¬ p.Stems words

/-- The words say the verb. -/
inductive Says (r : Registry) (words : List String) : Verb → Prop
  /-- The name of the verb comes first. -/
  | name {v : Verb} (registered : r.isRegistered v = true) (starts : v.phrase.words <+: words) :
    Says r words v
  /-- An alias of the verb comes first.  The one with the most words counts, and of verbs that have
  such an alias the one with the smallest name. -/
  | byAlias {v : Verb} {p : Phrase} (unnamed : r.Unnamed words) (isAlias : r.HasAlias v p)
    (starts : p.words <+: words)
    (longest : ∀ w q, r.HasAlias w q → q.words <+: words →
      q.words.length < p.words.length ∨ q.words.length = p.words.length ∧ v.name ≤ w.name) :
    Says r words v
  /-- An alias of the verb is the start of the first word.  Of verbs that have such an alias the one
  with the smallest name counts. -/
  | byStem {v : Verb} {p : Phrase} (unnamed : r.Unnamed words) (unaliased : r.Unaliased words)
    (isAlias : r.HasAlias v p) (stems : p.Stems words)
    (least : ∀ w q, r.HasAlias w q → q.Stems words → v.name ≤ w.name) :
    Says r words v

/-- The words say no verb. -/
structure Silent (r : Registry) (words : List String) : Prop where
  unnamed : r.Unnamed words
  unaliased : r.Unaliased words
  unstemmed : r.Unstemmed words

theorem Silent.not_said (h : r.Silent words) : ¬ r.Says words v := by
  intro hsays
  cases hsays with
  | name registered starts => exact h.unnamed v registered starts
  | byAlias _ isAlias starts => exact h.unaliased v _ isAlias starts
  | byStem _ _ isAlias stems => exact h.unstemmed v _ isAlias stems

/-- Words say one verb at most. -/
theorem Says.unique (hv : r.Says words v) (hw : r.Says words w) : v = w := by
  cases hv with
  | name registered starts =>
    cases hw with
    | name _ starts' =>
      obtain ⟨rest, rfl⟩ := starts'
      exact Verb.eq_of_prefix starts
    | byAlias unnamed => exact absurd starts (unnamed v registered)
    | byStem unnamed => exact absurd starts (unnamed v registered)
  | byAlias unnamed isAlias starts longest =>
    cases hw with
    | name registered starts' => exact absurd starts' (unnamed w registered)
    | byAlias _ isAlias' starts' longest' =>
      have hvw := longest _ _ isAlias' starts'
      have hwv := longest' _ _ isAlias starts
      have hnames : v.name ≤ w.name ∧ w.name ≤ v.name := by
        rcases hvw with hlt | ⟨heq, hle⟩
        · rcases hwv with hlt' | ⟨heq', -⟩ <;> omega
        · rcases hwv with hlt' | ⟨-, hle'⟩
          · omega
          · exact ⟨hle, hle'⟩
      exact Verb.name_injective (le_antisymm hnames.1 hnames.2)
    | byStem _ unaliased => exact absurd starts (unaliased v _ isAlias)
  | byStem unnamed unaliased isAlias stems least =>
    cases hw with
    | name registered starts' => exact absurd starts' (unnamed w registered)
    | byAlias _ isAlias' starts' => exact absurd starts' (unaliased w _ isAlias')
    | byStem _ _ isAlias' stems' least' =>
      exact Verb.name_injective
        (le_antisymm (least _ _ isAlias' stems') (least' _ _ isAlias stems))

/-! ## What a line means -/

/-- The matches with typos that reach the floor. -/
def guesses (r : Registry) (words : List String) : List CommandMatch :=
  (r.candidates words (Text.unwords words)).filter fun m => m.kind = .fuzzy ∧ matchFloor ≤ m.score

/-- No match with typos ranks before this one. -/
structure IsBestGuess (r : Registry) (words : List String) (m : CommandMatch) : Prop where
  mem : m ∈ r.guesses words
  rank_le : ∀ g ∈ r.guesses words, m.rank ≤ g.rank

theorem IsBestGuess.guesses_ne_nil (h : r.IsBestGuess words m) : r.guesses words ≠ [] :=
  List.ne_nil_of_mem h.mem

/-- What is inferred from the words, if its verb is registered. -/
def inferred? (r : Registry) (scene : Scene) (words : List String) : Option Inference :=
  (Inference.infer? words scene).filter fun found => r.isRegistered found.verb

/-- The words mean the verb, or nothing. -/
inductive Means (r : Registry) (words : List String) (inferred : Option Inference) :
    Option Verb → Prop
  /-- What is said counts, whatever is inferred. -/
  | said {v : Verb} (isSaid : r.Says words v) : Means r words inferred (some v)
  /-- A guess counts unless what is inferred scores higher. -/
  | guessed {m : CommandMatch} (silent : r.Silent words) (best : r.IsBestGuess words m)
    (weaker : ∀ found, inferred = some found → found.score ≤ m.score) :
    Means r words inferred (some m.verb)
  /-- What is inferred counts if there is no guess, or only guesses that score lower. -/
  | byInference {found : Inference} (silent : r.Silent words) (isInferred : inferred = some found)
    (stronger : ∀ g ∈ r.guesses words, g.score < found.score) :
    Means r words inferred (some found.verb)
  | nothing (silent : r.Silent words) (unguessed : r.guesses words = [])
    (uninferred : inferred = none) : Means r words inferred none

/-- Words mean one verb or nothing, but not both. -/
theorem Means.unique (hv : r.Means words inferred v?) (hw : r.Means words inferred w?) :
    v? = w? := by
  cases hv with
  | said isSaid =>
    cases hw with
    | said isSaid' => rw [isSaid.unique isSaid']
    | guessed silent => exact absurd isSaid silent.not_said
    | byInference silent => exact absurd isSaid silent.not_said
    | nothing silent => exact absurd isSaid silent.not_said
  | guessed silent best weaker =>
    cases hw with
    | said isSaid => exact absurd isSaid silent.not_said
    | guessed _ best' =>
      have hrank := le_antisymm (best.rank_le _ best'.mem) (best'.rank_le _ best.mem)
      rw [CommandMatch.verb_of_rank_eq hrank]
    | byInference _ isInferred stronger =>
      exact absurd (stronger _ best.mem) (Rat.not_lt.mpr (weaker _ isInferred))
    | nothing _ unguessed => exact absurd unguessed best.guesses_ne_nil
  | byInference silent isInferred stronger =>
    cases hw with
    | said isSaid => exact absurd isSaid silent.not_said
    | guessed _ best weaker =>
      exact absurd (stronger _ best.mem) (Rat.not_lt.mpr (weaker _ isInferred))
    | byInference _ isInferred' =>
      rw [isInferred] at isInferred'
      cases isInferred'
      rfl
    | nothing _ _ uninferred =>
      rw [isInferred] at uninferred
      cases uninferred
  | nothing silent unguessed uninferred =>
    cases hw with
    | said isSaid => exact absurd isSaid silent.not_said
    | guessed _ best => exact absurd unguessed best.guesses_ne_nil
    | byInference _ isInferred =>
      rw [isInferred] at uninferred
      cases uninferred
    | nothing => rfl

/-! ## Names and aliases among the candidates -/

theorem name_mem_entries (h : r.isRegistered v = true) : ⟨v, v.phrase, true⟩ ∈ r.entries := by
  obtain ⟨command, hc⟩ := exists_command_of_isRegistered h
  exact mem_entries_iff.mpr ⟨command, hc, List.mem_cons_self⟩

theorem alias_mem_entries (h : r.HasAlias v p) : ⟨v, p, false⟩ ∈ r.entries := by
  obtain ⟨command, hc, hp, hne⟩ := h
  refine mem_entries_iff.mpr ⟨command, hc, ?_⟩
  rw [entriesOf_eq]
  refine List.mem_cons_of_mem _ (List.mem_map.mpr ⟨p, ?_, rfl⟩)
  exact List.mem_filter.mpr ⟨Name.mem_distinct.mpr hp, decide_eq_true hne⟩

/-- A phrase is the name of a registered verb or an alias. -/
theorem mem_entries_cases (h : e ∈ r.entries) :
    (e.canonical = true ∧ e.phrase = e.verb.phrase ∧ r.isRegistered e.verb = true) ∨
      (e.canonical = false ∧ r.HasAlias e.verb e.phrase) := by
  obtain ⟨command, hc, he⟩ := mem_entries_iff.mp h
  rw [entriesOf_eq] at he
  rcases List.mem_cons.mp he with hname | he
  · rw [hname]
    exact Or.inl ⟨rfl, rfl, isRegistered_of_command hc⟩
  · obtain ⟨p, hp, halias⟩ := List.mem_map.mp he
    obtain ⟨hmem, hne⟩ := List.mem_filter.mp hp
    rw [← halias]
    exact Or.inr ⟨rfl, command, hc, Name.mem_distinct.mp hmem, of_decide_eq_true hne⟩

theorem name_mem_candidates (line : String) (h : r.isRegistered v = true)
    (hstart : v.phrase.words <+: words) :
    Entry.exactMatch ⟨v, v.phrase, true⟩ ∈ r.candidates words line :=
  mem_candidates.mpr ⟨_, name_mem_entries h, Entry.match?_of_starts line hstart⟩

theorem alias_mem_candidates (line : String) (h : r.HasAlias v p) (hstart : p.words <+: words) :
    Entry.exactMatch ⟨v, p, false⟩ ∈ r.candidates words line :=
  mem_candidates.mpr ⟨_, alias_mem_entries h, Entry.match?_of_starts line hstart⟩

theorem stem_mem_candidates (line : String) (hunaliased : r.Unaliased words) (h : r.HasAlias v p)
    (hstems : p.Stems words) : Entry.stemMatch ⟨v, p, false⟩ ∈ r.candidates words line :=
  mem_candidates.mpr ⟨_, alias_mem_entries h,
    Entry.match?_of_stems line (hunaliased v p h) rfl hstems⟩

/-! ## The best candidate -/

theorem unnamed_of_score_lt (h : ∀ c ∈ r.candidates words line, c.score < Entry.canonicalScore) :
    r.Unnamed words := fun _ hv hstart =>
  absurd (h _ (name_mem_candidates line hv hstart)) Rat.lt_irrefl

theorem unaliased_of_score_lt (h : ∀ c ∈ r.candidates words line, c.score < Entry.aliasScore) :
    r.Unaliased words := fun _ _ hp hstart =>
  absurd (h _ (alias_mem_candidates line hp hstart)) Rat.lt_irrefl

/-- Words are silent if nothing is matched as well as by a stem. -/
theorem silent_of_score_lt (h : ∀ c ∈ r.candidates words line, c.score < Entry.stemScore) :
    r.Silent words := by
  have hunaliased : r.Unaliased words := unaliased_of_score_lt fun c hc =>
    lt_trans (α := Rat) (h c hc) Entry.stemScore_lt_aliasScore
  have hunnamed : r.Unnamed words := unnamed_of_score_lt fun c hc =>
    lt_trans (α := Rat) (h c hc) Entry.stemScore_lt
  exact ⟨hunnamed, hunaliased, fun v p hp hstems =>
    absurd (h _ (stem_mem_candidates line hunaliased hp hstems)) Rat.lt_irrefl⟩

/-- The best match of an outcome is the best candidate. -/
theorem of_best_eq_some (h : (r.matchCommand words line).best = some m) :
    m ∈ r.candidates words line ∧ matchFloor ≤ m.score ∧
      ∀ c ∈ r.candidates words line, m.rank ≤ c.rank := by
  rw [best_matchCommand] at h
  have hbest := mem_ranked.mp (List.mem_of_mem_head? h)
  have hmem := (leads_of_bestOf hbest).mem
  have hfloor := (of_bestOf hbest).1
  refine ⟨List.mem_of_mem_filter hmem, hfloor, fun c hc => ?_⟩
  by_cases hlow : c.score < matchFloor
  · exact le_of_lt (CommandMatch.rank_lt_of_score_lt (lt_of_lt_of_le (α := Rat) hlow hfloor))
  · obtain ⟨own, hranked, -, hrank⟩ := exists_mem_ranked hc (Score.le_of_not_lt hlow)
    refine le_trans ?_ hrank
    obtain ⟨others, hothers⟩ := List.head?_eq_some_iff.mp h
    have hsorted := r.sorted_ranked words line
    rw [hothers] at hranked hsorted
    rcases List.mem_cons.mp hranked with rfl | hranked
    · exact le_refl _
    · exact le_of_lt ((List.pairwise_cons.mp hsorted).1 own hranked)

theorem score_lt_of_best_eq_none (h : (r.matchCommand words line).best = none)
    (hc : c ∈ r.candidates words line) : c.score < matchFloor := by
  by_contra hlow
  obtain ⟨own, hranked, -⟩ := exists_mem_ranked hc (Score.le_of_not_lt hlow)
  rw [best_matchCommand, List.head?_eq_none_iff] at h
  rw [h] at hranked
  cases hranked

/-- The verb of a phrase that starts the words is said, if no candidate is better. -/
theorem says_of_exactMatch (he : e ∈ r.entries) (hstart : e.phrase.words <+: words)
    (hrank : ∀ c ∈ r.candidates words line, e.exactMatch.rank ≤ c.rank) :
    r.Says words e.verb := by
  rcases mem_entries_cases he with ⟨-, hname, hregistered⟩ | ⟨halias, hhas⟩
  · rw [hname] at hstart
    exact .name hregistered hstart
  · have hscore : e.exactMatch.score = Entry.aliasScore := if_neg (by rw [halias]; decide)
    have hunnamed : r.Unnamed words := unnamed_of_score_lt fun c hc => by
      have hle := CommandMatch.score_le_of_rank_le (hrank c hc)
      rw [hscore] at hle
      exact Score.lt_of_le_of_lt hle Entry.aliasScore_lt
    refine .byAlias hunnamed hhas hstart fun w q hq hstart' => ?_
    exact (CommandMatch.rank_le_iff hscore).mp (hrank _ (alias_mem_candidates _ hq hstart'))

/-- The verb of an alias that is the start of the first word is said, if no candidate is better. -/
theorem says_of_stemMatch (he : e ∈ r.entries) (halias : e.canonical = false)
    (hstems : e.phrase.Stems words)
    (hrank : ∀ c ∈ r.candidates words line, e.stemMatch.rank ≤ c.rank) :
    r.Says words e.verb := by
  have hscore : ∀ c ∈ r.candidates words line, c.score ≤ Entry.stemScore := fun c hc =>
    CommandMatch.score_le_of_rank_le (hrank c hc)
  have hunnamed : r.Unnamed words := unnamed_of_score_lt fun c hc =>
    Score.lt_of_le_of_lt (hscore c hc) Entry.stemScore_lt
  have hunaliased : r.Unaliased words := unaliased_of_score_lt fun c hc =>
    Score.lt_of_le_of_lt (hscore c hc) Entry.stemScore_lt_aliasScore
  rcases mem_entries_cases he with ⟨hcanonical, -⟩ | ⟨-, hhas⟩
  · rw [halias] at hcanonical
    cases hcanonical
  · refine .byStem hunnamed hunaliased hhas hstems fun w q hq hstems' => ?_
    have hbefore := hrank _ (stem_mem_candidates _ hunaliased hq hstems')
    have hscores : e.stemMatch.score = (Entry.stemMatch ⟨w, q, false⟩).score := rfl
    -- every stem takes one word, so the names decide
    rcases (CommandMatch.rank_le_iff hscores).mp hbefore with hlt | ⟨-, hle⟩
    · exact absurd hlt (Nat.lt_irrefl 1)
    · exact hle

/-- The best match says its verb, or it is the best guess of words that are silent. -/
theorem says_or_guess_of_best
    (h : (r.matchCommand words (Text.unwords words)).best = some m) :
    (m.kind ≠ .fuzzy ∧ r.Says words m.verb) ∨
      (m.kind = .fuzzy ∧ r.Silent words ∧ r.IsBestGuess words m) := by
  obtain ⟨hmem, hfloor, hrank⟩ := of_best_eq_some h
  obtain ⟨e, he, hmatch⟩ := mem_candidates.mp hmem
  rcases Entry.match?_cases hmatch with ⟨hstart, rfl⟩ | ⟨-, ⟨halias, hstems⟩, rfl⟩ |
    ⟨-, -, -, score, hlow, hm⟩
  · exact Or.inl ⟨fun hkind => (by cases hkind), says_of_exactMatch he hstart hrank⟩
  · exact Or.inl ⟨fun hkind => (by cases hkind), says_of_stemMatch he halias hstems hrank⟩
  · have hkind : m.kind = .fuzzy := by rw [hm]
    have hbelow : m.score < Entry.stemScore := by rw [hm]; exact hlow
    have hsilent : r.Silent words := silent_of_score_lt fun c hc =>
      Score.lt_of_le_of_lt (CommandMatch.score_le_of_rank_le (hrank c hc)) hbelow
    refine Or.inr ⟨hkind, hsilent, ?_, fun g hg => hrank g (List.mem_of_mem_filter hg)⟩
    exact List.mem_filter.mpr ⟨hmem, decide_eq_true ⟨hkind, hfloor⟩⟩

theorem silent_of_best_eq_none
    (h : (r.matchCommand words (Text.unwords words)).best = none) :
    r.Silent words ∧ r.guesses words = [] := by
  refine ⟨silent_of_score_lt fun c hc =>
    lt_of_lt_of_le (α := Rat) (score_lt_of_best_eq_none h hc) Entry.matchFloor_le_stemScore, ?_⟩
  refine List.filter_eq_nil_iff.mpr fun c hc hguess => ?_
  exact absurd (of_decide_eq_true hguess).2 (Rat.not_le.mpr (score_lt_of_best_eq_none h hc))

/-! ## The verb that is read -/

/-- The best match is read if it stands against what is inferred. -/
theorem readVerb?_of_standsAgainst (h : (r.matchCommand words (Text.unwords words)).best = some m)
    (hstands : m.standsAgainst (r.inferred? scene words) = true) :
    r.readVerb? scene words = some ⟨m.verb, m.score, words.drop m.consumed,
      (r.matchCommand words (Text.unwords words)).alternates⟩ := by
  unfold inferred? at hstands
  unfold readVerb?
  simp only [h, Option.filter_some, hstands, if_true]

/-- Otherwise what is inferred is read, if anything. -/
theorem verb_readVerb?_of_filter_eq_none
    (h : (r.matchCommand words (Text.unwords words)).best.filter
      (·.standsAgainst (r.inferred? scene words)) = none) :
    (r.readVerb? scene words).map (·.verb) = (r.inferred? scene words).map (·.verb) := by
  unfold inferred? at h ⊢
  unfold readVerb?
  simp only [h]
  cases (Inference.infer? words scene).filter fun found => r.isRegistered found.verb with
  | none => rfl
  | some found => rfl

/-- The verb that words say is read off them with the best match, whatever is inferred. -/
theorem readVerb?_of_says (h : r.Says words v) (scene : Scene) :
    ∃ m, (r.matchCommand words (Text.unwords words)).best = some m ∧ m.verb = v ∧
      r.readVerb? scene words = some ⟨v, m.score, words.drop m.consumed,
        (r.matchCommand words (Text.unwords words)).alternates⟩ := by
  cases hbest : (r.matchCommand words (Text.unwords words)).best with
  | none => exact absurd h (silent_of_best_eq_none hbest).1.not_said
  | some m =>
    rcases says_or_guess_of_best hbest with ⟨hkind, hsays⟩ | ⟨-, hsilent, -⟩
    · obtain rfl := hsays.unique h
      have hstands : m.standsAgainst (r.inferred? scene words) = true :=
        CommandMatch.standsAgainst_iff.mpr (Or.inl hkind)
      exact ⟨m, rfl, rfl, readVerb?_of_standsAgainst hbest hstands⟩
    · exact absurd h hsilent.not_said

/-- What is read off words is what they mean. -/
theorem means_readVerb? (r : Registry) (scene : Scene) (words : List String) :
    r.Means words (r.inferred? scene words) ((r.readVerb? scene words).map (·.verb)) := by
  cases hfilter : (r.matchCommand words (Text.unwords words)).best.filter
      (·.standsAgainst (r.inferred? scene words)) with
  | some m =>
    obtain ⟨hbest, hstands⟩ := Option.filter_eq_some_iff.mp hfilter
    rw [readVerb?_of_standsAgainst hbest hstands]
    rcases says_or_guess_of_best hbest with ⟨-, hsays⟩ | ⟨hkind, hsilent, hguess⟩
    · exact .said hsays
    · have hweaker := (CommandMatch.standsAgainst_iff.mp hstands).resolve_left (· hkind)
      exact .guessed hsilent hguess hweaker
  | none =>
    rw [verb_readVerb?_of_filter_eq_none hfilter]
    cases hbest : (r.matchCommand words (Text.unwords words)).best with
    | none =>
      obtain ⟨hsilent, hunguessed⟩ := silent_of_best_eq_none hbest
      cases hinferred : r.inferred? scene words with
      | none => exact .nothing hsilent hunguessed rfl
      | some found =>
        refine .byInference hsilent rfl fun g hg => ?_
        rw [hunguessed] at hg
        cases hg
    | some m =>
      have hyields : ¬ m.standsAgainst (r.inferred? scene words) = true := by
        rw [hbest] at hfilter
        exact Option.filter_eq_none_iff.mp hfilter m rfl
      rw [CommandMatch.standsAgainst_iff, not_or, not_not] at hyields
      obtain ⟨hfuzzy, hstronger⟩ := hyields
      rcases says_or_guess_of_best hbest with ⟨hkind, -⟩ | ⟨-, hsilent, hguess⟩
      · exact absurd hfuzzy hkind
      · cases hinferred : r.inferred? scene words with
        | none => exact absurd (fun found hfound => (by cases hfound)) (hinferred ▸ hstronger)
        | some found =>
          refine .byInference hsilent rfl fun g hg => ?_
          have hle := CommandMatch.score_le_of_rank_le (hguess.rank_le g hg)
          have hlt : m.score < found.score := by
            by_contra hnot
            refine hstronger fun other hother => ?_
            rw [hinferred] at hother
            cases hother
            exact Score.le_of_not_lt hnot
          exact Score.lt_of_le_of_lt hle hlt

theorem verb_interpret (r : Registry) (scene : Scene) (line : String) :
    (r.interpret scene line).verb = (r.readVerb? scene (Text.words line)).map (·.verb) := by
  unfold interpret
  simp only
  cases hread : r.readVerb? scene (Text.words line) with
  | none => rfl
  | some reading =>
    obtain ⟨command, hc⟩ := exists_command_of_isRegistered (isRegistered_of_readVerb? hread).1
    simp only [hc, Option.map_some]
    exact verb_buildIntent scene _ reading command

/-- **The verb of an interpreted line is what the line means**, and if a verb is said, nothing that
is read off the line depends on what could be inferred. -/
theorem verb_of_interpret_iff (r : Registry) (scene : Scene) (line : String) (v? : Option Verb) :
    ((r.interpret scene line).verb = v? ↔
      r.Means (Text.words line) (r.inferred? scene (Text.words line)) v?) ∧
    ∀ v, r.Says (Text.words line) v →
      ∃ m, (r.matchCommand (Text.words line) (Text.unwords (Text.words line))).best = some m ∧
        m.verb = v ∧ r.readVerb? scene (Text.words line) =
          some ⟨v, m.score, (Text.words line).drop m.consumed,
            (r.matchCommand (Text.words line) (Text.unwords (Text.words line))).alternates⟩ := by
  have hmeans := r.means_readVerb? scene (Text.words line)
  rw [← verb_interpret] at hmeans
  refine ⟨⟨?_, fun h => hmeans.unique h⟩, fun v hv => readVerb?_of_says hv scene⟩
  rintro rfl
  exact hmeans

/-- The stem of an alias counts before what a line implies, and a guess does not. -/
example :
    let verb (aliases : List String) := ((Registry.empty.registerAll
      [⟨.go, [], 0, 1, false⟩, ⟨.take, aliases, 0, 1, false⟩]).interpret {} "walk north").verb
    verb ["wa"] = some .take ∧ verb ["walks"] = some .go := by
  decide +kernel

end Registry

end PlayerCommands
