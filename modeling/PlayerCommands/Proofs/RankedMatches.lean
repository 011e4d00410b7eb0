import Mathlib.Algebra.Order.Ring.Unbundled.Rat
import Mathlib.Data.Prod.Lex
import Mathlib.Data.String.Basic
import PlayerCommands.Proofs.Protection
import PlayerCommands.Proofs.Ranking

/-!
# The outcome of matching is a ranking

Matches are ordered by score, by the number of words that they take, and by the name of their verb.
Of the matches of all phrases an outcome lists the best one of each verb, the best verbs first, if
it reaches the floor and five others are not before it.  Whatever phrase is matched, it covers at
least one word and no more than there are.

    a.outranks b ↔ a.rank < b.rank                                              (outranks_iff)
    r.bestOf words line v = some m →
      m.Leads ((r.candidates words line).filter (·.verb = v))              (leads_of_bestOf)
    (r.matchCommand words line).Ranks (r.candidates words line)          (ranks_matchCommand)
-/

namespace PlayerCommands

/-! ## The order of matches -/

namespace CommandMatch

/-- What a match is ranked by: a high score first, then many words, then the name of the verb. -/
def rank (m : CommandMatch) : Ratᵒᵈ ×ₗ Natᵒᵈ ×ₗ String :=
  toLex (OrderDual.toDual m.score.value, toLex (OrderDual.toDual m.consumed, m.verb.name))

variable {a b m : CommandMatch} {l matched : List CommandMatch}

theorem outranks_iff : a.outranks b = true ↔ a.rank < b.rank := by
  simp only [outranks, rank, Prod.Lex.toLex_lt_toLex, OrderDual.toDual_lt_toDual, Bool.or_eq_true,
    Bool.and_eq_true, decide_eq_true_eq, Score.lt_def, Score.le_def, OrderDual.toDual_inj,
    le_antisymm_iff (a := a.score.value)]

theorem outranks_eq_false_iff : a.outranks b = false ↔ b.rank ≤ a.rank := by
  rw [← not_lt, ← outranks_iff, Bool.not_eq_true]

/-- Matches of one rank are about one verb. -/
theorem verb_of_rank_eq (h : a.rank = b.rank) : a.verb = b.verb := by
  have hname : (ofLex (ofLex a.rank).2).2 = (ofLex (ofLex b.rank).2).2 := by rw [h]
  exact Verb.name_injective hname

theorem rank_lt_of_score_lt (h : b.score < a.score) : a.rank < b.rank :=
  outranks_iff.mp (outranks_of_lt h)

/-- The match is the first one among the best. -/
def Leads (m : CommandMatch) (l : List CommandMatch) : Prop :=
  ∃ before after, l = before ++ m :: after ∧ (∀ a ∈ before, m.rank < a.rank) ∧
    ∀ a ∈ after, m.rank ≤ a.rank

theorem Leads.mem (h : m.Leads l) : m ∈ l := by
  obtain ⟨before, after, rfl, -, -⟩ := h
  simp

theorem Leads.rank_le (h : m.Leads l) (ha : a ∈ l) : m.rank ≤ a.rank := by
  obtain ⟨before, after, rfl, hbefore, hafter⟩ := h
  rcases List.mem_append.mp ha with ha | ha
  · exact le_of_lt (hbefore a ha)
  · rcases List.mem_cons.mp ha with rfl | ha
    · exact le_refl _
    · exact hafter a ha

theorem Leads.cons (h : m.Leads (b :: l)) (hba : b.rank < a.rank) : m.Leads (a :: b :: l) := by
  have hma : m.rank < a.rank := lt_of_le_of_lt (h.rank_le List.mem_cons_self) hba
  obtain ⟨before, after, heq, hbefore, hafter⟩ := h
  refine ⟨a :: before, after, by rw [heq, List.cons_append], ?_, hafter⟩
  exact List.forall_mem_cons.mpr ⟨hma, hbefore⟩

theorem Leads.cons_cons (h : m.Leads (a :: l)) (hab : a.rank ≤ b.rank) : m.Leads (a :: b :: l) := by
  obtain ⟨before, after, heq, hbefore, hafter⟩ := h
  cases before with
  | nil =>
    rw [List.nil_append] at heq
    cases heq
    exact ⟨[], b :: l, rfl, hbefore, List.forall_mem_cons.mpr ⟨hab, hafter⟩⟩
  | cons first others =>
    rw [List.cons_append] at heq
    cases heq
    obtain ⟨hfirst, hothers⟩ := List.forall_mem_cons.mp hbefore
    refine ⟨a :: b :: others, after, rfl, ?_, hafter⟩
    exact List.forall_mem_cons.mpr
      ⟨hfirst, List.forall_mem_cons.mpr ⟨lt_of_lt_of_le hfirst hab, hothers⟩⟩

/-- Scanning for a better match leads to the leader of all. -/
theorem exists_leader (best : CommandMatch) (matched : List CommandMatch) :
    ∃ m, matched.foldl Registry.better (some best) = some m ∧ m.Leads (best :: matched) := by
  induction matched generalizing best with
  | nil => exact ⟨best, rfl, [], [], rfl, fun _ ha => (by cases ha), fun _ ha => (by cases ha)⟩
  | cons new rest ih =>
    rw [List.foldl_cons]
    by_cases hnew : new.outranks best = true
    · have hbetter : Registry.better (some best) new = some new := if_pos hnew
      obtain ⟨m, hm, hlead⟩ := ih new
      exact ⟨m, by rw [hbetter, hm], hlead.cons (outranks_iff.mp hnew)⟩
    · have hbetter : Registry.better (some best) new = some best := if_neg hnew
      obtain ⟨m, hm, hlead⟩ := ih best
      refine ⟨m, by rw [hbetter, hm], hlead.cons_cons ?_⟩
      exact outranks_eq_false_iff.mp (Bool.eq_false_iff.mpr hnew)

end CommandMatch

/-! ## What a phrase matches -/

namespace Phrase

theorem words_ne_nil (p : Phrase) : p.words ≠ [] := by
  intro hnil
  have htext := p.text_eq_unwords
  rw [hnil] at htext
  exact p.isPhrase.1 htext

/-- A phrase of one word, with at least two bytes, that the first of some words starts with. -/
structure Stems (p : Phrase) (words : List String) : Prop where
  single : p.words.length = 1
  two_le : 2 ≤ p.text.utf8ByteSize
  starts : ∃ first, words.head? = some first ∧ p.text.toList <+: first.toList

end Phrase

namespace Entry

/-- The match of a phrase that a line starts with. -/
def exactMatch (e : Entry) : CommandMatch :=
  ⟨e.verb, if e.canonical then canonicalScore else aliasScore, e.phrase.words.length,
    e.phrase.text, .exact⟩

/-- The match of an alias that is the start of the first word. -/
def stemMatch (e : Entry) : CommandMatch := ⟨e.verb, stemScore, 1, e.phrase.text, .stem⟩

variable {e : Entry} {words : List String} {line : String} {m : CommandMatch}

theorem fuzzyScore_lt_stemScore {edits : Nat} (h : edits ≤ 3) (inLine canonical : Bool) :
    fuzzyScore edits inLine canonical < stemScore := by
  have hall : ∀ n : Fin 4, ∀ inLine canonical,
      fuzzyScore n inLine canonical < stemScore := by decide +kernel
  exact hall ⟨edits, Nat.lt_succ_of_le h⟩ inLine canonical

theorem stems_iff : (! e.canonical && decide (e.phrase.words.length = 1) &&
    decide (2 ≤ e.phrase.text.utf8ByteSize) &&
    words.head?.any fun first => e.phrase.text.toList.isPrefixOf first.toList) = true ↔
      e.canonical = false ∧ e.phrase.Stems words := by
  simp only [Bool.and_eq_true, Bool.not_eq_true', decide_eq_true_eq, Option.any_eq_true,
    List.isPrefixOf_iff_prefix]
  constructor
  · rintro ⟨⟨⟨halias, hsingle⟩, htwo⟩, first, hfirst, hstarts⟩
    exact ⟨halias, hsingle, htwo, first, hfirst, hstarts⟩
  · rintro ⟨halias, hsingle, htwo, first, hfirst, hstarts⟩
    exact ⟨⟨⟨halias, hsingle⟩, htwo⟩, first, hfirst, hstarts⟩

theorem match?_of_starts (line : String) (h : e.phrase.words <+: words) :
    e.match? words line = some e.exactMatch := by
  unfold match?
  rw [if_pos (List.isPrefixOf_iff_prefix.mpr h)]
  rfl

theorem match?_of_stems (line : String) (hstart : ¬ e.phrase.words <+: words)
    (halias : e.canonical = false) (h : e.phrase.Stems words) :
    e.match? words line = some e.stemMatch := by
  unfold match?
  rw [if_neg (fun hp => hstart (List.isPrefixOf_iff_prefix.mp hp)),
    if_pos (stems_iff.mpr ⟨halias, h⟩)]
  rfl

/-- All that a phrase can match: the start of a line word for word, the start of its first word, or
with typos as many words as it has, for a lower score than that. -/
theorem match?_cases (h : e.match? words line = some m) :
    (e.phrase.words <+: words ∧ m = e.exactMatch) ∨
      (¬ e.phrase.words <+: words ∧ (e.canonical = false ∧ e.phrase.Stems words) ∧
        m = e.stemMatch) ∨
      (¬ e.phrase.words <+: words ∧ ¬ (e.canonical = false ∧ e.phrase.Stems words) ∧
        e.phrase.words.length ≤ words.length ∧ ∃ score, score < stemScore ∧
          m = ⟨e.verb, score, e.phrase.words.length, e.phrase.text, .fuzzy⟩) := by
  by_cases hstart : e.phrase.words <+: words
  · rw [match?_of_starts line hstart] at h
    cases h
    exact Or.inl ⟨hstart, rfl⟩
  by_cases hstems : e.canonical = false ∧ e.phrase.Stems words
  · rw [match?_of_stems line hstart hstems.1 hstems.2] at h
    cases h
    exact Or.inr (Or.inl ⟨hstart, hstems, rfl⟩)
  refine Or.inr (Or.inr ⟨hstart, hstems, ?_⟩)
  unfold match? at h
  rw [if_neg (fun hp => hstart (List.isPrefixOf_iff_prefix.mp hp)),
    if_neg (fun hs => hstems (stems_iff.mp hs))] at h
  simp only at h
  split at h
  · cases h
  · next hlength =>
    split at h
    · cases h
    · split at h
      · cases h
      · next hedits =>
        cases h
        exact ⟨Nat.not_lt.mp hlength, _, fuzzyScore_lt_stemScore
          (Nat.le_trans (Nat.not_lt.mp hedits) (editLimit_le _)) _ _, rfl⟩

/-- A match covers as many words as its phrase has: at least one, and no more than there are. -/
theorem consumed_of_match? (h : e.match? words line = some m) :
    m.consumed = (Text.tokens m.phrase).length ∧ 1 ≤ m.consumed ∧ m.consumed ≤ words.length := by
  have hpos : 1 ≤ e.phrase.words.length :=
    List.length_pos_iff.mpr e.phrase.words_ne_nil
  rcases match?_cases h with ⟨hstart, rfl⟩ | ⟨-, ⟨-, hstems⟩, rfl⟩ | ⟨-, -, hlength, score, -, rfl⟩
  · exact ⟨rfl, hpos, hstart.length_le⟩
  · obtain ⟨first, hfirst, -⟩ := hstems.starts
    have hwords : 1 ≤ words.length := by
      cases words with
      | nil => cases hfirst
      | cons word rest => exact Nat.le_add_left 1 rest.length
    exact ⟨hstems.single.symm, Nat.le_refl 1, hwords⟩
  · exact ⟨rfl, hpos, hlength⟩

end Entry

/-! ## Matches of a registry -/

/-- Where only one element contributes anything, nothing else is collected. -/
theorem List.flatMap_eq_of_nodup {α β : Type} {f : α → List β} {l : List α} {a : α}
    (hl : l.Nodup) (ha : a ∈ l) (h : ∀ b ∈ l, b ≠ a → f b = []) : l.flatMap f = f a := by
  induction l with
  | nil => cases ha
  | cons b rest ih =>
    obtain ⟨hb, hrest⟩ := List.nodup_cons.mp hl
    rw [List.flatMap_cons]
    rcases List.mem_cons.mp ha with rfl | ha
    · have hnil : rest.flatMap f = [] := by
        rw [List.flatMap_eq_nil_iff]
        intro c hc
        refine h c (List.mem_cons_of_mem _ hc) ?_
        rintro rfl
        exact hb hc
      rw [hnil, List.append_nil]
    · have hne : b ≠ a := by
        rintro rfl
        exact hb ha
      rw [h b List.mem_cons_self hne, List.nil_append]
      exact ih hrest ha fun c hc => h c (List.mem_cons_of_mem _ hc)

/-- The matches that an outcome lists, the best one first. -/
def MatchOutcome.listed (o : MatchOutcome) : List CommandMatch := o.best.toList ++ o.alternates

/-- The outcome is a ranking of some matches. -/
structure MatchOutcome.Ranks (o : MatchOutcome) (matched : List CommandMatch) : Prop where
  nodup_verbs : (o.listed.map (·.verb)).Nodup
  sorted : o.listed.Pairwise fun a b => a.rank < b.rank
  floor_le : ∀ m ∈ o.listed, matchFloor ≤ m.score
  /-- Each verb is there with its best match. -/
  leads : ∀ m ∈ o.listed, m.Leads (matched.filter (·.verb = m.verb))
  /-- A verb with a match at the floor or above is there, unless there is no room behind others. -/
  complete : ∀ c ∈ matched, matchFloor ≤ c.score →
    c.verb ∈ o.listed.map (·.verb) ∨
      o.listed.length = maxOptions + 1 ∧ ∀ m ∈ o.listed, m.rank < c.rank
  length_le : o.alternates.length ≤ maxOptions
  alternates_eq_nil : o.best = none → o.alternates = []

namespace Registry

variable {r : Registry} {words : List String} {line : String} {v : Verb} {m c : CommandMatch}

/-- The matches of all phrases. -/
def candidates (r : Registry) (words : List String) (line : String) : List CommandMatch :=
  r.entries.filterMap (·.match? words line)

theorem mem_candidates : m ∈ r.candidates words line ↔
    ∃ e ∈ r.entries, e.match? words line = some m := List.mem_filterMap

theorem filter_candidates (r : Registry) (words : List String) (line : String) (v : Verb) :
    (r.candidates words line).filter (·.verb = v) =
      (((r.command? v).map (entriesOf v)).getD []).filterMap (·.match? words line) := by
  have hverb : ∀ w, ∀ m ∈ (((r.command? w).map (entriesOf w)).getD []).filterMap
      (·.match? words line), m.verb = w := by
    intro w m hm
    obtain ⟨e, he, hmatch⟩ := List.mem_filterMap.mp hm
    exact (Entry.verb_of_match? hmatch).trans (verb_of_mem_getD_entriesOf he)
  unfold candidates entries
  rw [List.filterMap_flatMap, List.filter_flatMap,
    List.flatMap_eq_of_nodup Verb.nodup_all (Verb.mem_all v)]
  · exact List.filter_eq_self.mpr fun m hm => decide_eq_true (hverb v m hm)
  · intro w _ hne
    rw [List.filter_eq_nil_iff]
    intro m hm hv
    exact hne ((hverb w m hm).symm.trans (of_decide_eq_true hv))

theorem leads_of_bestOf (h : r.bestOf words line v = some m) :
    m.Leads ((r.candidates words line).filter (·.verb = v)) := by
  rw [filter_candidates]
  unfold bestOf at h
  simp only at h
  obtain ⟨hfold, -⟩ := Option.filter_eq_some_iff.mp h
  generalize (((r.command? v).map (entriesOf v)).getD []).filterMap (·.match? words line) =
    matched at hfold
  cases matched with
  | nil => cases hfold
  | cons first rest =>
    obtain ⟨m', hm', hlead⟩ := CommandMatch.exists_leader first rest
    have heq : some m = some m' := hfold.symm.trans hm'
    cases heq
    exact hlead

/-- A verb with a match at the floor or above has a best one, which is at least as good. -/
theorem exists_bestOf (hc : c ∈ r.candidates words line) (hfloor : matchFloor ≤ c.score) :
    ∃ m, r.bestOf words line c.verb = some m ∧ m.rank ≤ c.rank := by
  have hmem : c ∈ (r.candidates words line).filter (·.verb = c.verb) :=
    List.mem_filter.mpr ⟨hc, decide_eq_true rfl⟩
  rw [filter_candidates] at hmem
  unfold bestOf
  simp only
  generalize (((r.command? c.verb).map (entriesOf c.verb)).getD []).filterMap
    (·.match? words line) = matched at hmem
  cases matched with
  | nil => cases hmem
  | cons first rest =>
    obtain ⟨m, hm, hlead⟩ := CommandMatch.exists_leader first rest
    have hrank : m.rank ≤ c.rank := hlead.rank_le hmem
    have hscore : matchFloor ≤ m.score := by
      refine Score.le_of_not_lt fun hlt => ?_
      have hbelow : m.score < c.score := lt_of_lt_of_le (α := Rat) hlt hfloor
      exact absurd (CommandMatch.rank_lt_of_score_lt hbelow) (not_lt.mpr hrank)
    refine ⟨m, ?_, hrank⟩
    rw [Option.filter_eq_some_iff]
    exact ⟨hm, decide_eq_true hscore⟩

/-! ## The ranking -/

theorem mem_ranked : m ∈ r.ranked words line ↔ r.bestOf words line m.verb = some m := by
  unfold ranked
  rw [Ranking.mem_sort, List.mem_filterMap]
  constructor
  · rintro ⟨v, -, hv⟩
    obtain ⟨rfl, -⟩ := isRegistered_of_bestOf hv
    exact hv
  · exact fun h => ⟨m.verb, Verb.mem_all _, h⟩

/-- A verb with a match at the floor or above is ranked, and at least as high. -/
theorem exists_mem_ranked (hc : c ∈ r.candidates words line) (hfloor : matchFloor ≤ c.score) :
    ∃ own ∈ r.ranked words line, own.verb = c.verb ∧ own.rank ≤ c.rank := by
  obtain ⟨own, hown, hrank⟩ := exists_bestOf hc hfloor
  obtain ⟨hverb, -⟩ := isRegistered_of_bestOf hown
  exact ⟨own, mem_ranked.mpr (hverb ▸ hown), hverb, hrank⟩

theorem nodup_verbs_ranked (r : Registry) (words : List String) (line : String) :
    ((r.ranked words line).map (·.verb)).Nodup := by
  unfold ranked
  rw [((Ranking.perm_sort _ _).map _).nodup_iff, List.Nodup, List.pairwise_map]
  have hall : Verb.all.Pairwise (· ≠ ·) := Verb.nodup_all
  refine hall.filterMap _ fun v w hne m hm m' hm' => ?_
  rwa [(isRegistered_of_bestOf hm).1, (isRegistered_of_bestOf hm').1]

theorem sorted_ranked (r : Registry) (words : List String) (line : String) :
    (r.ranked words line).Pairwise fun a b => a.rank < b.rank := by
  have hle : (r.ranked words line).Pairwise fun a b => a.rank ≤ b.rank :=
    Ranking.pairwise_sort_of_key CommandMatch.rank CommandMatch.outranks_iff _
  -- different verbs have different ranks
  refine (hle.and (List.pairwise_map.mp (r.nodup_verbs_ranked words line))).imp ?_
  rintro a b ⟨hab, hne⟩
  exact lt_of_le_of_ne hab fun heq => hne (CommandMatch.verb_of_rank_eq heq)

theorem matchCommand_cases (r : Registry) (words : List String) (line : String) :
    r.matchCommand words line = {} ∨
      ∃ best, ∃ others : List CommandMatch,
        r.matchCommand words line = ⟨some best, others.take maxOptions⟩ := by
  unfold matchCommand
  split
  · exact Or.inl rfl
  · split
    · exact Or.inl rfl
    · next best others _ => exact Or.inr ⟨best, others, rfl⟩

theorem listed_matchCommand (r : Registry) (words : List String) (line : String) :
    (r.matchCommand words line).listed = (r.ranked words line).take (maxOptions + 1) := by
  unfold matchCommand
  split
  · next hnil =>
    have hranked : r.ranked words line = [] := by
      rw [List.eq_nil_iff_forall_not_mem]
      intro m hm
      obtain ⟨-, c, -, e, -, hmatch⟩ := of_bestOf (mem_ranked.mp hm)
      obtain ⟨-, hpos, hle⟩ := Entry.consumed_of_match? hmatch
      rw [List.isEmpty_iff.mp hnil] at hle
      exact absurd (Nat.le_trans hpos hle) (by decide)
    rw [hranked]
    rfl
  · split
    · next hranked =>
      rw [hranked]
      rfl
    · next best others hranked =>
      rw [hranked]
      rfl

/-- The best match of an outcome is the best one of all verbs. -/
theorem best_matchCommand (r : Registry) (words : List String) (line : String) :
    (r.matchCommand words line).best = (r.ranked words line).head? := by
  have hhead := congrArg List.head? (r.listed_matchCommand words line)
  rw [List.head?_take, if_neg (by decide)] at hhead
  rw [← hhead]
  rcases r.matchCommand_cases words line with heq | ⟨best, others, heq⟩
  · rw [heq]
    rfl
  · rw [heq]
    rfl

theorem bestOf_of_mem_listed (h : m ∈ (r.matchCommand words line).listed) :
    r.bestOf words line m.verb = some m := by
  rw [listed_matchCommand] at h
  exact mem_ranked.mp (List.mem_of_mem_take h)

/-- A verb with a match at the floor or above is listed, or behind as many as are listed at most. -/
theorem listed_or_behind (hc : c ∈ r.candidates words line) (hfloor : matchFloor ≤ c.score) :
    c.verb ∈ (r.matchCommand words line).listed.map (·.verb) ∨
      (r.matchCommand words line).listed.length = maxOptions + 1 ∧
        ∀ m ∈ (r.matchCommand words line).listed, m.rank < c.rank := by
  obtain ⟨own, hmem, hverb, hrank⟩ := exists_mem_ranked hc hfloor
  have hsorted := r.sorted_ranked words line
  rw [listed_matchCommand]
  rw [← List.take_append_drop (maxOptions + 1) (r.ranked words line)] at hmem hsorted
  rcases List.mem_append.mp hmem with hmem | hmem
  · exact Or.inl (List.mem_map.mpr ⟨own, hmem, hverb⟩)
  · have hlength := List.length_pos_of_mem hmem
    rw [List.length_drop] at hlength
    refine Or.inr ⟨by rw [List.length_take]; omega, fun m hm => ?_⟩
    exact lt_of_lt_of_le ((List.pairwise_append.mp hsorted).2.2 m hm own hmem) hrank

/-- **The outcome of matching is the ranking of the matches of all phrases**, and each match of it
covers as many words as its phrase has: at least one, and no more than there are. -/
theorem ranks_matchCommand (r : Registry) (words : List String) (line : String) :
    (r.matchCommand words line).Ranks (r.candidates words line) ∧
      ∀ m ∈ (r.matchCommand words line).listed,
        m.consumed = (Text.tokens m.phrase).length ∧ 1 ≤ m.consumed ∧
          m.consumed ≤ words.length := by
  have hcut := r.matchCommand_cases words line
  refine ⟨⟨?_, ?_, fun m hm => (of_bestOf (bestOf_of_mem_listed hm)).1,
    fun m hm => leads_of_bestOf (bestOf_of_mem_listed hm),
    fun c hc hfloor => listed_or_behind hc hfloor, ?_, ?_⟩, fun m hm => ?_⟩
  · rw [listed_matchCommand, List.map_take]
    exact (r.nodup_verbs_ranked words line).take
  · rw [listed_matchCommand]
    exact (r.sorted_ranked words line).take
  · rcases hcut with heq | ⟨best, others, heq⟩
    · rw [heq]
      exact Nat.zero_le maxOptions
    · rw [heq]
      exact List.length_take_le maxOptions others
  · intro h
    rcases hcut with heq | ⟨best, others, heq⟩
    · rw [heq]
    · rw [heq] at h
      cases h
  · obtain ⟨-, c, -, e, -, hmatch⟩ := of_bestOf (bestOf_of_mem_listed hm)
    exact Entry.consumed_of_match? hmatch

/-- Six verbs have an alias that is one letter away, and the last one by name has to be left out. -/
example : ((Registry.empty.registerAll ([.go, .take, .use, .eat, .rest, .look].map fun v =>
    ⟨v, ["trek", "tramp"], 0, 1, false⟩)).matchCommand ["trak"] "trak").listed.map (·.verb) =
      [.eat, .go, .look, .rest, .take] := by
  decide +kernel

end Registry

end PlayerCommands
