import Mathlib.Data.List.Nodup
import Mathlib.Order.Lattice
import PlayerCommands.Entity
import PlayerCommands.Proofs.Bounds

/-!
# What a ranking holds

A ranking of names holds each candidate that is near enough once, with its best score, and nothing
else; no score is below a later one, and none is below the match floor.  A close call has two names
to choose from.  So a word that was matched by name scores at least the floor, and a question about a
close call has two options.

    KeepsBest (rank query candidates) (candidates.filterMap (boosted? query))    (keepsBest_rank)
    s ∈ rank query candidates → ∃ c ∈ candidates, boosted? query c = some s      (mem_rank)
    isCloseCall ranked counts → ranked = first :: second :: rest                 (of_isCloseCall)
-/

namespace PlayerCommands

/-! ## Order -/

namespace Ranking

variable {α : Type} {outranks : α → α → Bool} {R : α → α → Prop} {a : α} {l : List α}

/-- Inserting by rank keeps an order that the ranks agree with. -/
theorem pairwise_insert (htrans : ∀ {a b c}, R a b → R b c → R a c)
    (hahead : ∀ {a b}, outranks a b = true → R a b)
    (hbehind : ∀ {a b}, outranks a b = false → R b a) (hl : l.Pairwise R) :
    (insert outranks a l).Pairwise R := by
  induction l with
  | nil => exact List.pairwise_singleton R a
  | cons b rest ih =>
    obtain ⟨hb, hrest⟩ := List.pairwise_cons.mp hl
    unfold insert
    split
    · next hba =>
      refine List.pairwise_cons.mpr ⟨fun c hc => ?_, ih hrest⟩
      rcases List.mem_cons.mp ((perm_insert outranks a rest).mem_iff.mp hc) with rfl | hc
      · exact hahead hba
      · exact hb c hc
    · next hba =>
      have hab : R a b := hbehind (Bool.eq_false_iff.mpr hba)
      refine List.pairwise_cons.mpr ⟨fun c hc => ?_, hl⟩
      rcases List.mem_cons.mp hc with rfl | hc
      · exact hab
      · exact htrans hab (hb c hc)

theorem pairwise_sort (htrans : ∀ {a b c}, R a b → R b c → R a c)
    (hahead : ∀ {a b}, outranks a b = true → R a b)
    (hbehind : ∀ {a b}, outranks a b = false → R b a) (l : List α) :
    (sort outranks l).Pairwise R := by
  induction l with
  | nil => exact List.Pairwise.nil
  | cons a rest ih => exact pairwise_insert htrans hahead hbehind ih

/-- Ranks that are those of a key sort by it. -/
theorem pairwise_sort_of_key {β : Type} [LinearOrder β] (key : α → β)
    (hkey : ∀ {a b}, outranks a b = true ↔ key a < key b) (l : List α) :
    (sort outranks l).Pairwise fun a b => key a ≤ key b := by
  refine pairwise_sort (R := fun a b => key a ≤ key b) (fun hab hbc => le_trans hab hbc)
    (fun h => le_of_lt (hkey.mp h)) (fun h => ?_) l
  rw [← not_lt, ← hkey, h]
  exact Bool.false_ne_true

end Ranking

/-- A ranking goes from higher scores to lower ones. -/
theorem Scored.pairwise_ranking {α : Type} [LT α] [DecidableLT α] (l : List (Scored α)) :
    (ranking l).Pairwise fun a b => b.score ≤ a.score := by
  refine Ranking.pairwise_sort (R := fun a b : Scored α => b.score ≤ a.score)
    (fun hab hbc => Rat.le_trans hbc hab) (fun {a b} h => ?_) (fun {a b} h => ?_) l
  · simp only [outranks, Bool.or_eq_true, Bool.and_eq_true, decide_eq_true_eq] at h
    rcases h with hlt | ⟨⟨-, hle⟩, -⟩
    · exact Rat.le_of_lt hlt
    · exact hle
  · simp only [outranks, Bool.or_eq_false_iff, decide_eq_false_iff_not] at h
    exact Rat.not_lt.mp h.1

/-- In a ranking without repeated values, the one that is above all others comes first. -/
theorem Scored.exists_cons_of_leader {α : Type} {l : List (Scored α)} {a : Scored α}
    (hordered : l.Pairwise fun a b => b.score ≤ a.score) (hvalues : (l.map (·.value)).Nodup)
    (hmem : a ∈ l) (hbelow : ∀ s ∈ l, s.value ≠ a.value → s.score < a.score) :
    ∃ rest, l = a :: rest ∧ (∀ s ∈ rest, s.value ≠ a.value) ∧
      rest.Pairwise fun a b => b.score ≤ a.score := by
  cases l with
  | nil => cases hmem
  | cons first rest =>
    obtain ⟨hfirst, hrest⟩ := List.pairwise_cons.mp hordered
    have hfresh : first.value ∉ rest.map (·.value) := (List.nodup_cons.mp hvalues).1
    rcases List.mem_cons.mp hmem with rfl | hlater
    · exact ⟨rest, rfl, fun s hs heq => hfresh (List.mem_map.mpr ⟨s, hs, heq⟩), hrest⟩
    · -- what comes before the leader would have to be above it
      have hne : first.value ≠ a.value := fun heq =>
        hfresh (List.mem_map.mpr ⟨a, hlater, heq.symm⟩)
      exact absurd (hfirst a hlater) (Rat.not_le.mpr (hbelow first List.mem_cons_self hne))

namespace Name

/-! ## The best score of each name -/

/-- Of the scored names `found`, `kept` holds each name once, with a score that none exceeds. -/
structure KeepsBest (kept found : List (Scored String)) : Prop where
  nodup_values : (kept.map (·.value)).Nodup
  subset : kept ⊆ found
  exists_le : ∀ s ∈ found, ∃ t ∈ kept, t.value = s.value ∧ s.score ≤ t.score

variable {kept seen found : List (Scored String)} {s t : Scored String}

theorem mem_keepBest (h : t ∈ keepBest s kept) : t = s ∨ t ∈ kept := by
  induction kept with
  | nil => exact Or.inl (List.mem_singleton.mp h)
  | cons old rest ih =>
    unfold keepBest at h
    split at h
    · rcases List.mem_cons.mp h with h | h
      · split at h
        · exact Or.inl h
        · exact Or.inr (h ▸ List.mem_cons_self)
      · exact Or.inr (List.mem_cons_of_mem _ h)
    · rcases List.mem_cons.mp h with h | h
      · exact Or.inr (h ▸ List.mem_cons_self)
      · rcases ih h with h | h
        · exact Or.inl h
        · exact Or.inr (List.mem_cons_of_mem _ h)

theorem keepBest_of_notMem (h : s.value ∉ kept.map (·.value)) :
    keepBest s kept = kept ++ [s] := by
  induction kept with
  | nil => rfl
  | cons old rest ih =>
    rw [List.map_cons, List.mem_cons, not_or] at h
    obtain ⟨hold, hrest⟩ := h
    unfold keepBest
    rw [if_neg (Ne.symm hold), ih hrest, List.cons_append]

theorem values_keepBest_of_mem (h : s.value ∈ kept.map (·.value)) :
    (keepBest s kept).map (·.value) = kept.map (·.value) := by
  induction kept with
  | nil => cases h
  | cons old rest ih =>
    unfold keepBest
    by_cases hold : old.value = s.value
    · rw [if_pos hold]
      split
      · rw [List.map_cons, List.map_cons, hold]
      · rfl
    · have hrest := (List.mem_cons.mp h).resolve_left (Ne.symm hold)
      rw [if_neg hold, List.map_cons, List.map_cons, ih hrest]

theorem nodup_values_keepBest (s : Scored String) (h : (kept.map (·.value)).Nodup) :
    ((keepBest s kept).map (·.value)).Nodup := by
  by_cases hs : s.value ∈ kept.map (·.value)
  · rwa [values_keepBest_of_mem hs]
  · rw [keepBest_of_notMem hs, List.map_append]
    exact List.perm_append_comm.nodup_iff.mpr (List.nodup_cons.mpr ⟨hs, h⟩)

theorem exists_le_keepBest (h : t ∈ kept ∨ t = s) :
    ∃ u ∈ keepBest s kept, u.value = t.value ∧ t.score ≤ u.score := by
  induction kept with
  | nil =>
    obtain rfl := h.resolve_left List.not_mem_nil
    exact ⟨t, List.mem_singleton_self t, rfl, Score.le_refl _⟩
  | cons old rest ih =>
    unfold keepBest
    by_cases hold : old.value = s.value
    · rw [if_pos hold]
      by_cases ht : t ∈ rest
      · exact ⟨t, List.mem_cons_of_mem _ ht, rfl, Score.le_refl _⟩
      · -- `t` is one of the two that are compared
        refine ⟨_, List.mem_cons_self, ?_⟩
        have hpair : t = old ∨ t = s := h.imp_left fun h => (List.mem_cons.mp h).resolve_right ht
        split
        · next hlt =>
          rcases hpair with rfl | rfl
          · exact ⟨hold.symm, Rat.le_of_lt hlt⟩
          · exact ⟨rfl, Score.le_refl _⟩
        · next hle =>
          rcases hpair with rfl | rfl
          · exact ⟨rfl, Score.le_refl _⟩
          · exact ⟨hold, Score.le_of_not_lt hle⟩
    · rw [if_neg hold]
      by_cases ht : t = old
      · exact ⟨old, List.mem_cons_self, congrArg Scored.value ht.symm, ht ▸ Score.le_refl _⟩
      · obtain ⟨u, hu, hbest⟩ := ih (h.imp_left fun h => (List.mem_cons.mp h).resolve_left ht)
        exact ⟨u, List.mem_cons_of_mem _ hu, hbest⟩

theorem KeepsBest.perm {kept' : List (Scored String)} (h : KeepsBest kept found)
    (hperm : kept.Perm kept') : KeepsBest kept' found := by
  refine ⟨(hperm.map _).nodup_iff.mp h.nodup_values, fun s hs => h.subset (hperm.mem_iff.mpr hs),
    fun s hs => ?_⟩
  obtain ⟨t, ht, hbest⟩ := h.exists_le s hs
  exact ⟨t, hperm.mem_iff.mp ht, hbest⟩

theorem KeepsBest.step (h : KeepsBest kept seen) (s : Scored String) :
    KeepsBest (keepBest s kept) (seen ++ [s]) := by
  refine ⟨nodup_values_keepBest s h.nodup_values, fun u hu => ?_, fun t ht => ?_⟩
  · rcases mem_keepBest hu with rfl | hu
    · exact List.mem_append_right seen (List.mem_singleton_self u)
    · exact List.mem_append_left [s] (h.subset hu)
  · rcases List.mem_append.mp ht with ht | ht
    · obtain ⟨u, hu, hvalue, hle⟩ := h.exists_le t ht
      obtain ⟨best, hbest, hsame, hbetter⟩ := exists_le_keepBest (s := s) (Or.inl hu)
      exact ⟨best, hbest, hsame.trans hvalue, Score.le_trans hle hbetter⟩
    · exact exists_le_keepBest (Or.inr (List.mem_singleton.mp ht))

/-- The loop over all scored names keeps the best of those that it has seen. -/
theorem KeepsBest.foldl (h : KeepsBest kept seen) (found : List (Scored String)) :
    KeepsBest (found.foldl (fun l s => keepBest s l) kept) (seen ++ found) := by
  induction found generalizing kept seen with
  | nil => rwa [List.append_nil]
  | cons s rest ih =>
    have hrest := ih (h.step s)
    rwa [List.append_assoc] at hrest

theorem keepsBest_foldl (found : List (Scored String)) :
    KeepsBest (found.foldl (fun l s => keepBest s l) []) found := by
  have hstart : KeepsBest [] [] :=
    ⟨List.Pairwise.nil, List.Subset.refl [], fun s hs => absurd hs List.not_mem_nil⟩
  exact hstart.foldl found

/-! ## Rankings -/

variable {query : String} {candidates : List (String × Score)}

/-- A ranking keeps the best of all that are near enough. -/
theorem keepsBest_rank (query : String) (candidates : List (String × Score)) :
    KeepsBest (rank query candidates) (candidates.filterMap (boosted? query)) :=
  (keepsBest_foldl _).perm (Ranking.perm_sort Scored.outranks _).symm

theorem nodup_values_rank (query : String) (candidates : List (String × Score)) :
    ((rank query candidates).map (·.value)).Nodup := (keepsBest_rank query candidates).nodup_values

theorem mem_rank (h : s ∈ rank query candidates) : ∃ c ∈ candidates, boosted? query c = some s :=
  List.mem_filterMap.mp ((keepsBest_rank query candidates).subset h)

theorem matchFloor_le_of_boosted? {query : String} {candidate : String × Score}
    {s : Scored String} (h : boosted? query candidate = some s) : matchFloor ≤ s.score := by
  unfold boosted? at h
  obtain ⟨score, -, h⟩ := Option.bind_eq_some_iff.mp h
  split at h
  · cases h
  · next hfloor =>
    cases h
    exact Rat.not_lt.mp hfloor

theorem matchFloor_le_of_mem_rank {query : String} {candidates : List (String × Score)}
    {s : Scored String} (h : s ∈ rank query candidates) : matchFloor ≤ s.score := by
  obtain ⟨c, -, hc⟩ := mem_rank h
  exact matchFloor_le_of_boosted? hc

theorem value_of_boosted? {query : String} {candidate : String × Score} {s : Scored String}
    (h : boosted? query candidate = some s) : s.value = candidate.1 := by
  unfold boosted? at h
  obtain ⟨score, -, h⟩ := Option.bind_eq_some_iff.mp h
  split at h
  · cases h
  · cases h
    rfl

/-- Where no candidate occurs twice, all that are near enough are ranked. -/
theorem mem_rank_iff (h : (candidates.map Prod.fst).Nodup) :
    s ∈ rank query candidates ↔ ∃ c ∈ candidates, boosted? query c = some s := by
  have hvalues : ((candidates.filterMap (boosted? query)).map (·.value)).Nodup := by
    have hnames := List.pairwise_map.mp h
    refine List.pairwise_map.mpr (hnames.filterMap _ fun c c' hne s hs s' hs' => ?_)
    rwa [value_of_boosted? hs, value_of_boosted? hs']
  refine ⟨mem_rank, fun hs => ?_⟩
  have hkeeps := keepsBest_rank query candidates
  have hfound := List.mem_filterMap.mpr hs
  obtain ⟨t, ht, hvalue, -⟩ := hkeeps.exists_le s hfound
  rwa [← List.inj_on_of_nodup_map hvalues (hkeeps.subset ht) hfound hvalue]

end Name

theorem of_isCloseCall {α : Type} {ranked : List (Scored α)} {counts : Score → Bool}
    (h : isCloseCall ranked counts = true) :
    ∃ first second rest, ranked = first :: second :: rest := by
  unfold isCloseCall at h
  split at h
  · exact ⟨_, _, _, rfl⟩
  · cases h

/-! ## Matches -/

namespace Name

/-- A name was found with a score at the floor or above, or at least two names are close. -/
def Match.IsSupported : Match → Prop
  | .found _ score _ => matchFloor ≤ score
  | .ambiguous ranked => 2 ≤ ranked.length
  | .none => True

/-- What is found is the leader of the ranking. -/
theorem Match.of_ofRanking {n consumed : Nat} {counts : Score → Bool}
    {ranked : List (Scored String)} {name : String} {score : Score}
    (h : Match.ofRanking n counts ranked = .found name score consumed) :
    consumed = n ∧ ⟨name, score⟩ ∈ ranked := by
  unfold Match.ofRanking at h
  split at h
  · cases h
  · split at h
    · cases h
      exact ⟨rfl, List.mem_cons_self⟩
    · cases h

theorem Match.isSupported_ofRanking {consumed : Nat} {counts : Score → Bool}
    {ranked : List (Scored String)} (h : ∀ s ∈ ranked, matchFloor ≤ s.score) :
    (Match.ofRanking consumed counts ranked).IsSupported := by
  unfold Match.ofRanking
  split
  · next hclose =>
    obtain ⟨first, second, rest, rfl⟩ := of_isCloseCall hclose
    show 2 ≤ rest.length + 1 + 1
    omega
  · cases ranked with
    | nil => trivial
    | cons top rest => exact h top List.mem_cons_self

end Name

theorem Scene.isSupported_resolveDirection (s : Scene) (word : String) :
    (s.resolveDirection word).IsSupported := by
  unfold Scene.resolveDirection
  split
  · show matchFloor ≤ 1
    decide +kernel
  · exact Name.Match.isSupported_ofRanking fun _ => Name.matchFloor_le_of_mem_rank

theorem Scene.isSupported_of_map (s : Scene) {word? : Option String} {m : Name.Match}
    (h : word?.map s.resolveDirection = some m) : m.IsSupported := by
  obtain ⟨word, -, rfl⟩ := Option.map_eq_some_iff.mp h
  exact s.isSupported_resolveDirection word

theorem EntityPools.isSupported_resolveTwo? {p : EntityPools} {word next : String}
    {m : Name.Match} (h : p.resolveTwo? word next = some m) : m.IsSupported := by
  unfold resolveTwo? at h
  simp only at h
  split at h
  · next top rest hrank =>
    split at h
    · cases h
      exact Name.matchFloor_le_of_mem_rank (hrank ▸ List.mem_cons_self)
    · cases h
  · cases h

theorem EntityPools.isSupported_resolve (p : EntityPools) (word : String)
    (next? : Option String) : (p.resolve word next?).IsSupported := by
  unfold resolve
  split
  · trivial
  · split
    · next found htwo =>
      obtain ⟨next, -, h⟩ := Option.bind_eq_some_iff.mp htwo
      exact isSupported_resolveTwo? h
    · exact Name.Match.isSupported_ofRanking fun _ => Name.matchFloor_le_of_mem_rank

end PlayerCommands
