import Mathlib.Algebra.Order.Ring.Unbundled.Rat
import Mathlib.Data.Prod.Lex
import Mathlib.Data.String.Basic
import Mathlib.Order.Bounds.Defs
import PlayerCommands.Proofs.Ranking

/-!
# What a ranking of names is

A name may stand several times among the candidates, with different boosts.  It is ranked if one of
its boosted scores reaches the floor: once, with the greatest of them.  The names are in strict
order, by score and then by name.  Only one list is such a ranking, so it does not matter in which
order or how often the candidates are listed.

    IsRanking query candidates ranked ↔ ranked = rank query candidates           (isRanking_iff)
    (∀ c, c ∈ others ↔ c ∈ candidates) → rank query others = rank query candidates
                                                                                     (rank_congr)
-/

namespace PlayerCommands

/-! ## The order of scored names -/

/-- Scores that reach the floor are the same if neither is greater. -/
theorem Score.eq_of_le_of_le {a b : Score} (hfloor : matchFloor ≤ a) (hab : a ≤ b) (hba : b ≤ a) :
    a = b := by
  have hpos : (0 : Rat) < matchFloor.value := by decide +kernel
  have ha : 0 < a.value := lt_of_lt_of_le hpos hfloor
  have hvalue : a.value = b.value := le_antisymm hab hba
  cases a with
  | negZero => exact absurd ha (lt_irrefl 0)
  | num p =>
    cases b with
    | negZero => exact absurd (hvalue ▸ ha) (lt_irrefl 0)
    | num q => exact congrArg Score.num hvalue

namespace Scored

variable {a b : Scored String}

/-- What a scored name is ranked by: a high score first, then the name. -/
def standing (s : Scored String) : Ratᵒᵈ ×ₗ String :=
  toLex (OrderDual.toDual s.score.value, s.value)

theorem standing_lt_iff : a.standing < b.standing ↔
    b.score < a.score ∨ (a.score ≤ b.score ∧ b.score ≤ a.score) ∧ a.value < b.value := by
  simp only [standing, Prod.Lex.toLex_lt_toLex, OrderDual.toDual_lt_toDual, OrderDual.toDual_inj,
    Score.lt_def, Score.le_def, le_antisymm_iff (a := a.score.value)]

theorem outranks_iff : a.outranks b = true ↔ a.standing < b.standing := by
  rw [standing_lt_iff]
  simp only [outranks, Bool.or_eq_true, Bool.and_eq_true, decide_eq_true_eq]

theorem sorted_ranking (l : List (Scored String)) :
    (ranking l).Pairwise fun a b => a.standing ≤ b.standing :=
  Ranking.pairwise_sort_of_key standing outranks_iff l

end Scored

namespace Name

/-! ## Rankings -/

/-- The candidates give a name this score with a boost, and it reaches the floor. -/
def Reaches (query : String) (candidates : List (String × Score)) (name : String) (sum : Score) :
    Prop :=
  ∃ score boost, (name, boost) ∈ candidates ∧ score? query name = some score ∧
    sum = score + boost ∧ matchFloor ≤ sum

/-- What the ranking of candidates is for a query. -/
structure IsRanking (query : String) (candidates : List (String × Score))
    (ranked : List (Scored String)) : Prop where
  /-- Higher scores first, then smaller names. -/
  sorted : ranked.Pairwise fun a b => b.score < a.score ∨ a.score = b.score ∧ a.value < b.value
  nodup_values : (ranked.map (·.value)).Nodup
  mem_values_iff : ∀ name, name ∈ ranked.map (·.value) ↔ ∃ sum, Reaches query candidates name sum
  isGreatest : ∀ s ∈ ranked, IsGreatest {sum | Reaches query candidates s.value sum} s.score

variable {query name : String} {candidates others : List (String × Score)} {sum : Score}
  {ranked ranked' : List (Scored String)}

theorem reaches_iff : Reaches query candidates name sum ↔
    ⟨name, sum⟩ ∈ candidates.filterMap (boosted? query) := by
  rw [List.mem_filterMap]
  constructor
  · rintro ⟨score, boost, hcandidate, hscore, rfl, hfloor⟩
    refine ⟨(name, boost), hcandidate, ?_⟩
    exact Option.bind_eq_some_iff.mpr ⟨score, hscore, if_neg (Rat.not_lt.mpr hfloor)⟩
  · rintro ⟨⟨candidate, boost⟩, hcandidate, hboosted⟩
    have hfloor := matchFloor_le_of_boosted? hboosted
    obtain ⟨score, hscore, hsum⟩ := Option.bind_eq_some_iff.mp hboosted
    split at hsum
    · cases hsum
    · cases hsum
      exact ⟨score, boost, hcandidate, hscore, rfl, hfloor⟩

theorem reaches_congr (h : ∀ c, c ∈ others ↔ c ∈ candidates) :
    Reaches query others name sum ↔ Reaches query candidates name sum := by
  simp only [Reaches, h]

/-- Names of which one stands before the other in a ranking are in its strict order. -/
theorem before_of_standing {a b : Scored String} (hfloor : matchFloor ≤ a.score)
    (hle : a.standing ≤ b.standing) (hne : a.value ≠ b.value) :
    b.score < a.score ∨ a.score = b.score ∧ a.value < b.value := by
  have hstanding : a.standing ≠ b.standing := fun heq =>
    hne (congrArg (fun key => (ofLex key).2) heq)
  rcases Scored.standing_lt_iff.mp (lt_of_le_of_ne hle hstanding) with h | ⟨⟨hab, hba⟩, hvalue⟩
  · exact Or.inl h
  · exact Or.inr ⟨Score.eq_of_le_of_le hfloor hab hba, hvalue⟩

theorem isRanking_rank (query : String) (candidates : List (String × Score)) :
    IsRanking query candidates (rank query candidates) := by
  have hkeeps := keepsBest_rank query candidates
  have hreaches : ∀ s ∈ rank query candidates, Reaches query candidates s.value s.score :=
    fun s hs => reaches_iff.mpr (hkeeps.subset hs)
  refine ⟨?_, hkeeps.nodup_values, fun name => ⟨fun h => ?_, fun ⟨sum, h⟩ => ?_⟩,
    fun s hs => ⟨hreaches s hs, fun sum h => ?_⟩⟩
  · have hsorted : (rank query candidates).Pairwise fun a b => a.standing ≤ b.standing :=
      Scored.sorted_ranking _
    refine (hsorted.and (List.pairwise_map.mp hkeeps.nodup_values)).imp_of_mem fun ha _ hab => ?_
    exact before_of_standing (matchFloor_le_of_mem_rank ha) hab.1 hab.2
  · obtain ⟨s, hs, rfl⟩ := List.mem_map.mp h
    exact ⟨s.score, hreaches s hs⟩
  · obtain ⟨t, ht, rfl, -⟩ := hkeeps.exists_le _ (reaches_iff.mp h)
    exact List.mem_map_of_mem ht
  · obtain ⟨t, ht, hvalue, hle⟩ := hkeeps.exists_le _ (reaches_iff.mp h)
    rwa [← List.inj_on_of_nodup_map hkeeps.nodup_values ht hs hvalue]

namespace IsRanking

theorem nodup (h : IsRanking query candidates ranked) : ranked.Nodup :=
  List.Nodup.of_map _ h.nodup_values

theorem mem_of_mem (h : IsRanking query candidates ranked)
    (h' : IsRanking query candidates ranked') {s : Scored String} (hs : s ∈ ranked) :
    s ∈ ranked' := by
  have hgreatest := h.isGreatest s hs
  obtain ⟨t, ht, hvalue⟩ :=
    List.mem_map.mp ((h'.mem_values_iff s.value).mpr ⟨s.score, hgreatest.1⟩)
  have hgreatest' := h'.isGreatest t ht
  rw [hvalue] at hgreatest'
  have hfloor : matchFloor ≤ s.score := by
    obtain ⟨score, boost, -, -, -, hfloor⟩ := hgreatest.1
    exact hfloor
  have hscore : s.score = t.score :=
    Score.eq_of_le_of_le hfloor (hgreatest'.2 hgreatest.1) (hgreatest.2 hgreatest'.1)
  have heq : s = t := by
    cases s
    cases t
    cases hvalue
    cases hscore
    rfl
  exact heq ▸ ht

/-- There is only one ranking. -/
theorem unique (h : IsRanking query candidates ranked) (h' : IsRanking query candidates ranked') :
    ranked = ranked' := by
  have hperm : ranked.Perm ranked' := (List.perm_ext_iff_of_nodup h.nodup h'.nodup).mpr fun s =>
    ⟨h.mem_of_mem h', h'.mem_of_mem h⟩
  refine hperm.eq_of_pairwise (fun a b _ _ hab hba => ?_) h.sorted h'.sorted
  rcases hab with hab | ⟨hscore, hab⟩
  · rcases hba with hba | ⟨hscore, -⟩
    · exact absurd hab (lt_asymm (α := Rat) hba)
    · exact absurd hab (hscore ▸ lt_irrefl (α := Rat) _)
  · rcases hba with hba | ⟨-, hba⟩
    · exact absurd hba (hscore ▸ lt_irrefl (α := Rat) _)
    · exact absurd hab (lt_asymm hba)

theorem congr (h : IsRanking query candidates ranked)
    (hmem : ∀ c, c ∈ others ↔ c ∈ candidates) : IsRanking query others ranked := by
  refine ⟨h.sorted, h.nodup_values, fun name => ?_, fun s hs => ?_⟩
  · simp only [reaches_congr hmem, h.mem_values_iff name]
  · simp only [reaches_congr hmem, h.isGreatest s hs]

end IsRanking

theorem isRanking_iff : IsRanking query candidates ranked ↔ ranked = rank query candidates := by
  constructor
  · intro h
    exact h.unique (isRanking_rank query candidates)
  · rintro rfl
    exact isRanking_rank query candidates

/-- Neither order nor repetition of the candidates matters. -/
theorem rank_congr (query : String) (h : ∀ c, c ∈ others ↔ c ∈ candidates) :
    rank query others = rank query candidates :=
  isRanking_iff.mp ((isRanking_rank query candidates).congr h) |>.symm

/-- **The ranking of candidates is the strictly ordered list of the names that reach the floor, each
with its greatest score**, and the same for every order of the candidates. -/
theorem rank_determined (query : String) (candidates : List (String × Score)) :
    (∀ ranked, IsRanking query candidates ranked ↔ ranked = rank query candidates) ∧
      ∀ others, others.Perm candidates → rank query others = rank query candidates :=
  ⟨fun _ => isRanking_iff, fun _ h => rank_congr query fun _ => h.mem_iff⟩

/-- A stick that is listed twice, and whose second boost is the greater one. -/
theorem rank_determined_stick :
    let candidates : List (String × Score) :=
      [("stick", 0.08), ("stone", 0.08), ("rope", 0), ("stick", 0.08 + 0.08)]
    candidates.reverse.Perm candidates ∧
      rank "st" candidates.reverse = rank "st" candidates ∧
      rank "st" candidates = [⟨"stick", 0.9 + (0.08 + 0.08)⟩, ⟨"stone", 0.9 + 0.08⟩] := by
  intro candidates
  have hperm : candidates.reverse.Perm candidates := candidates.reverse_perm
  exact ⟨hperm, (rank_determined "st" candidates).2 candidates.reverse hperm, by decide +kernel⟩

end Name

end PlayerCommands
