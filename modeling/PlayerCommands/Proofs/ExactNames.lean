import PlayerCommands.Proofs.EditScripts
import PlayerCommands.Proofs.NamedVerb
import PlayerCommands.Proofs.Ranking
import PlayerCommands.Proofs.Spelling

/-!
# Things that are named exactly

A name that is said word for word has a higher score than any other one, wherever the things are: a
name that goes on has less even if its thing is in both places, and typos have less still.  So the
thing comes first in the ranking of its own name.

    name ∈ p.all → p.rank name = ⟨name, exactScore + p.boostOf name⟩ :: rest         (rank_of_name)

That need not settle what is meant.  The ranking is a close call if the name is that of a thing in
one place only and goes on in the name of a thing that is in both:

    isCloseCall (p.rank name) counts ↔ p.IsOvershadowed name                  (isCloseCall_rank_iff)

A thing that is not overshadowed in this way is found, with all the words of its name.  Of the others
a name of one word is ambiguous; one of two words is given up, and its first word is read alone.
-/

namespace PlayerCommands

variable {query name other word : String} {s : Scored String} {score : Score}

/-! ## Scores of names -/

namespace Name

theorem score?_self (h : query ≠ "") : score? query query = some exactScore := by
  unfold score?
  rw [if_neg (by simp [h]), if_pos rfl]

/-- How near another name comes. -/
inductive IsRival (query candidate : String) : Score → Prop
  | start (long : 2 ≤ query.utf8ByteSize) (starts : query.toList <+: candidate.toList) :
      IsRival query candidate startScore
  | typos {edits : Nat} (few : edits ≤ 3) : IsRival query candidate (typoScore edits)

/-- A name is matched exactly, by its start, or with a few typos, of which there is at least one. -/
theorem score?_cases (h : score? query other = some score) :
    (query = other ∧ score = exactScore) ∨
      (2 ≤ query.utf8ByteSize ∧ query.toList <+: other.toList ∧ score = startScore) ∨
      ∃ edits, 0 < edits ∧ edits ≤ 3 ∧ score = typoScore edits := by
  unfold score? at h
  split at h
  · cases h
  · split at h
    · next heq => exact Or.inl ⟨heq, (Option.some.inj h).symm⟩
    · next hne =>
      split at h
      · next hstart =>
        exact Or.inr (Or.inl ⟨hstart.1, List.isPrefixOf_iff_prefix.mp hstart.2,
          (Option.some.inj h).symm⟩)
      · simp only at h
        split at h
        · cases h
        · split at h
          · cases h
          · next hedits =>
            have hpos : editDistance query other ≠ 0 := fun hzero =>
              hne (eq_of_editDistance_eq_zero hzero)
            exact Or.inr (Or.inr ⟨_, Nat.pos_of_ne_zero hpos,
              Nat.le_trans (Nat.not_lt.mp hedits) (Entry.editLimit_le _),
              (Option.some.inj h).symm⟩)

theorem isRival_of_score? (h : score? query other = some score) (hne : query ≠ other) :
    IsRival query other score := by
  rcases score?_cases h with ⟨heq, -⟩ | ⟨hlong, hstarts, rfl⟩ | ⟨edits, -, hfew, rfl⟩
  · exact absurd heq hne
  · exact .start hlong hstarts
  · exact .typos hfew

theorem score?_of_start (hlong : 2 ≤ query.utf8ByteSize) (hstarts : query.toList <+: other.toList)
    (hne : query ≠ other) : score? query other = some startScore := by
  have hquery : query ≠ "" := by
    rintro rfl
    exact absurd hlong (by decide)
  have hother : other ≠ "" := by
    rintro rfl
    refine hquery (String.toList_inj.mp ?_)
    exact List.prefix_nil.mp hstarts
  unfold score?
  rw [if_neg (by simp [hquery, hother]), if_neg hne,
    if_pos ⟨hlong, List.isPrefixOf_iff_prefix.mpr hstarts⟩]

end Name

/-! ## Boosts -/

namespace EntityPools

variable {p : EntityPools}

/-- The thing is in both places. -/
def isTwofold (p : EntityPools) (name : String) : Bool :=
  p.nearby.contains name && p.inventory.contains name

/-- The boost of a thing, by whether it is in both places. -/
def boostFor (twofold : Bool) : Score := if twofold then 0 + boost + boost else 0 + boost

theorem boostOf_eq (h : name ∈ p.all) : p.boostOf name = boostFor (p.isTwofold name) := by
  unfold all at h
  unfold boostOf boostFor isTwofold
  cases hnear : p.nearby.contains name with
  | true => cases p.inventory.contains name <;> rfl
  | false =>
    rcases List.mem_append.mp h with h | h
    · rw [List.contains_iff_mem.mpr h] at hnear
      cases hnear
    · rw [List.contains_iff_mem.mpr (List.mem_filter.mp h).1]
      rfl

/-! Comparisons of all scores that a ranking of things can hold. -/

theorem start_lt_exact : ∀ there here : Bool,
    Name.startScore + boostFor there < Name.exactScore + boostFor here := by decide +kernel

theorem typo_lt_exact : ∀ (edits : Fin 4) (there here : Bool),
    Name.typoScore edits + boostFor there < Name.exactScore + boostFor here := by decide +kernel

theorem typo_lt_start : ∀ (edits : Fin 4) (there : Bool),
    Name.typoScore edits + boostFor there < Name.startScore + boostFor true := by decide +kernel

theorem close_start_iff : ∀ there here : Bool,
    (Name.exactScore + boostFor here) - (Name.startScore + boostFor there) ≤ tieMargin ↔
      here = false ∧ there = true := by decide +kernel

theorem not_close_typo : ∀ (edits : Fin 4) (there here : Bool),
    ¬ (Name.exactScore + boostFor here) - (Name.typoScore edits + boostFor there) ≤ tieMargin := by
  decide +kernel

theorem counts_start : counts (Name.startScore + boostFor true) = true := by decide +kernel

/-! ## The ranking of a name -/

theorem nodup_candidates (hp : p.all.Nodup) :
    ((p.all.map fun name => (name, p.boostOf name)).map Prod.fst).Nodup := by
  rw [List.map_map]
  exact (List.map_id p.all).symm ▸ hp

/-- A thing whose name is matched well enough is ranked. -/
theorem mem_rank_of_score? (hp : p.all.Nodup) (hother : other ∈ p.all)
    (hscore : Name.score? query other = some score)
    (hfloor : ¬ score + p.boostOf other < matchFloor) :
    ⟨other, score + p.boostOf other⟩ ∈ p.rank query := by
  refine (Name.mem_rank_iff (nodup_candidates hp)).mpr
    ⟨(other, p.boostOf other), List.mem_map_of_mem hother, ?_⟩
  unfold Name.boosted?
  rw [hscore, Option.bind_some, if_neg hfloor]

theorem of_mem_rank (h : s ∈ p.rank query) :
    s.value ∈ p.all ∧ ∃ score, Name.score? query s.value = some score ∧
      s.score = score + p.boostOf s.value := by
  obtain ⟨c, hc, hboosted⟩ := Name.mem_rank h
  obtain ⟨candidate, hcandidate, rfl⟩ := List.mem_map.mp hc
  obtain ⟨score, hscore, hfloor⟩ := Option.bind_eq_some_iff.mp hboosted
  split at hfloor
  · cases hfloor
  · cases hfloor
    exact ⟨hcandidate, score, hscore, rfl⟩

/-- A ranked thing with another name is a rival, whose score depends on the places that it is in. -/
theorem isRival_of_mem_rank (h : s ∈ p.rank name) (hne : s.value ≠ name) :
    ∃ score, Name.IsRival name s.value score ∧
      s.score = score + boostFor (p.isTwofold s.value) := by
  obtain ⟨hmem, score, hscore, hboosted⟩ := of_mem_rank h
  rw [boostOf_eq hmem] at hboosted
  exact ⟨score, Name.isRival_of_score? hscore (Ne.symm hne), hboosted⟩

theorem lt_of_mem_rank (h : s ∈ p.rank name) (hne : s.value ≠ name) (hname : name ∈ p.all) :
    s.score < Name.exactScore + p.boostOf name := by
  obtain ⟨score, hrival, hboosted⟩ := isRival_of_mem_rank h hne
  rw [hboosted, boostOf_eq hname]
  cases hrival with
  | start => exact start_lt_exact _ _
  | @typos edits few => exact typo_lt_exact ⟨edits, Nat.lt_succ_of_le few⟩ _ _

/-- **A thing leads the ranking of its own name.** -/
theorem rank_of_name (hp : p.all.Nodup) (hname : name ∈ p.all) (hne : name ≠ "") :
    ∃ rest, p.rank name = ⟨name, Name.exactScore + p.boostOf name⟩ :: rest ∧
      (∀ s ∈ rest, s.value ≠ name) ∧ rest.Pairwise fun a b => b.score ≤ a.score := by
  have hfloor : ¬ Name.exactScore + p.boostOf name < matchFloor := by
    rw [boostOf_eq hname]
    cases p.isTwofold name <;> decide +kernel
  have hleader := mem_rank_of_score? hp hname (Name.score?_self hne) hfloor
  exact Scored.exists_cons_of_leader (Scored.pairwise_ranking _)
    (Name.nodup_values_rank name _) hleader
    fun s hs hne => lt_of_mem_rank hs hne hname

/-! ## Close calls -/

/-- A thing in one place only, whose name goes on in that of a thing in both places. -/
def IsOvershadowed (p : EntityPools) (name : String) : Prop :=
  p.isTwofold name = false ∧ 2 ≤ name.utf8ByteSize ∧
    ∃ other ∈ p.all, p.isTwofold other = true ∧ other ≠ name ∧ name.toList <+: other.toList

instance (p : EntityPools) (name : String) : Decidable (p.IsOvershadowed name) :=
  inferInstanceAs (Decidable (p.isTwofold name = false ∧ 2 ≤ name.utf8ByteSize ∧
    ∃ other ∈ p.all, p.isTwofold other = true ∧ other ≠ name ∧ name.toList <+: other.toList))

/-- **The ranking of a name is a close call only where its thing is overshadowed.** -/
theorem isCloseCall_rank_iff (hp : p.all.Nodup) (hname : name ∈ p.all) (hne : name ≠ "") :
    isCloseCall (p.rank name) counts = true ↔ p.IsOvershadowed name := by
  obtain ⟨rest, hrank, hothers, hordered⟩ := rank_of_name hp hname hne
  have hmem : ∀ s ∈ rest, s ∈ p.rank name := fun s hs => hrank ▸ List.mem_cons_of_mem _ hs
  constructor
  · intro hclose
    rw [hrank] at hclose
    cases rest with
    | nil => cases hclose
    | cons second others =>
      obtain ⟨hmargin, -⟩ := Bool.and_eq_true_iff.mp hclose
      have hmargin := of_decide_eq_true hmargin
      have hvalue := hothers second List.mem_cons_self
      have hsecond := hmem second List.mem_cons_self
      obtain ⟨score, hrival, hscore⟩ := isRival_of_mem_rank hsecond hvalue
      rw [hscore, boostOf_eq hname] at hmargin
      cases hrival with
      | start long starts =>
        obtain ⟨hhere, hthere⟩ := (close_start_iff _ _).mp hmargin
        exact ⟨hhere, long, second.value, (of_mem_rank hsecond).1, hthere, hvalue, starts⟩
      | @typos edits few =>
        exact absurd hmargin (not_close_typo ⟨edits, Nat.lt_succ_of_le few⟩ _ _)
  · rintro ⟨hhere, hlong, other, hother, hthere, hdiffers, hstarts⟩
    have hstart := Name.score?_of_start hlong hstarts (Ne.symm hdiffers)
    have hranked : ⟨other, Name.startScore + boostFor true⟩ ∈ p.rank name := by
      have hfloor : ¬ Name.startScore + boostFor true < matchFloor := by decide +kernel
      rw [← hthere, ← boostOf_eq hother] at hfloor ⊢
      exact mem_rank_of_score? hp hother hstart hfloor
    rw [hrank] at hranked
    have hlater := (List.mem_cons.mp hranked).resolve_left fun heq =>
      hdiffers (congrArg Scored.value heq)
    cases rest with
    | nil => cases hlater
    | cons second others =>
      -- no rival scores higher, so the runner-up is as near as the overshadowing thing
      have hbest : Name.startScore + boostFor true ≤ second.score := by
        rcases List.mem_cons.mp hlater with heq | hlater
        · exact heq ▸ Rat.le_refl
        · exact (List.pairwise_cons.mp hordered).1 _ hlater
      obtain ⟨score, hrival, hscore⟩ := isRival_of_mem_rank (hmem second List.mem_cons_self)
        (hothers second List.mem_cons_self)
      have hsecond : second.score = Name.startScore + boostFor true := by
        rw [hscore] at hbest ⊢
        cases hrival with
        | start =>
          cases hplaces : p.isTwofold second.value with
          | true => rfl
          | false =>
            rw [hplaces] at hbest
            exact absurd hbest (by decide +kernel)
        | @typos edits few =>
          have hlt := typo_lt_start ⟨edits, Nat.lt_succ_of_le few⟩ (p.isTwofold second.value)
          exact absurd hbest (Rat.not_le.mpr hlt)
      rw [hrank]
      refine Bool.and_eq_true_iff.mpr ⟨decide_eq_true ?_, ?_⟩
      · rw [hsecond, boostOf_eq hname, hhere]
        exact (close_start_iff _ _).mpr ⟨rfl, rfl⟩
      · rw [hsecond]
        exact counts_start

/-! ## Words of a name -/

theorem mem_all : name ∈ p.all ↔ name ∈ p.nearby ∨ name ∈ p.inventory := by
  by_cases hnear : name ∈ p.nearby <;> simp [all, hnear]

theorem nodup_all_ofScene (scene : Scene) : (ofScene scene).all.Nodup := by
  refine List.nodup_append.mpr ⟨Name.nodup_distinct _, (Name.nodup_distinct _).filter _, ?_⟩
  intro name hnear other hcarried heq
  obtain ⟨-, hnot⟩ := List.mem_filter.mp hcarried
  rw [← heq, List.contains_iff_mem.mpr hnear] at hnot
  cases hnot

/-- The things of a scene go by normal names. -/
theorem of_mem_normalNames {names : List String} (h : name ∈ normalNames names) :
    name ≠ "" ∧ Text.normalize name = name := by
  obtain ⟨hne, s, -, rfl⟩ := mem_normalNames.mp h
  exact ⟨hne, Text.normalize_normalize s⟩

theorem resolve_eq (h : name ∈ p.all) (word : String) (next? : Option String) :
    p.resolve word next? =
      ((next?.bind (p.resolveTwo? word)).getD (Name.Match.ofRanking 1 counts (p.rank word))) := by
  have hany : p.isEmpty = false := by
    unfold isEmpty
    simpa using List.ne_nil_of_mem h
  unfold resolve
  rw [hany]
  cases next?.bind (p.resolveTwo? word) <;> rfl

theorem resolveTwo?_of_name {next : String} (hp : p.all.Nodup) (hname : word ++ " " ++ next ∈ p.all)
    (hne : word ++ " " ++ next ≠ "") :
    p.resolveTwo? word next =
      if p.IsOvershadowed (word ++ " " ++ next) then none
      else some (.found (word ++ " " ++ next)
        (Name.exactScore + p.boostOf (word ++ " " ++ next)) 2) := by
  obtain ⟨rest, hrank, -⟩ := rank_of_name hp hname hne
  have hclose := isCloseCall_rank_iff hp hname hne
  have hfloor : twoWordFloor < Name.exactScore + p.boostOf (word ++ " " ++ next) := by
    rw [boostOf_eq hname]
    cases p.isTwofold (word ++ " " ++ next) <;> decide +kernel
  rw [hrank] at hclose
  unfold resolveTwo?
  simp only [hrank, hfloor, decide_true, Bool.true_and, ← hclose]
  cases isCloseCall _ counts <;> rfl

/-- **A thing is found by all the words of its name, unless it is overshadowed.**  Then whatever is
found takes fewer words: nothing by a single word, and by two at most what the first one names. -/
theorem resolve_exactName (scene : Scene) (next? : Option String)
    (hname : name ∈ normalNames scene.nearby ∨ name ∈ normalNames scene.inventory)
    (hwords : Text.words name = word :: next?.toList) :
    (¬ (ofScene scene).IsOvershadowed name →
      (ofScene scene).resolve word next? =
        .found name (Name.exactScore + (ofScene scene).boostOf name) (Text.words name).length) ∧
    ((ofScene scene).IsOvershadowed name → ∀ other score consumed,
      (ofScene scene).resolve word next? = .found other score consumed →
        consumed < (Text.words name).length) := by
  have hp := nodup_all_ofScene scene
  have hall : name ∈ (ofScene scene).all := mem_all.mpr hname
  obtain ⟨hne, hnormal⟩ : name ≠ "" ∧ Text.normalize name = name :=
    hname.elim of_mem_normalNames of_mem_normalNames
  have htext : " ".intercalate (word :: next?.toList) = name := by
    rw [← hwords]
    exact hnormal
  rw [hwords, resolve_eq hall]
  cases next? with
  | none =>
    obtain rfl : word = name := (String.intercalate_singleton).symm.trans htext
    obtain ⟨rest, hrank, -⟩ := rank_of_name hp hall hne
    have hclose := isCloseCall_rank_iff hp hall hne
    constructor
    · intro hclear
      have hclear := fun h => hclear (hclose.mp h)
      rw [hrank] at hclear ⊢
      exact if_neg hclear
    · intro hshadow other score consumed hfound
      have hambiguous : Name.Match.ofRanking 1 counts ((ofScene scene).rank word) =
          .ambiguous ((ofScene scene).rank word) := if_pos (hclose.mpr hshadow)
      cases hambiguous.symm.trans hfound
  | some next =>
    obtain rfl : word ++ " " ++ next = name := by
      rw [← htext]
      simp [String.intercalate_cons_cons]
    rw [Option.bind_some, resolveTwo?_of_name hp hall hne]
    constructor
    · intro hclear
      rw [if_neg hclear]
      rfl
    · intro hshadow other score consumed hfound
      rw [if_pos hshadow] at hfound
      rw [(Name.Match.of_ofRanking hfound).1]
      exact Nat.one_lt_two

/-- A ferro rod and its case, nearby; and the same with another case that is carried. -/
theorem resolve_exactName_ferroRod :
    let clear : Scene := { nearby := ["ferro rod", "ferro rod case"] }
    let crowded : Scene := { clear with inventory := ["ferro rod case"] }
    (ofScene clear).resolve "ferro" (some "rod") =
        .found "ferro rod" (Name.exactScore + boostFor false) 2 ∧
      ∀ other score consumed,
        (ofScene crowded).resolve "ferro" (some "rod") = .found other score consumed →
          consumed < 2 := by
  intro clear crowded
  have hwords : Text.words "ferro rod" = ["ferro", "rod"] := by decide
  have hclear : ¬ (ofScene clear).IsOvershadowed "ferro rod" := by decide +kernel
  have hcrowded : (ofScene crowded).IsOvershadowed "ferro rod" := by decide +kernel
  constructor
  · exact (resolve_exactName clear (some "rod") (Or.inl (by decide)) hwords).1 hclear
  · exact (resolve_exactName crowded (some "rod") (Or.inl (by decide)) hwords).2 hcrowded

/-- The words of one thing are taken for another one. -/
theorem mistaken_ferroRod :
    ¬ ∀ (scene : Scene) (name word : String) (next? : Option String),
      name ∈ normalNames scene.nearby ∨ name ∈ normalNames scene.inventory →
      Text.words name = word :: next?.toList →
      ∃ score, (ofScene scene).resolve word next? =
        .found name score (Text.words name).length := by
  intro hall
  let scene : Scene :=
    { nearby := ["ferro rod", "ferro rod case"], inventory := ["ferro rod case"] }
  have hmistaken : (ofScene scene).resolve "ferro" (some "rod") =
      .found "ferro rod case" (Name.startScore + boostFor true) 1 := by decide +kernel
  obtain ⟨score, hfound⟩ :=
    hall scene "ferro rod" "ferro" (some "rod") (Or.inl (by decide)) (by decide)
  have hname := hmistaken.symm.trans hfound
  injection hname with hname
  exact absurd hname (by decide)

end EntityPools

end PlayerCommands
