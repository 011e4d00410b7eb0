import PlayerCommands.Proofs.ExactNames
import PlayerCommands.Proofs.Questions

/-!
# What becomes of the words that are resolved

The words behind a verb are resolved from left to right in blocks of one or two.  An article makes no
argument, a pronoun makes the last thing spoken of, the first argument of a movement is a direction,
what names a thing makes its name, and any other word makes itself.  Two words are taken together only
if some thing goes by a name that starts with them: a typo costs so much that no places make up for it.

    Divides verb scene before words blocks left → words = blocks.flatMap Block.words ++ left
                                                                                 (Divides.words_eq)
    p.resolve word next? = .found name score 2 →
      ∃ next, next? = some next ∧ (word ++ " " ++ next).toList <+: name.toList
                                                                                (of_resolve_eq_found)
    (resolve verb words scene).AccountsFor verb scene words                      (accountsFor_resolve)

A resolution ends with the words, or with a question at the first word that is left.
-/

namespace PlayerCommands

variable {name word query other : String} {next? : Option String} {score : Score} {consumed : Nat}

/-! ## Names that are found -/

namespace EntityPools

variable {p : EntityPools}

/-- Typos are below what two words have to reach, in however many places the thing is. -/
theorem typo_le_floor : ∀ (edits : Fin 4) (twofold : Bool), 0 < edits.val →
    Name.typoScore edits + boostFor twofold ≤ twoWordFloor := by decide +kernel

/-- What is above the floor for two words starts with them. -/
theorem prefix_of_lt_score {s : Scored String} (h : s ∈ p.rank query)
    (hhigh : twoWordFloor < s.score) : query.toList <+: s.value.toList := by
  obtain ⟨hmem, score, hscore, hboosted⟩ := of_mem_rank h
  rw [hboosted, boostOf_eq hmem] at hhigh
  rcases Name.score?_cases hscore with ⟨heq, -⟩ | ⟨-, hstarts, -⟩ | ⟨edits, hpos, hfew, rfl⟩
  · exact heq ▸ List.prefix_rfl
  · exact hstarts
  · exact absurd hhigh (Rat.not_lt.mpr
      (typo_le_floor ⟨edits, Nat.lt_succ_of_le hfew⟩ (p.isTwofold s.value) hpos))

theorem of_resolveTwo? {next : String} {m : Name.Match} (h : p.resolveTwo? word next = some m) :
    ∃ name score, m = .found name score 2 ∧ name ∈ p.all ∧
      (word ++ " " ++ next).toList <+: name.toList := by
  unfold resolveTwo? at h
  simp only at h
  split at h
  · next top rest hrank =>
    obtain ⟨hgood, hm⟩ := Option.ite_none_right_eq_some.mp h
    obtain ⟨hhigh, -⟩ := Bool.and_eq_true_iff.mp hgood
    have htop : top ∈ p.rank (word ++ " " ++ next) := hrank ▸ List.mem_cons_self
    exact ⟨top.value, top.score, (Option.some.inj hm).symm, (of_mem_rank htop).1,
      prefix_of_lt_score htop (of_decide_eq_true hhigh)⟩
  · cases h

/-- **What is found is the name of a thing at hand**, said by one word, or by two that it starts
with. -/
theorem of_resolve_eq_found (h : p.resolve word next? = .found name score consumed) :
    name ∈ p.all ∧ (consumed = 1 ∨ consumed = 2 ∧
      ∃ next, next? = some next ∧ (word ++ " " ++ next).toList <+: name.toList) := by
  unfold resolve at h
  split at h
  · cases h
  · split at h
    · next found htwo =>
      obtain ⟨next, hnext, hfound⟩ := Option.bind_eq_some_iff.mp htwo
      obtain ⟨_, _, rfl, hmem, hstarts⟩ := of_resolveTwo? hfound
      cases h
      exact ⟨hmem, Or.inr ⟨rfl, next, hnext, hstarts⟩⟩
    · obtain ⟨hone, hranked⟩ := Name.Match.of_ofRanking h
      exact ⟨(of_mem_rank hranked).1, Or.inl hone⟩

end EntityPools

namespace Scene

variable {s : Scene}

theorem of_referent? (h : s.referent? = some name) : name ≠ "" ∧ Text.normalize name = name := by
  obtain ⟨hname, hne⟩ := Option.filter_eq_some_iff.mp h
  obtain ⟨entity, -, rfl⟩ := Option.map_eq_some_iff.mp hname
  exact ⟨by simpa using hne, Text.normalize_normalize entity⟩

theorem of_mem_knownDirections (h : name ∈ s.knownDirections) :
    name ≠ "" ∧ Text.normalize name = name := by
  have hmain : ∀ name ∈ Direction.main, name ≠ "" ∧ Text.normalize name = name := by decide
  unfold knownDirections at h
  split at h
  · exact hmain name h
  · exact EntityPools.of_mem_normalNames h

theorem of_resolveDirection_eq_found (h : s.resolveDirection word = .found name score consumed) :
    consumed = 1 ∧ name ≠ "" ∧ Text.normalize name = name := by
  unfold resolveDirection at h
  split at h
  · next d _ =>
    cases h
    exact ⟨rfl, by cases d <;> decide, by cases d <;> decide⟩
  · obtain ⟨hone, hranked⟩ := Name.Match.of_ofRanking h
    obtain ⟨c, hc, hboosted⟩ := Name.mem_rank hranked
    obtain ⟨d, hd, rfl⟩ := List.mem_map.mp hc
    have hname : name = d := Name.value_of_boosted? hboosted
    exact ⟨hone, hname ▸ of_mem_knownDirections hd⟩

end Scene

/-! ## Blocks -/

namespace Argument

/-- Words that are resolved together, and the arguments that they make. -/
structure Block where
  words : List String
  args : List String
deriving DecidableEq

/-- What a block of words makes behind the arguments `before`, with the word `next?` behind it. -/
inductive IsBlock (verb : Verb) (scene : Scene) (before : List String) (next? : Option String) :
    Block → Prop
  | article {word : String} (hword : isArticle word = true) :
      IsBlock verb scene before next? ⟨[word], []⟩
  | pronoun {word name : String} (hword : isPronoun word = true)
      (hname : scene.referent? = some name) : IsBlock verb scene before next? ⟨[word], [name]⟩
  | direction {word name : String} {score : Score} (hword : IsContent word)
      (hwanted : WantsDirection verb before)
      (hfound : scene.resolveDirection word = .found name score 1) :
      IsBlock verb scene before next? ⟨[word], [name]⟩
  | thing {word name : String} {score : Score} (hword : IsContent word)
      (hwanted : WantsThing verb before)
      (hname : name ∈ normalNames scene.nearby ∨ name ∈ normalNames scene.inventory)
      (hfound : (EntityPools.ofScene scene).resolve word next? = .found name score 1) :
      IsBlock verb scene before next? ⟨[word], [name]⟩
  | twoWords {word next name : String} {score : Score} (hword : IsContent word)
      (hwanted : WantsThing verb before)
      (hname : name ∈ normalNames scene.nearby ∨ name ∈ normalNames scene.inventory)
      (hstarts : (word ++ " " ++ next).toList <+: name.toList)
      (hfound : (EntityPools.ofScene scene).resolve word (some next) = .found name score 2) :
      IsBlock verb scene before next? ⟨[word, next], [name]⟩
  | literal {word : String} (hword : IsContent word)
      (hdirection : WantsDirection verb before → scene.resolveDirection word = .none)
      (hthing : WantsThing verb before →
        (EntityPools.ofScene scene).resolve word next? = .none) :
      IsBlock verb scene before next? ⟨[word], [word]⟩

/-- The words are divided into blocks, each behind the arguments of those before it, up to the words
that are left. -/
inductive Divides (verb : Verb) (scene : Scene) :
    (before words : List String) → List Block → (left : List String) → Prop
  | done {before left : List String} : Divides verb scene before left [] left
  | block {before rest left : List String} {b : Block} {blocks : List Block}
      (hb : IsBlock verb scene before rest.head? b)
      (hrest : Divides verb scene (before ++ b.args) rest blocks left) :
      Divides verb scene before (b.words ++ rest) (b :: blocks) left

variable {verb : Verb} {scene : Scene} {before words rest left : List String} {b : Block}
  {blocks : List Block}

theorem IsBlock.length_words (h : IsBlock verb scene before next? b) :
    b.words.length = 1 ∨ b.words.length = 2 := by
  cases h with
  | twoWords => exact Or.inr rfl
  | _ => exact Or.inl rfl

/-- The arguments of a block are normal names, if its words are. -/
theorem IsBlock.normal (h : IsBlock verb scene before next? b)
    (hwords : ∀ word ∈ b.words, word ≠ "" ∧ Text.normalize word = word) :
    ∀ arg ∈ b.args, arg ≠ "" ∧ Text.normalize arg = arg := by
  cases h with
  | article => exact nofun
  | pronoun _ hname => exact List.forall_mem_singleton.mpr (Scene.of_referent? hname)
  | direction _ _ hfound =>
    exact List.forall_mem_singleton.mpr (Scene.of_resolveDirection_eq_found hfound).2
  | thing _ _ hname _ | twoWords _ _ hname _ _ =>
    exact List.forall_mem_singleton.mpr
      (hname.elim EntityPools.of_mem_normalNames EntityPools.of_mem_normalNames)
  | literal => exact hwords

/-- No word vanishes and none is taken twice. -/
theorem Divides.words_eq (h : Divides verb scene before words blocks left) :
    words = blocks.flatMap Block.words ++ left := by
  induction h with
  | done => rfl
  | block hb hrest ih => rw [List.flatMap_cons, List.append_assoc, ← ih]

/-- There are as many blocks as words at most. -/
theorem Divides.length_le (h : Divides verb scene before words blocks left) :
    blocks.length + left.length ≤ words.length := by
  induction h with
  | done => exact Nat.le_of_eq (Nat.zero_add _)
  | block hb hrest ih =>
    have hsize := hb.length_words
    rw [List.length_append, List.length_cons]
    omega

theorem Divides.normal (h : Divides verb scene before words blocks left)
    (hwords : ∀ word ∈ words, word ≠ "" ∧ Text.normalize word = word) :
    ∀ arg ∈ blocks.flatMap Block.args, arg ≠ "" ∧ Text.normalize arg = arg := by
  induction h with
  | done => exact nofun
  | block hb hrest ih =>
    obtain ⟨hblock, hbehind⟩ := List.forall_mem_append.mp hwords
    exact List.forall_mem_append.mpr ⟨hb.normal hblock, ih hbehind⟩

/-! ## One step of a resolution -/

/-- What the reading of a word says of the block that starts with it. -/
def Reading.Explains (verb : Verb) (scene : Scene) (before : List String) (word : String)
    (rest : List String) : Reading → Prop
  | .article => IsBlock verb scene before rest.head? ⟨[word], []⟩
  | .resolved arg _ consumed => ∃ more after, rest = more ++ after ∧ consumed = more.length + 1 ∧
      IsBlock verb scene before after.head? ⟨word :: more, [arg]⟩
  | .literal => IsBlock verb scene before rest.head? ⟨[word], [word]⟩
  | .unclear _ _ => True

theorem Reading.explains_direction (hword : IsContent word) (hwanted : WantsDirection verb before) :
    (Reading.ofMatch directionQuestion (scene.resolveDirection word)).Explains verb scene before
      word rest := by
  cases hmatch : scene.resolveDirection word with
  | found name score consumed =>
    obtain ⟨rfl, -⟩ := Scene.of_resolveDirection_eq_found hmatch
    exact ⟨[], rest, rfl, rfl, .direction hword hwanted hmatch⟩
  | ambiguous ranked => trivial
  | none =>
    have hgo : ¬ WantsThing verb before := fun h => by
      rw [hwanted.1] at h
      cases h.1
    exact .literal hword (fun _ => hmatch) fun h => absurd h hgo

theorem Reading.explains_thing (hword : IsContent word) (hwanted : WantsThing verb before)
    (hdirection : ¬ WantsDirection verb before) :
    (Reading.ofMatch (entityQuestion verb before)
      ((EntityPools.ofScene scene).resolve word rest.head?)).Explains verb scene before word
      rest := by
  cases hmatch : (EntityPools.ofScene scene).resolve word rest.head? with
  | found name score consumed =>
    obtain ⟨hmem, hconsumed⟩ := EntityPools.of_resolve_eq_found hmatch
    have hname := EntityPools.mem_all.mp hmem
    rcases hconsumed with rfl | ⟨rfl, next, hnext, hstarts⟩
    · exact ⟨[], rest, rfl, rfl, .thing hword hwanted hname hmatch⟩
    · obtain ⟨after, rfl⟩ := List.head?_eq_some_iff.mp hnext
      exact ⟨[next], after, rfl, rfl, .twoWords hword hwanted hname hstarts hmatch⟩
  | ambiguous ranked => trivial
  | none => exact .literal hword (fun h => absurd h hdirection) fun _ => hmatch

/-- **A word is read as the start of a block**, unless it has to be asked about. -/
theorem Reading.explains_of (verb : Verb) (scene : Scene) (before : List String) (word : String)
    (rest : List String) :
    (Reading.of verb scene before word rest.head?).Explains verb scene before word rest := by
  have hstands := stands verb scene before word rest.head?
  generalize Reading.of verb scene before word rest.head? = reading at hstands ⊢
  cases hstands with
  | article hword => exact .article hword
  | pronoun hword hname => exact ⟨[], rest, rfl, rfl, .pronoun hword hname⟩
  | unknown => trivial
  | direction hword hwanted => exact explains_direction hword hwanted
  | thing hword hwanted hdirection => exact explains_thing hword hwanted hdirection
  | literal hword hdirection hthing =>
    exact .literal hword (fun h => absurd h hdirection) fun h => absurd h hthing

/-! ## Resolutions -/

/-- A resolution behind the arguments `before` goes on in blocks, to the end or to a question. -/
def Resolution.IsDivided (r : Resolution) (verb : Verb) (scene : Scene)
    (before words : List String) : Prop :=
  ∃ blocks left, Divides verb scene before words blocks left ∧
    r.args = before ++ blocks.flatMap Block.args ∧ (r.question = none ↔ left = [])

theorem Resolution.IsDivided.block {r : Resolution}
    (h : r.IsDivided verb scene (before ++ b.args) rest)
    (hb : IsBlock verb scene before rest.head? b) :
    r.IsDivided verb scene before (b.words ++ rest) := by
  obtain ⟨blocks, left, hrest, hargs, hquestion⟩ := h
  refine ⟨b :: blocks, left, .block hb hrest, ?_, hquestion⟩
  rw [hargs, List.flatMap_cons, List.append_assoc]

/-- The words that are not used up are divided into blocks. -/
theorem isDivided_resolveFrom (verb : Verb) (scene : Scene) (p : Progress) (skip : Nat)
    (words : List String) :
    (resolveFrom verb scene p skip words).IsDivided verb scene p.args (words.drop skip) := by
  induction words generalizing p skip with
  | nil =>
    rw [List.drop_nil, resolveFrom]
    exact ⟨[], [], .done, (List.append_nil _).symm, fun _ => rfl, fun _ => rfl⟩
  | cons word rest ih =>
    cases skip with
    | succ skip =>
      rw [List.drop_succ_cons, resolveFrom]
      exact ih p skip
    | zero =>
      have hexplains := Reading.explains_of verb scene p.args word rest
      rw [List.drop_zero, resolveFrom]
      cases hreading : Reading.of verb scene p.args word rest.head? with
      | article =>
        rw [hreading] at hexplains
        have hrest : (resolveFrom verb scene p 0 rest).IsDivided verb scene (p.args ++ []) rest := by
          rw [List.append_nil]
          exact ih p 0
        exact hrest.block hexplains
      | resolved arg score consumed =>
        rw [hreading] at hexplains
        obtain ⟨more, after, rfl, rfl, hb⟩ := hexplains
        have hrest := ih (p.push arg score) more.length
        rw [List.drop_left] at hrest
        exact hrest.block hb
      | literal =>
        rw [hreading] at hexplains
        exact (ih (p.pushLiteral word) 0).block hexplains
      | unclear question confidence =>
        have hasked : some (question, confidence) = none ↔ word :: rest = [] :=
          iff_of_false (Option.some_ne_none _) (List.cons_ne_nil _ _)
        exact ⟨[], word :: rest, .done, (List.append_nil _).symm, hasked⟩

theorem isDivided_resolve (verb : Verb) (scene : Scene) (words : List String) :
    (resolve verb words scene).IsDivided verb scene [] words :=
  isDivided_resolveFrom verb scene {} 0 words

/-- An account of every word of a resolution and of every argument. -/
structure Resolution.AccountsFor (r : Resolution) (verb : Verb) (scene : Scene)
    (words : List String) : Prop where
  /-- The words make the arguments block by block, all of them if there is no question, and those
  before the one that is asked about otherwise; there are as many blocks as words at most. -/
  blocks : ∃ blocks left, Divides verb scene [] words blocks left ∧
    words = blocks.flatMap Block.words ++ left ∧ r.args = blocks.flatMap Block.args ∧
    (r.question = none ↔ left = []) ∧ blocks.length ≤ words.length
  normal : ∀ arg ∈ r.args, arg ≠ "" ∧ Text.normalize arg = arg

/-- **No argument is invented and no word vanishes.** -/
theorem accountsFor_resolve (verb : Verb) (scene : Scene)
    (hwords : ∀ word ∈ words, word ≠ "" ∧ Text.normalize word = word) :
    (resolve verb words scene).AccountsFor verb scene words := by
  obtain ⟨blocks, left, hdivides, hargs, hquestion⟩ := isDivided_resolve verb scene words
  rw [List.nil_append] at hargs
  have hlength := hdivides.length_le
  constructor
  case blocks =>
    exact ⟨blocks, left, hdivides, hdivides.words_eq, hargs, hquestion, by omega⟩
  case normal =>
    rw [hargs]
    exact hdivides.normal hwords

/-- An article, a thing of two words, a word that says nothing, a pronoun, and the start of a name. -/
theorem accountsFor_resolve_ferroRod :
    let scene : Scene :=
      { inventory := ["Ferro Rod"], nearby := ["tinder"], lastEntity := some "Dry Grass" }
    let words := ["the", "ferro", "rod", "on", "it", "tin"]
    (∀ word ∈ words, word ≠ "" ∧ Text.normalize word = word) ∧
      (resolve .use words scene).args = ["ferro rod", "on", "dry grass", "tinder"] ∧
      (resolve .use words scene).AccountsFor .use scene words := by
  intro scene words
  have hwords : ∀ word ∈ words, word ≠ "" ∧ Text.normalize word = word := by decide
  exact ⟨hwords, by decide +kernel, accountsFor_resolve .use scene hwords⟩

end Argument

end PlayerCommands
