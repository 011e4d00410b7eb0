import PlayerCommands.Argument
import PlayerCommands.Proofs.Bounds
import PlayerCommands.Proofs.Ranking

/-!
# The questions of a resolution

Resolving the arguments of a verb ends in at most one question, and it is of one of two kinds: which
thing a pronoun stands for, to be answered in free text, or which of two close names was meant, each
an option for that verb with arguments and without amounts of its own.

    (resolve verb words scene).question = some (q, c) → q.IsAboutName verb
                                                                          (isAboutName_of_resolve)

What holds of a resolution is read off the place where it ends; what every argument keeps holds there.
-/

namespace PlayerCommands

/-- A question about one name: what a pronoun stands for, or which of two close names was meant for
the verb. -/
inductive Question.IsAboutName (verb : Verb) (q : Question Intent) : Prop
  | pronoun (missing : q.missing = [.target]) (options : q.options = [])
  | close (missing : q.missing = [.choice]) (two : q.options.length = 2)
      (each : ∀ o ∈ q.options, ∃ args c, args ≠ [] ∧ o = Intent.forVerb verb args c)

namespace Argument

variable {verb : Verb} {scene : Scene} {args words : List String} {word : String}
  {next? : Option String} {p : Progress}

/-! ## One word -/

/-- A word that is neither an article nor a pronoun. -/
structure IsContent (word : String) : Prop where
  article : isArticle word = false
  pronoun : isPronoun word = false

/-- The next argument is a direction. -/
def WantsDirection (verb : Verb) (before : List String) : Prop := verb = .go ∧ before = []

/-- The next argument may be a thing at hand. -/
def WantsThing (verb : Verb) (before : List String) : Prop :=
  verb.takesTarget = true ∧ (before = [] ∨ verb = .use)

/-- How a word is read, with `next?` behind it and the arguments `args` before it. -/
inductive Stands (verb : Verb) (scene : Scene) (args : List String) (word : String)
    (next? : Option String) : Reading → Prop
  | article (hword : isArticle word = true) : Stands verb scene args word next? .article
  | pronoun {name : String} (hword : isPronoun word = true) (hname : scene.referent? = some name) :
      Stands verb scene args word next? (.resolved name 1 1)
  | unknown (hword : isPronoun word = true) (hnone : scene.referent? = none) :
      Stands verb scene args word next?
        (.unclear { prompt := Prompt.pronoun word, missing := [.target] } Confidence.unknownPronoun)
  | direction (hword : IsContent word) (hwanted : WantsDirection verb args) :
      Stands verb scene args word next?
        (.ofMatch directionQuestion (scene.resolveDirection word))
  | thing (hword : IsContent word) (hwanted : WantsThing verb args)
      (hdirection : ¬ WantsDirection verb args) :
      Stands verb scene args word next?
        (.ofMatch (entityQuestion verb args) ((EntityPools.ofScene scene).resolve word next?))
  | literal (hword : IsContent word) (hdirection : ¬ WantsDirection verb args)
      (hthing : ¬ WantsThing verb args) : Stands verb scene args word next? .literal

theorem stands (verb : Verb) (scene : Scene) (args : List String) (word : String)
    (next? : Option String) :
    Stands verb scene args word next? (Reading.of verb scene args word next?) := by
  unfold Reading.of
  split
  · next harticle => exact .article harticle
  · next harticle =>
    split
    · next hpronoun =>
      split
      · next name hname => exact .pronoun hpronoun hname
      · next hnone => exact .unknown hpronoun hnone
    · next hpronoun =>
      have hword : IsContent word :=
        ⟨Bool.eq_false_iff.mpr harticle, Bool.eq_false_iff.mpr hpronoun⟩
      split
      · next hwanted => exact .direction hword hwanted
      · next hdirection =>
        split
        · next hwanted => exact .thing hword hwanted hdirection
        · next hthing => exact .literal hword hdirection hthing

/-! ## Questions about a name -/

theorem isAboutName_closeQuestion (prompt : List String → String) {option : String → List String}
    (hoption : ∀ name, option name ≠ []) (verb : Verb) {ranked : List (Scored String)}
    (h : 2 ≤ ranked.length) : (closeQuestion prompt option verb ranked).IsAboutName verb := by
  refine .close rfl ?_ fun o ho => ?_
  · simp only [closeQuestion, List.length_map, List.length_take]
    omega
  · obtain ⟨s, -, rfl⟩ := List.mem_map.mp ho
    exact ⟨_, _, hoption s.value, rfl⟩

/-- A match is unclear only if it is a close call, and this is what is asked about. -/
theorem Reading.of_ofMatch_eq_unclear {ask : List (Scored String) → Question Intent}
    {m : Name.Match} {q : Question Intent} {c : Score} (h : Reading.ofMatch ask m = .unclear q c) :
    ∃ ranked, m = .ambiguous ranked ∧ ask ranked = q := by
  cases m with
  | found name score consumed => cases h
  | ambiguous ranked =>
    cases h
    exact ⟨ranked, rfl, rfl⟩
  | none => cases h

theorem Reading.isAboutName_of {q : Question Intent} {c : Score}
    (h : Reading.of verb scene args word next? = .unclear q c) : q.IsAboutName verb := by
  have hstands := stands verb scene args word next?
  generalize Reading.of verb scene args word next? = reading at h hstands
  cases hstands with
  | article | pronoun | literal => cases h
  | unknown =>
    cases h
    exact .pronoun rfl rfl
  | direction hword hwanted =>
    obtain ⟨rfl, -⟩ := hwanted
    obtain ⟨ranked, hmatch, rfl⟩ := of_ofMatch_eq_unclear h
    have htwo := scene.isSupported_resolveDirection word
    rw [hmatch] at htwo
    exact isAboutName_closeQuestion _ (fun _ => List.cons_ne_nil _ _) _ htwo
  | thing =>
    obtain ⟨ranked, hmatch, rfl⟩ := of_ofMatch_eq_unclear h
    have htwo := (EntityPools.ofScene scene).isSupported_resolve word next?
    rw [hmatch] at htwo
    exact isAboutName_closeQuestion _ (fun _ => List.concat_ne_nil _ _) _ htwo

/-! ## Where a resolution ends -/

/-- A resolution ends with the words, or with the question that one of them raises. -/
inductive Progress.Ends (verb : Verb) (scene : Scene) (p : Progress) : Resolution → Prop
  | done : Ends verb scene p (p.finish none)
  | asked {word : String} {next? : Option String} {question : Question Intent} {confidence : Score}
      (hreading : Reading.of verb scene p.args word next? = .unclear question confidence) :
      Ends verb scene p (p.finish (some (question, confidence)))

/-- **What every argument keeps holds where a resolution ends.** -/
theorem exists_ends_resolveFrom {P : Progress → Prop}
    (hresolved : ∀ q word next? arg score consumed,
      Reading.of verb scene q.args word next? = .resolved arg score consumed →
        P q → P (q.push arg score))
    (hliteral : ∀ q, ∀ word ∈ words, P q → P (q.pushLiteral word)) (hp : P p) (skip : Nat) :
    ∃ q, P q ∧ q.Ends verb scene (resolveFrom verb scene p skip words) := by
  induction words generalizing p skip with
  | nil =>
    rw [resolveFrom]
    exact ⟨p, hp, .done⟩
  | cons word rest ih =>
    have hrest : ∀ q, ∀ word ∈ rest, P q → P (q.pushLiteral word) :=
      fun q word hmem => hliteral q word (List.mem_cons_of_mem _ hmem)
    cases skip with
    | succ skip =>
      rw [resolveFrom]
      exact ih hrest hp skip
    | zero =>
      rw [resolveFrom]
      split
      · exact ih hrest hp 0
      · next arg score consumed hreading =>
        exact ih hrest (hresolved p word _ arg score consumed hreading hp) (consumed - 1)
      · exact ih hrest (hliteral p word List.mem_cons_self hp) 0
      · next hreading => exact ⟨p, hp, .asked hreading⟩

theorem exists_ends_resolve (verb : Verb) (words : List String) (scene : Scene) :
    ∃ q : Progress, q.Ends verb scene (resolve verb words scene) := by
  obtain ⟨q, -, hends⟩ :=
    exists_ends_resolveFrom (P := fun _ => True) (fun _ _ _ _ _ _ _ _ => trivial)
      (fun _ _ _ _ => trivial) trivial 0
  exact ⟨q, hends⟩

theorem isAboutName_of_resolve {q : Question Intent} {c : Score}
    (h : (resolve verb words scene).question = some (q, c)) : q.IsAboutName verb := by
  obtain ⟨stop, hends⟩ := exists_ends_resolve verb words scene
  generalize resolve verb words scene = r at h hends
  cases hends with
  | done => cases h
  | asked hreading =>
    cases h
    exact Reading.isAboutName_of hreading

theorem zero_le_resolve_score (verb : Verb) (words : List String) (scene : Scene) :
    0 ≤ (resolve verb words scene).score := by
  obtain ⟨stop, hends⟩ := exists_ends_resolve verb words scene
  generalize resolve verb words scene = r at hends ⊢
  cases hends <;> exact Score.zero_le_clamp _

end Argument

end PlayerCommands
