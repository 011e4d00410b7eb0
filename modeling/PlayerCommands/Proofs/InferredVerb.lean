import Mathlib.Data.List.TakeWhile
import PlayerCommands.Inference

/-!
# Which verb is inferred

A rule fires where one of its cues occurs: a phrase, word for word, or a motion word with a direction
behind all the filler words that follow it.  The first rule that fires decides the verb, and its
first cue that occurs decides what is left: the words behind the first occurrence, from the direction
on if there is one.

    c.after? scene words = none ↔ ¬ c.Occurs scene words                    (after?_eq_none_iff)
    c.after? scene words = some rest ↔ c.LeavesFirst scene words rest       (after?_eq_some_iff)
    infer? words scene = none ↔ ∀ t ∈ triggers, ¬ t.Fires scene words       (infer?_eq_none_iff)
-/

namespace PlayerCommands.Inference

/-! ## Cues -/

/-- What a verb is inferred from. -/
inductive Cue where
  /-- Consecutive words. -/
  | phrase (words : List String)
  /-- A motion word and its direction. -/
  | motion
deriving DecidableEq

namespace Cue

variable {scene : Scene} {c : Cue} {word : String} {words tail rest : List String}

/-- The cue stands at the start of `tail` and leaves `rest`. -/
def Starts (scene : Scene) : Cue → List String → List String → Prop
  | phrase words, tail, rest => tail = words ++ rest
  | motion, tail, rest =>
    ∃ word fillers direction after, tail = word :: (fillers ++ rest) ∧ isMotionWord word = true ∧
      (∀ filler ∈ fillers, isMotionFiller filler = true) ∧
      rest = direction :: after ∧ isMotionFiller direction = false ∧
      isDirection scene direction = true

/-- The cue stands somewhere. -/
def Occurs (scene : Scene) (c : Cue) (words : List String) : Prop :=
  ∃ before tail rest, words = before ++ tail ∧ c.Starts scene tail rest

/-- The first place where the cue stands leaves `rest`. -/
def LeavesFirst (scene : Scene) (c : Cue) (words rest : List String) : Prop :=
  ∃ before tail, words = before ++ tail ∧ c.Starts scene tail rest ∧
    ∀ before' tail' rest', words = before' ++ tail' → c.Starts scene tail' rest' →
      before.length ≤ before'.length

/-- A cue that takes at least one word. -/
def IsProper : Cue → Prop
  | phrase words => words ≠ []
  | motion => True

instance : DecidablePred IsProper
  | phrase words => inferInstanceAs (Decidable (words ≠ []))
  | motion => isTrue trivial

/-- What is left behind the first place where the cue stands. -/
def after? (scene : Scene) : Cue → List String → Option (List String)
  | phrase words, line => afterPhrase? words line
  | motion, line => afterMotion? scene line

theorem Starts.strict (h : c.Starts scene tail rest) (hc : c.IsProper) :
    rest <:+ tail ∧ rest.length < tail.length := by
  cases c with
  | phrase words =>
    obtain rfl : tail = words ++ rest := h
    have hpos := List.length_pos_iff.mpr hc
    exact ⟨List.suffix_append words rest, by rw [List.length_append]; omega⟩
  | motion =>
    obtain ⟨word, fillers, direction, after, rfl, -⟩ := h
    refine ⟨(List.suffix_append fillers rest).trans (List.suffix_cons word _), ?_⟩
    rw [List.length_cons, List.length_append]
    omega

theorem after?_of_starts (h : c.Starts scene (word :: words) rest) :
    c.after? scene (word :: words) = some rest := by
  cases c with
  | phrase phrase =>
    have heq : word :: words = phrase ++ rest := h
    have hprefix : phrase.isPrefixOf (word :: words) = true :=
      List.isPrefixOf_iff_prefix.mpr ⟨rest, heq.symm⟩
    show afterPhrase? phrase (word :: words) = some rest
    rw [afterPhrase?, if_pos hprefix, heq, List.drop_left]
  | motion =>
    obtain ⟨_, fillers, direction, after, heq, hword, hfillers, rfl, hother, hdirection⟩ := h
    cases heq
    have hdrop : (fillers ++ direction :: after).dropWhile isMotionFiller = direction :: after := by
      rw [List.dropWhile_append_of_pos hfillers, List.dropWhile_cons_of_neg]
      rw [hother]
      exact Bool.false_ne_true
    show afterMotion? scene (word :: (fillers ++ direction :: after)) = some (direction :: after)
    rw [afterMotion?]
    simp only [hdrop, hword, List.head?_cons, Option.any_some, hdirection, Bool.and_self, if_true]

theorem after?_of_not_starts (h : ∀ rest, ¬ c.Starts scene (word :: words) rest) :
    c.after? scene (word :: words) = c.after? scene words := by
  cases c with
  | phrase phrase =>
    have hprefix : ¬ phrase.isPrefixOf (word :: words) = true := by
      intro hprefix
      obtain ⟨rest, heq⟩ := List.isPrefixOf_iff_prefix.mp hprefix
      exact h rest heq.symm
    show afterPhrase? phrase (word :: words) = afterPhrase? phrase words
    rw [afterPhrase?, if_neg hprefix]
  | motion =>
    have hfires : ¬ (isMotionWord word &&
        (words.dropWhile isMotionFiller).head?.any (isDirection scene)) = true := by
      intro hfires
      obtain ⟨hword, hany⟩ := Bool.and_eq_true_iff.mp hfires
      obtain ⟨direction, hhead, hdirection⟩ := (Option.any_eq_true _ _).mp hany
      obtain ⟨after, hdrop⟩ := List.head?_eq_some_iff.mp hhead
      have hother := List.head?_dropWhile_not isMotionFiller words
      rw [hhead] at hother
      refine h (direction :: after) ⟨word, words.takeWhile isMotionFiller, direction, after, ?_,
        hword, fun _ => List.mem_takeWhile_imp, rfl, hother, hdirection⟩
      rw [← hdrop, List.takeWhile_append_dropWhile]
    show afterMotion? scene (word :: words) = afterMotion? scene words
    rw [afterMotion?]
    simp only [if_neg hfires]

theorem occurs_cons : c.Occurs scene (word :: words) ↔
    (∃ rest, c.Starts scene (word :: words) rest) ∨ c.Occurs scene words := by
  constructor
  · rintro ⟨before, tail, rest, heq, hstarts⟩
    cases before with
    | nil => exact Or.inl ⟨rest, heq ▸ hstarts⟩
    | cons first before =>
      cases heq
      exact Or.inr ⟨before, tail, rest, rfl, hstarts⟩
  · rintro (⟨rest, hstarts⟩ | ⟨before, tail, rest, rfl, hstarts⟩)
    · exact ⟨[], word :: words, rest, rfl, hstarts⟩
    · exact ⟨word :: before, tail, rest, rfl, hstarts⟩

theorem not_occurs_nil (hc : c.IsProper) : ¬ c.Occurs scene [] := by
  rintro ⟨before, tail, rest, heq, hstarts⟩
  have hlength := (hstarts.strict hc).2
  obtain ⟨-, rfl⟩ := List.append_eq_nil_iff.mp heq.symm
  exact absurd hlength (Nat.not_lt_zero _)

theorem after?_eq_none_iff (hc : c.IsProper) :
    c.after? scene words = none ↔ ¬ c.Occurs scene words := by
  induction words with
  | nil =>
    have hnil : c.after? scene [] = none := by cases c <;> rfl
    exact iff_of_true hnil (not_occurs_nil hc)
  | cons word words ih =>
    rw [occurs_cons, not_or]
    by_cases h : ∃ rest, c.Starts scene (word :: words) rest
    · obtain ⟨rest, hstarts⟩ := h
      rw [after?_of_starts hstarts]
      exact iff_of_false (Option.some_ne_none rest) fun hnot => hnot.1 ⟨rest, hstarts⟩
    · rw [after?_of_not_starts (not_exists.mp h), ih]
      exact (and_iff_right h).symm

theorem leavesFirst_of_starts (h : c.Starts scene words rest) : c.LeavesFirst scene words rest :=
  ⟨[], words, rfl, h, fun before' _ _ _ _ => Nat.zero_le before'.length⟩

theorem leavesFirst_cons (h : ∀ rest, ¬ c.Starts scene (word :: words) rest) :
    c.LeavesFirst scene (word :: words) rest ↔ c.LeavesFirst scene words rest := by
  constructor
  · rintro ⟨before, tail, heq, hstarts, hfirst⟩
    cases before with
    | nil => exact absurd (heq ▸ hstarts) (h rest)
    | cons first before =>
      cases heq
      refine ⟨before, tail, rfl, hstarts, fun before' tail' rest' heq' hstarts' => ?_⟩
      exact Nat.le_of_succ_le_succ
        (hfirst (word :: before') tail' rest' (congrArg (word :: ·) heq') hstarts')
  · rintro ⟨before, tail, rfl, hstarts, hfirst⟩
    refine ⟨word :: before, tail, rfl, hstarts, fun before' tail' rest' heq' hstarts' => ?_⟩
    cases before' with
    | nil => exact absurd (heq' ▸ hstarts') (h rest')
    | cons first before' =>
      injection heq' with _ heq'
      exact Nat.succ_le_succ (hfirst before' tail' rest' heq' hstarts')

theorem after?_eq_some_iff (hc : c.IsProper) :
    c.after? scene words = some rest ↔ c.LeavesFirst scene words rest := by
  induction words with
  | nil =>
    have hnil : c.after? scene [] = none := by cases c <;> rfl
    rw [hnil]
    refine iff_of_false (fun h => by cases h) fun h => ?_
    obtain ⟨before, tail, heq, hstarts, -⟩ := h
    exact not_occurs_nil hc ⟨before, tail, rest, heq, hstarts⟩
  | cons word words ih =>
    by_cases h : ∃ rest, c.Starts scene (word :: words) rest
    · obtain ⟨first, hstarts⟩ := h
      rw [after?_of_starts hstarts, Option.some_inj]
      constructor
      · rintro rfl
        exact leavesFirst_of_starts hstarts
      · rintro ⟨before, tail, heq, hbefore, hfirst⟩
        -- nothing is before the start of the line
        obtain rfl : before = [] := List.length_eq_zero_iff.mp
          (Nat.le_zero.mp (hfirst [] (word :: words) first rfl hstarts))
        obtain rfl : word :: words = tail := heq
        exact Option.some.inj ((after?_of_starts hstarts).symm.trans (after?_of_starts hbefore))
    · rw [after?_of_not_starts (not_exists.mp h), ih, leavesFirst_cons (not_exists.mp h)]

end Cue

/-! ## Triggers -/

/-- A rule with its cues in the order in which they are tried. -/
structure Trigger where
  rule : InferenceRule
  verb : Verb
  score : Score
  cues : List Cue

/-- All rules in the order in which they are tried; each bare verb is one of them. -/
def triggers : List Trigger :=
  [⟨.help, .help, 0.8, helpRule.phrases.map .phrase⟩,
    ⟨.inventory, .inventory, 0.92, inventoryRule.phrases.map .phrase⟩,
    ⟨.fire, .buildFire, 0.84, fireRule.phrases.map .phrase⟩,
    ⟨.look, .look, 0.88, lookRule.phrases.map .phrase⟩,
    ⟨.motion, .go, 0.86, [.motion]⟩,
    ⟨.bareVerb, .eat, 0.78, [.phrase ["eat"]]⟩,
    ⟨.bareVerb, .drink, 0.78, [.phrase ["drink"]]⟩,
    ⟨.bareVerb, .sleep, 0.8, [.phrase ["sleep"]]⟩,
    ⟨.bareVerb, .rest, 0.8, [.phrase ["rest"]]⟩,
    ⟨.take, .take, 0.82, takeRule.phrases.map .phrase⟩]

namespace Trigger

variable {scene : Scene} {t : Trigger} {words rest : List String} {i : Inference}

/-- One of the cues occurs. -/
def Fires (scene : Scene) (t : Trigger) (words : List String) : Prop :=
  ∃ c ∈ t.cues, c.Occurs scene words

/-- The first cue that occurs leaves `rest` behind its first occurrence. -/
def Leaves (scene : Scene) (t : Trigger) (words rest : List String) : Prop :=
  ∃ earlier c later, t.cues = earlier ++ c :: later ∧ (∀ e ∈ earlier, ¬ e.Occurs scene words) ∧
    c.LeavesFirst scene words rest

/-- What the rule infers. -/
def infer? (scene : Scene) (words : List String) (t : Trigger) : Option Inference :=
  (t.cues.findSome? (·.after? scene words)).map fun rest => ⟨t.verb, t.score, rest, t.rule⟩

theorem infer?_eq_none_iff (ht : ∀ c ∈ t.cues, c.IsProper) :
    t.infer? scene words = none ↔ ¬ t.Fires scene words := by
  unfold infer? Fires
  rw [Option.map_eq_none_iff, List.findSome?_eq_none_iff, not_exists]
  refine forall_congr' fun c => ?_
  rw [not_and]
  exact forall_congr' fun hc => Cue.after?_eq_none_iff (ht c hc)

theorem infer?_eq_some_iff (ht : ∀ c ∈ t.cues, c.IsProper) :
    t.infer? scene words = some i ↔
      i.rule = t.rule ∧ i.verb = t.verb ∧ i.score = t.score ∧ t.Leaves scene words i.rest := by
  constructor
  · intro h
    obtain ⟨rest, hfind, rfl⟩ := Option.map_eq_some_iff.mp h
    obtain ⟨earlier, c, later, hcues, hafter, hearlier⟩ := List.findSome?_eq_some_iff.mp hfind
    rw [hcues] at ht
    obtain ⟨hbefore, hc, -⟩ := List.forall_mem_append.mp ht |>.imp_right List.forall_mem_cons.mp
    exact ⟨rfl, rfl, rfl, earlier, c, later, hcues,
      fun e he => (Cue.after?_eq_none_iff (hbefore e he)).mp (hearlier e he),
      (Cue.after?_eq_some_iff hc).mp hafter⟩
  · rintro ⟨hrule, hverb, hscore, earlier, c, later, hcues, hearlier, hleaves⟩
    rw [hcues] at ht
    obtain ⟨hbefore, hc, -⟩ := List.forall_mem_append.mp ht |>.imp_right List.forall_mem_cons.mp
    refine Option.map_eq_some_iff.mpr ⟨i.rest, List.findSome?_eq_some_iff.mpr
      ⟨earlier, c, later, hcues, (Cue.after?_eq_some_iff hc).mpr hleaves,
        fun e he => (Cue.after?_eq_none_iff (hbefore e he)).mpr (hearlier e he)⟩, ?_⟩
    rw [← hrule, ← hverb, ← hscore]

end Trigger

theorem isProper_of_mem_triggers : ∀ t ∈ triggers, ∀ c ∈ t.cues, c.IsProper := by decide +kernel

/-! ## All rules -/

/-- The trigger of a phrase rule. -/
def PhraseRule.trigger (r : PhraseRule) : Trigger :=
  ⟨r.rule, r.verb, r.score, r.phrases.map .phrase⟩

/-- The trigger of a bare verb. -/
def bareTrigger (bare : Verb × Score) : Trigger :=
  ⟨.bareVerb, bare.1, bare.2, [.phrase [bare.1.name]]⟩

variable {words : List String} {scene : Scene} {i : Inference}

theorem afterWord?_eq (wanted : String) (words : List String) :
    afterWord? wanted words = afterPhrase? [wanted] words := by
  induction words with
  | nil => rfl
  | cons word rest ih =>
    rw [afterWord?, afterPhrase?, ih]
    by_cases h : word = wanted
    · simp [h]
    · simp [h, Ne.symm h]

theorem PhraseRule.infer?_trigger (r : PhraseRule) :
    r.trigger.infer? scene words = r.infer? words := by
  unfold Trigger.infer? trigger
  rw [List.findSome?_map]
  rfl

theorem findSome?_bareTrigger :
    (bareVerbs.map bareTrigger).findSome? (·.infer? scene words) = bareVerb? words := by
  unfold bareVerb?
  rw [List.findSome?_map]
  congr 1
  funext bare
  simp only [Function.comp_apply, Trigger.infer?, bareTrigger, List.findSome?_singleton, Cue.after?,
    afterWord?_eq]

theorem findSome?_triggers (words : List String) (scene : Scene) :
    triggers.findSome? (·.infer? scene words) = infer? words scene := by
  have htriggers : triggers =
      [helpRule, inventoryRule, fireRule, lookRule].map PhraseRule.trigger ++
        ([⟨.motion, .go, 0.86, [.motion]⟩] ++
          (bareVerbs.map bareTrigger ++ [takeRule.trigger])) := rfl
  have hmotion : Trigger.infer? scene words ⟨.motion, .go, 0.86, [.motion]⟩ =
      motion? words scene := by
    unfold Trigger.infer? motion?
    rw [List.findSome?_singleton]
    rfl
  rw [htriggers, List.findSome?_append, List.findSome?_append, List.findSome?_append,
    List.findSome?_map, List.findSome?_singleton, List.findSome?_singleton, hmotion,
    findSome?_bareTrigger, PhraseRule.infer?_trigger]
  unfold infer?
  simp only [Option.orElse_eq_orElse, Option.orElse_eq_or, Function.comp_def,
    PhraseRule.infer?_trigger]

theorem infer?_eq_none_iff :
    infer? words scene = none ↔ ∀ t ∈ triggers, ¬ t.Fires scene words := by
  rw [← findSome?_triggers, List.findSome?_eq_none_iff]
  exact forall₂_congr fun t ht => Trigger.infer?_eq_none_iff (isProper_of_mem_triggers t ht)

/-- What is inferred is what the first rule that fires infers. -/
theorem infer?_eq_some_iff : infer? words scene = some i ↔
    ∃ earlier t later, triggers = earlier ++ t :: later ∧
      (∀ e ∈ earlier, ¬ e.Fires scene words) ∧ i.rule = t.rule ∧ i.verb = t.verb ∧
      i.score = t.score ∧ t.Leaves scene words i.rest := by
  have hproper : ∀ {earlier t later}, triggers = earlier ++ t :: later →
      (∀ e ∈ earlier, ∀ c ∈ e.cues, c.IsProper) ∧ ∀ c ∈ t.cues, c.IsProper := by
    intro earlier t later htriggers
    have hall := isProper_of_mem_triggers
    rw [htriggers] at hall
    exact ⟨fun e he => hall e (List.mem_append_left _ he), hall t (by simp)⟩
  rw [← findSome?_triggers, List.findSome?_eq_some_iff]
  refine exists₃_congr fun earlier t later => and_congr_right fun htriggers => ?_
  obtain ⟨hearlier, ht⟩ := hproper htriggers
  rw [Trigger.infer?_eq_some_iff ht, and_comm]
  refine and_congr_left fun _ => forall₂_congr fun e he => ?_
  exact Trigger.infer?_eq_none_iff (hearlier e he)

/-- The words that are left are the last ones of the line, but not all. -/
theorem strict_of_infer? (h : infer? words scene = some i) :
    i.rest <:+ words ∧ i.rest.length < words.length := by
  obtain ⟨earlier, t, later, htriggers, -, -, -, -, earlier', c, later', hcues, -, hleaves⟩ :=
    infer?_eq_some_iff.mp h
  have hc : c.IsProper :=
    isProper_of_mem_triggers t (htriggers ▸ by simp) c (hcues ▸ by simp)
  obtain ⟨before, tail, rfl, hstarts, -⟩ := hleaves
  obtain ⟨hsuffix, hlength⟩ := hstarts.strict hc
  refine ⟨hsuffix.trans (List.suffix_append before tail), ?_⟩
  rw [List.length_append]
  omega

/-- **A verb is inferred exactly where a rule fires, and from the first one that does**: from the
first of its cues that occurs, with the words behind the first occurrence left, which are never all
words of the line. -/
theorem infers_from_first_trigger (words : List String) (scene : Scene) :
    (infer? words scene = none ↔ ∀ t ∈ triggers, ∀ c ∈ t.cues, ¬ c.Occurs scene words) ∧
      ∀ i, infer? words scene = some i ↔
        (∃ earlier t later, triggers = earlier ++ t :: later ∧
          (∀ e ∈ earlier, ∀ c ∈ e.cues, ¬ c.Occurs scene words) ∧ i.rule = t.rule ∧
          i.verb = t.verb ∧ i.score = t.score ∧ t.Leaves scene words i.rest) ∧
        i.rest <:+ words ∧ i.rest ≠ words := by
  have hfires : ∀ t : Trigger, ¬ t.Fires scene words ↔ ∀ c ∈ t.cues, ¬ c.Occurs scene words := by
    intro t
    simp only [Trigger.Fires, not_exists, not_and]
  simp only [← hfires]
  refine ⟨infer?_eq_none_iff, fun i => ⟨fun h => ⟨infer?_eq_some_iff.mp h, ?_⟩, fun h => ?_⟩⟩
  · obtain ⟨hsuffix, hlength⟩ := strict_of_infer? h
    exact ⟨hsuffix, fun heq => absurd (congrArg List.length heq) (Nat.ne_of_lt hlength)⟩
  · exact infer?_eq_some_iff.mpr h.1

/-- A direction that is called like a filler word is passed over, although it follows. -/
theorem not_inferred_toward_the :
    ¬ ∀ (words : List String) (scene : Scene), infer? words scene = none →
      ¬ ∃ before word fillers direction after,
        words = before ++ word :: (fillers ++ direction :: after) ∧ isMotionWord word = true ∧
          (∀ filler ∈ fillers, isMotionFiller filler = true) ∧
          isDirection scene direction = true := by
  intro hall
  refine hall ["go", "the"] { directions := ["the"] } (by decide +kernel) ?_
  exact ⟨[], "go", [], "the", [], rfl, by decide, by simp, by decide +kernel⟩

end PlayerCommands.Inference
