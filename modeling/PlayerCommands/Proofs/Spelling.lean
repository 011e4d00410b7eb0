import PlayerCommands.Answer
import PlayerCommands.Proofs.PlainText
import PlayerCommands.Proofs.Shapes

/-!
# Spelling does not matter

Whatever a player or a scene writes is read in normal form.  The normal form is its own normal form,
so a line may be replaced by it, and so may every name of a scene; a name that vanishes or stands
twice may be left out.  Only the record of what was typed tells the two lines apart.

    words (normalize s) = words s                                               (words_normalize)
    Argument.resolve verb words scene.normal = Argument.resolve verb words scene
                                                                                 (resolve_normal)
    (r.interpret scene.normal (normalize line)).untyped = (r.interpret scene line).untyped ∧
      p.answer r scene.normal (normalize line) = p.answer r scene line     (spelling_irrelevant)
-/

namespace PlayerCommands

/-! ## Normal forms of texts -/

namespace Text

variable {c f : Char} {cs w : List Char}

/-- A folded character is folded to itself. -/
theorem fold?_of_fold? (h : fold? c = some f) : fold? f = some f := by
  unfold fold? at h
  split at h
  · next hc =>
    have hlower := forall_ascii (fun c => c.isAlphanum = true → fold? c.toLower = some c.toLower)
      (by decide +kernel) (toNat_of_isAlphanum hc).2
    cases h
    exact hlower hc
  · split at h <;> cases h <;> decide

theorem isAlphanum_of_isDigit (h : c.isDigit = true) : c.isAlphanum = true := by
  simp [Char.isAlphanum, h]

theorem fold?_of_isDigit (h : c.isDigit = true) : fold? c = some c := by
  have hlower := forall_ascii (fun c => c.isDigit = true → c.toLower = c) (by decide)
    (toNat_lt_of_isDigit h)
  rw [fold?_of_isAlphanum (isAlphanum_of_isDigit h), hlower h]

/-- A digit that follows a kept point is still there after cleaning. -/
theorem isDigit_head?_clean (last : Option Char) (h : cs.head?.any Char.isDigit = true) :
    (clean last cs).head?.any Char.isDigit = true := by
  cases cs with
  | nil => cases h
  | cons d rest =>
    have hd : d.isDigit = true := h
    simp only [clean, fold?_of_isDigit hd]
    exact hd

/-- Nothing is left to clean of a cleaned piece. -/
theorem clean_clean (last : Option Char) (cs : List Char) :
    clean last (clean last cs) = clean last cs := by
  induction cs generalizing last with
  | nil => rfl
  | cons c rest ih =>
    cases hfold : fold? c with
    | some f =>
      have hstep : clean last (c :: rest) = f :: clean (some f) rest := by
        simp only [clean, hfold]
      rw [hstep]
      simp only [clean, fold?_of_fold? hfold, ih]
    | none =>
      by_cases hpoint : (c == '.' && last.any Char.isDigit && rest.head?.any Char.isDigit) = true
      · have hstep : clean last (c :: rest) = '.' :: clean (some '.') rest := by
          simp only [clean, hfold, hpoint, if_true]
        simp only [Bool.and_eq_true] at hpoint
        have hnext := isDigit_head?_clean (some '.') hpoint.2
        have hdot : fold? '.' = none := by decide
        rw [hstep]
        simp only [clean, hdot, beq_self_eq_true, hpoint.1.2, hnext, Bool.and_self, if_true, ih]
      · have hstep : clean last (c :: rest) = clean last rest := by
          simp only [clean, hfold, hpoint]
          rfl
        rw [hstep, ih]

theorem isSeparator_eq_false_of_mem_clean {last : Option Char} (h : c ∈ clean last cs) :
    isSeparator c = false := by
  rcases mem_clean h with hletter | rfl
  · exact isSeparator_eq_false_of_isAlphanum hletter
  · decide

/-- Words that are joined by single spaces come apart again, and stay what they are. -/
theorem wordLists_intercalate (cs : List Char) :
    wordLists ([' '].intercalate (wordLists cs)) = wordLists cs := by
  have hwords : ∀ w ∈ wordLists cs,
      (w ≠ [] ∧ ∀ c ∈ w, isSeparator c = false) ∧ clean none w = w := by
    intro w hw
    obtain ⟨hmem, hne⟩ := List.mem_filter.1 hw
    obtain ⟨piece, -, rfl⟩ := List.mem_map.1 hmem
    exact ⟨⟨by simpa using hne, fun c hc => isSeparator_eq_false_of_mem_clean hc⟩,
      clean_clean none piece⟩
  have hclean : (wordLists cs).map (clean none) = wordLists cs := by
    conv => rhs; rw [← List.map_id (wordLists cs)]
    exact List.map_congr_left fun w hw => (hwords w hw).2
  have hkept : (wordLists cs).filter (! ·.isEmpty) = wordLists cs := by
    rw [List.filter_eq_self]
    intro w hw
    simpa using (hwords w hw).1.1
  have hagain : wordLists ([' '].intercalate (wordLists cs)) =
      ((pieces isSeparator ([' '].intercalate (wordLists cs))).map (clean none)).filter
        (! ·.isEmpty) := rfl
  rw [hagain, pieces_intercalate (by decide) _ fun w hw => (hwords w hw).1, hclean, hkept]

/-- The words of a normal form are those of the text. -/
@[simp] theorem words_normalize (s : String) : words (normalize s) = words s := by
  unfold words
  rw [toList_normalize, wordLists_intercalate]

/-- **A normal form is its own normal form.** -/
@[simp] theorem normalize_normalize (s : String) : normalize (normalize s) = normalize s := by
  have hagain : normalize (normalize s) = unwords (words (normalize s)) := rfl
  rw [hagain, words_normalize]
  rfl

end Text

/-! ## Normal forms of scenes -/

theorem mem_normalNames {names : List String} {name : String} :
    name ∈ normalNames names ↔ name ≠ "" ∧ ∃ s ∈ names, Text.normalize s = name := by
  unfold normalNames
  rw [Name.mem_distinct, List.mem_filter, List.mem_map, decide_eq_true_eq, and_comm]

theorem normalNames_normalNames (names : List String) :
    normalNames (normalNames names) = normalNames names := by
  have hmap : (normalNames names).map Text.normalize = normalNames names := by
    conv => rhs; rw [← List.map_id (normalNames names)]
    refine List.map_congr_left fun name hname => ?_
    obtain ⟨-, s, -, rfl⟩ := mem_normalNames.mp hname
    exact Text.normalize_normalize s
  have hfilter : (normalNames names).filter (· ≠ "") = normalNames names := by
    rw [List.filter_eq_self]
    exact fun name hname => decide_eq_true (mem_normalNames.mp hname).1
  have hagain : normalNames (normalNames names) =
      Name.distinct (((normalNames names).map Text.normalize).filter (· ≠ "")) := rfl
  rw [hagain, hmap, hfilter]
  exact Name.distinct_of_nodup (Name.nodup_distinct _)

/-- A scene with its names in normal form, without empty and repeated ones. -/
def Scene.normal (s : Scene) : Scene :=
  { inventory := normalNames s.inventory, nearby := normalNames s.nearby,
    directions := normalNames s.directions, lastEntity := s.referent? }

variable {r : Registry} {verb : Verb} (scene : Scene) (words : List String) (line : String)

/-! ## What is read of a scene -/

namespace Scene

@[simp] theorem knownDirections_normal : scene.normal.knownDirections = scene.knownDirections := by
  unfold knownDirections
  rw [normal, normalNames_normalNames]

@[simp] theorem referent?_normal : scene.normal.referent? = scene.referent? := by
  have hlast : scene.normal.lastEntity = (scene.lastEntity.map Text.normalize).filter (· ≠ "") := rfl
  unfold referent?
  rw [hlast]
  cases scene.lastEntity with
  | none => rfl
  | some entity => by_cases h : Text.normalize entity = "" <;> simp [Option.filter, h]

@[simp] theorem resolveDirection_normal (word : String) :
    scene.normal.resolveDirection word = scene.resolveDirection word := by
  unfold resolveDirection
  rw [knownDirections_normal]

end Scene

@[simp] theorem EntityPools.ofScene_normal : ofScene scene.normal = ofScene scene := by
  unfold ofScene Scene.normal
  simp only [normalNames_normalNames]

@[simp] theorem Question.targetsFor_normal : targetsFor verb scene.normal = targetsFor verb scene := by
  unfold targetsFor Scene.normal
  by_cases htake : verb = .take <;> simp only [htake, if_true, if_false, normalNames_normalNames]

/-! ## Arguments and verbs -/

namespace Argument

@[simp] theorem Reading.of_normal (args : List String) (word : String) (next? : Option String) :
    Reading.of verb scene.normal args word next? = Reading.of verb scene args word next? := by
  unfold Reading.of
  simp only [Scene.referent?_normal, Scene.resolveDirection_normal, EntityPools.ofScene_normal]

/-- What is made of the words depends on the scene only through what each word contributes. -/
theorem resolveFrom_congr {s t : Scene}
    (h : ∀ args word next?, Reading.of verb s args word next? = Reading.of verb t args word next?)
    (p : Progress) (skip : Nat) :
    resolveFrom verb s p skip words = resolveFrom verb t p skip words := by
  induction words generalizing p skip with
  | nil => cases skip <;> rfl
  | cons word rest ih =>
    cases skip with
    | succ skip => exact ih p skip
    | zero =>
      unfold resolveFrom
      rw [h]
      cases Reading.of verb t p.args word rest.head? with
      | article => exact ih _ _
      | resolved arg score consumed => exact ih _ _
      | literal => exact ih _ _
      | unclear question confidence => rfl

@[simp] theorem resolve_normal :
    resolve verb words scene.normal = resolve verb words scene :=
  resolveFrom_congr words (Reading.of_normal scene) _ _

end Argument

namespace Inference

theorem afterMotion?_normal : afterMotion? scene.normal words = afterMotion? scene words := by
  have hdirection : isDirection scene.normal = isDirection scene := by
    funext word
    unfold isDirection
    rw [Scene.knownDirections_normal]
  induction words with
  | nil => rfl
  | cons word rest ih =>
    unfold afterMotion?
    rw [hdirection, ih]

@[simp] theorem infer?_normal : infer? words scene.normal = infer? words scene := by
  unfold infer? motion?
  rw [afterMotion?_normal]

end Inference

@[simp] theorem Registry.readVerb?_normal :
    r.readVerb? scene.normal words = r.readVerb? scene words := by
  unfold readVerb?
  rw [Inference.infer?_normal]

/-! ## What is kept of a line as it was typed -/

namespace Intent

/-- The intent as that of another typed text. -/
def retype (i : Intent) (raw : String) : Intent := { i with raw }

/-- The intent and its options without the texts that were typed for them. -/
def untyped (i : Intent) : Intent :=
  { i with
    raw := ""
    clarify := i.clarify.map fun q => { q with options := q.options.map (·.retype "") } }

variable (i : Intent) (raw : String) (command : Command) (amounts : Amounts)
  (question : Option (Question Intent × Score))

/-- The questions that are due do not depend on what was typed. -/
theorem askDue_retype :
    (i.retype raw).askDue verb command scene amounts question =
      (i.askDue verb command scene amounts question).retype raw := by
  have hmovement : ∀ bareNumber,
      (i.retype raw).askMovement bareNumber = (i.askMovement bareNumber).retype raw := by
    intro bareNumber
    have hargs : (i.retype raw).args = i.args := rfl
    have hextent : (i.retype raw).extent = i.extent := rfl
    unfold askMovement
    simp only [hargs, hextent]
    cases bareNumber with
    | some number => rfl
    | none =>
      simp only
      split
      · rfl
      · split <;> rfl
  have hargs : (i.retype raw).args = i.args := rfl
  have hcovers : (i.retype raw).coversAll = i.coversAll := rfl
  unfold askDue
  simp only [hmovement, hargs, hcovers]
  cases question with
  | some asked => rfl
  | none =>
    simp only
    split
    · rfl
    · split <;> rfl

/-- Nor does the last one, but that it offers the intent itself. -/
theorem untyped_askIfUnclear_retype (reading : PlayerCommands.Reading) (argScore : Score) :
    ((i.retype raw).askIfUnclear reading command scene amounts question argScore).untyped =
      (i.askIfUnclear reading command scene amounts question argScore).untyped := by
  unfold askIfUnclear
  simp only [askDue_retype]
  generalize i.askDue reading.verb command scene amounts question = asked
  have hclarify : (asked.retype raw).clarify = asked.clarify := rfl
  have hconfidence : (asked.retype raw).confidence = asked.confidence := rfl
  rw [hclarify, hconfidence]
  split <;> rfl

/-- The options take over amounts, whatever was typed for them. -/
theorem untyped_shareAmounts : i.shareAmounts.untyped = i.untyped.shareAmounts := by
  have hinherit : ∀ option : Intent,
      (i.inherit option).retype "" = i.untyped.inherit (option.retype "") := by
    intro option
    have hverb : (option.retype "").verb = option.verb ∧ i.untyped.verb = i.verb := ⟨rfl, rfl⟩
    unfold inherit
    rw [hverb.1, hverb.2]
    split <;> rfl
  unfold shareAmounts
  cases hclarify : i.clarify with
  | none => simp [untyped, hclarify]
  | some q => simp [untyped, hclarify, hinherit, Function.comp_def]

end Intent

/-! ## Lines and answers -/

namespace Registry

theorem untyped_buildIntent_retype (i : Intent) (raw : String) (reading : Reading)
    (command : Command) :
    (buildIntent scene (i.retype raw) reading command).untyped =
      (buildIntent scene i reading command).untyped := by
  have hdraft : draftIntent scene (i.retype raw) reading command =
      (draftIntent scene i reading command).retype raw := rfl
  rw [buildIntent_eq, buildIntent_eq, hdraft, Intent.untyped_shareAmounts,
    Intent.untyped_shareAmounts, Intent.untyped_askIfUnclear_retype]

@[simp] theorem buildIntent_normal (i : Intent) (reading : Reading) (command : Command) :
    buildIntent scene.normal i reading command = buildIntent scene i reading command := by
  unfold buildIntent Intent.askIfUnclear Intent.askDue Question.missingTarget
  simp only [Argument.resolve_normal, Question.targetsFor_normal]

/-- The meaning of a line is that of its normal form in the normal scene. -/
theorem untyped_interpret_normal :
    (r.interpret scene.normal (Text.normalize line)).untyped =
      (r.interpret scene line).untyped := by
  have hretype : Intent.unresolved (Text.normalize line) (Text.normalize line) =
      (Intent.unresolved line (Text.normalize line)).retype (Text.normalize line) := rfl
  unfold interpret
  simp only [Text.words_normalize, Text.normalize_normalize, readVerb?_normal, buildIntent_normal,
    hretype]
  split
  · rfl
  · split
    · rfl
    · exact untyped_buildIntent_retype ..

end Registry

namespace Pending

variable (p : Pending)

theorem answerDirection_normal :
    p.answerDirection words scene.normal = p.answerDirection words scene := by
  unfold answerDirection
  simp only [funext scene.resolveDirection_normal, Scene.knownDirections_normal]

theorem answerExtent_normal : p.answerExtent words scene.normal = p.answerExtent words scene := by
  have hmeasure : p.answerMeasure words scene.normal = p.answerMeasure words scene := by
    unfold answerMeasure fillDirection
    simp only [funext scene.resolveDirection_normal]
  unfold answerExtent
  simp only [hmeasure]

/-- An answer is taken as its normal form in the normal scene. -/
theorem answer_normal : p.answer r scene.normal (Text.normalize line) = p.answer r scene line := by
  have hreply : p.reply scene.normal (Text.normalize line) = p.reply scene line := by
    funext field
    unfold reply answerTarget
    simp only [Text.words_normalize, Text.normalize_normalize, answerDirection_normal,
      answerExtent_normal, Argument.resolve_normal]
  unfold answer
  rw [Text.normalize_normalize, hreply]

end Pending

/-- **Only the normal spelling matters**: of a line, of an answer to any question, and of the scene
in which it is said. -/
theorem Registry.spelling_irrelevant (r : Registry) (scene : Scene) (line : String) :
    (r.interpret scene.normal (Text.normalize line)).untyped =
        (r.interpret scene line).untyped ∧
      ∀ p : Pending, p.answer r scene.normal (Text.normalize line) = p.answer r scene line :=
  ⟨untyped_interpret_normal scene line, Pending.answer_normal scene line⟩

end PlayerCommands
