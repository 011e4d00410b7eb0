import PlayerCommands.Answer
import PlayerCommands.Proofs.Amounts

/-!
# The words of a movement

A movement is said with a direction word and with words of an extent.  A direction word means
nothing else: it is no number, no filler, no article, no pronoun, and no way to drop a question.  A
word kept before others changes nothing about the extent that a scan finds in them, so the two may
be said on one line or on two.

    scan (word :: words) = { scan words with rest := word :: (scan words).rest }     (scan_cons)

The words of an extent are no way to drop a question and no lone unit.
-/

namespace PlayerCommands

namespace Extent

/-! ## A word kept before the others -/

/-- A scan under way with one more word kept before all others. -/
def Progress.behind (p : Progress) (word : String) : Progress :=
  match p.bare with
  | some (number, before) => { p with bare := some (number, before ++ [word]) }
  | none => { p with kept := p.kept ++ [word] }

/-- The outcome of a scan with one more word before the remaining ones. -/
def Scan.behind (s : Scan) (word : String) : Scan := { s with rest := word :: s.rest }

namespace Progress

variable (p : Progress) (word : String)

theorem keep_behind (next : String) : (p.behind word).keep next = (p.keep next).behind word := by
  unfold keep behind
  cases p.bare <;> rfl

theorem keepBare_behind (number : String) :
    (p.behind word).keepBare number = (p.keepBare number).behind word := by
  unfold keepBare behind
  cases hbare : p.bare with
  | none => rfl
  | some split =>
    simp only
    unfold keep
    rw [hbare]

theorem reject_behind (next : String) :
    (p.behind word).reject next = (p.reject next).behind word := by
  unfold reject behind
  cases p.bare <;> rfl

/-- A `for` is dropped only if it was kept last, so not the word before all others. -/
theorem dropFor_behind (hword : word ≠ "for") :
    (p.behind word).dropFor = p.dropFor.behind word := by
  have hkept : Quantity.dropFor (p.kept ++ [word]) = Quantity.dropFor p.kept ++ [word] := by
    unfold Quantity.dropFor
    rcases hkept : p.kept with _ | ⟨last, others⟩
    · split
      · next heq => cases heq; exact absurd rfl hword
      · rfl
    · by_cases hlast : last = "for"
      · subst hlast
        rfl
      · simp [hlast]
  unfold dropFor behind
  cases p.bare with
  | none => simp only [hkept]
  | some split => rfl

theorem words_behind : (p.behind word).words = word :: p.words := by
  unfold words behind
  rcases p.bare with _ | ⟨number, before⟩ <;> simp

theorem found_behind (e : Extent) (after : List String) :
    (p.behind word).found e after = (p.found e after).behind word := by
  have hrange : (p.behind word).outOfRange = p.outOfRange := by
    unfold behind
    cases p.bare <;> rfl
  unfold found Scan.behind
  rw [words_behind, hrange]
  rfl

theorem ended_behind : (p.behind word).ended = p.ended.behind word := by
  unfold ended behind Scan.behind
  rcases p.bare with _ | ⟨number, before⟩ <;> simp

end Progress

/-- What a scan finds does not depend on a word kept before all others. -/
theorem scanFrom_behind {word : String} (hword : word ≠ "for") (p : Progress) (skip : Nat)
    (words : List String) :
    scanFrom (p.behind word) skip words = (scanFrom p skip words).behind word := by
  induction words generalizing p skip with
  | nil =>
    unfold scanFrom
    exact p.ended_behind word
  | cons next rest ih =>
    cases skip with
    | succ skip =>
      unfold scanFrom
      exact ih _ _
    | zero =>
      unfold scanFrom
      split
      · exact p.found_behind word _ _
      · rw [p.dropFor_behind word hword]
        split
        · exact p.dropFor.found_behind word _ _
        · rw [Progress.reject_behind]
          exact ih _ _
      · rw [Progress.keepBare_behind]
        exact ih _ _
      · rw [Progress.keep_behind]
        exact ih _ _

/-- **A word that says nothing of an extent only stays before the rest.** -/
theorem scan_cons {word : String} (hword : word ≠ "for") {words : List String}
    (hreading : Reading.of word words.head? = .word) :
    scan (word :: words) = (scan words).behind word := by
  have hstep : scanFrom {} 0 (word :: words) = scanFrom (Progress.behind {} word) 0 words := by
    rw [scanFrom, hreading]
    rfl
  unfold scan
  rw [hstep, scanFrom_behind hword]

end Extent

/-! ## No word and one word -/

namespace Argument

variable {verb : Verb} {scene : Scene} {word arg : String} {n : Nat}

theorem resolve_nil (verb : Verb) (scene : Scene) : resolve verb [] scene = ⟨[], 1, none⟩ := by
  have hscore : ((1 : Score) - 0).clamp = 1 := by decide +kernel
  unfold resolve resolveFrom Progress.finish
  simp only [hscore]

/-- A word that is matched exactly is the only argument. -/
theorem resolve_of_exact (h : Reading.of verb scene [] word none = .resolved arg 1 n) :
    resolve verb [word] scene = ⟨[arg], 1, none⟩ := by
  have hscore : (min (1 : Score) (min 1 1) - 0).clamp = 1 := by decide +kernel
  unfold resolve resolveFrom
  simp only [List.head?_nil, h]
  unfold resolveFrom Progress.finish Progress.push
  simp only [List.nil_append, hscore]

end Argument

/-! ## Direction words -/

/-- A word that means nothing but a direction. -/
structure Direction.IsPlain (d : Direction) (word : String) : Prop where
  meaning : ofWord? word = some d
  words : Text.words word = [word]
  kept : word ≠ "for"
  unconditional : word ≠ "until"
  wordy : Numeral.ofWord? word = none
  continues : isCancel (Text.normalize word) = false
  counts : Pending.isFiller word = false
  article : Argument.isArticle word = false
  pronoun : Argument.isPronoun word = false

namespace Direction

variable {d : Direction} {word : String}

theorem isPlain_name (d : Direction) : d.IsPlain d.name := by
  cases d <;> constructor <;> decide

theorem isPlain_abbreviation (d : Direction) : d.IsPlain d.abbreviation := by
  cases d <;> constructor <;> decide

theorem IsPlain.reading (h : d.IsPlain word) (next? : Option String) :
    Extent.Reading.of word next? = .word := by
  unfold Extent.Reading.of
  rw [if_neg h.unconditional, h.wordy]

theorem IsPlain.scan_cons (h : d.IsPlain word) (words : List String) :
    Extent.scan (word :: words) = (Extent.scan words).behind word :=
  Extent.scan_cons h.kept (h.reading _)

theorem IsPlain.resolveDirection (h : d.IsPlain word) (scene : Scene) :
    scene.resolveDirection word = .found d.name 1 1 := by
  unfold Scene.resolveDirection
  rw [h.meaning]

/-- A direction word alone is the argument of a movement, matched exactly. -/
theorem IsPlain.resolve (h : d.IsPlain word) (scene : Scene) :
    Argument.resolve .go [word] scene = ⟨[d.name], 1, none⟩ := by
  refine Argument.resolve_of_exact (n := 1) ?_
  unfold Argument.Reading.of
  simp [h.article, h.pronoun, h.resolveDirection scene, Argument.Reading.ofMatch]

end Direction

/-! ## Texts of extents -/

namespace Extent

/-- A text that says an extent and nothing else. -/
structure IsSaidBy (e : Extent) (text : String) : Prop where
  extent : (scan (Text.words text)).extent = some e
  complete : (scan (Text.words text)).rest = []

variable {e : Extent} {text : String}

theorem IsSaidBy.bareNumber (h : e.IsSaidBy text) : (scan (Text.words text)).bareNumber = none :=
  (isSound_scan _ e h.extent).2

/-- A line that says an extent does not drop a question. -/
theorem continues_of_extent (h : (scan (Text.words text)).extent = some e) :
    isCancel (Text.normalize text) = false := by
  have hcancels : ∀ line ∈ ["cancel", "nevermind", "never mind", "forget it", "abort", "stop"],
      (scan (Text.tokens line)).extent = none := by decide +kernel
  cases hcancel : isCancel (Text.normalize text) with
  | false => rfl
  | true =>
    have hnone := hcancels _ (List.contains_iff_mem.mp hcancel)
    rw [Text.tokens_normalize, h] at hnone
    cases hnone

/-- A unit alone says no extent. -/
theorem extent_scan_unit {unit : String} (h : (ExtentUnit.ofWord? unit).isSome = true) :
    (scan [unit]).extent = none := by
  unfold ExtentUnit.ofWord? at h
  split at h <;> first | decide +kernel | cases h

end Extent

end PlayerCommands
