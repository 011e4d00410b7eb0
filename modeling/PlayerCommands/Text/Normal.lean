import PlayerCommands.Text.Alphanumeric
import PlayerCommands.Text.Blank

/-!
# The normal form of a text

Everything after the first step works on words: lower-case ASCII letters and digits, with a decimal
point allowed between two digits.  A text is cut at separators, every piece is cleaned on its own,
and pieces with nothing left vanish.  The normal form joins the words by single spaces.

    words (a ++ c ++ b) = words a ++ words b      for a separator c      (words_append_cons)
    words (" ".intercalate texts) = texts.flatMap words                  (words_intercalate)
    tokens (normalize s) = words s                                       (tokens_normalize)
-/

namespace PlayerCommands.Text

/-! ## Characters -/

/-- The letter or digit that a character is folded to: ASCII ones in lower case, accented Latin
letters without their accent, nothing for all others. -/
def fold? (c : Char) : Option Char :=
  if c.isAlphanum then some c.toLower
  else match c with
    | 'à' | 'á' | 'â' | 'ã' | 'ä' | 'å' | 'À' | 'Á' | 'Â' | 'Ã' | 'Ä' | 'Å' => some 'a'
    | 'ç' | 'Ç' => some 'c'
    | 'è' | 'é' | 'ê' | 'ë' | 'È' | 'É' | 'Ê' | 'Ë' => some 'e'
    | 'ì' | 'í' | 'î' | 'ï' | 'Ì' | 'Í' | 'Î' | 'Ï' => some 'i'
    | 'ñ' | 'Ñ' => some 'n'
    | 'ò' | 'ó' | 'ô' | 'õ' | 'ö' | 'ø' | 'Ò' | 'Ó' | 'Ô' | 'Õ' | 'Ö' | 'Ø' => some 'o'
    | 'ù' | 'ú' | 'û' | 'ü' | 'Ù' | 'Ú' | 'Û' | 'Ü' => some 'u'
    | 'ý' | 'ÿ' | 'Ý' => some 'y'
    | _ => none

/-- A character between two words: a blank, a hyphen, an underscore, a slash or an apostrophe. -/
def isSeparator (c : Char) : Bool :=
  isBlank c || c == '-' || c == '_' || c == '/' || c == '\x27' || c == '\u2019'

/-! ## Words -/

/-- What is left of a piece without separators, after a character `last` that was kept (if any):
folded letters and digits, and a point whose neighbour on the left in the result and on the right
in the text is a digit.  Other punctuation is dropped without splitting the word. -/
def clean (last : Option Char) : List Char → List Char
  | [] => []
  | c :: rest =>
    match fold? c with
    | some f => f :: clean (some f) rest
    | none =>
      if c == '.' && last.any Char.isDigit && rest.head?.any Char.isDigit then
        '.' :: clean (some '.') rest
      else clean last rest

/-- The words of a list of characters. -/
def wordLists (cs : List Char) : List (List Char) :=
  ((pieces isSeparator cs).map (clean none)).filter (! ·.isEmpty)

/-- The words of a text. -/
def words (s : String) : List String := (wordLists s.toList).map String.ofList

/-- Words joined by single spaces. -/
def unwords (ws : List String) : String := " ".intercalate ws

/-- The normal form of a text: its words joined by single spaces. -/
def normalize (s : String) : String := unwords (words s)

/-! ## Lemmas -/

theorem words_append_cons (a b : String) {c : Char} (h : isSeparator c = true) :
    words (a ++ String.singleton c ++ b) = words a ++ words b := by
  simp [words, wordLists, pieces_append_cons _ _ h]

theorem words_append_space (a b : String) : words (a ++ " " ++ b) = words a ++ words b := by
  have hspace : " " = String.singleton ' ' := by decide
  rw [hspace]
  exact words_append_cons a b (by decide)

/-- Texts that are joined by spaces have the words of one after the other. -/
theorem words_intercalate (texts : List String) :
    words (" ".intercalate texts) = texts.flatMap words := by
  induction texts with
  | nil => rfl
  | cons first others ih =>
    cases others with
    | nil => simp
    | cons second others =>
      rw [String.intercalate_cons_cons, words_append_space, ih]
      exact List.flatMap_cons.symm

theorem normalize_trim (s : String) : normalize (trim s) = normalize s := by
  have hseparator : ∀ c, isBlank c = true → isSeparator c = true := fun c hc => by
    simp [isSeparator, hc]
  unfold normalize words wordLists trim
  rw [String.toList_ofList, pieces_trimBy hseparator]

theorem isBlank_eq_false_of_isAlphanum {c : Char} (h : c.isAlphanum = true) :
    isBlank c = false := by
  have := toNat_of_isAlphanum h
  simp only [isBlank, Bool.or_eq_false_iff, Bool.and_eq_false_iff, decide_eq_false_iff_not,
    beq_eq_false_iff_ne]
  omega

theorem isAlphanum_toLower {c : Char} (h : c.isAlphanum = true) :
    c.toLower.isAlphanum = true := by
  have hlower := forall_ascii (fun c => c.isAlphanum = true → c.toLower.isAlphanum = true)
    (by decide) (toNat_of_isAlphanum h).2
  exact hlower h

theorem isAlphanum_of_fold? {c f : Char} (h : fold? c = some f) : f.isAlphanum = true := by
  unfold fold? at h
  split at h
  · next hc => cases h; exact isAlphanum_toLower hc
  · split at h <;> cases h <;> rfl

theorem mem_clean {last : Option Char} {cs : List Char} {c : Char} (h : c ∈ clean last cs) :
    c.isAlphanum = true ∨ c = '.' := by
  induction cs generalizing last with
  | nil => cases h
  | cons d rest ih =>
    simp only [clean] at h
    split at h
    · next f hf =>
      rcases List.mem_cons.1 h with rfl | h
      · exact .inl (isAlphanum_of_fold? hf)
      · exact ih h
    · split at h
      · rcases List.mem_cons.1 h with rfl | h
        · exact .inr rfl
        · exact ih h
      · exact ih h

theorem of_mem_wordLists {cs w : List Char} (h : w ∈ wordLists cs) :
    w ≠ [] ∧ ∀ c ∈ w, isBlank c = false := by
  obtain ⟨hw, hne⟩ := List.mem_filter.1 h
  obtain ⟨piece, -, rfl⟩ := List.mem_map.1 hw
  refine ⟨by simpa using hne, fun c hc => ?_⟩
  rcases mem_clean hc with h | rfl
  · exact isBlank_eq_false_of_isAlphanum h
  · decide

theorem toList_normalize (s : String) :
    (normalize s).toList = [' '].intercalate (wordLists s.toList) := by
  simp [normalize, unwords, words, String.toList_intercalate, Function.comp_def]

theorem tokens_normalize (s : String) : tokens (normalize s) = words s := by
  rw [tokens, toList_normalize,
    pieces_intercalate (by decide) _ fun w hw => of_mem_wordLists hw, words]

example : normalize "  Pick-UP   the_Stick/now " = "pick up the stick now" := by decide
example : normalize "walk south 1.5km." = "walk south 1.5km" := by decide
example : normalize "1..5 x.5 3. .4" = "1.5 x5 3 4" := by decide
example : normalize "Café crème" = "cafe creme" := by decide

end PlayerCommands.Text
