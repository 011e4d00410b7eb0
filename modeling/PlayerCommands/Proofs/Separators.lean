import PlayerCommands.Text.Normal

/-!
# Separators

A text falls apart at every separator in it, whatever stands around it there: points, punctuation or
more separators.  Its words are those of what stands before, then those of what stands behind.  The
separators are the only characters that do this in every text; between two letters any other one
leaves a single word, in which it is kept or lost.

    (∀ c ∈ s.toList, isSeparator c = false) → (words s).length ≤ 1            (length_words_le_one)
    (∀ a b, tokens (normalize (a ++ c ++ b)) = tokens (normalize a) ++ tokens (normalize b)) ↔
      isBlank c = true ∨ c ∈ ['-', '_', '/', '\x27', '\u2019']
                                                                   (tokens_normalize_append_iff)
-/

namespace PlayerCommands.Text

variable {c : Char} {s : String}

theorem isSeparator_iff :
    isSeparator c = true ↔ isBlank c = true ∨ c ∈ ['-', '_', '/', '\x27', '\u2019'] := by
  simp [isSeparator, or_assoc]

/-- Cleaning the pieces makes no more words than there are pieces. -/
theorem length_wordLists_le (cs : List Char) :
    (wordLists cs).length ≤ (pieces isSeparator cs).length := by
  have hclean : ((pieces isSeparator cs).map (clean none)).length = (pieces isSeparator cs).length :=
    List.length_map ..
  rw [← hclean]
  exact List.length_filter_le _ _

/-- What is not cut is one piece, so it is one word, or none if nothing of it is kept. -/
theorem length_words_le_one (h : ∀ c ∈ s.toList, isSeparator c = false) :
    (words s).length ≤ 1 := by
  have hpieces : (pieces isSeparator s.toList).length ≤ 1 := by
    unfold pieces
    rw [List.splitOnP_eq_singleton h]
    exact List.length_filter_le _ _
  have hwords : (words s).length = (wordLists s.toList).length := List.length_map ..
  rw [hwords]
  exact Nat.le_trans (length_wordLists_le _) hpieces

/-- **A text falls apart at its separators, and at no other characters**: these are the blanks, the
hyphen, the underscore, the slash and the two apostrophes. -/
theorem tokens_normalize_append_iff (c : Char) :
    (∀ a b : String, tokens (normalize (a ++ String.singleton c ++ b)) =
      tokens (normalize a) ++ tokens (normalize b)) ↔
    isBlank c = true ∨ c ∈ ['-', '_', '/', '\x27', '\u2019'] := by
  rw [← isSeparator_iff]
  simp only [tokens_normalize]
  constructor
  · intro hcuts
    cases hc : isSeparator c with
    | true => rfl
    | false =>
      -- the character is part of a piece between two letters, so these would stay together
      have hone : (words ("x" ++ String.singleton c ++ "y")).length ≤ 1 := by
        refine length_words_le_one fun d hd => ?_
        have hd : d = 'x' ∨ d = c ∨ d = 'y' := by simpa using hd
        rcases hd with rfl | rfl | rfl
        · decide
        · exact hc
        · decide
      have htwo : (words "x" ++ words "y").length = 2 := by decide
      rw [hcuts, htwo] at hone
      omega
  · intro hc a b
    exact words_append_cons a b hc

example : tokens (normalize "3.-.5 /'x") = ["3", "5", "x"] := by decide

end PlayerCommands.Text
