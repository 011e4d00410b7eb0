import PlayerCommands.Proofs.Spelling

/-!
# The normal forms

A text is in normal form if it consists of lower-case letters and digits, single spaces between words
and points between digits.  These are the texts that are their own normal form, and every text has
one of them for its normal form, with exactly the letters and digits that it can be folded to.

    IsNormal (normalize s)                                              (isNormal_normalize)
    (normalize s).toList.filter Char.isAlphanum = s.toList.filterMap fold?
                                                                        (filter_normalize)
    normalize s = s ↔ IsNormal s                                        (normalize_eq_self_iff)

A normal form is the pieces of a text, cleaned and joined; it is also what one pass over the text
writes down, which knows of the past only the last character that it has written and whether there
was a separator since.  The facts above are about that pass.

    (normalize s).toList = pass none false s.toList             (toList_normalize_eq_pass)
-/

namespace PlayerCommands.Text

variable {c d f : Char} {cs w : List Char} {ws : List (List Char)} {last : Option Char}
  {gap : Bool} {s : String}

/-! ## One pass -/

/-- What is written down for the rest of a text, after the character `last`, if any; with a `gap` a
separator was passed since. -/
def pass (last : Option Char) (gap : Bool) : List Char → List Char
  | [] => []
  | c :: rest =>
    match fold? c with
    | some f => if gap && last.isSome then ' ' :: f :: pass (some f) false rest
      else f :: pass (some f) false rest
    | none =>
      if isSeparator c then pass last true rest
      else if c == '.' && ! gap && last.any Char.isDigit && rest.head?.any Char.isDigit then
        '.' :: pass (some '.') false rest
      else pass last gap rest

/-- Words behind a text: each one after a space, except the first one if the text is empty. -/
def joinBehind (started : Bool) (ws : List (List Char)) : List Char :=
  if started then ws.flatMap (' ' :: ·) else [' '].intercalate ws

theorem intercalate_cons (w : List Char) (ws : List (List Char)) :
    [' '].intercalate (w :: ws) = w ++ joinBehind true ws := by
  induction ws generalizing w with
  | nil => simp [joinBehind]
  | cons v rest ih =>
    rw [List.intercalate_cons_of_ne_nil (List.cons_ne_nil v rest), ih]
    simp [joinBehind]

theorem joinBehind_cons (started : Bool) (w : List Char) (ws : List (List Char)) :
    joinBehind started (w :: ws) =
      (if started then ' ' :: w else w) ++ joinBehind true ws := by
  cases started with
  | true => simp [joinBehind]
  | false => exact intercalate_cons w ws

/-- The words of pieces. -/
def wordsOf (ws : List (List Char)) : List (List Char) := (ws.map (clean none)).filter (! ·.isEmpty)

theorem wordsOf_cons (w : List Char) (ws : List (List Char)) :
    wordsOf (w :: ws) = if clean none w = [] then wordsOf ws else clean none w :: wordsOf ws := by
  unfold wordsOf
  rw [List.map_cons]
  by_cases h : clean none w = []
  · rw [if_pos h, List.filter_cons_of_neg (by simp [h])]
  · rw [if_neg h, List.filter_cons_of_pos (by simp [h])]

/-- Pieces with nothing in them do not matter. -/
theorem wordLists_eq (cs : List Char) : wordLists cs = wordsOf (cs.splitOnP isSeparator) := by
  have hkeep : ∀ ws : List (List Char), wordsOf (ws.filter (! ·.isEmpty)) = wordsOf ws := by
    intro ws
    induction ws with
    | nil => rfl
    | cons w rest ih =>
      by_cases hw : w = []
      · have hclean : clean none w = [] := by rw [hw]; rfl
        rw [List.filter_cons_of_neg (by simp [hw]), ih, wordsOf_cons, if_pos hclean]
      · rw [List.filter_cons_of_pos (by simp [hw]), wordsOf_cons, wordsOf_cons, ih]
  exact hkeep _

theorem isSeparator_of_fold? (h : fold? c = some f) : isSeparator c = false := by
  cases hsep : isSeparator c with
  | false => rfl
  | true =>
    have hletter := isAlphanumeric_of_isSeparator hsep
    rw [isAlphanumeric_of_fold? h] at hletter
    cases hletter

/-- A digit at the start of a text is at the start of its first piece. -/
theorem any_isDigit_head? {first : List Char} {others : List (List Char)}
    (h : cs.splitOnP isSeparator = first :: others) :
    first.head?.any Char.isDigit = cs.head?.any Char.isDigit := by
  cases cs with
  | nil =>
    rw [List.splitOnP_nil] at h
    cases h
    rfl
  | cons c rest =>
    rw [List.splitOnP_cons_eq_if_modifyHead] at h
    split at h
    · next hsep =>
      cases h
      have hdigit : c.isDigit = false := by
        cases hc : c.isDigit with
        | false => rfl
        | true => rw [isSeparator_of_fold? (fold?_of_isDigit hc)] at hsep; cases hsep
      exact hdigit.symm
    · obtain ⟨first', others', hsplit⟩ := List.exists_cons_of_ne_nil
        (List.splitOnP_ne_nil isSeparator rest)
      rw [hsplit] at h
      cases h
      rfl

/-- **One pass writes the cleaned pieces down.**  Within a piece the rest of it is cleaned first;
after a separator the next word follows behind a space. -/
theorem pass_eq (cs : List Char) {first : List Char} {others : List (List Char)}
    (h : cs.splitOnP isSeparator = first :: others) (last : Option Char) :
    pass last false cs = clean last first ++
        joinBehind (last.isSome || ! (clean last first).isEmpty) (wordsOf others) ∧
      pass last true cs = joinBehind last.isSome (wordsOf (first :: others)) := by
  induction cs generalizing first others last with
  | nil =>
    rw [List.splitOnP_nil] at h
    cases h
    cases last <;> exact ⟨rfl, rfl⟩
  | cons c rest ih =>
    obtain ⟨first', others', hrest⟩ := List.exists_cons_of_ne_nil
      (List.splitOnP_ne_nil isSeparator rest)
    have ih := fun last => ih hrest last
    rw [List.splitOnP_cons_eq_if_modifyHead, hrest] at h
    cases hfold : fold? c with
    | some f =>
      rw [isSeparator_of_fold? hfold] at h
      cases h
      have hclean : ∀ last, clean last (c :: first') = f :: clean (some f) first' := fun last => by
        simp only [clean, hfold]
      have hnext := (ih (some f)).1
      have hwords : wordsOf ((c :: first') :: others) =
          (f :: clean (some f) first') :: wordsOf others := by
        rw [wordsOf_cons, hclean, if_neg (List.cons_ne_nil _ _)]
      refine ⟨?_, ?_⟩
      · simp only [pass, hfold, hnext, hclean]
        simp
      · rw [hwords, joinBehind_cons]
        simp only [pass, hfold, hnext]
        cases last <;> simp
    | none =>
      cases hsep : isSeparator c with
      | true =>
        rw [hsep] at h
        cases h
        have hwords : wordsOf ([] :: first' :: others') = wordsOf (first' :: others') := by
          rw [wordsOf_cons, if_pos (show clean none [] = [] from rfl)]
        have hpass : ∀ gap, pass last gap (c :: rest) = pass last true rest := fun gap => by
          simp only [pass, hfold, hsep, if_true]
        refine ⟨?_, ?_⟩
        · rw [hpass, (ih last).2]
          simp [clean]
        · rw [hpass, (ih last).2, hwords]
      | false =>
        rw [hsep] at h
        cases h
        have hhead := any_isDigit_head? hrest
        refine ⟨?_, ?_⟩
        · by_cases hpoint : (c == '.' && last.any Char.isDigit && rest.head?.any Char.isDigit) = true
          · have hclean : clean last (c :: first') = '.' :: clean (some '.') first' := by
              simp only [clean, hfold, hhead, hpoint, if_true]
            have hpass : pass last false (c :: rest) = '.' :: pass (some '.') false rest := by
              simp only [pass, hfold, hsep, Bool.false_eq_true, if_false, Bool.not_false,
                Bool.and_true, hpoint, if_true]
            rw [hpass, (ih (some '.')).1, hclean]
            simp
          · have hclean : clean last (c :: first') = clean last first' := by
              simp only [clean, hfold, hhead, hpoint]
              rfl
            have hpass : pass last false (c :: rest) = pass last false rest := by
              simp only [pass, hfold, hsep, Bool.false_eq_true, if_false, Bool.not_false,
                Bool.and_true, hpoint]
            rw [hpass, (ih last).1, hclean]
        · have hclean : clean none (c :: first') = clean none first' := by
            simp [clean, hfold]
          have hpass : pass last true (c :: rest) = pass last true rest := by
            simp [pass, hfold, hsep]
          rw [hpass, (ih last).2, wordsOf_cons, wordsOf_cons, hclean]

theorem toList_normalize_eq_pass (s : String) :
    (normalize s).toList = pass none false s.toList := by
  obtain ⟨first, others, h⟩ := List.exists_cons_of_ne_nil
    (List.splitOnP_ne_nil isSeparator s.toList)
  have htext : (normalize s).toList = joinBehind false (wordLists s.toList) := toList_normalize s
  rw [htext, (pass_eq _ h none).1, wordLists_eq, h, wordsOf_cons]
  by_cases hclean : clean none first = []
  · simp [hclean]
  · have hsome : (clean none first).isEmpty = false := by simpa using hclean
    rw [if_neg hclean, joinBehind_cons, hsome]
    rfl

/-! ## Letters and digits -/

/-- What is folded to is a lower-case letter or a digit. -/
theorem isLower_or_isDigit_of_fold? (h : fold? c = some f) :
    f.isLower = true ∨ f.isDigit = true := by
  have hascii := (toNat_of_isAlphanum (isAlphanum_of_fold? h)).2
  have hkept := forall_ascii
    (fun c => fold? c = some c → c.isLower = true ∨ c.isDigit = true) (by decide +kernel) hascii
  exact hkept (fold?_of_fold? h)

/-- Lower-case letters and digits are folded to themselves. -/
theorem fold?_eq_self (h : c.isLower = true ∨ c.isDigit = true) : fold? c = some c := by
  have hletter : c.isAlphanum = true := by
    rcases h with h | h
    · show (c.isUpper || c.isLower || c.isDigit) = true
      rw [h, Bool.or_true, Bool.true_or]
    · exact isAlphanum_of_isDigit h
  have hkept := forall_ascii (fun c => c.isLower = true ∨ c.isDigit = true → fold? c = some c)
    (by decide +kernel) (toNat_of_isAlphanum hletter).2
  exact hkept h

/-- A pass writes down all that can be folded, in order, and no other letter or digit. -/
theorem filter_pass (last : Option Char) (gap : Bool) (cs : List Char) :
    (pass last gap cs).filter Char.isAlphanum = cs.filterMap fold? := by
  have hspace : Char.isAlphanum ' ' = false := by decide
  have hdot : Char.isAlphanum '.' = false := by decide
  induction cs generalizing last gap with
  | nil => rfl
  | cons c rest ih =>
    unfold pass
    cases hfold : fold? c with
    | some f =>
      have hletter := isAlphanum_of_fold? hfold
      rw [List.filterMap_cons_some hfold, ← ih (some f) false]
      simp only
      split
      · simp [hspace, hletter]
      · simp [hletter]
    | none =>
      rw [List.filterMap_cons_none hfold]
      simp only
      split
      · exact ih last true
      · split
        · rw [List.filter_cons_of_neg (by simp [hdot])]
          exact ih (some '.') false
        · exact ih last gap

theorem filter_normalize (s : String) :
    (normalize s).toList.filter Char.isAlphanum = s.toList.filterMap fold? := by
  rw [toList_normalize_eq_pass, filter_pass]

/-! ## The form -/

/-- A text in normal form. -/
structure IsNormal (s : String) : Prop where
  chars : ∀ c ∈ s.toList, c.isLower = true ∨ c.isDigit = true ∨ c = ' ' ∨ c = '.'
  leading : s.toList.head? ≠ some ' '
  trailing : s.toList.getLast? ≠ some ' '
  single : ¬ [' ', ' '] <:+: s.toList
  /-- Every point stands directly between two digits. -/
  points : ∀ before after, s.toList = before ++ '.' :: after →
    before.getLast?.any Char.isDigit = true ∧ after.head?.any Char.isDigit = true

/-- A character that may stand between its two neighbours in a normal form. -/
inductive Fits (last : Option Char) (c : Char) (next? : Option Char) : Prop
  | kept (h : c.isLower = true ∨ c.isDigit = true)
  | space (h : c = ' ') (left : last.any (· ≠ ' ') = true) (right : next?.any (· ≠ ' ') = true)
  | point (h : c = '.') (left : last.any Char.isDigit = true)
      (right : next?.any Char.isDigit = true)

/-- Every character fits after `last`. -/
def FitsFrom (last : Option Char) : List Char → Prop
  | [] => True
  | c :: rest => Fits last c rest.head? ∧ FitsFrom (some c) rest

theorem fitsFrom_iff : FitsFrom last cs ↔ ∀ before c after, cs = before ++ c :: after →
    Fits (before.getLast?.or last) c after.head? := by
  induction cs generalizing last with
  | nil => simp [FitsFrom]
  | cons d rest ih =>
    unfold FitsFrom
    rw [ih]
    constructor
    · rintro ⟨hfirst, hrest⟩ before c after heq
      cases before with
      | nil =>
        cases heq
        exact hfirst
      | cons e before =>
        obtain ⟨rfl, htail⟩ := List.cons.inj heq
        have hfits := hrest before c after htail
        rw [List.getLast?_cons]
        cases hlast : before.getLast? with
        | none => rw [hlast] at hfits; exact hfits
        | some l => rw [hlast] at hfits; exact hfits
    · intro h
      refine ⟨h [] d rest rfl, fun before c after heq => ?_⟩
      have hfits := h (d :: before) c after (by rw [heq]; rfl)
      rw [List.getLast?_cons] at hfits
      cases hlast : before.getLast? with
      | none => rw [hlast] at hfits; exact hfits
      | some l => rw [hlast] at hfits; exact hfits

/-- The normal form is a matter of neighbours. -/
theorem isNormal_iff_fitsFrom : IsNormal s ↔ FitsFrom none s.toList := by
  rw [fitsFrom_iff]
  simp only [Option.or_none]
  constructor
  · intro h before c after heq
    rcases h.chars c (by rw [heq]; simp) with hlower | hdigit | rfl | rfl
    · exact .kept (Or.inl hlower)
    · exact .kept (Or.inr hdigit)
    · -- a space that has no neighbour is leading or trailing, and next to a space it is doubled
      refine .space rfl ?_ ?_
      · rcases List.eq_nil_or_concat before with rfl | ⟨init, l, rfl⟩
        · exact absurd (by rw [heq]; rfl) h.leading
        · have hne : l ≠ ' ' := by
            rintro rfl
            exact h.single ⟨init, after, by rw [heq]; simp⟩
          simp [hne]
      · cases after with
        | nil => exact absurd (by rw [heq]; simp) h.trailing
        | cons n rest =>
          have hne : n ≠ ' ' := by
            rintro rfl
            exact h.single ⟨before, rest, by rw [heq]; simp⟩
          simp [hne]
    · obtain ⟨hleft, hright⟩ := h.points before after heq
      exact .point rfl hleft hright
  · intro h
    have hspace : ∀ before after, s.toList = before ++ ' ' :: after →
        before.getLast?.any (· ≠ ' ') = true ∧ after.head?.any (· ≠ ' ') = true := by
      intro before after heq
      cases h before ' ' after heq with
      | kept h => exact absurd h (by decide)
      | space _ left right => exact ⟨left, right⟩
      | point h => cases h
    refine ⟨fun c hc => ?_, fun hhead => ?_, fun hlast => ?_, ?_, fun before after heq => ?_⟩
    · obtain ⟨before, after, heq⟩ := List.append_of_mem hc
      cases h before c after heq with
      | kept h => rcases h with h | h <;> simp [h]
      | space h => simp [h]
      | point h => simp [h]
    · obtain ⟨rest, heq⟩ := List.head?_eq_some_iff.mp hhead
      exact absurd (hspace [] rest heq).1 (by simp)
    · obtain ⟨init, heq⟩ := List.getLast?_eq_some_iff.mp hlast
      exact absurd (hspace init [] heq).2 (by simp)
    · rintro ⟨before, after, heq⟩
      exact absurd (hspace before (' ' :: after) (by rw [← heq]; simp)).2 (by simp)
    · cases h before '.' after heq with
      | kept h => exact absurd h (by decide)
      | space h => cases h
      | point _ left right => exact ⟨left, right⟩

/-! ## Passes and the form -/

theorem not_isDigit_of_fold? (h : fold? c = none) : c.isDigit = false := by
  cases hdigit : c.isDigit with
  | false => rfl
  | true => rw [fold?_of_isDigit hdigit] at h; cases h

/-- A pass writes a digit first if it meets one first and has no gap to fill. -/
theorem head?_pass (last : Option Char) (h : cs.head?.any Char.isDigit = true) :
    (pass last false cs).head?.any Char.isDigit = true := by
  cases cs with
  | nil => cases h
  | cons d rest =>
    have hd : d.isDigit = true := h
    simp only [pass, fold?_of_isDigit hd]
    exact hd

/-- **All that a pass writes fits**, where it has not written a space last, and a point only before a
digit. -/
theorem fitsFrom_pass (hspace : last ≠ some ' ')
    (hpoint : last = some '.' → cs.head?.any Char.isDigit = true) :
    FitsFrom last (pass last gap cs) := by
  have hnot : ∀ {f : Char}, f.isLower = true ∨ f.isDigit = true → f ≠ ' ' ∧ f ≠ '.' := by
    intro f hf
    constructor
    · rintro rfl
      exact absurd hf (by decide)
    · rintro rfl
      exact absurd hf (by decide)
  induction cs generalizing last gap with
  | nil => exact trivial
  | cons c rest ih =>
    unfold pass
    cases hfold : fold? c with
    | some f =>
      have hkept := isLower_or_isDigit_of_fold? hfold
      obtain ⟨hblank, hdot⟩ := hnot hkept
      have hrest : FitsFrom (some f) (pass (some f) false rest) :=
        ih (by simpa using hblank) fun h => absurd (Option.some.inj h) hdot
      simp only
      split
      · next hgap =>
        obtain ⟨l, rfl⟩ := Option.isSome_iff_exists.mp (Bool.and_eq_true_iff.mp hgap).2
        refine ⟨.space rfl ?_ ?_, .kept hkept, hrest⟩
        · simpa using hspace
        · simpa using hblank
      · exact ⟨.kept hkept, hrest⟩
    | none =>
      -- no digit is met here, so it was no point that was written last
      have hlast : last ≠ some '.' := fun h => by
        have hdigit : c.isDigit = true := hpoint h
        rw [not_isDigit_of_fold? hfold] at hdigit
        cases hdigit
      simp only
      split
      · exact ih hspace fun h => absurd h hlast
      · split
        · next hkept =>
          simp only [Bool.and_eq_true] at hkept
          obtain ⟨⟨-, hleft⟩, hright⟩ := hkept
          exact ⟨.point rfl hleft (head?_pass _ hright), ih (by decide) fun _ => hright⟩
        · exact ih hspace fun h => absurd h hlast

/-- **A pass over what fits writes it down as it is**; a space is written with what follows it. -/
theorem pass_of_fitsFrom (cs : List Char) :
    (∀ last, last ≠ some ' ' → FitsFrom last cs → pass last false cs = cs) ∧
      ∀ last, last.isSome = true → cs.head?.any (· ≠ ' ') = true → FitsFrom (some ' ') cs →
        pass last true cs = ' ' :: cs := by
  induction cs with
  | nil => exact ⟨fun _ _ _ => rfl, fun _ _ hhead => by cases hhead⟩
  | cons c rest ih =>
    have hkeep : c.isLower = true ∨ c.isDigit = true → FitsFrom (some c) rest →
        pass (some c) false rest = rest := fun hkept hrest =>
      ih.1 (some c) (by rintro ⟨⟩; exact absurd hkept (by decide)) hrest
    refine ⟨fun last hlast hfits => ?_, fun last hsome hhead hfits => ?_⟩
    · obtain ⟨hfirst, hrest⟩ := hfits
      cases hfirst with
      | kept hkept =>
        simp only [pass, fold?_eq_self hkept, Bool.false_and, Bool.false_eq_true, if_false]
        rw [hkeep hkept hrest]
      | space h left right =>
        subst h
        have hsome : last.isSome = true := by
          cases last with
          | none => cases left
          | some l => rfl
        exact ih.2 last hsome right hrest
      | point h left right =>
        subst h
        have hdot : fold? '.' = none := by decide
        have hsep : isSeparator '.' = false := by decide
        have hnext := ih.1 (some '.') (by decide) hrest
        simp [pass, hdot, hsep, left, right, hnext]
    · obtain ⟨hfirst, hrest⟩ := hfits
      cases hfirst with
      | kept hkept =>
        simp only [pass, fold?_eq_self hkept, hsome, Bool.and_self, if_true]
        rw [hkeep hkept hrest]
      | space h => exact absurd hhead (by simp [h])
      | point _ left => exact absurd left (by decide)

/-! ## Normal forms -/

theorem isNormal_normalize (s : String) : IsNormal (normalize s) := by
  rw [isNormal_iff_fitsFrom, toList_normalize_eq_pass]
  exact fitsFrom_pass (by simp) fun h => by cases h

theorem normalize_eq_self_iff : normalize s = s ↔ IsNormal s := by
  constructor
  · intro h
    rw [← h]
    exact isNormal_normalize s
  · intro h
    rw [isNormal_iff_fitsFrom] at h
    rw [← String.toList_inj, toList_normalize_eq_pass]
    exact (pass_of_fitsFrom s.toList).1 none (by simp) h

/-- **Normalizing gives a text in normal form, with the letters and digits that the text can be
folded to**; it changes nothing but texts that are not in this form, and what it gives is its own
words joined by single spaces. -/
theorem normalize_characterized (s : String) :
    IsNormal (normalize s) ∧
      (normalize s).toList.filter Char.isAlphanum = s.toList.filterMap fold? ∧
      (normalize s = s ↔ IsNormal s) ∧ normalize (normalize s) = normalize s ∧
      unwords (tokens (normalize s)) = normalize s := by
  refine ⟨isNormal_normalize s, filter_normalize s, normalize_eq_self_iff, normalize_normalize s, ?_⟩
  rw [tokens_normalize]
  rfl

end PlayerCommands.Text
