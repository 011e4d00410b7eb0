import PlayerCommands.Proofs.Spelling
import PlayerCommands.Proofs.WrittenExtents

/-!
# Written numbers

A number that a player writes has digits, and possibly a point with more digits behind it.  It is
its own word and means nothing else; with a unit behind it, it is a measure.

    Text.words n.text = [n.text]                                                    (words_text)
    (scan [n.text, word]).extent = ofNumber? x unit                            (extent_scan_unit)

A whole number also makes a count, which has the value of its digits unless it is too large.  It is
far too large for an extent then, whatever its digits are rounded to:

    ofNumber? (Score.ofNat v) unit = some e → v ≤ greatest               (le_greatest_of_ofNumber?)
-/

namespace PlayerCommands

/-! ## Written numbers -/

/-- A number as it is written: digits, and possibly a point with more digits behind it. -/
structure WrittenNumber where
  whole : List Char
  /-- The digits behind the point; there is a point if there are any. -/
  places : List Char := []
  nonempty : whole ≠ []
  digits : ∀ c ∈ whole ++ places, c.isDigit = true

namespace WrittenNumber

/-- What follows the first digits. -/
def tail (n : WrittenNumber) : List Char := if n.places = [] then [] else '.' :: n.places

def text (n : WrittenNumber) : String := String.ofList (n.whole ++ n.tail)

/-- The parts that the number is read as. -/
def numeral (n : WrittenNumber) : Numeral :=
  ⟨n.whole, if n.places = [] then none else some n.places, ""⟩

variable (n : WrittenNumber)

theorem isDigit_of_mem_whole {c : Char} (hc : c ∈ n.whole) : c.isDigit = true :=
  n.digits c (List.mem_append_left _ hc)

theorem isDigit_of_mem_places {c : Char} (hc : c ∈ n.places) : c.isDigit = true :=
  n.digits c (List.mem_append_right _ hc)

end WrittenNumber

namespace Text

variable {ds cs : List Char} {c : Char}

/-- Digits are kept, and what follows them is cleaned after the last one. -/
theorem clean_digits (h : ∀ c ∈ ds, c.isDigit = true) (last : Option Char) (cs : List Char) :
    clean last (ds ++ cs) = ds ++ clean (ds.getLast?.or last) cs := by
  induction ds generalizing last with
  | nil => rfl
  | cons d rest ih =>
    have hfold := fold?_of_isDigit (h d List.mem_cons_self)
    have hlast : (d :: rest).getLast?.or last = rest.getLast?.or (some d) := by
      rw [List.getLast?_cons]
      cases rest.getLast? <;> rfl
    rw [List.cons_append, hlast]
    simp only [clean, hfold, ih fun c hc => h c (List.mem_cons_of_mem _ hc)]
    rfl

/-- A point between digits is kept. -/
theorem clean_point {d : Char} (hd : d.isDigit = true) (hne : ds ≠ [])
    (h : ∀ c ∈ ds, c.isDigit = true) : clean (some d) ('.' :: ds) = '.' :: ds := by
  obtain ⟨first, others, rfl⟩ := List.exists_cons_of_ne_nil hne
  have hfirst := h first List.mem_cons_self
  have hdot : fold? '.' = none := by decide
  have hrest := clean_digits h (some '.') []
  rw [List.append_nil] at hrest
  unfold clean
  simp only [hdot, beq_self_eq_true, Option.any_some, hd, List.head?_cons, hfirst, Bool.and_self,
    if_true, hrest]
  simp [clean]

/-- A text that cleaning leaves alone is its only word. -/
theorem words_of_clean (hne : cs ≠ []) (hpiece : ∀ c ∈ cs, isSeparator c = false)
    (hclean : clean none cs = cs) : words (String.ofList cs) = [String.ofList cs] := by
  have hkept : cs.isEmpty = false := by simpa using hne
  unfold words wordLists
  rw [String.toList_ofList, pieces_of_forall hne hpiece]
  simp [hclean, hkept]

end Text

namespace WrittenNumber

variable (n : WrittenNumber)

/-- A number is in normal form. -/
theorem words_text : Text.words n.text = [n.text] := by
  have hlast := List.getLast?_eq_some_getLast n.nonempty
  have hdigit := n.isDigit_of_mem_whole (List.getLast_mem n.nonempty)
  refine Text.words_of_clean (by simp [n.nonempty]) (fun c hc => ?_) ?_
  · rcases List.mem_append.mp hc with hwhole | htail
    · exact Text.isSeparator_eq_false_of_isAlphanum
        (Text.isAlphanum_of_isDigit (n.isDigit_of_mem_whole hwhole))
    · unfold tail at htail
      split at htail
      · cases htail
      · rcases List.mem_cons.mp htail with rfl | hplace
        · decide
        · exact Text.isSeparator_eq_false_of_isAlphanum
            (Text.isAlphanum_of_isDigit (n.isDigit_of_mem_places hplace))
  · rw [Text.clean_digits fun c hc => n.isDigit_of_mem_whole hc, hlast]
    unfold tail
    split
    · rfl
    · next hne =>
      exact congrArg (n.whole ++ ·)
        (Text.clean_point hdigit hne fun c hc => n.isDigit_of_mem_places hc)

/-- A number with letters behind it is read as these two. -/
theorem ofWord?_append {suffix : List Char}
    (h : ∀ c ∈ suffix, Numeral.isSuffixChar c = true) :
    Numeral.ofWord? (n.text ++ String.ofList suffix) =
      some { n.numeral with suffix := String.ofList suffix } := by
  have hwhole : ∀ c ∈ n.whole, Text.isDecimalDigit c = true := fun c hc =>
    Text.isDecimalDigit_of_isDigit (n.isDigit_of_mem_whole hc)
  have hplaces : ∀ c ∈ n.places, Text.isDecimalDigit c = true := fun c hc =>
    Text.isDecimalDigit_of_isDigit (n.isDigit_of_mem_places hc)
  obtain ⟨htake, hdrop⟩ := Numeral.span_suffix h
  have hspan : (n.tail ++ suffix).takeWhile Text.isDecimalDigit = [] ∧
      (n.tail ++ suffix).dropWhile Text.isDecimalDigit = n.tail ++ suffix := by
    unfold tail
    split
    · exact ⟨htake, hdrop⟩
    · exact ⟨rfl, rfl⟩
  have hsplit : Numeral.splitFraction (n.tail ++ suffix) =
      (if n.places = [] then none else some n.places, suffix) := by
    unfold tail
    split
    · exact Numeral.splitFraction_suffix h
    · unfold Numeral.splitFraction
      simp only [List.cons_append, List.takeWhile_append_of_pos hplaces,
        List.dropWhile_append_of_pos hplaces, htake, hdrop, List.append_nil]
  have hne : n.whole.isEmpty = false := by simpa using n.nonempty
  unfold Numeral.ofWord? text
  simp only [String.toList_append, String.toList_ofList, List.append_assoc,
    List.takeWhile_append_of_pos hwhole, List.dropWhile_append_of_pos hwhole, hspan.1, hspan.2,
    hsplit, List.append_nil, hne, List.all_eq_true.mpr h]
  rfl

theorem ofWord?_text : Numeral.ofWord? n.text = some n.numeral := by
  have hnumeral : Numeral.ofWord? (n.text ++ "") = some n.numeral := n.ofWord?_append (by simp)
  rwa [String.append_empty] at hnumeral

theorem exists_value? : ∃ x, n.numeral.value? = some x := by
  have hall : (n.whole ++ n.places).all Char.isDigit = true := List.all_eq_true.mpr n.digits
  have hplaces : n.numeral.fraction.getD [] = n.places := by
    unfold numeral
    split
    · next hnil => exact hnil.symm
    · rfl
  have hdigits : ∃ v, Numeral.digitsValue? (n.numeral.whole ++ n.places) = some v :=
    ⟨_, if_pos hall⟩
  obtain ⟨v, hv⟩ := hdigits
  unfold Numeral.value?
  simp only [hplaces, hv]
  exact ⟨_, rfl⟩

/-- ASCII digits around a point, or with none, are a number as it is written. -/
theorem exists_of_digits {whole : List Char} {fraction : Option (List Char)} (hwhole : whole ≠ [])
    (hfraction : fraction ≠ some []) (h : ∀ c ∈ whole ++ fraction.getD [], c.isDigit = true) :
    ∃ n : WrittenNumber, n.numeral = ⟨whole, fraction, ""⟩ ∧
      n.text = String.ofList (whole ++ (fraction.map ('.' :: ·)).getD []) := by
  refine ⟨⟨whole, fraction.getD [], hwhole, h⟩, ?_⟩
  unfold numeral text tail
  cases fraction with
  | none => exact ⟨rfl, rfl⟩
  | some places =>
    have hne : places ≠ [] := fun hnil => hfraction (congrArg some hnil)
    simp [hne]

/-- **A word that has a value is a written number with letters behind it.** -/
theorem exists_append_of_value? {word : String} {numeral : Numeral} {x : Score}
    (hword : Numeral.ofWord? word = some numeral) (hx : numeral.value? = some x) :
    ∃ n : WrittenNumber, n.text ++ numeral.suffix = word ∧ n.numeral.value? = some x := by
  have hlist := List.takeWhile_append_dropWhile (p := Text.isDecimalDigit) (l := word.toList)
  have hdigits : ∀ c ∈ numeral.whole ++ numeral.fraction.getD [], c.isDigit = true := by
    unfold Numeral.value? Numeral.digitsValue? at hx
    simp only at hx
    split at hx
    · next hall => exact List.all_eq_true.mp hall
    · cases hx
  unfold Numeral.ofWord? at hword
  generalize word.toList.takeWhile Text.isDecimalDigit = whole at hword hlist
  generalize word.toList.dropWhile Text.isDecimalDigit = behind at hword hlist
  cases hsplit : Numeral.splitFraction behind with
  | mk fraction suffix =>
    obtain ⟨hfraction, hbehind⟩ := Numeral.of_splitFraction hsplit
    simp only [hsplit] at hword
    obtain ⟨hfilled, hparts⟩ := Option.ite_none_left_eq_some.mp hword
    cases hparts
    have hwhole : whole ≠ [] := by
      rintro rfl
      exact hfilled rfl
    obtain ⟨n, hnumeral, htext⟩ := exists_of_digits hwhole hfraction hdigits
    refine ⟨n, ?_, ?_⟩
    · rw [htext, ← String.ofList_append, List.append_assoc, ← hbehind, hlist, String.ofList_toList]
    · rw [hnumeral]
      exact hx

theorem text_ne {word : String} (hword : Numeral.ofWord? word = none) : n.text ≠ word := by
  intro heq
  have hnumeral := n.ofWord?_text
  rw [heq, hword] at hnumeral
  cases hnumeral

end WrittenNumber

/-! ## Units -/

/-- A word that means nothing but a unit. -/
structure ExtentUnit.IsPlain (unit : ExtentUnit) (word : String) : Prop where
  meaning : ofWord? word = some unit
  words : Text.words word = [word]
  continues : isCancel (Text.normalize word) = false
  wordy : Numeral.ofWord? word = none

theorem ExtentUnit.isPlain_of_ofWord? {unit : ExtentUnit} {word : String}
    (h : ofWord? word = some unit) : unit.IsPlain word := by
  unfold ofWord? at h
  split at h <;> cases h <;> constructor <;> decide

/-- A unit is written in lower-case letters, so it may be the suffix of a number. -/
theorem ExtentUnit.isSuffixChar_of_ofWord? {unit : ExtentUnit} {word : String}
    (h : ofWord? word = some unit) : ∀ c ∈ word.toList, Numeral.isSuffixChar c = true := by
  unfold ofWord? at h
  split at h <;> first | exact List.all_eq_true.mp (by decide) | cases h

theorem WrittenNumber.ofWord?_append_unit (n : WrittenNumber) {unit : ExtentUnit} {suffix : String}
    (hunit : ExtentUnit.ofWord? suffix = some unit) :
    Numeral.ofWord? (n.text ++ suffix) = some { n.numeral with suffix := suffix } := by
  have hnumeral := n.ofWord?_append (ExtentUnit.isSuffixChar_of_ofWord? hunit)
  rwa [String.ofList_toList] at hnumeral

theorem WrittenNumber.ofUnit?_text (n : WrittenNumber) : ExtentUnit.ofWord? n.text = none := by
  cases hunit : ExtentUnit.ofWord? n.text with
  | none => rfl
  | some unit => exact absurd rfl (n.text_ne (ExtentUnit.isPlain_of_ofWord? hunit).wordy)

/-! ## Scans of a number -/

namespace WrittenNumber

variable (n : WrittenNumber) {word : String} {unit : ExtentUnit} {e : Extent}

/-- A number is bare unless a unit follows it. -/
theorem reading {x : Score} (hx : n.numeral.value? = some x) (next? : Option String) :
    Extent.Reading.of n.text next? =
      match next?.bind ExtentUnit.ofWord? with
      | some unit => .measure x unit true
      | none => .bare := by
  have huntil : n.text ≠ "until" := n.text_ne (by decide)
  have hsuffix : n.numeral.suffix = "" := rfl
  unfold Extent.Reading.of
  rw [if_neg huntil]
  cases next?.bind ExtentUnit.ofWord? with
  | some unit => simp only [n.ofWord?_text, hx, hsuffix, if_true]
  | none => simp only [n.ofWord?_text, hx, hsuffix, if_true]

theorem scan_alone : Extent.scan [n.text] = { bareNumber := some n.text } := by
  obtain ⟨x, hx⟩ := n.exists_value?
  have hreading := n.reading hx none
  unfold Extent.scan Extent.scanFrom
  simp only [List.head?_nil, hreading]
  rfl

/-- A number with a unit behind it has the extent of the two, if that is not too large. -/
theorem extent_scan_unit {x : Score} (hx : n.numeral.value? = some x)
    (hunit : ExtentUnit.ofWord? word = some unit) :
    (Extent.scan [n.text, word]).extent = Extent.ofNumber? x unit := by
  have hreading := n.reading hx (some word)
  simp only [Option.bind_some, hunit] at hreading
  cases hnumber : Extent.ofNumber? x unit with
  | some e => rw [Extent.scan_measure [word] hreading hnumber]
  | none =>
    unfold Extent.scan Extent.scanFrom
    simp only [List.head?_cons, hreading, hnumber]
    rfl

end WrittenNumber

/-! ## Counts -/

namespace Extent

/-- A number that is not too large for an extent is one of at most 32 bits. -/
theorem le_greatest_of_ofNumber? {v : Nat} {unit : ExtentUnit} {e : Extent}
    (h : ofNumber? (Score.ofNat v) unit = some e) : v ≤ greatest := by
  rw [ofNumber?_ofNat] at h
  obtain ⟨hle, -⟩ := Option.ite_none_right_eq_some.mp h
  exact Nat.le_trans (Nat.le_mul_of_pos_left v (factor_pos unit)) hle

end Extent

namespace WrittenNumber

variable (n : WrittenNumber) {unit : ExtentUnit} {e : Extent}

/-- Only a whole number makes a count. -/
theorem ofQuantity?_text : Quantity.ofWord? n.text =
    if n.places = [] then some ⟨n.text, Quantity.countOf n.whole, .count⟩ else none := by
  have hall : n.text ≠ "all" := n.text_ne (by decide)
  have hsome : n.text ≠ "some" := n.text_ne (by decide)
  unfold Quantity.ofWord?
  rw [if_neg hall, if_neg hsome, n.ofWord?_text]
  unfold numeral
  by_cases hplaces : n.places = []
  · simp only [hplaces, if_true]
  · simp only [hplaces, if_false]

/-- The value of a whole number is that of its digits. -/
theorem value?_of_whole (h : n.places = []) :
    n.numeral.value? = some (Score.ofNat (Nat.ofDigitChars 10 n.whole 0)) := by
  unfold numeral
  rw [if_pos h]
  exact Numeral.value?_of_digits (fun _ hc => n.isDigit_of_mem_whole hc) ""

end WrittenNumber

end PlayerCommands
