import PlayerCommands.Proofs.Movement
import PlayerCommands.Proofs.PlainText
import PlayerCommands.Proofs.Rounding

/-!
# Written extents are read back

A whole number is converted to the stored unit exactly or not at all: what has at most 32 bits is
not rounded, and rounding does not bring back what is too large.  The command text of a movement says
its extent in words with such a number, so what is scanned is the extent that was written, and nothing
else is left of the words.

    ofNumber? (Score.ofNat n) unit =
      if unit.factor * n ≤ greatest then some (unit.extent (unit.factor * n)) else none
                                                                                   (ofNumber?_ofNat)
    e.IsSingle → ∃ text, e.words = some text ∧ e.IsSaidBy text                 (IsSingle.isSaidBy)
    i.extent = some e → (r.interpret scene i.commandText).IsMovement d e
                                                              (isMovement_interpret_commandText)
-/

namespace PlayerCommands

/-! ## Numbers in decimal -/

namespace Numeral

variable {n : Nat} {c : Char}

theorem toNat_of_isSuffixChar (h : isSuffixChar c = true) : 97 ≤ c.toNat ∧ c.toNat ≤ 122 := by
  simp only [isSuffixChar, Bool.and_eq_true, decide_eq_true_eq] at h
  exact h

theorem isDecimalDigit_eq_false_of_isSuffixChar (h : isSuffixChar c = true) :
    Text.isDecimalDigit c = false := by
  obtain ⟨hlow, hhigh⟩ := toNat_of_isSuffixChar h
  unfold Text.isDecimalDigit
  rw [if_pos (by omega)]
  cases hdigit : c.isDigit with
  | false => rfl
  | true =>
    simp only [Char.isDigit, Bool.and_eq_true, decide_eq_true_eq] at hdigit
    have hdigit : c.toNat ≤ 57 := hdigit.2
    omega

theorem isDigit_of_mem_toDigits (hc : c ∈ Nat.toDigits 10 n) : c.isDigit = true :=
  Nat.isDigit_of_mem_toDigits (by decide) (by decide) hc

/-- Decimal digits have the value of the number that they are written for. -/
theorem digitsValue?_toDigits (n : Nat) : digitsValue? (Nat.toDigits 10 n) = some n := by
  rw [digitsValue?_of_digits fun c hc => isDigit_of_mem_toDigits hc,
    Nat.ofDigitChars_ten_toDigits]

/-- The score of a numeral without a point is its whole number, rounded. -/
theorem value?_of_digits {digits : List Char} (h : ∀ c ∈ digits, c.isDigit = true)
    (suffix : String) :
    value? ⟨digits, none, suffix⟩ = some (Score.ofNat (Nat.ofDigitChars 10 digits 0)) := by
  have hone (v : Nat) : (v : Rat) / (10 : Rat) ^ 0 = v := by grind
  unfold value?
  simp only [Option.getD_none, List.append_nil, digitsValue?_of_digits h]
  exact congrArg (some ∘ Score.ofRat) (hone _)

theorem value?_toDigits (n : Nat) (suffix : String) :
    value? ⟨Nat.toDigits 10 n, none, suffix⟩ = some (Score.ofNat n) := by
  rw [value?_of_digits fun c hc => isDigit_of_mem_toDigits hc, Nat.ofDigitChars_ten_toDigits]

/-- The digits of a word end where its suffix begins. -/
theorem span_suffix {suffix : List Char} (h : ∀ c ∈ suffix, isSuffixChar c = true) :
    suffix.takeWhile Text.isDecimalDigit = [] ∧ suffix.dropWhile Text.isDecimalDigit = suffix := by
  cases suffix with
  | nil => exact ⟨rfl, rfl⟩
  | cons c rest =>
    have hletter := isDecimalDigit_eq_false_of_isSuffixChar (h c List.mem_cons_self)
    exact ⟨List.takeWhile_cons_of_neg (by simp [hletter]),
      List.dropWhile_cons_of_neg (by simp [hletter])⟩

/-- There is no point at the start of a suffix. -/
theorem splitFraction_suffix {suffix : List Char} (h : ∀ c ∈ suffix, isSuffixChar c = true) :
    splitFraction suffix = (none, suffix) := by
  unfold splitFraction
  split
  · have hpoint := h '.' List.mem_cons_self
    cases hpoint
  · rfl

/-- What is split off at the front is a point with digits behind it, or nothing. -/
theorem of_splitFraction {cs suffix : List Char} {fraction : Option (List Char)}
    (h : splitFraction cs = (fraction, suffix)) :
    fraction ≠ some [] ∧ cs = (fraction.map ('.' :: ·)).getD [] ++ suffix := by
  unfold splitFraction at h
  split at h
  · next rest =>
    split at h
    · cases h
      exact ⟨Option.some_ne_none _ ∘ Eq.symm, rfl⟩
    · next hne =>
      cases h
      exact ⟨hne ∘ Option.some.inj, congrArg ('.' :: ·) List.takeWhile_append_dropWhile.symm⟩
  · cases h
    exact ⟨Option.some_ne_none _ ∘ Eq.symm, rfl⟩

/-- A number with a suffix is read as these two. -/
theorem ofWord?_toDigits (n : Nat) (suffix : List Char) (h : ∀ c ∈ suffix, isSuffixChar c = true) :
    ofWord? (String.ofList (Nat.toDigits 10 n ++ suffix)) =
      some ⟨Nat.toDigits 10 n, none, String.ofList suffix⟩ := by
  have hdigits : ∀ c ∈ Nat.toDigits 10 n, Text.isDecimalDigit c = true := fun c hc =>
    Text.isDecimalDigit_of_isDigit (isDigit_of_mem_toDigits hc)
  obtain ⟨htake, hdrop⟩ := span_suffix h
  have hne : (Nat.toDigits 10 n).isEmpty = false := by
    simp [Nat.toDigits_ne_nil]
  unfold ofWord?
  simp only [String.toList_ofList, List.takeWhile_append_of_pos hdigits,
    List.dropWhile_append_of_pos hdigits, htake, hdrop, splitFraction_suffix h, List.append_nil,
    hne, List.all_eq_true.2 h]
  rfl

/-- No numeral is the word before a condition. -/
theorem ne_until (n : Nat) (suffix : List Char) :
    String.ofList (Nat.toDigits 10 n ++ suffix) ≠ "until" := by
  intro heq
  have hlist := congrArg String.toList heq
  rw [String.toList_ofList] at hlist
  cases hdigits : Nat.toDigits 10 n with
  | nil => exact Nat.toDigits_ne_nil hdigits
  | cons c rest =>
    rw [hdigits] at hlist
    have hfirst : c = 'u' := (List.cons.inj hlist).1
    have hdigit : c.isDigit = true := isDigit_of_mem_toDigits (n := n) (by simp [hdigits])
    rw [hfirst] at hdigit
    cases hdigit

end Numeral

/-! ## Words that are kept -/

namespace Text

/-- A word of digits and lower-case letters is in normal form. -/
theorem words_eq_singleton {cs : List Char} (hne : cs ≠ [])
    (h : ∀ c ∈ cs, c.isDigit = true ∨ Numeral.isSuffixChar c = true) :
    words (String.ofList cs) = [String.ofList cs] := by
  have hkept : ∀ c : Char, c.isDigit = true ∨ Numeral.isSuffixChar c = true →
      c.isAlphanum = true ∧ c.toLower = c := by
    intro c hc
    have hascii : c.toNat < 128 := by
      rcases hc with hdigit | hletter
      · exact toNat_lt_of_isDigit hdigit
      · have hcode := Numeral.toNat_of_isSuffixChar hletter
        omega
    have hkept := forall_ascii (fun c => c.isDigit = true ∨ Numeral.isSuffixChar c = true →
      c.isAlphanum = true ∧ c.toLower = c) (by decide +kernel) hascii
    exact hkept hc
  have hlower : cs.map Char.toLower = cs := by
    conv => rhs; rw [← List.map_id cs]
    exact List.map_congr_left fun c hc => (hkept c (h c hc)).2
  rw [words_of_isAlphanum hne fun c hc => (hkept c (h c hc)).1, hlower]

end Text

/-! ## Extents -/

namespace Extent

variable {n : Nat} {unit : ExtentUnit} {e : Extent} {word : String} {suffix : List Char}

/-- No whole number that may be an extent is rounded, and neither is the first one that is not. -/
theorem roundRat_natCast (h : n ≤ greatest + 1) : Score.roundRat (n : Rat) = n := by
  refine Score.roundRat_natCast ?_
  have hle : (n : Rat) ≤ ((greatest + 1 : Nat) : Rat) := by exact_mod_cast h
  have hlt : ((greatest + 1 : Nat) : Rat) < 2 ^ (53 : Int) := by decide +kernel
  grind

theorem wholeOf_of_value {x : Score} (h : x.value = n) : wholeOf x = n := by
  have hfloor : ((n : Rat) + 1 / 2).floor = (n : Int) := by
    have hle : (n : Int) ≤ ((n : Rat) + 1 / 2).floor := by
      rw [Rat.le_floor_iff, Rat.intCast_natCast]
      grind
    have hlt : ((n : Rat) + 1 / 2).floor < (n : Int) + 1 := by
      rw [Rat.floor_lt_iff, Rat.intCast_add, Rat.intCast_one, Rat.intCast_natCast]
      grind
    omega
  unfold wholeOf
  rw [h, hfloor, Int.toNat_natCast]

theorem le_wholeOf {x : Score} (h : (n : Rat) ≤ x.value) : n ≤ wholeOf x := by
  have hfloor : (n : Int) ≤ (x.value + 1 / 2).floor := by
    rw [Rat.le_floor_iff, Rat.intCast_natCast]
    grind
  unfold wholeOf
  omega

/-- A number of a unit as one of the stored unit. -/
def inStored (x : Score) (unit : ExtentUnit) : Score :=
  if unit.factor = 1 then x else x * Score.ofNat unit.factor

theorem value_factor (unit : ExtentUnit) : (Score.ofNat unit.factor).value = unit.factor := by
  cases unit <;> decide +kernel

theorem factor_pos (unit : ExtentUnit) : 0 < unit.factor := by
  cases unit <;> decide

theorem value_inStored (h : unit.factor * n ≤ greatest) :
    (inStored (Score.ofNat n) unit).value = (unit.factor * n : Nat) := by
  have hn : n ≤ unit.factor * n := Nat.le_mul_of_pos_left n (factor_pos unit)
  have hvalue : (Score.ofNat n).value = n := by
    unfold Score.ofNat
    rw [Score.value_ofRat, roundRat_natCast (by omega)]
  unfold inStored
  split
  · next hfactor => rw [hvalue, hfactor, Nat.one_mul]
  · have hproduct : (n : Rat) * unit.factor = ((unit.factor * n : Nat) : Rat) := by
      rw [Rat.natCast_mul, Rat.mul_comm]
    rw [Score.value_mul, hvalue, value_factor, hproduct, roundRat_natCast (by omega)]

/-- Rounding does not bring back what is too large, however many digits it has. -/
theorem lt_value_inStored (h : greatest < unit.factor * n) :
    ((greatest + 1 : Nat) : Rat) ≤ (inStored (Score.ofNat n) unit).value := by
  -- the least number that is still too large, which is not rounded
  obtain ⟨m, hmn, hm, hlarge⟩ : ∃ m, m ≤ n ∧ m ≤ greatest + 1 ∧ greatest < unit.factor * m := by
    by_cases hn : n ≤ greatest
    · exact ⟨n, Nat.le_refl n, by omega, h⟩
    · have hfactor := Nat.le_mul_of_pos_left (greatest + 1) (factor_pos unit)
      exact ⟨greatest + 1, by omega, Nat.le_refl _, by omega⟩
  have hvalue : (m : Rat) ≤ (Score.ofNat n).value := by
    have hround := Score.roundRat_mono (show (m : Rat) ≤ n by exact_mod_cast hmn)
    rwa [roundRat_natCast hm, ← Score.value_ofRat] at hround
  have hproduct : ((greatest + 1 : Nat) : Rat) ≤ (Score.ofNat n).value * unit.factor := by
    have hstep : (m : Rat) * unit.factor ≤ (Score.ofNat n).value * unit.factor :=
      Rat.mul_le_mul_of_nonneg_right hvalue (by exact_mod_cast Nat.zero_le _)
    have hbound : ((greatest + 1 : Nat) : Rat) ≤ (m : Rat) * unit.factor := by
      rw [Rat.mul_comm]
      exact_mod_cast hlarge
    exact Rat.le_trans hbound hstep
  unfold inStored
  split
  · next hfactor =>
    have hone : ((1 : Nat) : Rat) = 1 := rfl
    rwa [hfactor, hone, Rat.mul_one] at hproduct
  · have hround := Score.roundRat_mono hproduct
    rwa [roundRat_natCast (Nat.le_refl _), ← value_factor, ← Score.value_mul] at hround

/-- **Whole numbers are converted exactly or not at all.** -/
theorem ofNumber?_ofNat (n : Nat) (unit : ExtentUnit) :
    ofNumber? (Score.ofNat n) unit =
      if unit.factor * n ≤ greatest then some (unit.extent (unit.factor * n)) else none := by
  show (if wholeOf (inStored (Score.ofNat n) unit) ≤ greatest then
    some (unit.extent (wholeOf (inStored (Score.ofNat n) unit))) else none) = _
  by_cases h : unit.factor * n ≤ greatest
  · rw [wholeOf_of_value (value_inStored h)]
  · have hwhole := le_wholeOf (lt_value_inStored (Nat.lt_of_not_le h))
    rw [if_neg h, if_neg (by omega)]

/-- A number of the stored unit that is not too large is kept as it is. -/
theorem ofNumber?_stored (hn : n ≤ greatest) (hunit : unit.factor = 1) :
    ofNumber? (Score.ofNat n) unit = some (unit.extent n) := by
  rw [ofNumber?_ofNat, hunit, Nat.one_mul, if_pos hn]

/-- A number with a unit for a suffix is a measure. -/
theorem reading_suffix (h : ∀ c ∈ suffix, Numeral.isSuffixChar c = true)
    (hunit : ExtentUnit.ofWord? (String.ofList suffix) = some unit) (n : Nat)
    (next? : Option String) :
    Reading.of (String.ofList (Nat.toDigits 10 n ++ suffix)) next? =
      .measure (Score.ofNat n) unit false := by
  have hne : String.ofList suffix ≠ "" := by
    intro hempty
    rw [hempty] at hunit
    cases hunit
  unfold Reading.of
  rw [if_neg (Numeral.ne_until n suffix)]
  simp only [Numeral.ofWord?_toDigits n suffix h, Numeral.value?_toDigits, if_neg hne, hunit]

/-- A number with a unit for the next word is a measure. -/
theorem reading_split (hunit : ExtentUnit.ofWord? word = some unit) (n : Nat) :
    Reading.of (toString n) (some word) = .measure (Score.ofNat n) unit true := by
  have hnumeral := Numeral.ofWord?_toDigits n [] (by simp)
  have hne := Numeral.ne_until n []
  rw [List.append_nil, ← Nat.toString_eq_ofList_toDigits] at hnumeral hne
  have hempty : String.ofList [] = "" := rfl
  unfold Reading.of
  rw [if_neg hne]
  simp only [hnumeral, Numeral.value?_toDigits, hempty, if_true, Option.bind_some, hunit]

/-- A measure at the start of a line is its extent. -/
theorem scan_measure (words : List String) {x : Score} {split : Bool}
    (hreading : Reading.of word words.head? = .measure x unit split)
    (hnumber : ofNumber? x unit = some e) :
    scan (word :: words) = { extent := some e, rest := if split then words.tail else words } := by
  unfold scan scanFrom
  simp only [hreading, hnumber]
  rfl

/-- An extent of one component, which fits 32 bits if it is a number. -/
inductive IsSingle : Extent → Prop
  | meters {n : Nat} (h : n ≤ greatest) : IsSingle { meters := some n }
  | minutes {n : Nat} (h : n ≤ greatest) : IsSingle { minutes := some n }
  | tiles {n : Nat} (h : n ≤ greatest) : IsSingle { tiles := some n }
  | condition {c : Condition} (h : c ≠ .none) : IsSingle { condition := c }

theorem isSaidBy_suffix (suffix : List Char) (unit : ExtentUnit) (hn : n ≤ greatest)
    (h : ∀ c ∈ suffix, Numeral.isSuffixChar c = true)
    (hunit : ExtentUnit.ofWord? (String.ofList suffix) = some unit) (hfactor : unit.factor = 1) :
    (unit.extent n).IsSaidBy (toString n ++ String.ofList suffix) := by
  have htext : toString n ++ String.ofList suffix =
      String.ofList (Nat.toDigits 10 n ++ suffix) := by
    rw [Nat.toString_eq_ofList_toDigits, String.ofList_append]
  have hwords : Text.words (toString n ++ String.ofList suffix) =
      [toString n ++ String.ofList suffix] := by
    rw [htext]
    refine Text.words_eq_singleton (by simp [Nat.toDigits_ne_nil]) fun c hc => ?_
    rcases List.mem_append.1 hc with hdigit | hletter
    · exact Or.inl (Numeral.isDigit_of_mem_toDigits hdigit)
    · exact Or.inr (h c hletter)
  have hreading : Reading.of (toString n ++ String.ofList suffix) none =
      .measure (Score.ofNat n) unit false := by
    rw [htext]
    exact reading_suffix h hunit n none
  have hscan := scan_measure [] hreading (ofNumber?_stored hn hfactor)
  constructor
  · rw [hwords, hscan]
  · rw [hwords, hscan]
    rfl

theorem isSaidBy_split (word : String) (unit : ExtentUnit) (hn : n ≤ greatest)
    (hword : Text.words word = [word])
    (hunit : ExtentUnit.ofWord? word = some unit) (hfactor : unit.factor = 1) :
    (unit.extent n).IsSaidBy (toString n ++ " " ++ word) := by
  have hnumber : Text.words (toString n) = [toString n] := by
    rw [Nat.toString_eq_ofList_toDigits]
    exact Text.words_eq_singleton Nat.toDigits_ne_nil fun c hc =>
      Or.inl (Numeral.isDigit_of_mem_toDigits hc)
  have hwords : Text.words (toString n ++ " " ++ word) = [toString n, word] := by
    rw [Text.words_append_space, hnumber, hword]
    rfl
  have hscan := scan_measure [word] (reading_split hunit n) (ofNumber?_stored hn hfactor)
  constructor
  · rw [hwords, hscan]
  · rw [hwords, hscan]
    rfl

/-- **An extent of one component is said by its words.** -/
theorem IsSingle.isSaidBy (h : e.IsSingle) : ∃ text, e.words = some text ∧ e.IsSaidBy text := by
  cases h with
  | @meters n hn =>
    exact ⟨_, rfl, isSaidBy_suffix ['m'] .meters hn (List.all_eq_true.1 rfl) rfl rfl⟩
  | @minutes n hn =>
    exact ⟨_, rfl,
      isSaidBy_suffix ['m', 'i', 'n'] .minutes hn (List.all_eq_true.1 rfl) rfl rfl⟩
  | @tiles n hn =>
    have htext : toString n ++ " tiles" = toString n ++ " " ++ "tiles" := by
      rw [String.append_assoc]
      rfl
    refine ⟨toString n ++ " tiles", rfl, ?_⟩
    rw [htext]
    exact isSaidBy_split "tiles" .tiles hn (by decide) rfl rfl
  | @condition c hc =>
    cases c with
    | none => exact absurd rfl hc
    | dark => exact ⟨_, rfl, by decide +kernel, by decide +kernel⟩
    | tired => exact ⟨_, rfl, by decide +kernel, by decide +kernel⟩

end Extent

/-! ## Movements -/

variable {r : Registry} {c : Command} {i : Intent} {d : Direction} {e : Extent} {text : String}

/-- The words of a written movement. -/
theorem Intent.words_commandText_movement (hverb : i.verb = some .go) (hargs : i.args = [d.name])
    (hamount : i.amountText = some text) :
    Text.words i.commandText = "go" :: d.name :: Text.words text := by
  rw [words_commandText_eq hverb, hargs, hamount]
  simp only [Option.toList_some, List.cons_append, List.nil_append, List.flatMap_cons,
    List.flatMap_nil, List.append_nil, d.isPlain_name.words]
  rfl

/-- **A written movement is read back**, whatever phrases are registered and whatever the scene is:
with the same direction and exactly the same extent. -/
theorem Registry.isMovement_interpret_commandText (hc : r.command? .go = some c)
    (hmax : 1 ≤ c.maxArgs) (hverb : i.verb = some .go) (hargs : i.args = [d.name])
    (hextent : i.extent = some e) (hsingle : e.IsSingle) (scene : Scene) :
    (r.interpret scene i.commandText).IsMovement d e := by
  obtain ⟨text, htext, hsaid⟩ := hsingle.isSaidBy
  have hamount : i.amountText = some text := by
    unfold Intent.amountText
    rw [hextent]
    exact htext
  have hwords := Intent.words_commandText_movement hverb hargs hamount
  have hoffers := hsaid.offers.cons d.isPlain_name
  rw [interpret_movement hc hwords hoffers (d.isPlain_name.resolve scene) hmax]
  exact Intent.isMovement_movement _ d e

theorem Registry.isMovement_interpret_commandText_minutes :
    let r := Registry.empty.register { verb := .go }
    let i := { Intent.forVerb .go [Direction.northeast.name] 1 with
      extent := some { minutes := some 4294967295 } }
    r.command? .go = some (commandOf { verb := .go }) ∧
      1 ≤ (commandOf { verb := .go }).maxArgs ∧ i.verb = some .go ∧
      i.args = [Direction.northeast.name] ∧ i.extent = some { minutes := some 4294967295 } ∧
      Extent.IsSingle { minutes := some 4294967295 } ∧
      (r.interpret {} i.commandText).IsMovement .northeast { minutes := some 4294967295 } := by
  intro r i
  have hsingle : Extent.IsSingle { minutes := some 4294967295 } := .minutes (by decide)
  exact ⟨rfl, by decide, rfl, rfl, rfl, hsingle,
    isMovement_interpret_commandText (c := commandOf { verb := .go }) rfl (by decide) rfl rfl rfl
      hsingle {}⟩

end PlayerCommands
