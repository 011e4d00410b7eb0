import PlayerCommands.Proofs.ScannedWords

/-!
# An extent in one word

A number and its unit may be written as one word or as two.  Neither spelling starts with a word
that completes what is said before it, so readings of the two parts of a line make one of the line:

    Scans l before l' none [] → Scans l' words l'' e behind → Scans l (before ++ words) l'' e behind
                                                                                   (Scans.append_end)

A scan therefore comes to both spellings in one state and leaves them in one state, apart from the
text of an extent that is too large, which is never read again.

    (scan (before ++ [n.text ++ suffix] ++ after)).Agrees (scan (before ++ [n.text, suffix] ++ after))
                                                                                 (agrees_scan_joined)

A whole number of any length with its unit is exactly so many stored units, or else too many.

    scan [String.ofList digits ++ suffix] =
      if unit.factor * Nat.ofDigitChars 10 digits 0 ≤ greatest then … else …              (scan_whole)
-/

namespace PlayerCommands

namespace Extent

/-! ## Lines in two parts -/

/-- No word, or one that completes nothing that is said before it. -/
structure IsFresh (next? : Option String) : Prop where
  unitless : next?.bind ExtentUnit.ofWord? = none
  unconditional : next?.bind Condition.ofWord? = none

variable {l l' l'' : Ledger} {word suffix : String} {words before after behind : List String}
  {more rest : List String} {x : Score} {unit : ExtentUnit} {e : Option Extent}

/-- A condition is no numeral. -/
theorem isWordy_of_conditionWord {c : Condition} (h : Condition.ofWord? word = some c) :
    Numeral.ofWord? word = none := by
  unfold Condition.ofWord? at h
  split at h <;> first | decide | cases h

theorem isFresh_of_numeral (h : (Numeral.ofWord? word).isSome) : IsFresh (some word) := by
  constructor
  · rw [Option.bind_some, Option.eq_none_iff_forall_ne_some]
    intro unit hunit
    rw [(ExtentUnit.isPlain_of_ofWord? hunit).wordy] at h
    cases h
  · rw [Option.bind_some, Option.eq_none_iff_forall_ne_some]
    intro c hc
    rw [isWordy_of_conditionWord hc] at h
    cases h

theorem IsMeasure.isFresh (h : IsMeasure (word :: more) x unit) : IsFresh (some word) := by
  refine isFresh_of_numeral ?_
  cases h with
  | joined n hunit hx => rw [n.ofWord?_append_unit hunit]; rfl
  | split n hunit hx => rw [n.ofWord?_text]; rfl

/-- What is bare at the end of a line stays so before a word that completes nothing. -/
theorem IsBare.append (h : IsBare word rest.head?) (hfresh : IsFresh words.head?) :
    IsBare word (rest ++ words).head? := by
  cases rest with
  | nil => exact ⟨h.number, hfresh.unitless⟩
  | cons next others => exact h

theorem IsOther.append (h : IsOther word rest.head?) (hfresh : IsFresh words.head?) :
    IsOther word (rest ++ words).head? := by
  cases rest with
  | nil => exact ⟨fun _ => hfresh.unconditional, h.unnumbered, h.unmeasured⟩
  | cons next others => exact h

/-- **A line is read in two parts**, where the second one completes nothing in the first. -/
theorem Scans.append_end (h : Scans l before l' none behind) (hfresh : IsFresh words.head?)
    (hwords : Scans l' words l'' e after) : Scans l (before ++ words) l'' e after := by
  generalize hnone : (none : Option Extent) = ended at h
  induction h with
  | ended => exact hwords
  | condition | found => cases hnone
  | rejected h hlarge hrest ih =>
    rw [List.append_assoc]
    exact .rejected h hlarge (ih hwords hnone)
  | bare h hrest ih => exact .bare (h.append hfresh) (ih hwords hnone)
  | other h hrest ih => exact .other (h.append hfresh) (ih hwords hnone)

/-! ## The text of what is too large -/

/-- What was rejected first stays noted, and nothing else depends on how it is written. -/
theorem Scans.rename (h : Scans l words l' e behind) {text : String} (hl : l.rejected = some text)
    (other : String) :
    l'.rejected = some text ∧
      Scans { l with rejected := some other } words { l' with rejected := some other } e behind := by
  induction h with
  | ended => exact ⟨hl, .ended⟩
  | condition hc => exact ⟨hl, .condition hc⟩
  | found h he => exact ⟨hl, .found h he⟩
  | @rejected l _ word _ _ _ _ _ _ h hlarge hrest ih =>
    have hkept : (l.dropFor.reject word).rejected = some text := by
      show l.rejected.or (some word) = some text
      rw [hl, Option.some_or]
    obtain ⟨hrejected, hscans⟩ := ih hkept
    exact ⟨hrejected, .rejected h hlarge hscans⟩
  | bare h hrest ih =>
    obtain ⟨hrejected, hscans⟩ := ih hl
    exact ⟨hrejected, .bare h hscans⟩
  | other h hrest ih =>
    obtain ⟨hrejected, hscans⟩ := ih hl
    exact ⟨hrejected, .other h hscans⟩

/-! ## One word or two -/

/-- Two scans with the same outcome, but for the text of an extent that is too large. -/
structure Scan.Agrees (s t : Scan) : Prop where
  extent : s.extent = t.extent
  bareNumber : s.bareNumber = t.bareNumber
  rest : s.rest = t.rest
  outOfRange : s.outOfRange.isSome = t.outOfRange.isSome

theorem Scan.Agrees.refl (s : Scan) : s.Agrees s := ⟨rfl, rfl, rfl, rfl⟩

theorem Ledger.agrees_close (l : Ledger) {text : String} (hl : l.rejected = some text)
    (other : String) (e : Option Extent) (behind : List String) :
    (l.close e behind).Agrees (Ledger.close { l with rejected := some other } e behind) := by
  obtain ⟨kept, mark, rejected⟩ := l
  cases hl
  cases e with
  | none => cases mark <;> exact ⟨rfl, rfl, rfl, rfl⟩
  | some e => exact ⟨rfl, rfl, rfl, rfl⟩

/-- A line goes on alike behind two words that are rejected. -/
theorem Scans.reject_other {first : String} (h : Scans (l.reject first) words l' e behind)
    (second : String) :
    ∃ l'', Scans (l.reject second) words l'' e behind ∧
      (l'.close e behind).Agrees (l''.close e behind) := by
  cases hrejected : l.rejected with
  | some text =>
    -- an extent was rejected before, so neither word is noted
    have hsame : l.reject first = l.reject second := by
      unfold Ledger.reject
      rw [hrejected, Option.some_or, Option.some_or]
    exact ⟨l', hsame ▸ h, .refl _⟩
  | none =>
    have hnoted (word : String) : l.reject word = { l with rejected := some word } := by
      unfold Ledger.reject
      rw [hrejected, Option.none_or]
    rw [hnoted] at h
    obtain ⟨hl', hrenamed⟩ := h.rename rfl second
    exact ⟨_, hnoted second ▸ hrenamed, l'.agrees_close hl' second e behind⟩

/-- Two spellings of one measure are scanned alike, wherever they stand. -/
theorem IsMeasure.agrees_scan {first second : String} {firstMore secondMore : List String}
    (hfirst : IsMeasure (first :: firstMore) x unit)
    (hsecond : IsMeasure (second :: secondMore) x unit) (hbefore : (scan before).extent = none)
    (after : List String) :
    (scan (before ++ (first :: firstMore ++ after))).Agrees
      (scan (before ++ (second :: secondMore ++ after))) := by
  obtain ⟨l, ended, behind, hscans, hclose⟩ := (scans_iff_scan before _).mpr rfl
  have hended : ended = none := by
    rw [← l.extent_close behind ended, ← hclose, hbefore]
  subst hended
  -- whatever a reading does from the measure on, the scan of the line does
  have hscan {word : String} {more : List String} {l' : Ledger} {e : Option Extent}
      {behind : List String} (h : IsMeasure (word :: more) x unit)
      (hmeasure : Scans l (word :: more ++ after) l' e behind) :
      scan (before ++ (word :: more ++ after)) = l'.close e behind :=
    (scans_iff_scan _ _).mp ⟨_, _, _, hscans.append_end h.isFresh hmeasure, rfl⟩
  cases hnumber : ofNumber? x unit with
  | some e =>
    rw [hscan hfirst (.found hfirst hnumber), hscan hsecond (.found hsecond hnumber)]
    exact .refl _
  | none =>
    obtain ⟨l', e, behind, hrest⟩ := exists_scans (l.dropFor.reject first) after
    obtain ⟨l'', hsecondRest, hagrees⟩ := hrest.reject_other second
    rw [hscan hfirst (.rejected hfirst hnumber hrest),
      hscan hsecond (.rejected hsecond hnumber hsecondRest)]
    exact hagrees

/-- **A number with its unit is scanned alike as one word and as two**, wherever it stands behind
words that say no extent. -/
theorem agrees_scan_joined (n : WrittenNumber) (hunit : ExtentUnit.ofWord? suffix = some unit)
    (hbefore : (scan before).extent = none) (after : List String) :
    (scan (before ++ [n.text ++ suffix] ++ after)).Agrees
      (scan (before ++ [n.text, suffix] ++ after)) := by
  obtain ⟨x, hx⟩ := n.exists_value?
  rw [List.append_assoc, List.append_assoc]
  exact (IsMeasure.joined n hunit hx).agrees_scan (.split n hunit hx) hbefore after

/-- Two hours, behind a bare number and a `for`, and before another extent. -/
theorem agrees_scan_joined_hours :
    let n : WrittenNumber :=
      { whole := ['2'], nonempty := List.cons_ne_nil _ _, digits := List.all_eq_true.mp rfl }
    n.text = "2" ∧ ExtentUnit.ofWord? "hours" = some .hours ∧
      (scan ["5", "north", "for"]).extent = none ∧
      (scan ["5", "north", "for", "2hours", "3km"]).Agrees
        (scan ["5", "north", "for", "2", "hours", "3km"]) ∧
      scan ["5", "north", "for", "2hours", "3km"] =
        { extent := some { minutes := some 120 }, rest := ["5", "north", "3km"] } := by
  intro n
  have htwo : n.text = "2" := by decide
  have hjoined : n.text ++ "hours" = "2hours" := by decide
  have hbefore : (scan ["5", "north", "for"]).extent = none := by decide +kernel
  have hunit : ExtentUnit.ofWord? "hours" = some .hours := rfl
  have hagrees := agrees_scan_joined n hunit hbefore ["3km"]
  rw [hjoined, htwo] at hagrees
  exact ⟨htwo, hunit, hbefore, hagrees, by decide +kernel⟩

/-! ## Whole numbers -/

/-- **A whole number with its unit is converted exactly, or else is too large**, however many digits
it has; its word is gone in either case. -/
theorem scan_whole {digits : List Char} (hne : digits ≠ [])
    (hdigits : ∀ c ∈ digits, c.isDigit = true) (hunit : ExtentUnit.ofWord? suffix = some unit) :
    scan [String.ofList digits ++ suffix] =
      if unit.factor * Nat.ofDigitChars 10 digits 0 ≤ greatest then
        { extent := some (unit.extent (unit.factor * Nat.ofDigitChars 10 digits 0)) }
      else { outOfRange := some (String.ofList digits ++ suffix) } := by
  let n : WrittenNumber :=
    { whole := digits, nonempty := hne, digits := by rwa [List.append_nil] }
  have htext : n.text = String.ofList digits := congrArg String.ofList (List.append_nil digits)
  have hmeasure := IsMeasure.joined n hunit (n.value?_of_whole rfl)
  have hnumber := ofNumber?_ofNat (Nat.ofDigitChars 10 digits 0) unit
  rw [htext] at hmeasure
  split at hnumber
  · next hfits =>
    have hscans : Scans {} ([String.ofList digits ++ suffix] ++ []) _ _ [] :=
      .found hmeasure hnumber
    rw [if_pos hfits]
    exact (scans_iff_scan _ _).mp ⟨_, _, _, hscans, rfl⟩
  · next hlarge =>
    have hscans : Scans {} ([String.ofList digits ++ suffix] ++ []) _ _ [] :=
      .rejected hmeasure hnumber .ended
    rw [if_neg hlarge]
    exact (scans_iff_scan _ _).mp ⟨_, _, _, hscans, rfl⟩

/-- As many hours as there are minutes for, and one more. -/
theorem scan_whole_hours :
    scan ["0071582788h"] = { extent := some { minutes := some 4294967280 } } ∧
      scan ["71582789h"] = { outOfRange := some "71582789h" } := by
  have hunit : ExtentUnit.ofWord? "h" = some .hours := rfl
  have hfit := scan_whole (show "0071582788".toList ≠ [] by decide) (List.all_eq_true.mp rfl) hunit
  have hlarge := scan_whole (show "71582789".toList ≠ [] by decide) (List.all_eq_true.mp rfl) hunit
  rw [if_pos (by decide)] at hfit
  rw [if_neg (by decide)] at hlarge
  exact ⟨hfit, hlarge⟩

end Extent

end PlayerCommands
