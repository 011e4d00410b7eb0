import PlayerCommands.Proofs.WrittenNumbers

/-!
# What becomes of the words that are scanned

A scan reads a line from left to right and keeps what is no part of an extent.  The state it is in
is a ledger: the words kept, the place of the first bare number among them, and the first extent
that was too large.  `Scans l words l' e behind` is one reading of `words`, place by place, from the
ledger `l` to the ledger `l'`; it ends before `behind` with the extent `e`, or at the end of the
line with none.  The readings of a line are its scan, so what is proved of a reading by induction
on it holds of the scan:

    (∃ l e behind, Scans {} words l e behind ∧ s = l.close e behind) ↔ scan words = s
                                                                                 (scans_iff_scan)
    (scan words).AccountsFor words                                             (accountsFor_scan)

What remains are words of the line in their order.  The place that is remembered stays that of the
first bare number, although a `for` may be dropped behind it.  What follows an extent is not read.
-/

namespace PlayerCommands

namespace Extent

/-! ## What stands at a place -/

/-- A number with its unit, as one word or as two. -/
inductive IsMeasure : List String → Score → ExtentUnit → Prop
  | joined (n : WrittenNumber) {suffix : String} {x : Score} {unit : ExtentUnit}
      (hunit : ExtentUnit.ofWord? suffix = some unit) (hx : n.numeral.value? = some x) :
      IsMeasure [n.text ++ suffix] x unit
  | split (n : WrittenNumber) {word : String} {x : Score} {unit : ExtentUnit}
      (hunit : ExtentUnit.ofWord? word = some unit) (hx : n.numeral.value? = some x) :
      IsMeasure [n.text, word] x unit

/-- A number with no unit behind it. -/
structure IsBare (word : String) (next? : Option String) : Prop where
  number : ∃ n : WrittenNumber, n.text = word
  unitless : next?.bind ExtentUnit.ofWord? = none

/-- A word that says nothing of an extent where it stands. -/
structure IsOther (word : String) (next? : Option String) : Prop where
  unconditional : word = "until" → next?.bind Condition.ofWord? = none
  unnumbered : ∀ n : WrittenNumber, n.text ≠ word
  unmeasured : ∀ (n : WrittenNumber) (suffix : String),
    (ExtentUnit.ofWord? suffix).isSome → n.text ++ suffix ≠ word

/-- What stands at the word `word` with `next?` behind it. -/
inductive Stands (word : String) (next? : Option String) : Reading → Prop
  | condition {next : String} {c : Condition} (hword : word = "until") (hnext : next? = some next)
      (hc : Condition.ofWord? next = some c) : Stands word next? (.condition c)
  | joined {x : Score} {unit : ExtentUnit} (h : IsMeasure [word] x unit) :
      Stands word next? (.measure x unit false)
  | split {next : String} {x : Score} {unit : ExtentUnit} (hnext : next? = some next)
      (h : IsMeasure [word, next] x unit) : Stands word next? (.measure x unit true)
  | bare (h : IsBare word next?) : Stands word next? .bare
  | other (h : IsOther word next?) : Stands word next? .word

variable {word : String} {next? : Option String} {what : Reading}

/-- A word whose numeral has letters that are no unit is no number and no measure. -/
theorem IsOther.of_suffix (hcondition : word = "until" → next?.bind Condition.ofWord? = none)
    (hword : ∀ numeral x, Numeral.ofWord? word = some numeral → numeral.value? = some x →
      numeral.suffix ≠ "" ∧ ExtentUnit.ofWord? numeral.suffix = none) :
    IsOther word next? where
  unconditional := hcondition
  unnumbered n := by
    rintro rfl
    obtain ⟨x, hx⟩ := n.exists_value?
    exact (hword _ x n.ofWord?_text hx).1 rfl
  unmeasured n suffix hunit := by
    rintro rfl
    obtain ⟨unit, hunit⟩ := Option.isSome_iff_exists.mp hunit
    obtain ⟨x, hx⟩ := n.exists_value?
    have hnone := (hword _ x (n.ofWord?_append_unit hunit) hx).2
    rw [hunit] at hnone
    cases hnone

theorem stands (word : String) (next? : Option String) :
    Stands word next? (Reading.of word next?) := by
  unfold Reading.of
  split
  · next c hcondition =>
    obtain ⟨huntil, hnext⟩ := Option.ite_none_right_eq_some.mp hcondition
    obtain ⟨next, hnext, hc⟩ := Option.bind_eq_some_iff.mp hnext
    exact .condition huntil hnext hc
  · next hcondition =>
    have hcondition : word = "until" → next?.bind Condition.ofWord? = none := by
      intro huntil
      rwa [if_pos huntil] at hcondition
    split
    · next hnumeral =>
      exact .other (.of_suffix hcondition fun _ _ h => absurd h (by simp [hnumeral]))
    · next numeral hnumeral =>
      split
      · next hvalue =>
        refine .other (.of_suffix hcondition fun numeral' x h hx => ?_)
        cases hnumeral.symm.trans h
        exact absurd hx (by simp [hvalue])
      · next x hx =>
        obtain ⟨n, hword, hvalue⟩ := WrittenNumber.exists_append_of_value? hnumeral hx
        split
        · next hsuffix =>
          rw [hsuffix, String.append_empty] at hword
          split
          · next unit hunit =>
            obtain ⟨next, hnext, hunit⟩ := Option.bind_eq_some_iff.mp hunit
            exact .split hnext (hword ▸ .split n hunit hvalue)
          · next hunit => exact .bare ⟨⟨n, hword⟩, hunit⟩
        · next hsuffix =>
          split
          · next unit hunit => exact .joined (hword ▸ .joined n hunit hvalue)
          · next hunit =>
            refine .other (.of_suffix hcondition fun numeral' x h hx => ?_)
            cases hnumeral.symm.trans h
            exact ⟨hsuffix, hunit⟩

theorem Stands.reading (h : Stands word next? what) : Reading.of word next? = what := by
  cases h with
  | condition hword hnext hc =>
    unfold Reading.of
    simp only [hword, hnext, if_true, Option.bind_some, hc]
  | @joined x unit h =>
    cases h with
    | @joined n suffix _ _ hunit hx =>
      have huntil : n.text ++ suffix ≠ "until" := by
        intro heq
        have hnumeral := n.ofWord?_append_unit hunit
        rw [heq] at hnumeral
        cases hnumeral
      have hsuffix : suffix ≠ "" := by
        rintro rfl
        cases hunit
      have hvalue : Numeral.value? { n.numeral with suffix := suffix } = some x := hx
      unfold Reading.of
      simp only [if_neg huntil, n.ofWord?_append_unit hunit, hvalue, if_neg hsuffix, hunit]
  | split hnext h =>
    cases h with
    | split n hunit hx =>
      rw [n.reading hx, hnext, Option.bind_some, hunit]
  | bare h =>
    obtain ⟨n, rfl⟩ := h.number
    obtain ⟨x, hx⟩ := n.exists_value?
    rw [n.reading hx, h.unitless]
  | other h =>
    -- every other reading is excluded
    have hstands := stands word next?
    generalize Reading.of word next? = what at hstands
    cases hstands with
    | condition hword hnext hc =>
      have hnone := h.unconditional hword
      rw [hnext, Option.bind_some, hc] at hnone
      cases hnone
    | joined hmeasure =>
      cases hmeasure with
      | joined n hunit hx =>
        exact absurd rfl (h.unmeasured n _ (Option.isSome_iff_exists.mpr ⟨_, hunit⟩))
    | split hnext hmeasure =>
      cases hmeasure with
      | split n hunit hx => exact absurd rfl (h.unnumbered n)
    | bare hbare =>
      obtain ⟨n, hword⟩ := hbare.number
      exact absurd hword (h.unnumbered n)
    | other => rfl

/-! ## One step of a scan -/

section Steps

variable (p : Progress) {words rest : List String} {x : Score} {unit : ExtentUnit}

theorem scanFrom_condition {next : String} {c : Condition} (hc : Condition.ofWord? next = some c) :
    scanFrom p 0 ("until" :: next :: rest) = p.found { condition := c } rest := by
  have hreading : Reading.of "until" (some next) = .condition c :=
    (Stands.condition rfl rfl hc).reading
  unfold scanFrom
  simp only [List.head?_cons, hreading]
  rfl

theorem scanFrom_measure (h : IsMeasure (word :: words) x unit) :
    scanFrom p 0 (word :: words ++ rest) =
      match ofNumber? x unit with
      | some e => p.dropFor.found e rest
      | none => scanFrom (p.dropFor.reject word) 0 rest := by
  cases h with
  | @joined n suffix _ _ hunit hx =>
    have hreading : Reading.of (n.text ++ suffix) rest.head? = .measure x unit false :=
      (Stands.joined (.joined n hunit hx)).reading
    rw [List.singleton_append, scanFrom, hreading]
    rfl
  | @split n next _ _ hunit hx =>
    have hreading : Reading.of n.text (next :: rest).head? = .measure x unit true :=
      (Stands.split rfl (.split n hunit hx)).reading
    have hskip (q : Progress) : scanFrom q 1 (next :: rest) = scanFrom q 0 rest := by
      rw [scanFrom]
    rw [List.cons_append, List.singleton_append, scanFrom, hreading]
    cases hnumber : ofNumber? x unit with
    | some e => simp only [hnumber, if_true, List.tail_cons]
    | none => simp only [hnumber, if_true, hskip]

theorem scanFrom_bare (h : IsBare word rest.head?) :
    scanFrom p 0 (word :: rest) = scanFrom (p.keepBare word) 0 rest := by
  rw [scanFrom, (Stands.bare h).reading]

theorem scanFrom_other (h : IsOther word rest.head?) :
    scanFrom p 0 (word :: rest) = scanFrom (p.keep word) 0 rest := by
  rw [scanFrom, (Stands.other h).reading]

end Steps

/-! ## The ledger of a scan -/

/-- What a scan under way has kept and noted. -/
structure Ledger where
  kept : List String := []
  /-- The place of the first bare number among the words kept. -/
  mark : Option Nat := none
  /-- The first word of the first extent that was too large. -/
  rejected : Option String := none

namespace Ledger

variable (l : Ledger)

def keep (word : String) : Ledger := { l with kept := l.kept ++ [word] }

/-- Keep a bare number, and remember its place if it is the first. -/
def keepBare (number : String) : Ledger :=
  { l with kept := l.kept ++ [number], mark := l.mark.or (some l.kept.length) }

/-- Drop a `for` that was kept last. -/
def dropFor : Ledger :=
  { l with kept := if l.kept.getLast? = some "for" then l.kept.dropLast else l.kept }

def reject (word : String) : Ledger := { l with rejected := l.rejected.or (some word) }

/-- The outcome when the scan ends before `behind`: the marked number is taken out of the words
kept if there is no extent. -/
def close (e : Option Extent) (behind : List String) : Scan :=
  match e, l.mark with
  | none, some place =>
    { bareNumber := l.kept[place]?, outOfRange := l.rejected,
      rest := l.kept.eraseIdx place ++ behind }
  | _, _ => { extent := e, outOfRange := l.rejected, rest := l.kept ++ behind }

end Ledger

/-- One reading of the words, from a ledger to the one that it ends with: before the words
`behind` with an extent, or at the end of the words with none. -/
inductive Scans : Ledger → List String → Ledger → Option Extent → List String → Prop
  | ended {l : Ledger} : Scans l [] l none []
  | condition {l : Ledger} {next : String} {c : Condition} {rest : List String}
      (hc : Condition.ofWord? next = some c) :
      Scans l ("until" :: next :: rest) l (some { condition := c }) rest
  | found {l : Ledger} {word : String} {more rest : List String} {x : Score} {unit : ExtentUnit}
      {e : Extent} (hmeasure : IsMeasure (word :: more) x unit) (he : ofNumber? x unit = some e) :
      Scans l (word :: more ++ rest) l.dropFor (some e) rest
  | rejected {l l' : Ledger} {word : String} {more rest behind : List String} {x : Score}
      {unit : ExtentUnit} {e : Option Extent} (hmeasure : IsMeasure (word :: more) x unit)
      (hlarge : ofNumber? x unit = none)
      (hrest : Scans (l.dropFor.reject word) rest l' e behind) :
      Scans l (word :: more ++ rest) l' e behind
  | bare {l l' : Ledger} {word : String} {rest behind : List String} {e : Option Extent}
      (hbare : IsBare word rest.head?) (hrest : Scans (l.keepBare word) rest l' e behind) :
      Scans l (word :: rest) l' e behind
  | other {l l' : Ledger} {word : String} {rest behind : List String} {e : Option Extent}
      (hother : IsOther word rest.head?) (hrest : Scans (l.keep word) rest l' e behind) :
      Scans l (word :: rest) l' e behind

/-! ## The scan follows its ledger -/

namespace Progress

/-- The ledger of a scan under way. -/
def ledger (p : Progress) : Ledger := ⟨p.words, p.bare.map (·.2.length), p.outOfRange⟩

/-- The number that splits the words kept is no `for`, so it is not dropped as one. -/
def IsSplit (p : Progress) : Prop := ∀ split, p.bare = some split → split.1 ≠ "for"

variable (p : Progress)

theorem ledger_keep (word : String) : (p.keep word).ledger = p.ledger.keep word := by
  rcases p with ⟨_ | ⟨number, before⟩, kept, large⟩ <;>
    simp [ledger, words, keep, Ledger.keep]

theorem ledger_keepBare (number : String) :
    (p.keepBare number).ledger = p.ledger.keepBare number := by
  rcases p with ⟨_ | ⟨number, before⟩, kept, large⟩ <;>
    simp [ledger, words, keep, keepBare, Ledger.keepBare]

theorem ledger_reject (word : String) : (p.reject word).ledger = p.ledger.reject word := rfl

/-- A `for` that was kept last is the last of all words kept. -/
theorem append_reverse_dropFor {front : List String} (hfront : front.getLast? ≠ some "for")
    (kept : List String) :
    front ++ (Quantity.dropFor kept).reverse =
      if (front ++ kept.reverse).getLast? = some "for" then (front ++ kept.reverse).dropLast
      else front ++ kept.reverse := by
  unfold Quantity.dropFor
  split
  · next others =>
    rw [List.reverse_cons, ← List.append_assoc, List.getLast?_concat, if_pos rfl,
      List.dropLast_concat]
  · next hkept =>
    rw [if_neg]
    rcases kept with _ | ⟨last, others⟩
    · rwa [List.reverse_nil, List.append_nil]
    · rw [List.reverse_cons, ← List.append_assoc, List.getLast?_concat]
      intro hlast
      exact hkept others (congrArg (· :: others) (Option.some.inj hlast))

theorem ledger_dropFor (hp : p.IsSplit) : p.dropFor.ledger = p.ledger.dropFor := by
  rcases p with ⟨_ | ⟨number, before⟩, kept, large⟩
  · have hfront : ([] : List String).getLast? ≠ some "for" := nofun
    exact congrArg (Ledger.mk · _ _) (append_reverse_dropFor hfront kept)
  · have hfront : (before.reverse ++ [number]).getLast? ≠ some "for" := by
      rw [List.getLast?_concat]
      exact fun h => hp _ rfl (Option.some.inj h)
    have hkept := append_reverse_dropFor hfront kept
    simp only [List.append_assoc, List.singleton_append] at hkept
    exact congrArg (Ledger.mk · _ _) hkept

theorem found_eq (e : Extent) (behind : List String) :
    p.found e behind = p.ledger.close (some e) behind := by
  rcases p with ⟨_ | ⟨number, before⟩, kept, large⟩ <;> rfl

theorem ended_eq : p.ended = p.ledger.close none [] := by
  rcases p with ⟨_ | ⟨number, before⟩, kept, large⟩
  · simp [ended, ledger, Ledger.close, words]
  · have hrest : (before.reverse ++ number :: kept.reverse).eraseIdx before.length =
        before.reverse ++ kept.reverse := by
      rw [List.eraseIdx_append_of_length_le (by simp)]
      simp
    simp [ended, ledger, Ledger.close, words, hrest]

theorem isSplit_keepBare (hp : p.IsSplit) {number : String} (hnumber : number ≠ "for") :
    (p.keepBare number).IsSplit := by
  rcases p with ⟨_ | split, kept, large⟩
  · rintro _ ⟨⟩
    exact hnumber
  · exact hp

end Progress

theorem isSingle_of_ofNumber? {x : Score} {unit : ExtentUnit} {e : Extent}
    (h : ofNumber? x unit = some e) : e.IsSingle := by
  obtain ⟨hle, hextent⟩ := Option.ite_none_right_eq_some.mp h
  cases hextent
  cases unit with
  | meters | kilometers => exact .meters hle
  | tiles => exact .tiles hle
  | minutes | hours => exact .minutes hle

variable {l l' : Ledger} {words behind : List String} {e : Option Extent}

theorem IsBare.ne_for (h : IsBare word next?) : word ≠ "for" := by
  obtain ⟨n, rfl⟩ := h.number
  exact n.text_ne (by decide)

/-- Every line has a reading, from whatever ledger. -/
theorem exists_scans (l : Ledger) (words : List String) :
    ∃ l' e behind, Scans l words l' e behind := by
  match words with
  | [] => exact ⟨l, none, [], .ended⟩
  | word :: rest =>
    have hstands := stands word rest.head?
    generalize Reading.of word rest.head? = what at hstands
    -- an extent that is too large is dropped, and the scan goes on behind it
    have hmeasure {more after : List String} {x : Score} {unit : ExtentUnit}
        (hwords : rest = more ++ after) (h : IsMeasure (word :: more) x unit) :
        ∃ l' e behind, Scans l (word :: rest) l' e behind := by
      subst hwords
      cases hnumber : ofNumber? x unit with
      | some e => exact ⟨_, _, _, .found h hnumber⟩
      | none =>
        obtain ⟨l', e, behind, hscans⟩ := exists_scans (l.dropFor.reject word) after
        exact ⟨l', e, behind, .rejected h hnumber hscans⟩
    cases hstands with
    | condition hword hnext hc =>
      obtain ⟨after, rfl⟩ := List.head?_eq_some_iff.mp hnext
      subst hword
      exact ⟨_, _, _, .condition hc⟩
    | joined h => exact hmeasure (List.nil_append rest).symm h
    | split hnext h =>
      obtain ⟨after, rfl⟩ := List.head?_eq_some_iff.mp hnext
      exact hmeasure rfl h
    | bare h =>
      obtain ⟨l', e, behind, hscans⟩ := exists_scans (l.keepBare word) rest
      exact ⟨l', e, behind, .bare h hscans⟩
    | other h =>
      obtain ⟨l', e, behind, hscans⟩ := exists_scans (l.keep word) rest
      exact ⟨l', e, behind, .other h hscans⟩
termination_by words.length
decreasing_by all_goals (subst_vars; simp only [List.length_cons, List.length_append]; omega)

/-- A reading of the words says what their scan is. -/
theorem Scans.scanFrom_eq {p : Progress} (h : Scans l words l' e behind) (hl : p.ledger = l)
    (hp : p.IsSplit) : scanFrom p 0 words = l'.close e behind := by
  induction h generalizing p with
  | ended =>
    rw [scanFrom, p.ended_eq, hl]
  | condition hc =>
    rw [scanFrom_condition p hc, p.found_eq, hl]
  | found h he =>
    rw [scanFrom_measure p h, he, ← hl, ← p.ledger_dropFor hp]
    exact p.dropFor.found_eq _ _
  | rejected h hlarge hrest ih =>
    rw [scanFrom_measure p h, hlarge]
    refine ih ?_ hp
    rw [Progress.ledger_reject, p.ledger_dropFor hp, hl]
  | bare h hrest ih =>
    rw [scanFrom_bare p h]
    exact ih (by rw [p.ledger_keepBare, hl]) (p.isSplit_keepBare hp h.ne_for)
  | other h hrest ih =>
    rw [scanFrom_other p h]
    exact ih (by rw [p.ledger_keep, hl]) hp

/-- **The readings of a line are its scan.** -/
theorem scans_iff_scan (words : List String) (s : Scan) :
    (∃ l e behind, Scans {} words l e behind ∧ s = l.close e behind) ↔ scan words = s := by
  have hp : Progress.IsSplit {} := nofun
  constructor
  · rintro ⟨l, e, behind, hscans, rfl⟩
    exact hscans.scanFrom_eq rfl hp
  · rintro rfl
    obtain ⟨l, e, behind, hscans⟩ := exists_scans {} words
    exact ⟨l, e, behind, hscans, hscans.scanFrom_eq rfl hp⟩

/-! ## Runs of a scan -/

/-- What a scan passes over is not read: more words only stay behind it. -/
theorem Scans.append {e : Extent} (h : Scans l words l' (some e) behind) (more : List String) :
    Scans l (words ++ more) l' (some e) (behind ++ more) := by
  have hhead {l l' : Ledger} {words behind : List String} (h : Scans l words l' (some e) behind) :
      (words ++ more).head? = words.head? := by
    cases words with
    | nil => cases h
    | cons word rest => rfl
  generalize hfound : some e = found at h
  induction h with
  | ended => cases hfound
  | condition hc => exact .condition hc
  | found h he =>
    rw [List.append_assoc]
    exact .found h he
  | rejected h hlarge hrest ih =>
    rw [List.append_assoc]
    exact .rejected h hlarge (ih hfound)
  | bare h hrest ih =>
    subst hfound
    exact .bare ((hhead hrest).symm ▸ h) (ih rfl)
  | other h hrest ih =>
    subst hfound
    exact .other ((hhead hrest).symm ▸ h) (ih rfl)

/-- An extent that is found has one component, which fits 32 bits. -/
theorem Scans.isSingle {e : Extent} (h : Scans l words l' (some e) behind) : e.IsSingle := by
  generalize hfound : some e = found at h
  induction h with
  | ended => cases hfound
  | condition hc =>
    cases hfound
    exact .condition (ne_none_of_conditionWord hc)
  | found h he =>
    cases hfound
    exact isSingle_of_ofNumber? he
  | rejected h hlarge hrest ih => exact ih hfound
  | bare h hrest ih => exact ih hfound
  | other h hrest ih => exact ih hfound

theorem Ledger.dropFor_sublist (l : Ledger) (read rest : List String) :
    (l.dropFor.kept ++ rest).Sublist (l.kept ++ (read ++ rest)) := by
  have hkept : l.dropFor.kept.Sublist l.kept := by
    unfold dropFor
    split
    · exact List.dropLast_sublist _
    · exact List.Sublist.refl _
  exact hkept.append (List.sublist_append_right read rest)

/-- The words that remain are words that were there, in their order. -/
theorem Scans.sublist (h : Scans l words l' e behind) :
    (l'.kept ++ behind).Sublist (l.kept ++ words) := by
  induction h with
  | ended => exact List.Sublist.refl _
  | @condition l next c rest hc =>
    exact (List.Sublist.refl l.kept).append (List.sublist_append_right ["until", next] rest)
  | @found l word more rest => exact l.dropFor_sublist (word :: more) rest
  | @rejected l l' word more rest behind x unit e h hlarge hrest ih =>
    exact ih.trans (l.dropFor_sublist (word :: more) rest)
  | bare h hrest ih => exact List.append_cons .. ▸ ih
  | other h hrest ih => exact List.append_cons .. ▸ ih

theorem Scans.rejected_of_rejected (h : Scans l words l' e behind) (hl : l.rejected.isSome) :
    l'.rejected.isSome := by
  induction h with
  | ended | condition | found => exact hl
  | rejected h hlarge hrest ih => exact ih (by simp [Ledger.reject])
  | bare h hrest ih => exact ih hl
  | other h hrest ih => exact ih hl

/-- Words are lost to an extent only. -/
theorem Scans.untouched (h : Scans l words l' none behind) (hnone : l'.rejected = none) :
    l'.kept ++ behind = l.kept ++ words := by
  generalize hfound : (none : Option Extent) = found at h
  induction h with
  | ended => rfl
  | condition | found => cases hfound
  | rejected h hlarge hrest ih =>
    have hsome := hrest.rejected_of_rejected (by simp [Ledger.reject])
    rw [hnone] at hsome
    cases hsome
  | bare h hrest ih => exact (ih hnone hfound).trans (List.append_cons ..).symm
  | other h hrest ih => exact (ih hnone hfound).trans (List.append_cons ..).symm

/-! ## The first bare number -/

/-- The first number of a line with no unit behind it. -/
inductive FirstBare : List String → String → Prop
  | here {word : String} {rest : List String} (h : IsBare word rest.head?) :
      FirstBare (word :: rest) word
  | later {word number : String} {rest : List String} (h : ¬ IsBare word rest.head?)
      (hrest : FirstBare rest number) : FirstBare (word :: rest) number

theorem FirstBare.unique {number other : String} (h : FirstBare words number)
    (hother : FirstBare words other) : number = other := by
  induction h with
  | here h =>
    cases hother with
    | here => rfl
    | later hnot => exact absurd h hnot
  | later hnot hrest ih =>
    cases hother with
    | here h => exact absurd h hnot
    | later _ hother => exact ih hother

theorem firstBare_cons {number : String} {rest : List String} (h : ¬ IsBare word rest.head?) :
    FirstBare (word :: rest) number ↔ FirstBare rest number := by
  constructor
  · intro hfirst
    cases hfirst with
    | here hbare => exact absurd hbare h
    | later _ hrest => exact hrest
  · exact .later h

/-- Neither a number with its unit nor the unit is a bare number. -/
theorem IsMeasure.firstBare {more rest : List String} {x : Score} {unit : ExtentUnit}
    {number : String} (h : IsMeasure (word :: more) x unit) :
    FirstBare (word :: more ++ rest) number ↔ FirstBare rest number := by
  cases h with
  | @joined n suffix _ _ hunit hx =>
    refine firstBare_cons fun hbare => ?_
    obtain ⟨m, hm⟩ := hbare.number
    have hnumeral := n.ofWord?_append_unit hunit
    rw [← hm, m.ofWord?_text] at hnumeral
    have hsuffix := congrArg Numeral.suffix (Option.some.inj hnumeral)
    change "" = suffix at hsuffix
    subst hsuffix
    cases hunit
  | @split n next _ _ hunit hx =>
    have hnumber : ¬ IsBare n.text (next :: rest).head? := fun hbare => by
      have hnone := hbare.unitless
      rw [List.head?_cons, Option.bind_some, hunit] at hnone
      cases hnone
    have hnext : ¬ IsBare next rest.head? := fun hbare => by
      obtain ⟨m, hm⟩ := hbare.number
      exact m.text_ne (ExtentUnit.isPlain_of_ofWord? hunit).wordy hm
    exact (firstBare_cons hnumber).trans (firstBare_cons hnext)

namespace Ledger

/-- The place that is remembered is that of `number`. -/
def Marks (l : Ledger) (number : String) : Prop :=
  ∃ place, l.mark = some place ∧ l.kept[place]? = some number

variable {number : String}

theorem getElem?_concat {place : Nat} {kept : List String} (h : kept[place]? = some number)
    (word : String) : (kept ++ [word])[place]? = some number := by
  obtain ⟨hlt, -⟩ := List.getElem?_eq_some_iff.mp h
  rw [List.getElem?_append_left hlt, h]

theorem Marks.keep (h : l.Marks number) (word : String) : (l.keep word).Marks number := by
  obtain ⟨place, hmark, hkept⟩ := h
  exact ⟨place, hmark, getElem?_concat hkept word⟩

theorem Marks.keepBare (h : l.Marks number) (word : String) : (l.keepBare word).Marks number := by
  obtain ⟨place, hmark, hkept⟩ := h
  refine ⟨place, ?_, getElem?_concat hkept word⟩
  unfold Ledger.keepBare
  rw [hmark, Option.some_or]

theorem marks_keepBare (h : l.mark = none) (word : String) : (l.keepBare word).Marks word := by
  refine ⟨l.kept.length, ?_, List.getElem?_concat_length⟩
  unfold keepBare
  rw [h, Option.none_or]

/-- A `for` that is dropped stands behind the number. -/
theorem Marks.dropFor (h : l.Marks number) (hnumber : number ≠ "for") :
    l.dropFor.Marks number := by
  obtain ⟨place, hmark, hkept⟩ := h
  refine ⟨place, hmark, ?_⟩
  unfold Ledger.dropFor
  split
  · next hlast =>
    obtain ⟨front, hfront⟩ := List.getLast?_eq_some_iff.mp hlast
    simp only [hfront, List.dropLast_concat] at hkept ⊢
    have hne : place ≠ front.length := by
      rintro rfl
      rw [List.getElem?_concat_length] at hkept
      exact hnumber (Option.some.inj hkept).symm
    obtain ⟨hlt, -⟩ := List.getElem?_eq_some_iff.mp hkept
    rw [List.length_append, List.length_singleton] at hlt
    rwa [List.getElem?_append_left (by omega)] at hkept
  · exact hkept

end Ledger

/-- **The place that is remembered stays that of its number**, whatever is read after it. -/
theorem Scans.marks {number : String} (h : Scans l words l' e behind) (hl : l.Marks number)
    (hnumber : number ≠ "for") : l'.Marks number := by
  induction h with
  | ended | condition => exact hl
  | found => exact hl.dropFor hnumber
  | rejected h hlarge hrest ih => exact ih (hl.dropFor hnumber)
  | bare h hrest ih => exact ih (hl.keepBare _)
  | other h hrest ih => exact ih (hl.keep _)

/-- The number whose place is remembered is the first bare one, and there is none if no place is
remembered at the end of the line. -/
theorem Scans.firstBare (h : Scans l words l' e behind) (hl : l.mark = none) :
    (∀ place, l'.mark = some place →
        ∃ number, l'.kept[place]? = some number ∧ FirstBare words number) ∧
      (e = none → l'.mark = none → ∀ number, ¬ FirstBare words number) := by
  induction h with
  | ended => exact ⟨fun place hplace => absurd (hl.symm.trans hplace) nofun, fun _ _ _ => nofun⟩
  | condition | found => exact ⟨fun place hplace => absurd (hl.symm.trans hplace) nofun, nofun⟩
  | rejected h hlarge hrest ih => simpa only [h.firstBare] using ih hl
  | @bare l l' word rest behind e h hrest ih =>
    obtain ⟨place, hmark, hkept⟩ := hrest.marks (Ledger.marks_keepBare hl word) h.ne_for
    constructor
    · intro place' hplace
      cases hmark.symm.trans hplace
      exact ⟨word, hkept, .here h⟩
    · intro _ hnone
      rw [hmark] at hnone
      cases hnone
  | @other l l' word rest behind e h hrest ih =>
    have hbare : ¬ IsBare word rest.head? := fun hbare => by
      obtain ⟨n, hn⟩ := hbare.number
      exact h.unnumbered n hn
    simpa only [firstBare_cons hbare] using ih hl

/-! ## What is reported -/

namespace Ledger

theorem close_of_marked {place : Nat} (h : l.mark = some place) :
    l.close none behind =
      { bareNumber := l.kept[place]?, outOfRange := l.rejected,
        rest := l.kept.eraseIdx place ++ behind } := by
  unfold close
  rw [h]

theorem close_of_unmarked (h : l.mark = none) :
    l.close none behind = { outOfRange := l.rejected, rest := l.kept ++ behind } := by
  unfold close
  rw [h]

variable (l) (behind) (e)

theorem extent_close : (l.close e behind).extent = e := by
  unfold close
  split <;> rfl

theorem outOfRange_close : (l.close e behind).outOfRange = l.rejected := by
  unfold close
  split <;> rfl

theorem sublist_close : (l.close e behind).rest.Sublist (l.kept ++ behind) := by
  unfold close
  split
  · exact (List.eraseIdx_sublist _ _).append (List.Sublist.refl behind)
  · exact List.Sublist.refl _

end Ledger

/-- The bare number that is reported at the end of a line is the first one. -/
theorem Scans.bareNumber_close (h : Scans l words l' none behind) (hl : l.mark = none)
    (number : String) :
    (l'.close none behind).bareNumber = some number ↔ FirstBare words number := by
  obtain ⟨hplace, hnone⟩ := h.firstBare hl
  cases hmark : l'.mark with
  | none =>
    rw [Ledger.close_of_unmarked hmark]
    exact ⟨nofun, fun hfirst => absurd hfirst (hnone rfl hmark number)⟩
  | some place =>
    obtain ⟨marked, hkept, hmarked⟩ := hplace place hmark
    rw [Ledger.close_of_marked hmark, hkept]
    exact ⟨fun hnumber => Option.some.inj hnumber ▸ hmarked,
      fun hfirst => congrArg some (hmarked.unique hfirst)⟩

/-- Where nothing is reported, nothing is gone. -/
theorem Scans.rest_close (h : Scans l words l' none behind) (hl : l.mark = none)
    (hnumber : (l'.close none behind).bareNumber = none) (hrange : l'.rejected = none) :
    (l'.close none behind).rest = l.kept ++ words := by
  obtain ⟨hplace, -⟩ := h.firstBare hl
  cases hmark : l'.mark with
  | none =>
    rw [Ledger.close_of_unmarked hmark]
    exact h.untouched hrange
  | some place =>
    -- a place that is remembered is that of a number, which is reported
    obtain ⟨number, hkept, -⟩ := hplace place hmark
    rw [Ledger.close_of_marked hmark, hkept] at hnumber
    cases hnumber

theorem rest_scan_sublist (words : List String) : (scan words).rest.Sublist words := by
  obtain ⟨l, e, behind, hscans, hclose⟩ := (scans_iff_scan words _).mpr rfl
  rw [hclose]
  exact (l.sublist_close behind e).trans hscans.sublist

/-! ## The account of a line -/

/-- An account of every word of a scanned line. -/
structure Scan.AccountsFor (s : Scan) (words : List String) : Prop where
  exclusive : s.extent = none ∨ s.bareNumber = none
  single : ∀ e, s.extent = some e → e.IsSingle
  order : s.rest.Sublist words
  /-- Each word is kept, or is gone for a reason that the reading names; the place remembered for
  the bare number is its place among the words kept when it is taken out of them. -/
  reading : ∃ l behind, Scans {} words l s.extent behind ∧ s = l.close s.extent behind ∧
    ∀ place, l.mark = some place →
      ∃ number, l.kept[place]? = some number ∧ FirstBare words number
  untouched : s.extent = none → s.bareNumber = none → s.outOfRange = none → s.rest = words
  bare : s.extent = none → ∀ number, s.bareNumber = some number ↔ FirstBare words number
  extended : s.extent.isSome → ∀ more, scan (words ++ more) = { s with rest := s.rest ++ more }

/-- **A scan accounts for every word.** -/
theorem accountsFor_scan (words : List String) : (scan words).AccountsFor words := by
  obtain ⟨l, e, behind, hscans, hclose⟩ := (scans_iff_scan words _).mpr rfl
  have horder := rest_scan_sublist words
  generalize scan words = s at hclose horder ⊢
  have hextent : s.extent = e := hclose ▸ l.extent_close behind e
  constructor
  case order => exact horder
  case single =>
    intro e' he
    rw [hextent] at he
    subst he
    exact hscans.isSingle
  case exclusive =>
    cases e with
    | none => exact Or.inl hextent
    | some e => exact Or.inr (hclose ▸ rfl)
  case reading =>
    rw [hextent]
    exact ⟨l, behind, hscans, hclose, (hscans.firstBare rfl).1⟩
  case untouched =>
    intro he hnumber hrange
    obtain rfl : e = none := hextent.symm.trans he
    rw [hclose] at hnumber hrange ⊢
    exact hscans.rest_close rfl hnumber ((l.outOfRange_close behind none).symm.trans hrange)
  case bare =>
    intro he number
    obtain rfl : e = none := hextent.symm.trans he
    rw [hclose]
    exact hscans.bareNumber_close rfl number
  case extended =>
    intro hsome more
    rw [hextent] at hsome
    obtain ⟨e, rfl⟩ := Option.isSome_iff_exists.mp hsome
    have hmore := (scans_iff_scan (words ++ more) _).mp ⟨l, _, _, hscans.append more, rfl⟩
    rw [hmore, hclose]
    unfold Ledger.close
    simp only [List.append_assoc]

example : scan ["9", "for", "99999999999", "km", "12"] =
    { bareNumber := some "9", outOfRange := some "99999999999", rest := ["12"] } := by
  decide +kernel

end Extent

end PlayerCommands
