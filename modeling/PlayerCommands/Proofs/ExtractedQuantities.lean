import PlayerCommands.Amount.Quantity

/-!
# The quantity that is taken out of a line

One quantity is taken out of the words of a line: the first one, with a duration word behind it if it
is a count, and with a `for` before it if it is a duration then.  All other words stay, those behind
it whatever they are.

    Extracts words found ↔ extract words = found                              (extracts_iff_extract)
    (extract words).2.Sublist words                                           (rest_extract_sublist)
-/

namespace PlayerCommands

namespace Quantity

variable {word : String} {words more rest after : List String} {next? : Option String}
  {q : Quantity}

/-! ## One quantity -/

/-- The words of one quantity, with `next?` behind them: a count takes a duration word along. -/
inductive IsPhrase (next? : Option String) : List String → Quantity → Prop
  | alone {word : String} {q : Quantity} (hword : ofWord? word = some q)
      (halone : q.unit = .count → next?.bind QuantityUnit.ofDurationWord? = none) :
      IsPhrase next? [word] q
  | joined {word next : String} {q : Quantity} {unit : QuantityUnit}
      (hword : ofWord? word = some q) (hcount : q.unit = .count)
      (hunit : QuantityUnit.ofDurationWord? next = some unit) :
      IsPhrase next? [word, next] { q with raw := word ++ " " ++ next, unit := unit }

theorem read?_of_none (h : ofWord? word = none) (rest : List String) : read? word rest = none := by
  unfold read?
  rw [h, Option.map_none]

theorem read?_of_some (h : ofWord? word = some q) (rest : List String) :
    read? word rest = some (match rest with
      | next :: after =>
        match q.unit, QuantityUnit.ofDurationWord? next with
        | .count, some unit => ({ q with raw := word ++ " " ++ next, unit := unit }, after)
        | _, _ => (q, rest)
      | [] => (q, rest)) := by
  unfold read?
  rw [h, Option.map_some]
  cases rest <;> rfl

theorem IsPhrase.read?_eq (h : IsPhrase after.head? (word :: more) q) :
    read? word (more ++ after) = some (q, after) := by
  cases h with
  | alone hword halone =>
    rw [List.nil_append, read?_of_some hword]
    cases after with
    | nil => rfl
    | cons next others =>
      simp only
      split
      · next hcount hunit =>
        have hnone := halone hcount
        rw [List.head?_cons, Option.bind_some, hunit] at hnone
        cases hnone
      · rfl
  | joined hword hcount hunit =>
    rw [List.singleton_append, read?_of_some hword]
    simp only [hcount, hunit]

/-- What is read at a word is a phrase that starts with it. -/
theorem isPhrase_of_read? (h : read? word rest = some (q, after)) :
    ∃ more, rest = more ++ after ∧ IsPhrase after.head? (word :: more) q := by
  cases hword : ofWord? word with
  | none =>
    rw [read?_of_none hword] at h
    cases h
  | some q' =>
    rw [read?_of_some hword] at h
    cases rest with
    | nil =>
      cases h
      exact ⟨[], rfl, .alone hword fun _ => rfl⟩
    | cons next others =>
      simp only at h
      split at h
      · next hcount hunit =>
        cases h
        exact ⟨[next], rfl, .joined hword hcount hunit⟩
      · next hnot =>
        cases h
        refine ⟨[], rfl, .alone hword fun hcount => ?_⟩
        rw [List.head?_cons, Option.bind_some, Option.eq_none_iff_forall_ne_some]
        exact fun unit hunit => hnot unit hcount hunit

/-! ## The words before it -/

/-- Words without a `for` at their end. -/
def withoutFor (words : List String) : List String :=
  if words.getLast? = some "for" then words.dropLast else words

/-- What a quantity leaves of the words before it. -/
def leaves (q : Quantity) (before : List String) : List String :=
  if q.unit.isDuration then withoutFor before else before

theorem reverse_dropFor (kept : List String) : (dropFor kept).reverse = withoutFor kept.reverse := by
  unfold dropFor withoutFor
  split
  · rw [List.getLast?_reverse, List.head?_cons, if_pos rfl, List.reverse_cons, List.dropLast_concat]
  · next hkept =>
    rw [if_neg]
    rw [List.getLast?_reverse]
    intro hlast
    obtain ⟨others, rfl⟩ := List.head?_eq_some_iff.mp hlast
    exact hkept others rfl

theorem reverse_kept (q : Quantity) (before : List String) :
    (if q.unit.isDuration then dropFor before.reverse else before.reverse).reverse =
      q.leaves before := by
  unfold leaves
  split
  · rw [reverse_dropFor, List.reverse_reverse]
  · rw [List.reverse_reverse]

theorem leaves_sublist (q : Quantity) (before : List String) : (q.leaves before).Sublist before := by
  unfold leaves withoutFor
  split
  · split
    · exact List.dropLast_sublist before
    · exact List.Sublist.refl before
  · exact List.Sublist.refl before

/-! ## The first quantity -/

/-- What is taken out of words, and what is left of them. -/
inductive Extracts : List String → Option Quantity × List String → Prop
  | nothing {words : List String} (hwords : ∀ word ∈ words, ofWord? word = none) :
      Extracts words (none, words)
  | first {before phrase after : List String} {q : Quantity}
      (hbefore : ∀ word ∈ before, ofWord? word = none)
      (hphrase : IsPhrase after.head? phrase q) :
      Extracts (before ++ (phrase ++ after)) (some q, q.leaves before ++ after)

theorem extractFrom_append {before : List String} (h : ∀ word ∈ before, ofWord? word = none)
    (kept rest : List String) :
    extractFrom kept (before ++ rest) = extractFrom (before.reverse ++ kept) rest := by
  induction before generalizing kept with
  | nil => rfl
  | cons word others ih =>
    rw [List.cons_append, extractFrom, read?_of_none (h word List.mem_cons_self)]
    simp only
    rw [ih (fun w hw => h w (List.mem_cons_of_mem _ hw)), List.reverse_cons, List.append_assoc,
      List.singleton_append]

theorem Extracts.extract_eq {found : Option Quantity × List String} (h : Extracts words found) :
    extract words = found := by
  unfold extract
  cases h with
  | nothing hwords =>
    have hend := extractFrom_append hwords [] []
    rw [List.append_nil, List.append_nil] at hend
    rw [hend, extractFrom, List.reverse_reverse]
  | @first before phrase after q hbefore hphrase =>
    rw [extractFrom_append hbefore, List.append_nil]
    cases phrase with
    | nil => cases hphrase
    | cons word more =>
      rw [List.cons_append, extractFrom, hphrase.read?_eq]
      simp only [reverse_kept]

/-- The words that were passed are no quantities, and the rest is taken from the words behind. -/
theorem extracts_extractFrom {before : List String} (h : ∀ word ∈ before, ofWord? word = none)
    (words : List String) : Extracts (before ++ words) (extractFrom before.reverse words) := by
  induction words generalizing before with
  | nil =>
    rw [extractFrom, List.reverse_reverse, List.append_nil]
    exact .nothing h
  | cons word rest ih =>
    unfold extractFrom
    cases hread : read? word rest with
    | some pair =>
      obtain ⟨q, after⟩ := pair
      obtain ⟨more, rfl, hphrase⟩ := isPhrase_of_read? hread
      simp only [reverse_kept]
      exact .first h hphrase
    | none =>
      have hword : ofWord? word = none := Option.map_eq_none_iff.mp hread
      have hpassed : ∀ w ∈ before ++ [word], ofWord? w = none := by
        intro w hw
        rcases List.mem_append.mp hw with hw | hw
        · exact h w hw
        · exact List.mem_singleton.mp hw ▸ hword
      have hrest := ih hpassed
      rw [List.reverse_concat, List.append_assoc, List.singleton_append] at hrest
      exact hrest

theorem extracts_extract (words : List String) : Extracts words (extract words) := by
  have hstart : ∀ word ∈ ([] : List String), ofWord? word = none := nofun
  exact extracts_extractFrom hstart words

/-- **One quantity is taken out of a line, the first one**, and all words that are no part of it
stay as they are. -/
theorem extracts_iff_extract (words : List String) (found : Option Quantity × List String) :
    Extracts words found ↔ extract words = found := by
  constructor
  · exact Extracts.extract_eq
  · rintro rfl
    exact extracts_extract words

theorem rest_extract_sublist (words : List String) : (extract words).2.Sublist words := by
  have h := extracts_extract words
  generalize extract words = found at h
  cases h with
  | nothing => exact List.Sublist.refl words
  | @first before phrase after q =>
    exact (q.leaves_sublist before).append (List.sublist_append_right phrase after)

example : extract ["rest", "for", "2", "hours", "3"] =
    (some ⟨"2 hours", 2, .hours⟩, ["rest", "3"]) := by decide
example : extract ["take", "for", "2", "sticks"] =
    (some ⟨"2", 2, .count⟩, ["take", "for", "sticks"]) := by decide

end Quantity

end PlayerCommands
