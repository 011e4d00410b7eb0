import PlayerCommands.Text.Casing
import PlayerCommands.Text.Normal

/-!
# Plain texts

A plain text consists of ASCII letters and digits and of separators.  Its words are its pieces in
lower case: nothing is folded but the case and nothing is dropped.  Of any other text at least what
can be folded is left.

    (∀ c ∈ cs, c.isAlphanum) → clean last cs = cs.map Char.toLower           (clean_of_isAlphanum)
    words s = [] ↔ ∀ c ∈ s.toList, fold? c = none                            (words_eq_nil_iff)
-/

namespace PlayerCommands.Text

variable {p q : Char → Bool} {c f : Char} {cs w : List Char} {s : String}

/-! ## Pieces -/

theorem exists_mem_modifyHead {ws : List (List Char)} (hne : ws ≠ []) (c d : Char) :
    (∃ w ∈ ws.modifyHead (d :: ·), c ∈ w) ↔ c = d ∨ ∃ w ∈ ws, c ∈ w := by
  obtain ⟨first, others, rfl⟩ := List.exists_cons_of_ne_nil hne
  simp [or_assoc]

/-- Cutting a text loses just the characters at which it is cut. -/
theorem exists_mem_splitOnP_iff (cs : List Char) :
    (∃ w ∈ cs.splitOnP p, c ∈ w) ↔ c ∈ cs ∧ p c = false := by
  induction cs with
  | nil => simp
  | cons d rest ih =>
    rw [List.splitOnP_cons_eq_if_modifyHead, List.mem_cons]
    cases hd : p d with
    | true =>
      have hne : p c = false → c ≠ d := by
        rintro hc rfl
        rw [hd] at hc
        cases hc
      simp only [if_true, List.mem_cons, exists_eq_or_imp, List.not_mem_nil, false_or, ih]
      exact ⟨fun ⟨hmem, hc⟩ => ⟨Or.inr hmem, hc⟩,
        fun ⟨hmem, hc⟩ => ⟨hmem.resolve_left (hne hc), hc⟩⟩
    | false =>
      rw [if_neg (by simp), exists_mem_modifyHead (List.splitOnP_ne_nil _ _), ih]
      constructor
      · rintro (rfl | ⟨hmem, hc⟩)
        · exact ⟨Or.inl rfl, hd⟩
        · exact ⟨Or.inr hmem, hc⟩
      · rintro ⟨rfl | hmem, hc⟩
        · exact Or.inl rfl
        · exact Or.inr ⟨hmem, hc⟩

theorem mem_of_mem_pieces (hw : w ∈ pieces p cs) (hc : c ∈ w) : c ∈ cs :=
  ((exists_mem_splitOnP_iff cs).1 ⟨w, (List.mem_filter.1 hw).1, hc⟩).1

/-- A character outside the class belongs to a piece. -/
theorem exists_mem_pieces (hc : c ∈ cs) (hp : p c = false) : ∃ w ∈ pieces p cs, c ∈ w := by
  obtain ⟨w, hw, hcw⟩ := (exists_mem_splitOnP_iff cs).2 ⟨hc, hp⟩
  refine ⟨w, List.mem_filter.2 ⟨hw, ?_⟩, hcw⟩
  simpa using List.ne_nil_of_mem hcw

/-- Only the characters of the text decide where it is cut. -/
theorem pieces_congr (h : ∀ c ∈ cs, p c = q c) : pieces p cs = pieces q cs := by
  have hsplit : cs.splitOnP p = cs.splitOnP q := by
    induction cs with
    | nil => rfl
    | cons d rest ih =>
      rw [List.splitOnP_cons_eq_if_modifyHead, List.splitOnP_cons_eq_if_modifyHead,
        h d List.mem_cons_self, ih fun c hc => h c (List.mem_cons_of_mem _ hc)]
  unfold pieces
  rw [hsplit]

/-! ## Classes of characters -/

theorem fold?_of_isAlphanum (h : c.isAlphanum = true) : fold? c = some c.toLower := if_pos h

theorem isSeparator_eq_false_of_isAlphanum (h : c.isAlphanum = true) : isSeparator c = false := by
  have hne : ∀ d : Char, d.isAlphanum = false → c ≠ d := by
    rintro d hd rfl
    rw [hd] at h
    cases h
  simp [isSeparator, isBlank_eq_false_of_isAlphanum h, hne '-' (by decide), hne '_' (by decide),
    hne '/' (by decide), hne '\x27' (by decide), hne '\u2019' (by decide)]

/-- What can be folded is a letter or a digit. -/
theorem isAlphanumeric_of_fold? (h : fold? c = some f) : isAlphanumeric c = true := by
  unfold fold? at h
  split at h
  · next hc => exact isAlphanumeric_of_isAlphanum hc
  · split at h <;> first | decide | cases h

/-- No separator is a letter or a digit. -/
theorem isAlphanumeric_of_isSeparator (h : isSeparator c = true) : isAlphanumeric c = false := by
  have hcodes : ∀ n ∈ [0x9, 0xA, 0xB, 0xC, 0xD, 0x20, 0x85, 0xA0, 0x1680, 0x2000, 0x2001, 0x2002,
      0x2003, 0x2004, 0x2005, 0x2006, 0x2007, 0x2008, 0x2009, 0x200A, 0x2028, 0x2029, 0x202F, 0x205F,
      0x3000, 0x2D, 0x5F, 0x2F, 0x27, 0x2019], isAlphanumeric (Char.ofNat n) = false := by
    decide +kernel
  have hcode := hcodes c.toNat
  rw [Char.ofNat_toNat] at hcode
  refine hcode ?_
  simp only [isSeparator, isBlank, Bool.or_eq_true, Bool.and_eq_true, decide_eq_true_eq,
    beq_iff_eq] at h
  simp only [List.mem_cons, List.not_mem_nil, or_false]
  rcases h with ((((h | rfl) | rfl) | rfl) | rfl) | rfl
  · omega
  all_goals decide

/-! ## Words -/

theorem clean_of_isAlphanum (h : ∀ c ∈ cs, c.isAlphanum = true) (last : Option Char) :
    clean last cs = cs.map Char.toLower := by
  induction cs generalizing last with
  | nil => rfl
  | cons c rest ih =>
    unfold clean
    simp only [fold?_of_isAlphanum (h c List.mem_cons_self), List.map_cons,
      ih fun d hd => h d (List.mem_cons_of_mem _ hd)]

theorem clean_eq_nil_iff (cs : List Char) : clean none cs = [] ↔ ∀ c ∈ cs, fold? c = none := by
  induction cs with
  | nil => simp [clean]
  | cons c rest ih =>
    unfold clean
    cases hc : fold? c with
    | some f => simp [hc]
    | none => simp [hc, ih]

/-- Nothing is left of a text if nothing of it can be folded. -/
theorem words_eq_nil_iff (s : String) : words s = [] ↔ ∀ c ∈ s.toList, fold? c = none := by
  have hpieces : words s = [] ↔
      ∀ w ∈ pieces isSeparator s.toList, clean none w = [] := by
    simp [words, wordLists, List.filter_eq_nil_iff]
  rw [hpieces]
  constructor
  · intro h c hc
    cases hsep : isSeparator c with
    | true =>
      have hletter := isAlphanumeric_of_isSeparator hsep
      cases hf : fold? c with
      | none => rfl
      | some f => rw [isAlphanumeric_of_fold? hf] at hletter; cases hletter
    | false =>
      obtain ⟨w, hw, hcw⟩ := exists_mem_pieces hc hsep
      exact (clean_eq_nil_iff w).1 (h w hw) c hcw
  · intro h w hw
    exact (clean_eq_nil_iff w).2 fun c hc => h c (mem_of_mem_pieces hw hc)

theorem normalize_eq_empty_iff (s : String) :
    normalize s = "" ↔ ∀ c ∈ s.toList, fold? c = none := by
  rw [← words_eq_nil_iff]
  constructor
  · intro h
    have htokens := tokens_normalize s
    rw [h] at htokens
    exact htokens.symm
  · intro h
    unfold normalize
    rw [h]
    rfl

/-! ## Lower case -/

theorem lowercase_of_isAlphanum (h : ∀ c ∈ cs, c.isAlphanum = true) :
    lowercase (String.ofList cs) = String.ofList (cs.map Char.toLower) := by
  have hfrom : ∀ before, lowerFrom before cs = cs.map Char.toLower := by
    induction cs with
    | nil => intro before; rfl
    | cons c rest ih =>
      intro before
      have hascii := (toNat_of_isAlphanum (h c List.mem_cons_self)).2
      have hsigma : c.toNat ≠ 0x3A3 := by omega
      unfold lowerFrom
      rw [if_neg hsigma, ih fun d hd => h d (List.mem_cons_of_mem _ hd)]
      unfold lowerChar
      rw [if_pos hascii]
      rfl
  unfold lowercase
  rw [String.toList_ofList, hfrom]

/-! ## Plain texts -/

/-- A text of ASCII letters and digits and of separators. -/
def IsPlain (s : String) : Prop :=
  ∀ c ∈ s.toList, c.isAlphanum = true ∨ isSeparator c = true

theorem IsPlain.isAlphanum_of_mem (h : IsPlain s) (hw : w ∈ pieces isSeparator s.toList) :
    ∀ c ∈ w, c.isAlphanum = true := by
  intro c hc
  rcases h c (mem_of_mem_pieces hw hc) with hletter | hsep
  · exact hletter
  · rw [not_of_mem_pieces hw c hc] at hsep
    cases hsep

/-- A letter or digit of a plain text is one of ASCII, so it is kept. -/
theorem IsPlain.isSome_fold? (h : IsPlain s) (hc : c ∈ s.toList)
    (hletter : isAlphanumeric c = true) : (fold? c).isSome = true := by
  rcases h c hc with hascii | hsep
  · rw [fold?_of_isAlphanum hascii]
    rfl
  · rw [isAlphanumeric_of_isSeparator hsep] at hletter
    cases hletter

/-- The words of a plain text are its pieces in lower case. -/
theorem IsPlain.words_eq (h : IsPlain s) :
    words s = (pieces isSeparator s.toList).map fun w => String.ofList (w.map Char.toLower) := by
  have hclean : (pieces isSeparator s.toList).map (clean none) =
      (pieces isSeparator s.toList).map (·.map Char.toLower) :=
    List.map_congr_left fun w hw => clean_of_isAlphanum (h.isAlphanum_of_mem hw) none
  have hkeep : ((pieces isSeparator s.toList).map (·.map Char.toLower)).filter (! ·.isEmpty) =
      (pieces isSeparator s.toList).map (·.map Char.toLower) := by
    rw [List.filter_eq_self]
    intro w hw
    obtain ⟨piece, hpiece, rfl⟩ := List.mem_map.1 hw
    simpa using mem_pieces_ne_nil hpiece
  unfold words wordLists
  rw [hclean, hkeep, List.map_map]
  rfl

/-- A word of ASCII letters and digits. -/
theorem words_of_isAlphanum (hne : cs ≠ []) (h : ∀ c ∈ cs, c.isAlphanum = true) :
    words (String.ofList cs) = [String.ofList (cs.map Char.toLower)] := by
  have hplain : IsPlain (String.ofList cs) := fun c hc => by
    rw [String.toList_ofList] at hc
    exact Or.inl (h c hc)
  rw [hplain.words_eq, String.toList_ofList,
    pieces_of_forall hne fun c hc => isSeparator_eq_false_of_isAlphanum (h c hc)]
  rfl

end PlayerCommands.Text
