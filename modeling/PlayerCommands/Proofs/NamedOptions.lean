import PlayerCommands.Proofs.ExactNames
import PlayerCommands.Proofs.Options
import PlayerCommands.Proofs.Rejections

/-!
# Options by name

An option of a choice is picked by its number or by its name, and it makes no difference which.  The
label of an option names it exactly, and an exact match is far ahead of the start of another text and
of one with typos: such an option comes first in the ranking, and it is no close call.

    p.IsNameOf n text →
      rankOptions text p.options = ⟨n, exactScore⟩ :: rest            (IsNameOf.rankOptions_eq)
    p.next? = some .choice → p.IsNameOf n text →
      p.answer r scene text = p.answer r scene (toString (n + 1))     (answer_name_eq_answer_number)

All of this holds of any pending intent that waits for a choice, however its options came about.
-/

namespace PlayerCommands

/-! ## Scores of texts -/

namespace Score

variable {a m : Score} {l : List Score}

theorem max_of_lt {a b : Score} (h : a < b) : max a b = b := if_pos h

theorem max_of_not_lt {a b : Score} (h : ¬ a < b) : max a b = a := if_neg h

theorem max_eq_or (a b : Score) : max a b = a ∨ max a b = b := by
  by_cases h : a < b
  · exact Or.inr (max_of_lt h)
  · exact Or.inl (max_of_not_lt h)

theorem foldl_max_mem (a : Score) (l : List Score) : l.foldl max a ∈ a :: l := by
  induction l generalizing a with
  | nil => exact List.mem_cons_self
  | cons b rest ih =>
    rw [List.foldl_cons]
    rcases List.mem_cons.mp (ih (max a b)) with heq | hmem
    · rw [heq]
      rcases max_eq_or a b with h | h
      · rw [h]
        exact List.mem_cons_self
      · rw [h]
        exact List.mem_cons_of_mem _ List.mem_cons_self
    · exact List.mem_cons_of_mem _ (List.mem_cons_of_mem _ hmem)

/-- The greater one of two scores, of which one is `m` and the other is `m` or below. -/
theorem max_eq_of_below {a b : Score} (ha : a = m ∨ a < m) (hb : b = m ∨ b < m)
    (hmem : a = m ∨ b = m) : max a b = m := by
  rcases ha with rfl | ha
  · -- `b` is not above `a`, so `a` stays
    refine max_of_not_lt ?_
    rcases hb with rfl | hb
    · exact Rat.lt_irrefl
    · exact Rat.not_lt.mpr (Rat.le_of_lt hb)
  · obtain rfl := hmem.resolve_left fun heq => Rat.lt_irrefl (heq ▸ ha)
    exact max_of_lt ha

/-- The greatest score of a list, if the others are really below it. -/
theorem foldl_max_eq (hbelow : ∀ s ∈ a :: l, s = m ∨ s < m) (hmem : m ∈ a :: l) :
    l.foldl max a = m := by
  induction l generalizing a with
  | nil => exact (List.mem_singleton.mp hmem).symm
  | cons b rest ih =>
    have ha := hbelow a List.mem_cons_self
    have hb := hbelow b (List.mem_cons_of_mem _ List.mem_cons_self)
    rw [List.foldl_cons]
    refine ih (fun s hs => ?_) ?_
    · rcases List.mem_cons.mp hs with heq | hs
      · rcases max_eq_or a b with h | h
        · rw [heq, h]
          exact ha
        · rw [heq, h]
          exact hb
      · exact hbelow s (List.mem_cons_of_mem _ (List.mem_cons_of_mem _ hs))
    · rcases List.mem_cons.mp hmem with heq | hmem
      · rw [max_eq_of_below ha hb (Or.inl heq.symm)]
        exact List.mem_cons_self
      · rcases List.mem_cons.mp hmem with heq | hmem
        · rw [max_eq_of_below ha hb (Or.inr heq.symm)]
          exact List.mem_cons_self
        · exact List.mem_cons_of_mem _ hmem

end Score

namespace Name

variable {query other : String} {score : Score}

theorem IsRival.lt_exact (h : IsRival query other score) : score < exactScore := by
  have htypos : ∀ edits : Fin 4, typoScore edits < exactScore := by decide +kernel
  cases h with
  | start => decide +kernel
  | @typos edits few => exact htypos ⟨edits, Nat.lt_succ_of_le few⟩

/-- No rival comes near an exact match. -/
theorem IsRival.not_close (h : IsRival query other score) :
    ¬ exactScore - score ≤ tieMargin := by
  have htypos : ∀ edits : Fin 4, ¬ exactScore - typoScore edits ≤ tieMargin := by decide +kernel
  cases h with
  | start => decide +kernel
  | @typos edits few => exact htypos ⟨edits, Nat.lt_succ_of_le few⟩

end Name

namespace Pending

variable {r : Registry} {scene : Scene} {p : Pending} {answer text : String} {option : Intent}
  {options : List Intent} {score : Score} {s : Scored Nat} {n : Nat}

/-! ## Scores of options -/

/-- An option that goes by the answer word for word has the full score. -/
theorem optionScore?_of_mem (hmem : answer ∈ optionTexts option) (hne : answer ≠ "") :
    optionScore? answer option = some Name.exactScore := by
  have hexact : Name.exactScore ∈ (optionTexts option).filterMap (Name.score? answer) :=
    List.mem_filterMap.mpr ⟨answer, hmem, Name.score?_self hne⟩
  have hbelow : ∀ s ∈ (optionTexts option).filterMap (Name.score? answer),
      s = Name.exactScore ∨ s < Name.exactScore := by
    intro s hs
    obtain ⟨other, -, hscore⟩ := List.mem_filterMap.mp hs
    by_cases heq : answer = other
    · subst heq
      rw [Name.score?_self hne] at hscore
      exact Or.inl (Option.some.inj hscore).symm
    · exact Or.inr (Name.isRival_of_score? hscore heq).lt_exact
  unfold optionScore?
  cases htexts : (optionTexts option).filterMap (Name.score? answer) with
  | nil =>
    rw [htexts] at hexact
    cases hexact
  | cons first rest =>
    rw [htexts] at hexact hbelow
    exact congrArg some (Score.foldl_max_eq hbelow hexact)

/-- Any other option is a rival at best. -/
theorem isRival_of_optionScore? (hmem : answer ∉ optionTexts option)
    (h : optionScore? answer option = some score) : ∃ other, Name.IsRival answer other score := by
  unfold optionScore? at h
  split at h
  · cases h
  · next first rest htexts =>
    obtain rfl := Option.some.inj h
    have hbest := Score.foldl_max_mem first rest
    rw [← htexts] at hbest
    obtain ⟨other, hother, hscore⟩ := List.mem_filterMap.mp hbest
    exact ⟨other, Name.isRival_of_score? hscore fun heq => hmem (heq ▸ hother)⟩

theorem mem_rankOptions_iff : s ∈ rankOptions answer options ↔
    ∃ option, options[s.value]? = some option ∧ optionScore? answer option = some s.score := by
  unfold rankOptions Scored.ranking
  rw [Ranking.mem_sort, List.mem_filterMap]
  constructor
  · rintro ⟨⟨option, i⟩, hmem, hscored⟩
    obtain ⟨score, hscore, rfl⟩ := Option.map_eq_some_iff.mp hscored
    exact ⟨option, List.mem_zipIdx_iff_getElem?.mp hmem, hscore⟩
  · rintro ⟨option, hoption, hscore⟩
    exact ⟨(option, s.value), List.mem_zipIdx_iff_getElem?.mpr hoption,
      Option.map_eq_some_iff.mpr ⟨s.score, hscore, rfl⟩⟩

/-! ## Names of options -/

/-- A text that is the label of the option at place `n`, in normal form, and says nothing else: it
drops no question, it is no number, and no other option goes by it. -/
structure IsNameOf (p : Pending) (n : Nat) (text : String) : Prop where
  label : (p.options[n]?).map Intent.label = some text
  nonempty : text ≠ ""
  normal : Text.normalize text = text
  continues : isCancel text = false
  wordy : position? text = none
  own : ∀ m o, p.options[m]? = some o → m ≠ n →
    text ≠ o.label ∧ text ≠ o.normalized ∧ o.verb.map Verb.name ≠ some text

/-- The label of an option is one of the texts that it goes by. -/
theorem label_mem_optionTexts (option : Intent) : option.label ∈ optionTexts option := by
  unfold Intent.label optionTexts
  split
  · exact List.mem_cons_of_mem _ List.mem_cons_self
  · exact List.mem_cons_self

/-- What an option goes by is its label, its command text or the name of its verb. -/
theorem of_mem_optionTexts (hmem : text ∈ optionTexts option) (hne : text ≠ "") :
    text = option.label ∨ text = option.normalized ∨ option.verb.map Verb.name = some text := by
  simp only [optionTexts, List.mem_cons, List.not_mem_nil, or_false] at hmem
  rcases hmem with hargs | hnormalized | hverb
  · have hsome : option.args.isEmpty = false := by
      cases hnil : option.args with
      | nil =>
        rw [hnil] at hargs
        exact absurd hargs hne
      | cons first rest => rfl
    left
    unfold Intent.label
    rw [hsome]
    exact hargs
  · exact Or.inr (Or.inl hnormalized)
  · right; right
    cases hv : option.verb with
    | none =>
      rw [hv] at hverb
      exact absurd hverb hne
    | some v =>
      rw [hv] at hverb
      exact congrArg some hverb.symm

/-- **A named option leads the ranking**, and all others are rivals of its name at best. -/
theorem IsNameOf.rankOptions_eq (h : p.IsNameOf n text) :
    ∃ rest, rankOptions text p.options = ⟨n, Name.exactScore⟩ :: rest ∧
      ∀ s ∈ rest, ∃ other, Name.IsRival text other s.score := by
  obtain ⟨option, hoption, hlabel⟩ := Option.map_eq_some_iff.mp h.label
  have hleader : (⟨n, Name.exactScore⟩ : Scored Nat) ∈ rankOptions text p.options :=
    mem_rankOptions_iff.mpr ⟨option, hoption,
      optionScore?_of_mem (hlabel ▸ label_mem_optionTexts option) h.nonempty⟩
  have hrivals : ∀ s ∈ rankOptions text p.options, s.value ≠ n →
      ∃ other, Name.IsRival text other s.score := by
    intro s hs hplace
    obtain ⟨o, ho, hscore⟩ := mem_rankOptions_iff.mp hs
    obtain ⟨hlabel, hnormalized, hverb⟩ := h.own s.value o ho hplace
    refine isRival_of_optionScore? (fun hmem => ?_) hscore
    rcases of_mem_optionTexts hmem h.nonempty with heq | heq | heq
    · exact hlabel heq
    · exact hnormalized heq
    · exact hverb heq
  have hordered : (rankOptions text p.options).Pairwise fun a b => b.score ≤ a.score :=
    Scored.pairwise_ranking _
  obtain ⟨rest, hranked, hothers, -⟩ := Scored.exists_cons_of_leader hordered
    (nodup_rankOptions text p.options) hleader fun s hs hplace => by
      obtain ⟨other, hrival⟩ := hrivals s hs hplace
      exact hrival.lt_exact
  refine ⟨rest, hranked, fun s hs => hrivals s ?_ (hothers s hs)⟩
  rw [hranked]
  exact List.mem_cons_of_mem _ hs

/-- So a name picks its option. -/
theorem IsNameOf.answerChoice_eq (h : p.IsNameOf n text) (hoption : p.options[n]? = some option) :
    p.answerChoice text = .chosen option := by
  obtain ⟨rest, hranked, hrivals⟩ := h.rankOptions_eq
  have hoptions : p.options.isEmpty = false :=
    List.isEmpty_eq_false_iff.mpr (List.ne_nil_of_mem (List.mem_of_getElem? hoption))
  have hclear : isCloseCall (rankOptions text p.options)
      (fun second => decide (tieFloor ≤ second)) = false := by
    rw [hranked]
    cases rest with
    | nil => rfl
    | cons second others =>
      obtain ⟨other, hrival⟩ := hrivals second List.mem_cons_self
      exact Bool.and_eq_false_imp.mpr fun hmargin =>
        absurd (of_decide_eq_true hmargin) hrival.not_close
  have hfirst : optionsAt p.options ((rankOptions text p.options).take 1) = [option] := by
    rw [hranked]
    exact List.filterMap_cons_some hoption
  unfold answerChoice
  simp only [hoptions, h.wordy, hclear, hfirst, Bool.false_eq_true, if_false]

/-! ## Answers -/

/-- **Choosing by name is choosing by number**: both take the option that the label names, whatever
the other options nearly are called.  The list is one whose places can all be counted. -/
theorem answer_name_eq_answer_number (hnext : p.next? = some .choice) (h : p.IsNameOf n text)
    (hcount : p.options.length ≤ greatestPosition) (r : Registry) (scene : Scene) :
    p.answer r scene text = p.answer r scene (toString (n + 1)) ∧
      ∃ option, p.options[n]? = some option ∧
        p.answer r scene text = (p.choose option).finish r 1 := by
  obtain ⟨option, hoption, -⟩ := Option.map_eq_some_iff.mp h.label
  obtain ⟨hplace, -⟩ := List.getElem?_eq_some_iff.mp hoption
  have hname : p.answer r scene text = (p.choose option).finish r 1 := by
    refine answer_of_chosen hnext ?_ ?_ r scene
    · rw [h.normal, h.continues]
    · rw [h.normal, h.answerChoice_eq hoption]
  have hnumber : p.answer r scene (toString (n + 1)) = (p.choose option).finish r 1 :=
    answer_position hnext (Nat.succ_pos n) (Nat.le_trans hplace hcount) hoption r scene
  exact ⟨hname.trans hnumber.symm, option, hoption, hname⟩

/-- The name of the first thing starts that of the second one, and the third one is a typo away. -/
theorem answer_name_eq_answer_number_stick :
    let p : Pending :=
      { kind := .command, verb := .take, missing := [.choice], prompt := "Take what?",
        options := Question.optionsFor .take ["stick", "stick house", "sticks", "stack"] 1 }
    p.next? = some .choice ∧ p.IsNameOf 0 "stick" ∧ p.options.length ≤ greatestPosition ∧
      p.answer Registry.empty {} "stick" = p.answer Registry.empty {} (toString (0 + 1)) ∧
      ∃ i, p.answer Registry.empty {} "stick" = .resolved i ∧ i.verb = some .take ∧
        i.args = ["stick"] := by
  intro p
  have hname : p.IsNameOf 0 "stick" := by
    refine ⟨rfl, by decide, by decide, by decide, by decide, fun m o ho hm => ?_⟩
    rcases m with _ | _ | _ | _ | m
    · exact absurd rfl hm
    · cases ho; decide
    · cases ho; decide
    · cases ho; decide
    · cases ho
  have hcount : p.options.length ≤ greatestPosition := by decide
  obtain ⟨hsame, option, hoption, hanswer⟩ :=
    answer_name_eq_answer_number rfl hname hcount Registry.empty {}
  cases hoption
  exact ⟨rfl, hname, hcount, hsame, _, hanswer, rfl, rfl⟩

end Pending

end PlayerCommands
