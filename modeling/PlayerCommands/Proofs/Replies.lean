import PlayerCommands.Answer
import PlayerCommands.Proofs.Amounts
import PlayerCommands.Proofs.Questions

/-!
# What an answer can do

The four ways of reading an answer differ in what they look for, but what they can do to a pending
intent is little.  An answer fills its field, fills a direction beside the extent, picks one of the
options, is put again, or raises a question of its own: which of two names was meant, or what a
pronoun stands for.  Beside that it may bring an extent, or a number while the extent is missing.

    p.Replies field (p.reply scene line field)                                  (replies_reply)

Whatever holds of a pending intent from one line to the next is read off these cases.
-/

namespace PlayerCommands

namespace Pending

/-- What an answer may bring besides what it is asked for. -/
inductive Amends (p : Pending) : Field → Pending → Prop
  | nothing {field : Field} : Amends p field p
  | extent {e : Extent} (real : e.isEmpty = false) : Amends p .direction (p.takeExtent e)
  | number {field : Field} (asked : field = .direction ∨ field = .extent)
      (waiting : .extent ∈ p.missing) (number : String) : Amends p field (p.keepNumber number)

/-- The questions that an answer may raise. -/
inductive Raises (p next : Pending) : Field → Question Intent → Prop
  | pronoun {q : Question Intent} (missing : q.missing = [.target]) (options : q.options = []) :
      Raises p next .target q
  | close {field : Field} {q : Question Intent} (about : field = .direction ∨ field = .target)
      (missing : q.missing = [.choice]) (two : q.options.length = 2)
      (each : ∀ o ∈ q.options, o.verb = some p.verb ∧ o.quantity = none ∧
        (o.extent = none ∨ o.extent = next.extent))
      (named : ∀ o ∈ q.options, o.args ≠ []) : Raises p next field q
  | among {q : Question Intent} (missing : q.missing = [.choice]) (two : q.options.length = 2)
      (offered : ∀ o ∈ q.options, o ∈ p.options) : Raises p next .choice q

/-- All that an answer can do. -/
inductive Replies (p : Pending) : Field → Reply → Prop
  | direction {next : Pending} {score : Score} (amends : p.Amends .direction next) (name : String)
      (scored : 0 ≤ score) : Replies p .direction (.filled { next with args := [name] } score)
  | extent {e : Extent} (real : e.isEmpty = false) : Replies p .extent (.filled (p.takeExtent e) 1)
  | both {e : Extent} (waiting : .direction ∈ p.missing) (name : String)
      (real : e.isEmpty = false) : Replies p .extent
        (.filled ({ p.without .direction with args := [name] : Pending }.takeExtent e) 1)
  | target {args : List String} {score : Score} (scored : 0 ≤ score) (given : args ≠ []) :
      Replies p .target (.filled { p with args } score)
  | choice {option : Intent} (offered : option ∈ p.options) : Replies p .choice (.chosen option)
  | again {field : Field} {next : Pending} (amends : p.Amends field next) (prompt : String) :
      Replies p field (.again next prompt)
  | asks {field : Field} {next : Pending} {q : Question Intent} (amends : p.Amends field next)
      (raises : Raises p next field q) : Replies p field (.asks next q)

variable {p : Pending} {scene : Scene} {words : List String} {answer : String}

/-! ## Directions -/

theorem zero_le_of_found {name : String} {score : Score} {consumed : Nat}
    (h : (Name.Match.found name score consumed).IsSupported) : 0 ≤ score := by
  have hfloor : (0 : Score) ≤ matchFloor := by decide +kernel
  exact Score.le_trans hfloor h

theorem amends_takeAmounts (p : Pending) (words : List String) :
    p.Amends .direction (p.takeAmounts (Extent.scan words)) := by
  unfold takeAmounts
  split
  · next e he => exact .extent (Extent.isSound_scan words e he).1
  · next number _ _ =>
    split
    · next hmissing => exact .number (Or.inl rfl) (by simpa using hmissing) _
    · exact .nothing
  · exact .nothing

theorem replies_answerDirection (hgo : p.verb = .go) :
    p.Replies .direction (p.answerDirection words scene) := by
  have hamends := p.amends_takeAmounts words
  unfold answerDirection
  simp only
  split
  · next name score consumed hfound =>
    exact .direction hamends name (zero_le_of_found (scene.isSupported_of_map hfound))
  · next ranked hclose =>
    have htwo : 2 ≤ ranked.length := scene.isSupported_of_map hclose
    refine .asks hamends (.close (Or.inl rfl) rfl ?_ (fun o ho => ?_) fun o ho => ?_)
    · simp only [Argument.directionQuestion, Argument.closeQuestion, List.length_map,
        List.length_take]
      omega
    · obtain ⟨option, hoption, rfl⟩ := List.mem_map.mp ho
      obtain ⟨s, -, rfl⟩ := List.mem_map.mp hoption
      exact ⟨congrArg some hgo.symm, rfl, Or.inr rfl⟩
    · obtain ⟨option, hoption, rfl⟩ := List.mem_map.mp ho
      obtain ⟨s, -, rfl⟩ := List.mem_map.mp hoption
      exact List.cons_ne_nil _ _
  · exact .again hamends _
  · exact .again hamends _

/-! ## Extents -/

theorem replies_answerUnit (unit : String) : p.Replies .extent (p.answerUnit unit) := by
  unfold answerUnit
  split
  · exact .again .nothing _
  · split
    · next e he => exact .extent (Extent.isSound_scan _ e he).1
    · exact .again .nothing _

/-- The direction is filled in beside the extent only where one is missing. -/
theorem fillDirection_cases (p : Pending) (words : List String) (scene : Scene) :
    p.fillDirection words scene = p ∨
      .direction ∈ p.missing ∧
        ∃ name, p.fillDirection words scene = { p.without .direction with args := [name] } := by
  unfold fillDirection
  split
  · next hmissing =>
    split
    · next name _ _ _ => exact Or.inr ⟨by simpa using hmissing, name, rfl⟩
    · exact Or.inl rfl
  · exact Or.inl rfl

theorem replies_answerMeasure (hmissing : .extent ∈ p.missing) :
    p.Replies .extent (p.answerMeasure words scene) := by
  unfold answerMeasure
  simp only
  split
  · next e he =>
    have hreal := (Extent.isSound_scan words e he).1
    rcases fillDirection_cases p (Extent.scan words).rest scene with h | ⟨hdirection, name, h⟩
    · rw [h]
      exact .extent hreal
    · rw [h]
      exact .both hdirection name hreal
  · exact .again (.number (Or.inr rfl) hmissing _) _
  · exact .again .nothing _

theorem replies_answerExtent (hmissing : .extent ∈ p.missing) :
    p.Replies .extent (p.answerExtent words scene) := by
  unfold answerExtent
  split
  · split
    · exact replies_answerUnit _
    · exact replies_answerMeasure hmissing
  · exact replies_answerMeasure hmissing

/-! ## Choices -/

theorem mem_optionsAt {options : List Intent} {ranked : List (Scored Nat)} {o : Intent}
    (h : o ∈ optionsAt options ranked) : o ∈ options := by
  obtain ⟨s, -, hs⟩ := List.mem_filterMap.mp h
  exact List.mem_of_getElem? hs

theorem length_optionsAt {options : List Intent} {ranked : List (Scored Nat)}
    (h : ∀ s ∈ ranked, ∃ o, options[s.value]? = some o) :
    (optionsAt options ranked).length = ranked.length := by
  induction ranked with
  | nil => rfl
  | cons s rest ih =>
    obtain ⟨o, ho⟩ := h s List.mem_cons_self
    have hrest := ih fun t ht => h t (List.mem_cons_of_mem _ ht)
    have hcons : optionsAt options (s :: rest) = o :: optionsAt options rest :=
      List.filterMap_cons_some ho
    rw [hcons, List.length_cons, hrest, List.length_cons]

/-- Every place of a ranking is the place of an option. -/
theorem exists_of_mem_rankOptions {options : List Intent} {s : Scored Nat}
    (h : s ∈ rankOptions answer options) : ∃ o, options[s.value]? = some o := by
  unfold rankOptions Scored.ranking at h
  rw [Ranking.mem_sort] at h
  obtain ⟨⟨o, i⟩, hmem, hscore⟩ := List.mem_filterMap.mp h
  obtain ⟨score, -, rfl⟩ := Option.map_eq_some_iff.mp hscore
  exact ⟨o, List.mem_zipIdx_iff_getElem?.mp hmem⟩

theorem replies_answerChoice : p.Replies .choice (p.answerChoice answer) := by
  unfold answerChoice
  simp only
  split
  · exact .again .nothing _
  · split
    · split
      · next option hoption =>
        split at hoption
        · cases hoption
        · exact .choice (List.mem_of_getElem? hoption)
      · exact .again .nothing _
    · split
      · next hclose =>
        obtain ⟨first, second, rest, hranked⟩ := of_isCloseCall hclose
        refine .asks .nothing (.among rfl ?_ fun o ho => mem_optionsAt ho)
        have hplaces : ∀ s ∈ (rankOptions answer p.options).take 2,
            ∃ o, p.options[s.value]? = some o :=
          fun s hs => exists_of_mem_rankOptions (List.mem_of_mem_take hs)
        simp only
        rw [length_optionsAt hplaces, hranked]
        rfl
      · split
        · next option others hoption =>
          exact .choice (mem_optionsAt (hoption ▸ List.mem_cons_self))
        · exact .again .nothing _

/-! ## Targets -/

theorem replies_answerTarget : p.Replies .target (p.answerTarget words scene) := by
  unfold answerTarget
  simp only
  split
  · next question score hquestion =>
    refine .asks .nothing ?_
    cases Argument.isAboutName_of_resolve hquestion with
    | pronoun missing options =>
      refine .pronoun missing ?_
      simp [options]
    | close missing two each =>
      refine .close (Or.inr rfl) missing ?_ (fun o ho => ?_) fun o ho => ?_
      · simpa using two
      · obtain ⟨option, hoption, rfl⟩ := List.mem_map.mp ho
        obtain ⟨args, c, -, rfl⟩ := each option hoption
        exact ⟨rfl, rfl, Or.inl rfl⟩
      · obtain ⟨option, hoption, rfl⟩ := List.mem_map.mp ho
        obtain ⟨args, c, hargs, rfl⟩ := each option hoption
        exact List.append_ne_nil_of_right_ne_nil _ hargs
  · split
    · exact .again .nothing _
    · next hgiven =>
      refine .target (Argument.zero_le_resolve_score _ _ _) ?_
      exact List.append_ne_nil_of_right_ne_nil _ (by simpa using hgiven)

/-! ## Any field -/

/-- **An answer to the next field does nothing but what is listed.** -/
theorem replies_reply {field : Field} (line : String)
    (hgo : .direction ∈ p.missing → p.verb = .go) (hfield : field ∈ p.missing) :
    p.Replies field (p.reply scene line field) := by
  cases field with
  | direction => exact replies_answerDirection (hgo hfield)
  | extent => exact replies_answerExtent hfield
  | choice => exact replies_answerChoice
  | target => exact replies_answerTarget

end Pending

end PlayerCommands
