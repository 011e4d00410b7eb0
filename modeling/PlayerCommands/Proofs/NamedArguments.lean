import PlayerCommands.Proofs.ArgumentBlocks
import PlayerCommands.Proofs.ExtractedQuantities
import PlayerCommands.Proofs.Frame
import PlayerCommands.Proofs.InferredVerb
import PlayerCommands.Proofs.Retention
import PlayerCommands.Proofs.ScannedWords

/-!
# Arguments name something

No argument is ever empty.  It is a word of a line, the name of a direction, the normal name of a
thing at hand, or what a pronoun stands for, and an entry whose normal form is empty is none of
these.  The same holds of the options of every question, so no dialogue makes an empty argument.

    (r.interpret scene line).IsNamed                                            (isNamed_interpret)
    s.Arises → i ∈ s.accepted → "" ∉ i.args                              (named_of_mem_accepted)

A session arises from the start by lines, each with some registry, while the host may set the scene
anew or drop what is being asked.
-/

namespace PlayerCommands

/-! ## Names -/

theorem Text.ne_empty_of_mem_words {s word : String} (h : word ∈ words s) : word ≠ "" := by
  obtain ⟨w, hw, rfl⟩ := List.mem_map.mp h
  intro hempty
  have hnil := congrArg String.toList hempty
  rw [String.toList_ofList] at hnil
  exact (of_mem_wordLists hw).1 hnil

namespace Name

/-- A match of names none of which is empty. -/
def Match.IsNamed : Match → Prop
  | .found name _ _ => name ≠ ""
  | .ambiguous ranked => ∀ s ∈ ranked, s.value ≠ ""
  | .none => True

/-- An empty name is matched by nothing. -/
theorem value_ne_empty {query : String} {candidates : List (String × Score)} {s : Scored String}
    (h : s ∈ rank query candidates) : s.value ≠ "" := by
  obtain ⟨c, -, hc⟩ := mem_rank h
  rw [value_of_boosted? hc]
  obtain ⟨score, hscore, -⟩ := Option.bind_eq_some_iff.mp hc
  intro hempty
  rw [hempty] at hscore
  unfold score? at hscore
  simp at hscore

theorem Match.isNamed_ofRanking {consumed : Nat} {counts : Score → Bool}
    {ranked : List (Scored String)} (h : ∀ s ∈ ranked, s.value ≠ "") :
    (Match.ofRanking consumed counts ranked).IsNamed := by
  unfold Match.ofRanking
  split
  · exact h
  · cases ranked with
    | nil => trivial
    | cons top rest => exact h top List.mem_cons_self

end Name

theorem Scene.isNamed_resolveDirection (s : Scene) (word : String) :
    (s.resolveDirection word).IsNamed := by
  unfold Scene.resolveDirection
  split
  · next d _ =>
    show d.name ≠ ""
    cases d <;> decide
  · exact Name.Match.isNamed_ofRanking fun _ => Name.value_ne_empty

theorem EntityPools.isNamed_resolve (p : EntityPools) (word : String) (next? : Option String) :
    (p.resolve word next?).IsNamed := by
  unfold resolve
  split
  · trivial
  · split
    · next found htwo =>
      obtain ⟨next, -, hfound⟩ := Option.bind_eq_some_iff.mp htwo
      unfold resolveTwo? at hfound
      simp only at hfound
      split at hfound
      · next top rest hrank =>
        obtain ⟨-, heq⟩ := Option.ite_none_right_eq_some.mp hfound
        cases heq
        exact Name.value_ne_empty (hrank ▸ List.mem_cons_self)
      · cases hfound
    · exact Name.Match.isNamed_ofRanking fun _ => Name.value_ne_empty

/-! ## Arguments -/

/-- No option of the question has an empty argument. -/
def Question.IsNamed (q : Question Intent) : Prop := ∀ o ∈ q.options, "" ∉ o.args

theorem Question.isNamed_of_nil {q : Question Intent} (h : q.options = []) : q.IsNamed := by
  intro o ho
  rw [h] at ho
  cases ho

namespace Argument

variable {verb : Verb} {scene : Scene} {args words : List String} {word : String}
  {next? : Option String}

/-- What a place contributes is no empty argument and no option with one. -/
def Reading.IsNamed : Reading → Prop
  | .resolved arg _ _ => arg ≠ ""
  | .unclear q _ => q.IsNamed
  | _ => True

theorem isNamed_closeQuestion (prompt : List String → String) {option : String → List String}
    (verb : Verb) {ranked : List (Scored String)} (h : ∀ s ∈ ranked, "" ∉ option s.value) :
    (closeQuestion prompt option verb ranked).IsNamed := by
  intro o ho
  obtain ⟨s, hs, rfl⟩ := List.mem_map.mp ho
  exact h s (List.mem_of_mem_take hs)

theorem Reading.isNamed_ofMatch {ask : List (Scored String) → Question Intent} {m : Name.Match}
    (hm : m.IsNamed) (hask : ∀ ranked, (∀ s ∈ ranked, s.value ≠ "") → (ask ranked).IsNamed) :
    (Reading.ofMatch ask m).IsNamed := by
  cases m with
  | found name score consumed => exact hm
  | ambiguous ranked => exact hask ranked hm
  | none => trivial

theorem isNamed_directionQuestion {ranked : List (Scored String)}
    (h : ∀ s ∈ ranked, s.value ≠ "") : (directionQuestion ranked).IsNamed := by
  refine isNamed_closeQuestion _ _ fun s hs => ?_
  simpa using (h s hs).symm

theorem Reading.isNamed_of (hargs : "" ∉ args) :
    (Reading.of verb scene args word next?).IsNamed := by
  have hstands := stands verb scene args word next?
  generalize Reading.of verb scene args word next? = reading at hstands ⊢
  cases hstands with
  | article | literal => trivial
  | pronoun hword hname => exact (Scene.of_referent? hname).1
  | unknown => exact Question.isNamed_of_nil rfl
  | direction =>
    exact isNamed_ofMatch (scene.isNamed_resolveDirection word) fun _ h =>
      isNamed_directionQuestion h
  | thing =>
    refine isNamed_ofMatch (EntityPools.isNamed_resolve _ word next?) fun ranked h => ?_
    refine isNamed_closeQuestion _ _ fun s hs => ?_
    simpa [hargs] using (h s hs).symm

/-- The arguments are not empty, and neither are those of the question that interrupts them. -/
structure Resolution.IsNamed (r : Resolution) : Prop where
  args : "" ∉ r.args
  question : ∀ q c, r.question = some (q, c) → q.IsNamed

theorem Progress.Ends.isNamed {p : Progress} {r : Resolution} (h : p.Ends verb scene r)
    (hargs : "" ∉ p.args) : r.IsNamed := by
  cases h with
  | done => exact ⟨hargs, nofun⟩
  | @asked word next? question confidence hreading =>
    have hnamed : (Reading.of verb scene p.args word next?).IsNamed := Reading.isNamed_of hargs
    rw [hreading] at hnamed
    refine ⟨hargs, fun q c hq => ?_⟩
    cases hq
    exact hnamed

theorem isNamed_resolve (verb : Verb) (scene : Scene) (hwords : "" ∉ words) :
    (resolve verb words scene).IsNamed := by
  have hresolved (q : Progress) (word : String) (next? : Option String) (arg : String)
      (score : Score) (consumed : Nat)
      (hreading : Reading.of verb scene q.args word next? = .resolved arg score consumed)
      (hargs : "" ∉ q.args) : "" ∉ (q.push arg score).args := by
    have harg : (Reading.of verb scene q.args word next?).IsNamed := Reading.isNamed_of hargs
    rw [hreading] at harg
    simpa [Progress.push, hargs] using Ne.symm harg
  have hliteral (q : Progress) (word : String) (hmem : word ∈ words) (hargs : "" ∉ q.args) :
      "" ∉ (q.pushLiteral word).args := by
    have hword : "" ≠ word := fun hempty => hwords (hempty ▸ hmem)
    simpa [Progress.pushLiteral, hargs] using hword
  obtain ⟨stop, hargs, hends⟩ :=
    exists_ends_resolveFrom (p := {}) hresolved hliteral List.not_mem_nil 0
  exact hends.isNamed hargs

end Argument

/-! ## Words of a line -/

/-- The words behind a verb are words of the line. -/
theorem Registry.rest_subset {r : Registry} {scene : Scene} {words : List String}
    {reading : Reading} (h : r.readVerb? scene words = some reading) : reading.rest ⊆ words := by
  unfold readVerb? at h
  simp only at h
  split at h
  · cases h
    exact List.drop_subset _ _
  · next found _ hfound =>
    cases h
    exact (Inference.strict_of_infer? (Option.filter_eq_some_iff.mp hfound).1).1.subset
  · cases h

/-- The words beside the amounts are words of the line. -/
theorem Amounts.rest_subset (verb : Verb) (words : List String) :
    (Amounts.of verb words).rest ⊆ words := by
  by_cases hgo : verb = .go
  · subst hgo
    exact (Extent.rest_scan_sublist words).subset
  · rw [of_ne_go hgo]
    exact (Quantity.rest_extract_sublist words).subset

/-! ## Interpreted lines -/

theorem Question.isNamed_missingTarget (verb : Verb) (minArgs : Nat) (scene : Scene) :
    (missingTarget verb minArgs scene).IsNamed := by
  have htargets : "" ∉ targetsFor verb scene := by
    unfold targetsFor
    split
    · exact fun hmem => (mem_normalNames.mp hmem).1 rfl
    · exact List.not_mem_nil
  unfold missingTarget
  split
  · exact isNamed_of_nil rfl
  · intro o ho
    obtain ⟨name, hname, rfl⟩ := List.mem_map.mp ho
    intro hempty
    rw [List.mem_singleton.mp hempty] at htargets
    exact htargets (List.mem_of_mem_take hname)

namespace Intent

/-- No argument is empty, and none of an option that is offered. -/
structure IsNamed (i : Intent) : Prop where
  args : "" ∉ i.args
  question : ∀ q, i.clarify = some q → q.IsNamed

variable {i : Intent} {verb : Verb} {reading : Reading} {command : Command} {scene : Scene}
  {amounts : Amounts} {asked : Option (Question Intent × Score)} {argScore : Score}

theorem IsNamed.ask (h : "" ∉ i.args) {q : Question Intent} (hq : q.IsNamed) (c : Score) :
    (i.ask q c).IsNamed := by
  refine ⟨h, fun q' hq' => ?_⟩
  cases hq'
  exact hq

theorem IsNamed.askDue (h : i.IsNamed) (hclarify : i.clarify = none)
    (hasked : ∀ q c, asked = some (q, c) → q.IsNamed) :
    (i.askDue verb command scene amounts asked).IsNamed := by
  unfold Intent.askDue
  split
  · next q c => exact .ask h.args (hasked q c rfl) c
  · split
    · refine ⟨?_, fun q hq => Question.isNamed_of_nil (options_askMovement hclarify hq)⟩
      rcases i.askMovement_eq_or amounts.bareNumber with heq | ⟨q, c, heq⟩ <;> rw [heq]
      · exact h.args
      · exact h.args
    · split
      · exact .ask h.args (Question.isNamed_missingTarget _ _ _) _
      · exact h

theorem IsNamed.askIfUnclear (h : i.IsNamed) (hclarify : i.clarify = none)
    (hasked : ∀ q c, asked = some (q, c) → q.IsNamed) :
    (i.askIfUnclear reading command scene amounts asked argScore).IsNamed := by
  have hdue : (i.askDue reading.verb command scene amounts asked).IsNamed :=
    h.askDue hclarify hasked
  unfold Intent.askIfUnclear
  simp only
  split
  · refine .ask hdue.args (fun o ho => ?_) _
    rcases List.mem_cons.mp ho with rfl | ho
    · exact hdue.args
    · obtain ⟨m, -, rfl⟩ := List.mem_map.mp ho
      exact hdue.args
  · exact hdue

theorem IsNamed.shareAmounts (h : i.IsNamed) : i.shareAmounts.IsNamed := by
  refine ⟨h.args, fun q hq => ?_⟩
  obtain ⟨q', hq', rfl⟩ := Option.map_eq_some_iff.mp hq
  intro o ho
  obtain ⟨option, hoption, rfl⟩ := List.mem_map.mp ho
  rw [inherit_args]
  exact h.question q' hq' option hoption

end Intent

/-- **No line has an empty argument**, and none is offered one. -/
theorem Registry.isNamed_interpret (r : Registry) (scene : Scene) (line : String) :
    (r.interpret scene line).IsNamed := by
  have hunmapped (i : Intent) (hi : i.args = []) :
      (i.ask Question.unmapped Confidence.unmapped).IsNamed :=
    .ask (hi ▸ List.not_mem_nil) (Question.isNamed_of_nil rfl) _
  unfold interpret
  simp only
  split
  · exact hunmapped _ rfl
  · next reading hreading =>
    split
    · exact hunmapped _ rfl
    · next command _ =>
      have hline : "" ∉ Text.words line := fun hmem => Text.ne_empty_of_mem_words hmem rfl
      have hwords : "" ∉ (Amounts.of reading.verb reading.rest).rest := fun hmem =>
        hline (rest_subset hreading (Amounts.rest_subset _ _ hmem))
      have hresolution := Argument.isNamed_resolve reading.verb scene hwords
      rw [buildIntent_eq]
      have hdraft : (draftIntent scene (Intent.unresolved line (Text.normalize line)) reading
          command).IsNamed :=
        ⟨fun hmem => hresolution.args (List.mem_of_mem_take hmem), fun _ hq => by cases hq⟩
      exact (hdraft.askIfUnclear rfl hresolution.question).shareAmounts

/-! ## Answers -/

/-- No argument is empty, and none of an option. -/
structure Pending.IsNamed (p : Pending) : Prop where
  args : "" ∉ p.args
  options : ∀ o ∈ p.options, "" ∉ o.args

/-- Nothing that a reply leaves or brings is empty. -/
def Reply.IsNamed : Reply → Prop
  | .filled next _ => next.IsNamed
  | .chosen option => "" ∉ option.args
  | .again next _ => next.IsNamed
  | .asks next question => next.IsNamed ∧ question.IsNamed

/-- Nothing that an answer leads to is empty. -/
def Outcome.IsNamed : Outcome → Prop
  | .resolved i => "" ∉ i.args
  | .awaitingMore q | .retry q | .escalated q => q.IsNamed
  | .cancelled => True

namespace Pending

variable {scene : Scene} {words : List String} {p : Pending}

theorem IsNamed.direct (h : p.IsNamed) {name : String} (hname : name ≠ "") :
    IsNamed { p with args := [name] } :=
  ⟨by simpa using hname.symm, h.options⟩

theorem IsNamed.amends {next : Pending} {field : Field} (h : p.IsNamed)
    (ha : p.Amends field next) : next.IsNamed := by
  cases ha <;> exact ⟨h.args, h.options⟩

/-- A direction that was found is not empty. -/
theorem ne_empty_of_direction {words : List String} {name : String} {score : Score} {consumed : Nat}
    (h : (words.find? (! isFiller ·)).map scene.resolveDirection =
      some (.found name score consumed)) : name ≠ "" := by
  obtain ⟨word, -, hword⟩ := Option.map_eq_some_iff.mp h
  have hnamed := scene.isNamed_resolveDirection word
  rwa [hword] at hnamed

theorem IsNamed.answerDirection (h : p.IsNamed) : (p.answerDirection words scene).IsNamed := by
  have hp := h.amends (p.amends_takeAmounts words)
  unfold Pending.answerDirection
  simp only
  split
  · next name score consumed hfound => exact hp.direct (ne_empty_of_direction hfound)
  · next ranked hclose =>
    obtain ⟨word, -, hword⟩ := Option.map_eq_some_iff.mp hclose
    have hnamed := scene.isNamed_resolveDirection word
    rw [hword] at hnamed
    refine ⟨hp, fun o ho => ?_⟩
    obtain ⟨option, hoption, rfl⟩ := List.mem_map.mp ho
    exact Argument.isNamed_directionQuestion hnamed option hoption
  · exact hp
  · exact hp

theorem IsNamed.answerMeasure (h : p.IsNamed) : (p.answerMeasure words scene).IsNamed := by
  unfold Pending.answerMeasure
  simp only
  split
  · have hfilled : (p.fillDirection (Extent.scan words).rest scene).IsNamed := by
      unfold fillDirection
      split
      · split
        · next name score consumed hfound =>
          have hrest : (p.without .direction).IsNamed := ⟨h.args, h.options⟩
          exact hrest.direct (ne_empty_of_direction hfound)
        · exact h
      · exact h
    exact ⟨hfilled.args, hfilled.options⟩
  · exact ⟨h.args, h.options⟩
  · exact h

theorem IsNamed.answerExtent (h : p.IsNamed) : (p.answerExtent words scene).IsNamed := by
  unfold Pending.answerExtent
  split
  · split
    · unfold answerUnit
      split
      · exact h
      · split
        · exact ⟨h.args, h.options⟩
        · exact h
    · exact h.answerMeasure
  · exact h.answerMeasure

theorem IsNamed.answerChoice (h : p.IsNamed) (answer : String) :
    (p.answerChoice answer).IsNamed := by
  have hreply : p.Replies .choice (p.answerChoice answer) := replies_answerChoice
  generalize p.answerChoice answer = reply at hreply
  cases hreply with
  | choice offered => exact h.options _ offered
  | again amends => exact h.amends amends
  | asks amends raises =>
    refine ⟨h.amends amends, fun o ho => ?_⟩
    cases raises with
    | close about =>
      rcases about with habout | habout <;> cases habout
    | among missing two offered => exact h.options o (offered o ho)

theorem IsNamed.answerTarget (h : p.IsNamed) (hwords : "" ∉ words) :
    (p.answerTarget words scene).IsNamed := by
  have hresolution := Argument.isNamed_resolve p.verb scene hwords
  unfold Pending.answerTarget
  simp only
  split
  · next question score hquestion =>
    refine ⟨h, fun o ho => ?_⟩
    obtain ⟨option, hoption, rfl⟩ := List.mem_map.mp ho
    have hoption := hresolution.question question score hquestion option hoption
    exact fun hmem => (List.mem_append.mp hmem).elim h.args hoption
  · split
    · exact h
    · exact ⟨fun hmem => (List.mem_append.mp hmem).elim h.args hresolution.args, h.options⟩

theorem IsNamed.reply (h : p.IsNamed) (scene : Scene) (line : String) (field : Field) :
    (p.reply scene line field).IsNamed := by
  have hwords : "" ∉ Text.words line := fun hmem => Text.ne_empty_of_mem_words hmem rfl
  cases field with
  | direction => exact h.answerDirection
  | extent => exact h.answerExtent
  | choice => exact h.answerChoice _
  | target => exact h.answerTarget hwords

theorem IsNamed.finish (h : p.IsNamed) (r : Registry) (score : Score) :
    (p.finish r score).IsNamed := by
  rcases p.finish_cases r score with ⟨field, -, heq⟩ | ⟨-, heq⟩
  · rw [heq]
    exact ⟨h.args, h.options⟩
  · rw [heq]
    cases r.command? p.verb with
    | some command => exact fun hmem => h.args (List.mem_of_mem_take hmem)
    | none => exact h.args

/-- **No dialogue makes an empty argument.** -/
theorem IsNamed.answer (h : p.IsNamed) (r : Registry) (scene : Scene) (line : String) :
    (p.answer r scene line).IsNamed := by
  unfold Pending.answer
  split
  · trivial
  · split
    · exact h.finish r 1
    · next field _ =>
      have hreply := h.reply scene line field
      generalize p.reply scene line field = reply at hreply
      cases reply with
      | filled next score =>
        have hfilled : (next.without field).IsNamed := ⟨hreply.args, hreply.options⟩
        exact hfilled.finish r score
      | chosen option =>
        have hchosen : (p.choose option).IsNamed := ⟨hreply, fun _ ho => by cases ho⟩
        exact hchosen.finish r 1
      | again next prompt => exact ⟨hreply.args, hreply.options⟩
      | asks next question => exact ⟨hreply.1.args, hreply.2⟩

end Pending

/-! ## Sessions -/

namespace Session

variable {r : Registry} {s : Session} {i : Intent}

theorem isKept_isNamed (r : Registry) : IsKept r Pending.IsNamed fun i => "" ∉ i.args where
  asked {scene line p} hp := by
    obtain ⟨-, -, hargs, -, q, hq, -, hoptions⟩ := Pending.of_ofIntent? hp
    have hnamed := r.isNamed_interpret scene line
    exact ⟨hargs ▸ hnamed.args, hoptions ▸ hnamed.question q hq⟩
  clear {scene line} _ := (r.isNamed_interpret scene line).args
  left {scene line p q} hp hq := by
    have hanswer := hp.answer r scene line
    generalize p.answer r scene line = outcome at hanswer hq
    cases outcome <;> cases hq <;> exact hanswer
  resolved {scene line p i} hp hi := by
    have hanswer := hp.answer r scene line
    rwa [hi] at hanswer
  confirmed hi := hi

/-- A session that may come about. -/
inductive Arises : Session → Prop
  | start (scene : Scene) : Arises { scene }
  | line {s : Session} (r : Registry) (line : String) (hs : Arises s) :
      Arises (s.handleLine r line).session
  /-- The host sets the scene anew. -/
  | scene {s : Session} (scene : Scene) (hs : Arises s) : Arises { s with scene }
  /-- The host drops what is being asked. -/
  | interrupted {s : Session} (hs : Arises s) : Arises { s with pending := none, confirming := none }

theorem named_of_arises (h : s.Arises) : s.Holds Pending.IsNamed fun i => "" ∉ i.args := by
  induction h with
  | start scene =>
    exact ⟨fun _ hp => (by cases hp), fun _ hi => (by cases hi), fun _ hi => (by cases hi)⟩
  | line r line hs ih => exact holds_handleLine (isKept_isNamed r) ih line
  | scene scene hs ih => exact ⟨ih.pending, ih.confirming, ih.accepted⟩
  | interrupted hs ih => exact ⟨fun _ hp => (by cases hp), fun _ hi => (by cases hi), ih.accepted⟩

/-- **No accepted intent has an empty argument.** -/
theorem named_of_mem_accepted (h : s.Arises) (hi : i ∈ s.accepted) : "" ∉ i.args :=
  (named_of_arises h).accepted i hi

theorem asksOnce_of_arises (h : s.Arises) : s.AsksOnce := by
  induction h with
  | start scene => exact Or.inl rfl
  | line r line hs ih => exact asksOnce_handleLine r ih line
  | scene scene hs ih => exact ih
  | interrupted hs ih => exact Or.inl rfl

end Session

end PlayerCommands
