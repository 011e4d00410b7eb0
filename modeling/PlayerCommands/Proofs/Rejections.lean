import PlayerCommands.Proofs.Dialogue

/-!
# Answers that settle nothing

An answer that does not fit is rejected, and one that is unclear raises a question of its own.
Neither disturbs what is settled: the verb and the arguments stay, and the fields that are missing
stay missing, except that an answer to a question for a direction may bring the extent.

    p.answer r scene line = .retry q → p.PutsAgain (Text.words line) q
    p.answer r scene line = .escalated q → p.AsksAnew (Text.words line) q      (undisturbed_of_answer)

All of this holds of any pending intent, also of one that no dialogue leads to.
-/

namespace PlayerCommands

namespace Pending

/-! ## What is left of a pending intent -/

/-- The fields that are missing and the extent, after an answer in these words has settled nothing:
as they were, or with the extent that the words name beside a direction. -/
inductive Leaves (p : Pending) (words : List String) : List Field → Option Extent → Prop
  | same : Leaves p words p.missing p.extent
  | extent {e : Extent} (asked : p.next? = some .direction)
      (named : (Extent.scan words).extent = some e) :
      Leaves p words (p.missing.filter (· ≠ .extent)) (some e)

/-- The same pending intent, but for an extent that the words name and a number that is kept. -/
structure IsSpared (p : Pending) (words : List String) (q : Pending) : Prop where
  verb : q.verb = p.verb
  kind : q.kind = p.kind
  args : q.args = p.args
  options : q.options = p.options
  attempts : q.attempts = p.attempts
  fields : p.Leaves words q.missing q.extent

/-- The question that was put is put once more. -/
structure PutsAgain (p : Pending) (words : List String) (q : Pending) : Prop where
  verb : q.verb = p.verb
  kind : q.kind = p.kind
  args : q.args = p.args
  options : q.options = p.options
  next : q.next? = p.next?
  attempts : q.attempts = p.attempts + 1
  fields : p.Leaves words q.missing q.extent

/-- Two options of a list, from two of its places. -/
def AreTwoOf (options two : List Intent) : Prop :=
  ∃ (i j : Nat) (a b : Intent), i ≠ j ∧ options[i]? = some a ∧ options[j]? = some b ∧ two = [a, b]

/-- What an answer for a field may raise: which of two names was meant, for a choice two of those
that were offered, or what a pronoun stands for. -/
inductive AsksFor (p : Pending) : Field → List Field → List Intent → Prop
  | close {field : Field} {options : List Intent} (two : options.length = 2)
      (among : field = .choice → AreTwoOf p.options options) : AsksFor p field [.choice] options
  | pronoun : AsksFor p .target [.target] []

/-- A new question is put before those that are still open. -/
structure AsksAnew (p : Pending) (words : List String) (q : Pending) : Prop where
  verb : q.verb = p.verb
  kind : q.kind = p.kind
  args : q.args = p.args
  attempts : q.attempts = 0
  fields : ∃ field asked left, p.next? = some field ∧ p.AsksFor field asked q.options ∧
    p.Leaves words left q.extent ∧
    q.missing = asked ++ (Name.distinct (left.filter (· ≠ field))).filter (· ∉ asked)

variable {r : Registry} {scene : Scene} {line answer : String} {p q : Pending} {field : Field}
  {words : List String}

/-- The field that was asked for is still the first one. -/
theorem Leaves.head?_eq {left : List Field} {extent : Option Extent}
    (h : p.Leaves words left extent) : left.head? = p.next? := by
  cases h with
  | same => rfl
  | extent asked named =>
    obtain ⟨rest, hmissing⟩ := List.head?_eq_some_iff.mp asked
    rw [asked, hmissing]
    rfl

theorem isSpared_self (p : Pending) (words : List String) : p.IsSpared words p :=
  ⟨rfl, rfl, rfl, rfl, rfl, .same⟩

theorem isSpared_keepNumber (p : Pending) (words : List String) (number : String) :
    p.IsSpared words (p.keepNumber number) :=
  ⟨rfl, rfl, rfl, rfl, rfl, .same⟩

theorem isSpared_takeAmounts (hnext : p.next? = some .direction) (words : List String) :
    p.IsSpared words (p.takeAmounts (Extent.scan words)) := by
  unfold takeAmounts
  split
  · next e he => exact ⟨rfl, rfl, rfl, rfl, rfl, .extent hnext he⟩
  · split
    · exact p.isSpared_keepNumber words _
    · exact p.isSpared_self words
  · exact p.isSpared_self words

theorem IsSpared.putsAgain (h : p.IsSpared words q) (prompt : String) :
    p.PutsAgain words { q with prompt, attempts := q.attempts + 1 } :=
  ⟨h.verb, h.kind, h.args, h.options, h.fields.head?_eq, congrArg (· + 1) h.attempts, h.fields⟩

theorem IsSpared.asksAnew (h : p.IsSpared words q) (hnext : p.next? = some field)
    {question : Question Intent} (hasks : p.AsksFor field question.missing question.options) :
    p.AsksAnew words (q.escalate field question) :=
  ⟨h.verb, h.kind, h.args, rfl, field, question.missing, q.missing, hnext, hasks, h.fields,
    missing_escalate _ _ _⟩

/-! ## Close options -/

/-- No place is ranked twice. -/
theorem nodup_rankOptions (answer : String) (options : List Intent) :
    ((rankOptions answer options).map (·.value)).Nodup := by
  have hplaces : (options.zipIdx.map Prod.snd).Nodup := by
    rw [List.zipIdx_map_snd]
    exact List.nodup_range'
  unfold rankOptions Scored.ranking
  rw [((Ranking.perm_sort _ _).map _).nodup_iff]
  refine List.pairwise_map.mpr
    ((List.pairwise_map.mp hplaces).filterMap _ fun x y hne s hs t ht => ?_)
  obtain ⟨score, -, rfl⟩ := Option.map_eq_some_iff.mp hs
  obtain ⟨score', -, rfl⟩ := Option.map_eq_some_iff.mp ht
  exact hne

/-- The two options of a close call are at two places. -/
theorem areTwoOf_optionsAt {options : List Intent} {counts : Score → Bool}
    (hclose : isCloseCall (rankOptions answer options) counts = true) :
    AreTwoOf options (optionsAt options ((rankOptions answer options).take 2)) := by
  obtain ⟨first, second, rest, hranked⟩ := of_isCloseCall hclose
  have hplace : ∀ s ∈ rankOptions answer options, ∃ o, options[s.value]? = some o :=
    fun s hs => exists_of_mem_rankOptions hs
  have hnodup := nodup_rankOptions answer options
  rw [hranked] at hplace hnodup
  obtain ⟨a, ha⟩ := hplace first (by simp)
  obtain ⟨b, hb⟩ := hplace second (by simp)
  refine ⟨first.value, second.value, a, b, ?_, ha, hb, ?_⟩
  · rw [List.map_cons, List.map_cons, List.nodup_cons] at hnodup
    exact fun heq => hnodup.1 (heq ▸ List.mem_cons_self)
  · rw [hranked]
    simp [optionsAt, ha, hb]

theorem length_of_areTwoOf {options two : List Intent} (h : AreTwoOf options two) :
    two.length = 2 := by
  obtain ⟨i, j, a, b, -, -, -, rfl⟩ := h
  rfl

/-! ## Replies -/

/-- What a reply leaves that neither fills a field nor picks an option. -/
def Spares (p : Pending) (words : List String) (field : Field) : Reply → Prop
  | .filled _ _ | .chosen _ => True
  | .again q _ => p.IsSpared words q
  | .asks q question =>
    p.IsSpared words q ∧ p.AsksFor field question.missing question.options

theorem spares_answerDirection (hnext : p.next? = some .direction) (words : List String)
    (scene : Scene) : p.Spares words .direction (p.answerDirection words scene) := by
  have hspared := isSpared_takeAmounts hnext words
  unfold answerDirection
  simp only
  split
  · trivial
  · next ranked hclose =>
    have htwo : 2 ≤ ranked.length := scene.isSupported_of_map hclose
    refine ⟨hspared, .close ?_ fun h => (by cases h)⟩
    simp only [Argument.directionQuestion, Argument.closeQuestion, List.length_map,
      List.length_take]
    omega
  · exact hspared
  · exact hspared

theorem spares_answerUnit (p : Pending) (words : List String) (unit : String) :
    p.Spares words .extent (p.answerUnit unit) := by
  unfold answerUnit
  split
  · exact p.isSpared_self words
  · split
    · trivial
    · exact p.isSpared_self words

theorem spares_answerMeasure (p : Pending) (words : List String) (scene : Scene) :
    p.Spares words .extent (p.answerMeasure words scene) := by
  unfold answerMeasure
  simp only
  split
  · trivial
  · exact p.isSpared_keepNumber words _
  · exact p.isSpared_self words

theorem spares_answerExtent (p : Pending) (words : List String) (scene : Scene) :
    p.Spares words .extent (p.answerExtent words scene) := by
  unfold answerExtent
  split
  · split
    · exact p.spares_answerUnit _ _
    · exact p.spares_answerMeasure _ scene
  · exact p.spares_answerMeasure words scene

theorem spares_answerChoice (p : Pending) (words : List String) (answer : String) :
    p.Spares words .choice (p.answerChoice answer) := by
  unfold answerChoice
  simp only
  split
  · exact p.isSpared_self words
  · split
    · split
      · trivial
      · exact p.isSpared_self words
    · split
      · next hclose =>
        have htwo := areTwoOf_optionsAt hclose
        exact ⟨p.isSpared_self words, .close (length_of_areTwoOf htwo) fun _ => htwo⟩
      · split
        · trivial
        · exact p.isSpared_self words

theorem spares_answerTarget (p : Pending) (words : List String) (scene : Scene) :
    p.Spares words .target (p.answerTarget words scene) := by
  unfold answerTarget
  simp only
  split
  · next question score hquestion =>
    refine ⟨p.isSpared_self words, ?_⟩
    cases Argument.isAboutName_of_resolve hquestion with
    | pronoun missing options =>
      simp only [missing, options, List.map_nil]
      exact .pronoun
    | close missing two each =>
      simp only [missing]
      exact .close (by rw [List.length_map, two]) fun h => (by cases h)
  · split
    · exact p.isSpared_self words
    · trivial

theorem spares_reply (hnext : p.next? = some field) (scene : Scene) (line : String) :
    p.Spares (Text.words line) field (p.reply scene line field) := by
  cases field with
  | direction => exact spares_answerDirection hnext _ scene
  | extent => exact p.spares_answerExtent _ scene
  | choice => exact p.spares_answerChoice _ _
  | target => exact p.spares_answerTarget _ scene

/-! ## Outcomes -/

/-- Nothing is ever asked again where nothing was asked. -/
theorem finish_settles (p : Pending) (r : Registry) (score : Score) :
    (∀ q, p.finish r score ≠ .retry q) ∧ ∀ q, p.finish r score ≠ .escalated q := by
  rcases p.finish_cases r score with ⟨field, -, heq⟩ | ⟨-, heq⟩ <;> rw [heq] <;>
    exact ⟨fun q h => (by cases h), fun q h => (by cases h)⟩

/-- What is rejected or escalated was read as an answer for the next field. -/
theorem answer_settles_or (p : Pending) (r : Registry) (scene : Scene) (line : String) :
    (∀ q, p.answer r scene line ≠ .retry q ∧ p.answer r scene line ≠ .escalated q) ∨
      ∃ field, p.next? = some field ∧
        p.answer r scene line = p.settle r field (p.reply scene line field) := by
  unfold answer
  split
  · exact Or.inl fun q => ⟨fun h => (by cases h), fun h => (by cases h)⟩
  · split
    · obtain ⟨hretry, hescalated⟩ := p.finish_settles r 1
      exact Or.inl fun q => ⟨hretry q, hescalated q⟩
    · next field hnext => exact Or.inr ⟨field, hnext, rfl⟩

/-- A reply that is asked about again or escalated leaves what it spares. -/
theorem undisturbed_of_settle {words : List String} {reply : Reply} (hnext : p.next? = some field)
    (hspares : p.Spares words field reply) :
    (∀ q, p.settle r field reply = .retry q → p.PutsAgain words q) ∧
      ∀ q, p.settle r field reply = .escalated q → p.AsksAnew words q := by
  cases reply with
  | filled next score =>
    obtain ⟨hretry, hescalated⟩ := (next.without field).finish_settles r score
    exact ⟨fun q h => absurd h (hretry q), fun q h => absurd h (hescalated q)⟩
  | chosen option =>
    obtain ⟨hretry, hescalated⟩ := (p.choose option).finish_settles r 1
    exact ⟨fun q h => absurd h (hretry q), fun q h => absurd h (hescalated q)⟩
  | again next prompt =>
    refine ⟨fun q h => ?_, fun q h => (by cases h)⟩
    cases h
    exact hspares.putsAgain prompt
  | asks next question =>
    refine ⟨fun q h => (by cases h), fun q h => ?_⟩
    cases h
    exact hspares.1.asksAnew hnext hspares.2

theorem putsAgain_of_retry (h : p.answer r scene line = .retry q) :
    p.PutsAgain (Text.words line) q := by
  rcases p.answer_settles_or r scene line with hsettled | ⟨field, hnext, heq⟩
  · exact absurd h (hsettled q).1
  · rw [heq] at h
    exact (undisturbed_of_settle hnext (spares_reply hnext scene line)).1 q h

theorem asksAnew_of_escalated (h : p.answer r scene line = .escalated q) :
    p.AsksAnew (Text.words line) q := by
  rcases p.answer_settles_or r scene line with hsettled | ⟨field, hnext, heq⟩
  · exact absurd h (hsettled q).2
  · rw [heq] at h
    exact (undisturbed_of_settle hnext (spares_reply hnext scene line)).2 q h

/-- **A rejected or escalated answer disturbs nothing that is settled.** -/
theorem undisturbed_of_answer (r : Registry) (scene : Scene) (p : Pending) (line : String) :
    (∀ q, p.answer r scene line = .retry q → p.PutsAgain (Text.words line) q) ∧
      ∀ q, p.answer r scene line = .escalated q → p.AsksAnew (Text.words line) q :=
  ⟨fun _ h => putsAgain_of_retry h, fun _ h => asksAnew_of_escalated h⟩

/-- An extent is taken beside no direction at all, and beside one that may be either of two. -/
theorem undisturbed_of_answer_nort :
    let p : Pending :=
      { kind := .command, verb := .go, missing := [.direction, .extent], prompt := Prompt.direction }
    let scene : Scene := { directions := ["northeast", "northwest"] }
    (∃ q, p.answer .empty scene "sideways 2km" = .retry q ∧ q.missing = [.direction] ∧
        p.PutsAgain (Text.words "sideways 2km") q) ∧
      ∃ q, p.answer .empty scene "nort 2km" = .escalated q ∧ q.missing = [.choice] ∧
        p.AsksAnew (Text.words "nort 2km") q := by
  intro p scene
  have hretry : (match p.answer .empty scene "sideways 2km" with
      | .retry q => decide (q.missing = [.direction])
      | _ => false) = true := by decide +kernel
  have hescalated : (match p.answer .empty scene "nort 2km" with
      | .escalated q => decide (q.missing = [.choice])
      | _ => false) = true := by decide +kernel
  constructor
  · split at hretry
    · next q hq =>
      exact ⟨q, hq, of_decide_eq_true hretry, (undisturbed_of_answer _ _ p _).1 q hq⟩
    · cases hretry
  · split at hescalated
    · next q hq =>
      exact ⟨q, hq, of_decide_eq_true hescalated, (undisturbed_of_answer _ _ p _).2 q hq⟩
    · cases hescalated

end Pending

end PlayerCommands
