import PlayerCommands.Proofs.Movement
import PlayerCommands.Proofs.Registration
import PlayerCommands.Proofs.Rejections
import PlayerCommands.Proofs.Supply
import PlayerCommands.Registry.Builtin

/-!
# What was said is kept

An answer never takes back what was said before it: the arguments that a pending intent has come
first among those of the next one, and an extent that is known stays known, whether the answer fills
a field, picks an option, is rejected or raises a question.

    first.Leads Registry.builtin p → (p.answer Registry.builtin now answer).Retains Registry.builtin p
                                                                               (retains_of_leads)

A field that is filled in place of the arguments is filled only where there are none.  An option
that is picked brings arguments of its own, and these begin with the ones at hand (`OptionsExtend`):
the options of a question about a name go on from the arguments before that name, those of a
question about the verb have the same arguments, and things are offered only to a verb that has none
yet.  The last holds of every registry in which no command needs more than one argument.
-/

namespace PlayerCommands

/-! ## What is retained -/

/-- The arguments go on from those before, and a known extent stays known. -/
structure Pending.Retains (p q : Pending) : Prop where
  args : p.args <+: q.args
  extent : p.extent.isSome = true → q.extent.isSome = true

/-- What was said before an answer is kept by its outcome.  A resolved intent has as many of the
arguments as its verb takes. -/
def Outcome.Retains (r : Registry) (p : Pending) : Outcome → Prop
  | .resolved i =>
    (∃ v args, i.verb = some v ∧ p.args <+: args ∧ i.args = r.fit v args) ∧
      (p.extent.isSome = true → i.extent.isSome = true)
  | .awaitingMore q | .retry q | .escalated q => p.Retains q
  | .cancelled => True

/-- The options go on from the arguments at hand. -/
def Pending.OptionsExtend (p : Pending) : Prop := ∀ o ∈ p.options, p.args <+: o.args

variable {r : Registry} {scene : Scene} {line : String} {p next q : Pending} {field : Field}
  {score : Score}

/-! ## The first question -/

namespace Argument

variable {verb : Verb} {args words : List String} {word : String} {next? : Option String}
  {question : Question Intent} {c : Score}

/-- The options of a question go on from the arguments before it. -/
theorem Reading.prefix_of_unclear (h : Reading.of verb scene args word next? = .unclear question c) :
    ∀ o ∈ question.options, args <+: o.args := by
  have hstands := stands verb scene args word next?
  generalize Reading.of verb scene args word next? = reading at h hstands
  cases hstands with
  | article | pronoun | literal => cases h
  | unknown =>
    cases h
    exact nofun
  | direction hword hwanted =>
    obtain ⟨-, rfl⟩ := hwanted
    exact fun o _ => List.nil_prefix
  | thing =>
    obtain ⟨ranked, -, rfl⟩ := of_ofMatch_eq_unclear h
    intro o ho
    obtain ⟨s, -, rfl⟩ := List.mem_map.mp ho
    exact List.prefix_append _ _

theorem prefix_of_resolve (h : (resolve verb words scene).question = some (question, c)) :
    ∀ o ∈ question.options, (resolve verb words scene).args <+: o.args := by
  obtain ⟨stop, hends⟩ := exists_ends_resolve verb words scene
  generalize resolve verb words scene = resolution at h hends ⊢
  cases hends with
  | done => cases h
  | asked hreading =>
    cases h
    exact Reading.prefix_of_unclear hreading

end Argument

namespace Intent

variable {i : Intent} {verb : Verb} {reading : Reading} {command : Command} {amounts : Amounts}
  {asked : Option (Question Intent × Score)} {argScore : Score} {question : Question Intent}

theorem options_askMovement {bareNumber : Option String} (hclarify : i.clarify = none)
    (hq : (i.askMovement bareNumber).clarify = some question) : question.options = [] := by
  cases bareNumber with
  | some number =>
    cases hq
    rfl
  | none =>
    rw [askMovement_none_eq] at hq
    split at hq
    · rw [hclarify] at hq
      cases hq
    · cases hq
      rfl

/-- Things are offered to a verb without arguments only, if it needs no more than one. -/
theorem prefix_of_askDue (hclarify : i.clarify = none) (hmin : command.minArgs ≤ 1)
    (hasked : ∀ q c, asked = some (q, c) → ∀ o ∈ q.options, i.args <+: o.args)
    (hq : (i.askDue verb command scene amounts asked).clarify = some question) :
    ∀ o ∈ question.options, i.args <+: o.args := by
  unfold askDue at hq
  cases asked with
  | some pair =>
    cases hq
    exact hasked pair.1 pair.2 rfl
  | none =>
    simp only at hq
    split at hq
    · rw [options_askMovement hclarify hq]
      intro o ho
      cases ho
    · split at hq
      · next hshort =>
        have hnil : i.args = [] := by
          rw [Bool.and_eq_true, decide_eq_true_eq] at hshort
          exact List.length_eq_zero_iff.mp (by omega)
        rw [hnil]
        exact fun o _ => List.nil_prefix
      · rw [hclarify] at hq
        cases hq

/-- The options of whatever is asked go on from the arguments of the intent. -/
theorem prefix_of_askIfUnclear (hclarify : i.clarify = none) (hmin : command.minArgs ≤ 1)
    (hasked : ∀ q c, asked = some (q, c) → ∀ o ∈ q.options, i.args <+: o.args)
    (hq : (i.askIfUnclear reading command scene amounts asked argScore).clarify = some question) :
    ∀ o ∈ question.options, i.args <+: o.args := by
  unfold askIfUnclear at hq
  rcases i.askDue_eq_or reading.verb command scene amounts asked with h | ⟨q, c, h⟩
  · simp only [h] at hq
    split at hq
    · -- a question about the verb leaves the arguments alone
      cases hq
      intro o ho
      rcases List.mem_cons.mp ho with rfl | ho
      · exact List.prefix_refl _
      · obtain ⟨m, -, rfl⟩ := List.mem_map.mp ho
        exact List.prefix_refl _
    · rw [hclarify] at hq
      cases hq
  · simp only [h, ask_clarify, Option.isNone_some, Bool.false_and, Bool.false_eq_true,
      if_false] at hq
    have hdue : (i.askDue reading.verb command scene amounts asked).clarify = some question := by
      rw [h, ask_clarify, hq]
    exact prefix_of_askDue hclarify hmin hasked hdue

end Intent

namespace Registry

theorem prefix_of_buildIntent {reading : Reading} {command : Command} {i : Intent}
    {question : Question Intent} (hmin : command.minArgs ≤ 1) (hclarify : i.clarify = none)
    (hq : (buildIntent scene i reading command).clarify = some question) :
    ∀ o ∈ question.options, (buildIntent scene i reading command).args <+: o.args := by
  obtain ⟨-, hargs, -⟩ := buildIntent_keeps scene i reading command
  rw [buildIntent_eq] at hq
  obtain ⟨asked, hasked, rfl⟩ := Option.map_eq_some_iff.mp hq
  intro o ho
  obtain ⟨option, hoption, rfl⟩ := List.mem_map.mp ho
  rw [hargs, Intent.inherit_args]
  refine Intent.prefix_of_askIfUnclear (i := draftIntent scene i reading command) hclarify hmin
    (fun q c hquestion o ho => ?_) hasked option hoption
  exact (List.take_prefix _ _).trans (Argument.prefix_of_resolve hquestion o ho)

/-- Whatever a line is asked, the options go on from its arguments. -/
theorem prefix_of_interpret (hmin : ∀ v c, r.command? v = some c → c.minArgs ≤ 1)
    {question : Question Intent} (hq : (r.interpret scene line).clarify = some question) :
    ∀ o ∈ question.options, (r.interpret scene line).args <+: o.args := by
  revert hq
  unfold interpret
  simp only
  split
  · rintro ⟨⟩ o ⟨⟩
  · split
    · rintro ⟨⟩ o ⟨⟩
    · next reading _ _ command hcommand =>
      exact prefix_of_buildIntent (hmin reading.verb command hcommand) rfl

end Registry

namespace Pending

theorem optionsExtend_of_nil (h : p.options = []) : p.OptionsExtend :=
  fun o ho => (by rw [h] at ho; cases ho)

theorem optionsExtend_of_interpret (hmin : ∀ v c, r.command? v = some c → c.minArgs ≤ 1)
    (h : ofIntent? (r.interpret scene line) = some p) : p.OptionsExtend := by
  obtain ⟨-, -, hargs, -, question, hclarify, -, hoptions⟩ := of_ofIntent? h
  unfold OptionsExtend
  rw [hargs, hoptions]
  exact Registry.prefix_of_interpret hmin hclarify

/-! ## Replies -/

theorem retains_takeExtent (h : p.args <+: next.args) (e : Extent) : p.Retains (next.takeExtent e) :=
  ⟨h, fun _ => rfl⟩

theorem Leaves.isSome_extent {words : List String} {left : List Field} {extent : Option Extent}
    (h : p.Leaves words left extent) (hknown : p.extent.isSome = true) : extent.isSome = true := by
  cases h with
  | same => exact hknown
  | extent asked named => rfl

theorem IsSpared.retains {words : List String} (h : p.IsSpared words q) : p.Retains q :=
  ⟨h.args ▸ List.prefix_refl _, h.fields.isSome_extent⟩

theorem IsSpared.optionsExtend {words : List String} (h : p.IsSpared words q)
    (hp : p.OptionsExtend) : q.OptionsExtend := by
  unfold OptionsExtend
  rw [h.args, h.options]
  exact hp

theorem Amends.retains (h : p.Amends field next) : p.Retains next := by
  cases h with
  | nothing => exact ⟨List.prefix_refl _, id⟩
  | extent real => exact retains_takeExtent (List.prefix_refl _) _
  | number asked waiting number => exact ⟨List.prefix_refl _, id⟩

/-- A reply for a target adds to the arguments. -/
theorem prefix_of_answerTarget {words : List String}
    (h : p.answerTarget words scene = .filled next score) : p.args <+: next.args := by
  unfold answerTarget at h
  simp only at h
  split at h
  · cases h
  · split at h
    · cases h
    · cases h
      exact List.prefix_append _ _

/-- A filled field takes nothing back: a direction comes in place of no arguments. -/
theorem IsCoherent.retains_filled (h : p.IsCoherent) (hfield : p.next? = some field)
    (hreply : p.reply scene line field = .filled next score) : p.Retains next := by
  have hreplies := h.replies_reply hfield scene line
  rw [hreply] at hreplies
  have hmem : field ∈ p.missing := List.mem_of_mem_head? hfield
  cases hreplies with
  | direction amends name scored =>
    obtain ⟨-, hnil⟩ := h.direction hmem
    refine ⟨?_, amends.retains.extent⟩
    rw [hnil]
    exact List.nil_prefix
  | extent real => exact retains_takeExtent (List.prefix_refl _) _
  | both waiting name real =>
    obtain ⟨-, hnil⟩ := h.direction waiting
    refine retains_takeExtent ?_ _
    rw [hnil]
    exact List.nil_prefix
  | target scored given => exact ⟨prefix_of_answerTarget hreply, id⟩

/-- The options of a new question go on from the arguments, too. -/
theorem IsCoherent.prefix_of_asks (h : p.IsCoherent) (hp : p.OptionsExtend)
    (hfield : p.next? = some field) {question : Question Intent}
    (hreply : p.reply scene line field = .asks next question) :
    ∀ o ∈ question.options, p.args <+: o.args := by
  have hreplies := h.replies_reply hfield scene line
  rw [hreply] at hreplies
  have hmem : field ∈ p.missing := List.mem_of_mem_head? hfield
  cases hreplies with
  | asks amends raises =>
    cases raises with
    | pronoun missing options =>
      rw [options]
      intro o ho
      cases ho
    | among missing two offered => exact fun o ho => hp o (offered o ho)
    | close about missing two each named =>
      rcases about with rfl | rfl
      · obtain ⟨-, hnil⟩ := h.direction hmem
        rw [hnil]
        exact fun o _ => List.nil_prefix
      · unfold reply answerTarget at hreply
        simp only at hreply
        split at hreply
        · cases hreply
          intro o ho
          obtain ⟨option, -, rfl⟩ := List.mem_map.mp ho
          exact List.prefix_append _ _
        · split at hreply <;> cases hreply

/-! ## Outcomes -/

theorem Retains.finish (h : p.Retains next) (r : Registry) (score : Score) :
    (next.finish r score).Retains r p := by
  rcases next.finish_cases r score with ⟨field, -, heq⟩ | ⟨-, heq⟩
  · rw [heq]
    exact ⟨h.args, h.extent⟩
  · rw [heq]
    exact ⟨⟨next.verb, next.args, rfl, h.args, rfl⟩, h.extent⟩

theorem retains_choose {option : Intent} (hargs : p.args <+: option.args) :
    p.Retains (p.choose option) :=
  ⟨hargs, fun hknown => (by
    show (option.extent.or p.extent).isSome = true
    rw [Option.isSome_or, hknown, Bool.or_true])⟩

/-- An answer to a question whose options extend the arguments takes nothing back. -/
theorem IsCoherent.retains_answer (h : p.IsCoherent) (hp : p.OptionsExtend) (r : Registry)
    (scene : Scene) (line : String) : (p.answer r scene line).Retains r p := by
  rcases h.answer_eq_or r scene line with heq | ⟨field, hfield, heq⟩
  · rw [heq]
    trivial
  · rw [heq]
    have hspares := spares_reply hfield scene line
    cases hreply : p.reply scene line field with
    | filled next score =>
      have hnext := h.retains_filled hfield hreply
      have hwithout : p.Retains (next.without field) := ⟨hnext.args, hnext.extent⟩
      exact hwithout.finish r score
    | chosen option =>
      have hreplies := h.replies_reply hfield scene line
      rw [hreply] at hreplies
      cases hreplies with
      | choice offered => exact (retains_choose (hp option offered)).finish r 1
    | again next prompt =>
      rw [hreply] at hspares
      exact ⟨hspares.retains.args, hspares.retains.extent⟩
    | asks next question =>
      rw [hreply] at hspares
      exact ⟨hspares.1.retains.args, hspares.1.retains.extent⟩

/-- Whatever is asked next, its options extend the arguments again. -/
theorem optionsExtend_answer (h : p.IsCoherent) (hoffering : p.IsOffering) (hp : p.OptionsExtend)
    (hq : (p.answer r scene line).pending? = some q) : q.OptionsExtend := by
  rcases h.answer_eq_or r scene line with heq | ⟨field, hfield, heq⟩
  · rw [heq] at hq
    cases hq
  · rw [heq] at hq
    have hreplies := h.replies_reply hfield scene line
    have hspares := spares_reply hfield scene line
    cases hreply : p.reply scene line field with
    | filled next score =>
      rw [hreply] at hq hreplies
      exact optionsExtend_of_nil (hoffering.filled h hfield hreplies hq)
    | chosen option =>
      rw [hreply] at hq
      exact optionsExtend_of_nil (keeps_of_finish hq).2
    | again next prompt =>
      rw [hreply] at hq hspares
      cases hq
      exact hspares.optionsExtend hp
    | asks next question =>
      rw [hreply] at hq hspares
      cases hq
      intro o ho
      show next.args <+: o.args
      rw [hspares.1.args]
      exact h.prefix_of_asks hp hfield hreply o ho

/-! ## Dialogues -/

/-- From one line to the next the options go on from the arguments. -/
theorem optionsExtend_of_leads {first : Pending}
    (hmin : ∀ v c, r.command? v = some c → c.minArgs ≤ 1)
    (hfirst : ofIntent? (r.interpret scene line) = some first) (hp : Leads r first p) :
    p.IsCoherent ∧ p.IsOffering ∧ p.OptionsExtend := by
  induction hp with
  | here =>
    exact ⟨isCoherent_of_interpret r scene line hfirst, isOffering_of_interpret hfirst,
      optionsExtend_of_interpret hmin hfirst⟩
  | answered now answer hp hq ih =>
    obtain ⟨hcoherent, hoffering, hextend⟩ := ih
    exact ⟨isCoherent_answer hcoherent r now answer hq, isOffering_answer hcoherent hoffering hq,
      optionsExtend_answer hcoherent hoffering hextend hq⟩

end Pending

/-- No built-in command needs more than one argument. -/
theorem Registry.minArgs_builtin (v : Verb) (c : Command) (h : builtin.command? v = some c) :
    c.minArgs ≤ 1 := by
  have htable : ∀ d ∈ builtinTable, d.minArgs ≤ 1 := by decide
  unfold builtin at h
  rw [command?_registerAll_or] at h
  rcases Option.or_eq_some_iff.mp h with h | ⟨-, h⟩
  · obtain ⟨d, hd, rfl⟩ := Option.map_eq_some_iff.mp h
    exact htable d (CommandTable.mem_of_last? hd)
  · cases h

namespace Pending

/-- **With the built-in commands no answer takes back what was said**, wherever the player stands
from one line to the next. -/
theorem retains_of_leads {first : Pending}
    (hfirst : ofIntent? (Registry.builtin.interpret scene line) = some first)
    (hp : Leads Registry.builtin first p) (now : Scene) (answer : String) :
    (p.answer Registry.builtin now answer).Retains Registry.builtin p := by
  obtain ⟨hcoherent, -, hextend⟩ := optionsExtend_of_leads Registry.minArgs_builtin hfirst hp
  exact hcoherent.retains_answer hextend Registry.builtin now answer

/-- An extent is kept through two questions about the direction. -/
theorem retains_of_leads_northwest :
    let r := Registry.builtin
    let scene : Scene := { directions := ["northeast", "northwest"] }
    ∃ first p i, ofIntent? (r.interpret scene "go 2km") = some first ∧ Leads r first p ∧
      p.extent.isSome = true ∧ p.answer r scene "2" = .resolved i ∧ i.args = ["northwest"] ∧
      i.extent.isSome = true := by
  intro r scene
  have hrun : ((ofIntent? (r.interpret scene "go 2km")).any fun first =>
      (first.answer r scene "nort").pending?.any fun p => p.extent.isSome &&
        (p.answer r scene "2").intent?.any fun i => i.args = ["northwest"]) = true := by
    decide +kernel
  obtain ⟨first, hfirst, hrun⟩ := (Option.any_eq_true _ _).mp hrun
  obtain ⟨p, hp, hrun⟩ := (Option.any_eq_true _ _).mp hrun
  rw [Bool.and_eq_true] at hrun
  obtain ⟨hknown, hrun⟩ := hrun
  obtain ⟨i, hi, hargs⟩ := (Option.any_eq_true _ _).mp hrun
  have hleads : Leads r first p := .answered _ _ .here hp
  have hretains := retains_of_leads hfirst hleads scene "2"
  rw [Outcome.eq_resolved hi] at hretains
  exact ⟨first, p, i, hfirst, hleads, hknown, Outcome.eq_resolved hi, of_decide_eq_true hargs,
    hretains.2 hknown⟩

end Pending

end PlayerCommands
