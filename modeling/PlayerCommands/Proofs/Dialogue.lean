import PlayerCommands.Proofs.Replies
import PlayerCommands.Proofs.Shapes

/-!
# Dialogues

A dialogue starts with a question that a line was answered by, and goes on with answers until the
intent is resolved or dropped.  Whatever is registered and wherever the player stands from one
answer to the next, the pending intent keeps its fields and amounts apart: it waits for a direction
only without an argument and for an extent only without one, and a choice comes first and has
options.

    p.IsCoherent → (p.answer r scene line).pending? = some q → q.IsCoherent     (isCoherent_answer)

The invariant is stronger than what a host relies on in two places.  A choice never waits beside a
direction, since the chosen option brings its arguments; and the options of a choice have no amounts
but those of the pending intent, since a number must not come back beside an extent.
-/

namespace PlayerCommands

/-- The pending intent that an answer leaves behind, if there is anything left to ask. -/
def Outcome.pending? : Outcome → Option Pending
  | .awaitingMore p | .retry p | .escalated p => some p
  | .resolved _ | .cancelled => none

/-- The intent that an answer resolves, if it does. -/
def Outcome.intent? : Outcome → Option Intent
  | .resolved i => some i
  | .awaitingMore _ | .retry _ | .cancelled | .escalated _ => none

theorem Outcome.eq_resolved {o : Outcome} {i : Intent} (h : o.intent? = some i) :
    o = .resolved i := by
  cases o with
  | resolved j => exact congrArg resolved (Option.some.inj h)
  | _ => cases h

namespace Pending

/-! ## The invariant -/

/-- The fields and the amounts of a pending intent fit each other. -/
structure IsConsistent (p : Pending) : Prop where
  nodup : p.missing.Nodup
  kind : p.kind = p.verb.kind
  direction : .direction ∈ p.missing → p.verb = .go ∧ p.args = []
  extent : .extent ∈ p.missing → p.extent = none
  apart : p.storedCount? = none ∨ p.extent = none

/-- A choice that comes first and has something to choose from. -/
structure OffersChoice (p : Pending) : Prop where
  first : p.next? = some .choice
  undirected : .direction ∉ p.missing
  nonempty : p.options ≠ []
  few : p.options.length ≤ maxOptions
  amounts : ∀ o ∈ p.options,
    (o.quantity = none ∨ o.quantity = p.quantity) ∧ (o.extent = none ∨ o.extent = p.extent)

/-- What holds of a pending intent from one line to the next. -/
structure IsCoherent (p : Pending) : Prop extends p.IsConsistent where
  waits : p.missing ≠ []
  target : .target ∈ p.missing → p.missing = [.target]
  choice : .choice ∈ p.missing → p.OffersChoice

variable {r : Registry} {scene : Scene} {p next q : Pending} {field : Field}

/-! ## The first question -/

/-- The first question of a dialogue leaves a coherent pending intent. -/
theorem isCoherent_of_interpret (r : Registry) (scene : Scene) (line : String)
    (h : ofIntent? (r.interpret scene line) = some p) : p.IsCoherent := by
  obtain ⟨i, v, command, question, -, hi, hq, rfl⟩ := of_ofIntent?_interpret h
  refine ⟨⟨hq.nodup, hi.kind, fun hd => ?_, hq.extent, ?_⟩, hq.missing, hq.target, fun hc => ?_⟩
  · obtain ⟨hgo, hargs⟩ := hq.direction hd
    exact ⟨Option.some.inj (hi.verb.symm.trans hgo), hargs⟩
  · rcases hi.apart with hquantity | hextent
    · left
      simp [storedCount?, hquantity]
    · exact Or.inr hextent
  · obtain ⟨halone, hoptions⟩ := hq.choice hc
    refine ⟨?_, ?_, hoptions, hq.few, hq.amounts⟩
    · simp [next?, halone]
    · simp [halone]

/-! ## Changes to fields and amounts -/

theorem IsConsistent.without (h : p.IsConsistent) (field : Field) :
    (p.without field).IsConsistent :=
  ⟨h.nodup.filter _, h.kind, fun hd => h.direction (mem_missing_without.mp hd).1,
    fun he => h.extent (mem_missing_without.mp he).1, h.apart⟩

/-- A direction may be filled in where one is missing. -/
theorem IsConsistent.direct (h : p.IsConsistent) (name : String) :
    IsConsistent { p.without .direction with args := [name] } :=
  ⟨h.nodup.filter _, h.kind, fun hd => absurd rfl (mem_missing_without.mp hd).2,
    fun he => h.extent (mem_missing_without.mp he).1, h.apart⟩

theorem storedCount?_takeExtent (p : Pending) (e : Extent) :
    (p.takeExtent e).storedCount? = none := by
  have hquantity : (p.takeExtent e).quantity =
      if p.storedCount?.isSome then none else p.quantity := rfl
  cases hcount : p.storedCount? with
  | some n =>
    rw [hcount] at hquantity
    simp [storedCount?, hquantity]
  | none =>
    rw [hcount] at hquantity
    unfold storedCount? at hcount ⊢
    rw [hquantity]
    exact hcount

theorem IsConsistent.takeExtent (h : p.IsConsistent) (e : Extent) :
    (p.takeExtent e).IsConsistent :=
  ⟨h.nodup.filter _, h.kind, fun hd => h.direction (mem_missing_without.mp hd).1,
    fun he => absurd rfl (mem_missing_without.mp he).2, Or.inl (storedCount?_takeExtent p e)⟩

theorem IsConsistent.keepNumber (h : p.IsConsistent) (hmissing : .extent ∈ p.missing)
    (number : String) : (p.keepNumber number).IsConsistent :=
  ⟨h.nodup, h.kind, h.direction, h.extent, Or.inr (h.extent hmissing)⟩

/-- What an answer brings besides leaves the pending intent coherent. -/
theorem IsCoherent.amends (h : p.IsCoherent) (hfield : p.next? = some field)
    (ha : p.Amends field next) : next.IsCoherent := by
  have hmem : field ∈ p.missing := List.mem_of_mem_head? hfield
  have hchoice : field = .direction ∨ field = .extent → .choice ∉ p.missing := by
    intro hasked hc
    have hfirst := hfield.symm.trans (h.choice hc).first
    rcases hasked with rfl | rfl <;> cases hfirst
  cases ha with
  | nothing => exact h
  | @extent e real =>
    have hdirection : .direction ∈ (p.takeExtent e).missing :=
      mem_missing_without.mpr ⟨hmem, by decide⟩
    -- the direction is still missing, so something is, and it is no question about a name
    refine ⟨h.toIsConsistent.takeExtent e, List.ne_nil_of_mem hdirection, fun ht => ?_,
      fun hc => absurd (mem_missing_without.mp hc).1 (hchoice (Or.inl rfl))⟩
    rw [h.target (mem_missing_without.mp ht).1] at hmem
    simp at hmem
  | number asked waiting number =>
    exact ⟨h.toIsConsistent.keepNumber waiting number, h.waits, h.target,
      fun hc => absurd hc (hchoice asked)⟩

/-! ## New questions -/

/-- The fields of the new question come first, the others that are still missing after them. -/
theorem missing_escalate (p : Pending) (field : Field) (question : Question Intent) :
    (p.escalate field question).missing = question.missing ++
      (Name.distinct (p.missing.filter (· ≠ field))).filter (· ∉ question.missing) :=
  Name.foldl_push _ _

theorem missing_escalate_single {question : Question Intent} {first : Field}
    (hp : p.missing.Nodup) (hquestion : question.missing = [first])
    (hfirst : ∀ f ∈ p.missing, f ≠ field → f ≠ first) :
    (p.escalate field question).missing = first :: (p.without field).missing := by
  rw [missing_escalate, hquestion, Name.distinct_of_nodup (hp.filter _), List.singleton_append,
    List.filter_eq_self.mpr]
  · rfl
  · intro f hf
    obtain ⟨hmem, hne⟩ := mem_missing_without.mp hf
    simpa using hfirst f hmem hne

/-- Beside a question about a name an extent may be missing, and nothing else. -/
theorem IsCoherent.others (h : p.IsCoherent) (hfield : p.next? = some field)
    (hne : field ≠ .extent) {f : Field} (hf : f ∈ p.missing) (hother : f ≠ field) :
    f = .extent := by
  have hmem : field ∈ p.missing := List.mem_of_mem_head? hfield
  cases f with
  | extent => rfl
  | target =>
    rw [h.target hf, List.mem_singleton] at hmem
    exact absurd hmem.symm hother
  | choice =>
    have hfirst := hfield.symm.trans (h.choice hf).first
    exact absurd (Option.some.inj hfirst).symm hother
  | direction =>
    cases field with
    | extent => exact absurd rfl hne
    | direction => exact absurd rfl hother
    | choice => exact absurd hf (h.choice hmem).undirected
    | target =>
      rw [h.target hmem, List.mem_singleton] at hf
      cases hf

theorem isCoherent_escalate_choice {question : Question Intent} (h : next.IsConsistent)
    (hothers : ∀ f ∈ next.missing, f ≠ field → f = .extent)
    (hmissing : question.missing = [.choice]) (htwo : question.options.length = 2)
    (hamounts : ∀ o ∈ question.options, (o.quantity = none ∨ o.quantity = next.quantity) ∧
      (o.extent = none ∨ o.extent = next.extent)) : (next.escalate field question).IsCoherent := by
  have heq : (next.escalate field question).missing = .choice :: (next.without field).missing :=
    missing_escalate_single h.nodup hmissing fun f hf hne => by
      rw [hothers f hf hne]
      decide
  -- so a direction or a target is never missing beside the choice
  have hmem : ∀ f ∈ (next.escalate field question).missing, f = .choice ∨
      f = .extent ∧ .extent ∈ next.missing := by
    intro f hf
    rw [heq] at hf
    rcases List.mem_cons.mp hf with rfl | hf
    · exact Or.inl rfl
    · obtain ⟨hf, hne⟩ := mem_missing_without.mp hf
      obtain rfl := hothers f hf hne
      exact Or.inr ⟨rfl, hf⟩
  refine ⟨⟨?_, h.kind, fun hd => ?_, fun he => ?_, h.apart⟩, ?_, fun ht => ?_, fun _ => ?_⟩
  · rw [heq, List.nodup_cons]
    refine ⟨fun hc => ?_, h.nodup.filter _⟩
    obtain ⟨hc, hne⟩ := mem_missing_without.mp hc
    cases hothers _ hc hne
  · rcases hmem _ hd with h' | ⟨h', -⟩ <;> cases h'
  · rcases hmem _ he with h' | ⟨-, h'⟩
    · cases h'
    · exact h.extent h'
  · rw [heq]
    exact List.cons_ne_nil _ _
  · rcases hmem _ ht with h' | ⟨h', -⟩ <;> cases h'
  · refine ⟨?_, fun hd => ?_, fun hnil => ?_, ?_, hamounts⟩
    · unfold next?
      rw [heq]
      rfl
    · rcases hmem _ hd with h' | ⟨h', -⟩ <;> cases h'
    · have hoptions : question.options = [] := hnil
      rw [hoptions] at htwo
      cases htwo
    · show question.options.length ≤ maxOptions
      rw [htwo]
      decide

theorem Amends.mem_missing (ha : p.Amends field next) {f : Field} (hf : f ∈ next.missing) :
    f ∈ p.missing := by
  cases ha with
  | nothing => exact hf
  | extent real => exact (mem_missing_without.mp hf).1
  | number asked waiting number => exact hf

theorem Amends.eq_self (ha : p.Amends field next) (hfield : field = .choice ∨ field = .target) :
    next = p := by
  cases ha with
  | nothing => rfl
  | extent real => rcases hfield with h | h <;> cases h
  | number asked waiting number =>
    rcases asked with rfl | rfl
    · rcases hfield with h | h <;> cases h
    · rcases hfield with h | h <;> cases h

/-- A question that an answer raises is coherent in its turn. -/
theorem IsCoherent.escalate (h : p.IsCoherent) (hfield : p.next? = some field)
    (ha : p.Amends field next) {question : Question Intent}
    (hq : p.Raises next field question) : (next.escalate field question).IsCoherent := by
  have hnext := (h.amends hfield ha).toIsConsistent
  have hmem : field ∈ p.missing := List.mem_of_mem_head? hfield
  cases hq with
  | pronoun missing options =>
    -- a target is missing alone, and again after the new question
    obtain rfl := ha.eq_self (Or.inr rfl)
    have halone := h.target hmem
    have heq : (next.escalate .target question).missing = [.target] := by
      rw [missing_escalate_single h.nodup missing]
      · simp [without, halone]
      · intro f hf hne
        exact hne
    refine ⟨⟨?_, h.kind, ?_, ?_, h.apart⟩, ?_, fun _ => heq, ?_⟩
    · rw [heq]
      decide
    · rw [heq]
      intro hd
      cases List.mem_singleton.mp hd
    · rw [heq]
      intro he
      cases List.mem_singleton.mp he
    · rw [heq]
      decide
    · rw [heq]
      intro hc
      cases List.mem_singleton.mp hc
  | close about missing two each =>
    have hothers : ∀ f ∈ next.missing, f ≠ field → f = .extent := by
      intro f hf hne
      refine h.others hfield ?_ (ha.mem_missing hf) hne
      rcases about with rfl | rfl <;> decide
    exact isCoherent_escalate_choice hnext hothers missing two fun o ho =>
      ⟨Or.inl (each o ho).2.1, (each o ho).2.2⟩
  | among missing two offered =>
    obtain rfl := ha.eq_self (Or.inl rfl)
    refine isCoherent_escalate_choice hnext
      (fun f hf hne => h.others hfield (by decide) hf hne) missing two fun o ho => ?_
    exact (h.choice hmem).amounts o (offered o ho)

/-! ## Filled fields -/

/-- Nothing is missing but what a movement may lack. -/
def IsOpen (p : Pending) : Prop := ∀ f ∈ p.missing, f = .direction ∨ f = .extent

theorem IsCoherent.isOpen_without (h : p.IsCoherent) (hfield : p.next? = some field) :
    (p.without field).IsOpen := by
  intro f hother
  obtain ⟨hf, hne⟩ := mem_missing_without.mp hother
  by_cases he : field = .extent
  · subst he
    cases f with
    | direction => exact Or.inl rfl
    | extent => exact Or.inr rfl
    | choice => cases hfield.symm.trans (h.choice hf).first
    | target =>
      have hmem : .extent ∈ p.missing := List.mem_of_mem_head? hfield
      rw [h.target hf] at hmem
      simp at hmem
  · exact Or.inr (h.others hfield he hf hne)

/-- A field that was filled leaves a consistent pending intent, open for a movement at most. -/
theorem IsCoherent.filled (h : p.IsCoherent) (hfield : p.next? = some field) {score : Score}
    (hreply : p.Replies field (.filled next score)) :
    (next.without field).IsConsistent ∧ (next.without field).IsOpen ∧ 0 ≤ score := by
  have hopen := h.isOpen_without hfield
  have hmem : field ∈ p.missing := List.mem_of_mem_head? hfield
  cases hreply with
  | direction amends name scored =>
    refine ⟨(h.amends hfield amends).toIsConsistent.direct name, fun f hf => ?_, scored⟩
    obtain ⟨hf, hne⟩ := mem_missing_without.mp hf
    exact hopen f (mem_missing_without.mpr ⟨amends.mem_missing hf, hne⟩)
  | extent real =>
    refine ⟨(h.toIsConsistent.takeExtent _).without _, fun f hf => ?_, by decide +kernel⟩
    exact hopen f (mem_missing_without.mp hf).1
  | both waiting name real =>
    refine ⟨((h.toIsConsistent.direct name).takeExtent _).without _, fun f hf => ?_,
      by decide +kernel⟩
    obtain ⟨hf, hne⟩ := mem_missing_without.mp hf
    have hf := (mem_missing_without.mp (mem_missing_without.mp hf).1).1
    exact hopen f (mem_missing_without.mpr ⟨hf, hne⟩)
  | target scored =>
    refine ⟨⟨h.nodup.filter _, h.kind, fun hd => ?_,
      fun he => h.extent (mem_missing_without.mp he).1, h.apart⟩, hopen, scored⟩
    obtain ⟨hd, -⟩ := mem_missing_without.mp hd
    rw [h.target hmem] at hd
    simp at hd

/-- So does a chosen option, whose amounts add nothing to those of the pending intent. -/
theorem IsCoherent.choose (h : p.IsCoherent) (hfield : p.next? = some .choice) {option : Intent}
    (hoption : option ∈ p.options) :
    (p.choose option).IsConsistent ∧ (p.choose option).IsOpen := by
  have hoffer := h.choice (List.mem_of_mem_head? hfield)
  obtain ⟨hquantity, hextent⟩ := hoffer.amounts option hoption
  -- the verb may change, the amounts do not
  have hquantity' : (p.choose option).quantity = p.quantity := Intent.or_eq_of_none_or hquantity
  have hextent' : (p.choose option).extent = p.extent := Intent.or_eq_of_none_or hextent
  refine ⟨⟨h.nodup.filter _, ?_, fun hd => ?_, fun he => ?_, ?_⟩, h.isOpen_without hfield⟩
  · show (if option.verb.isSome then (option.verb.getD p.verb).kind else p.kind) =
      (option.verb.getD p.verb).kind
    cases option.verb with
    | none => exact h.kind
    | some v => rfl
  · exact absurd (mem_missing_without.mp hd).1 hoffer.undirected
  · rw [hextent']
    exact h.extent (mem_missing_without.mp he).1
  · unfold storedCount?
    rw [hquantity', hextent']
    exact h.apart

/-! ## Finishing -/

theorem require_eq (p : Pending) (field : Field) :
    p.require field = { p with missing := (p.require field).missing } := by
  unfold require
  split <;> rfl

theorem nodup_require (h : p.missing.Nodup) (field : Field) : (p.require field).missing.Nodup := by
  unfold require
  split
  · exact h
  · next hnew =>
    rw [List.nodup_append]
    refine ⟨h, by simp, fun f hf g hg => ?_⟩
    rw [List.mem_singleton.mp hg]
    rintro rfl
    exact hnew (by simpa using hf)

theorem requireMovement_of_go (hgo : p.verb = .go) (hchoice : .choice ∉ p.missing) :
    p.requireMovement =
      if p.extent.isNone then (if p.args.isEmpty then p.require .direction else p).require .extent
      else if p.args.isEmpty then p.require .direction else p := by
  have hextent : (if p.args.isEmpty then p.require .direction else p).extent = p.extent := by
    split
    · rw [require_eq]
    · rfl
  unfold requireMovement
  rw [if_pos ⟨hgo, by simpa using hchoice⟩]
  simp only [hextent]

theorem requireMovement_of_not (h : ¬ (p.verb = .go ∧ .choice ∉ p.missing)) :
    p.requireMovement = p := by
  unfold requireMovement
  rw [if_neg (by simpa using h)]

/-- Nothing changes but what is missing. -/
theorem requireMovement_eq (p : Pending) :
    p.requireMovement = { p with missing := p.requireMovement.missing } := by
  unfold requireMovement
  split
  · simp only
    split <;> split
    · rw [require_eq, require_eq]
    · rw [require_eq]
    · rw [require_eq]
    · rfl
  · rfl

theorem mem_missing_requireMovement {f : Field} :
    f ∈ p.requireMovement.missing ↔ f ∈ p.missing ∨ (p.verb = .go ∧ .choice ∉ p.missing) ∧
      (f = .direction ∧ p.args = [] ∨ f = .extent ∧ p.extent = none) := by
  by_cases h : p.verb = .go ∧ .choice ∉ p.missing
  · rw [requireMovement_of_go h.1 h.2]
    by_cases ha : p.args = [] <;> cases he : p.extent <;>
      simp [mem_missing_require, h, ha, or_assoc]
  · rw [requireMovement_of_not h]
    simp only [h, false_and, or_false]

theorem nodup_requireMovement (h : p.missing.Nodup) : p.requireMovement.missing.Nodup := by
  by_cases hgo : p.verb = .go ∧ .choice ∉ p.missing
  · have hdirection : (if p.args.isEmpty then p.require .direction else p).missing.Nodup := by
      split
      · exact nodup_require h _
      · exact h
    rw [requireMovement_of_go hgo.1 hgo.2]
    split
    · exact nodup_require hdirection _
    · exact hdirection
  · rw [requireMovement_of_not hgo]
    exact h

theorem IsConsistent.requireMovement (h : p.IsConsistent) : p.requireMovement.IsConsistent := by
  have hnodup := nodup_requireMovement h.nodup
  have hmem := fun f => mem_missing_requireMovement (p := p) (f := f)
  rw [requireMovement_eq]
  refine ⟨hnodup, h.kind, fun hd => ?_, fun he => ?_, h.apart⟩
  · rcases (hmem _).mp hd with hd | ⟨⟨hgo, -⟩, ⟨-, hargs⟩ | ⟨hd, -⟩⟩
    · exact h.direction hd
    · exact ⟨hgo, hargs⟩
    · cases hd
  · rcases (hmem _).mp he with he | ⟨-, ⟨he, -⟩ | ⟨-, hextent⟩⟩
    · exact h.extent he
    · cases he
    · exact hextent

theorem IsOpen.requireMovement (h : p.IsOpen) : p.requireMovement.IsOpen := by
  intro f hf
  rcases mem_missing_requireMovement.mp hf with hf | ⟨-, ⟨hf, -⟩ | ⟨hf, -⟩⟩
  · exact h f hf
  · exact Or.inl hf
  · exact Or.inr hf

/-- The next field is asked for, or everything is known and resolved with as many arguments as the
verb takes. -/
theorem finish_cases (p : Pending) (r : Registry) (score : Score) :
    (∃ field, p.requireMovement.next? = some field ∧ p.finish r score = .awaitingMore
      { p with missing := p.requireMovement.missing, prompt := p.requireMovement.promptFor field,
               attempts := 0 }) ∨
    (p.requireMovement.missing = [] ∧ p.finish r score = .resolved
      { Intent.forVerb p.verb
          (match r.command? p.verb with
            | some command => p.args.take command.maxArgs
            | none => p.args)
          (Confidence.blend 1 score) with quantity := p.quantity, extent := p.extent }) := by
  obtain ⟨missing, heq⟩ : ∃ missing, p.requireMovement = { p with missing } :=
    ⟨_, p.requireMovement_eq⟩
  unfold finish
  rw [heq]
  simp only
  split
  · next field hfield => exact Or.inl ⟨field, hfield, rfl⟩
  · next hnone => exact Or.inr ⟨List.head?_eq_none_iff.mp hnone, rfl⟩

/-- Only what is missing, the prompt and the count of attempts change before the next question. -/
theorem of_pending?_finish {score : Score} (hq : (p.finish r score).pending? = some q) :
    ∃ field, p.requireMovement.next? = some field ∧
      q = { p with missing := p.requireMovement.missing,
                   prompt := p.requireMovement.promptFor field, attempts := 0 } := by
  rcases p.finish_cases r score with ⟨field, hfield, heq⟩ | ⟨-, heq⟩
  · rw [heq] at hq
    exact ⟨field, hfield, (Option.some.inj hq).symm⟩
  · rw [heq] at hq
    cases hq

/-! ## Steps -/

theorem isCoherent_finish (h : p.IsConsistent) (hopen : p.IsOpen) (score : Score)
    (hq : (p.finish r score).pending? = some q) : q.IsCoherent := by
  have hopen := hopen.requireMovement
  have h := h.requireMovement
  obtain ⟨field, hfield, rfl⟩ := of_pending?_finish hq
  rw [requireMovement_eq] at h
  refine ⟨⟨h.nodup, h.kind, h.direction, h.extent, h.apart⟩, ?_, fun ht => ?_, fun hc => ?_⟩
  · exact List.ne_nil_of_mem (List.mem_of_mem_head? hfield)
  · rcases hopen _ ht with h' | h' <;> cases h'
  · rcases hopen _ hc with h' | h' <;> cases h'

/-- An answer that is not a cancellation is settled by the reply to the next field. -/
theorem IsCoherent.answer_eq_or (h : p.IsCoherent) (r : Registry) (scene : Scene) (line : String) :
    p.answer r scene line = .cancelled ∨
      ∃ field, p.next? = some field ∧
        p.answer r scene line = p.settle r field (p.reply scene line field) := by
  unfold answer
  split
  · exact Or.inl rfl
  · split
    · next hnone => exact absurd (List.head?_eq_none_iff.mp hnone) h.waits
    · next field hfield => exact Or.inr ⟨field, hfield, rfl⟩

theorem IsCoherent.replies_reply (h : p.IsCoherent) (hfield : p.next? = some field) (scene : Scene)
    (line : String) : p.Replies field (p.reply scene line field) :=
  Pending.replies_reply line (fun hd => (h.direction hd).1) (List.mem_of_mem_head? hfield)

/-- So it is settled as one of the replies that there are. -/
theorem IsCoherent.answer_cases (h : p.IsCoherent) (r : Registry) (scene : Scene) (line : String) :
    p.answer r scene line = .cancelled ∨
      ∃ field reply, p.next? = some field ∧ p.Replies field reply ∧
        p.answer r scene line = p.settle r field reply := by
  rcases h.answer_eq_or r scene line with heq | ⟨field, hfield, heq⟩
  · exact Or.inl heq
  · exact Or.inr ⟨field, _, hfield, h.replies_reply hfield scene line, heq⟩

/-- What an answer leaves to ask is left by one of the replies to the next field. -/
theorem IsCoherent.settle_of_pending? (h : p.IsCoherent) {line : String}
    (hq : (p.answer r scene line).pending? = some q) :
    ∃ field reply, p.next? = some field ∧ p.Replies field reply ∧
      (p.settle r field reply).pending? = some q := by
  rcases h.answer_cases r scene line with heq | ⟨field, reply, hfield, hreply, heq⟩
  · rw [heq] at hq
    cases hq
  · exact ⟨field, reply, hfield, hreply, heq ▸ hq⟩

/-- What an answer resolves is resolved by one of the replies to the next field. -/
theorem IsCoherent.settle_of_resolved (h : p.IsCoherent) {line : String} {i : Intent}
    (hi : p.answer r scene line = .resolved i) :
    ∃ field reply, p.next? = some field ∧ p.Replies field reply ∧
      p.settle r field reply = .resolved i := by
  rcases h.answer_cases r scene line with heq | ⟨field, reply, hfield, hreply, heq⟩
  · rw [heq] at hi
    cases hi
  · exact ⟨field, reply, hfield, hreply, heq ▸ hi⟩

/-- **An answer leaves a coherent pending intent, if any**, in whatever registry and scene. -/
theorem isCoherent_answer (h : p.IsCoherent) (r : Registry) (scene : Scene) (line : String)
    (hq : (p.answer r scene line).pending? = some q) : q.IsCoherent := by
  obtain ⟨field, reply, hfield, hreply, hq⟩ := h.settle_of_pending? hq
  cases reply with
  | filled next score =>
    obtain ⟨hnext, hopen, -⟩ := h.filled hfield hreply
    exact isCoherent_finish hnext hopen score hq
  | chosen option =>
    cases hreply with
    | choice offered =>
      obtain ⟨hchosen, hopen⟩ := h.choose hfield offered
      exact isCoherent_finish hchosen hopen 1 hq
  | again next prompt =>
    cases hreply with
    | again amends =>
      cases hq
      have hnext := h.amends hfield amends
      exact ⟨⟨hnext.nodup, hnext.kind, hnext.direction, hnext.extent, hnext.apart⟩,
        hnext.waits, hnext.target, fun hc =>
          ⟨(hnext.choice hc).first, (hnext.choice hc).undirected, (hnext.choice hc).nonempty,
            (hnext.choice hc).few, (hnext.choice hc).amounts⟩⟩
  | asks next question =>
    cases hreply with
    | asks amends raises =>
      cases hq
      exact h.escalate hfield amends raises

/-! ## Runs -/

/-- A pending intent that some lines lead to: one line is answered by a question, and every answer
leaves something to ask.  The registry and the scene may be others at every step. -/
inductive Reachable : Pending → Prop
  | asked (r : Registry) (scene : Scene) (line : String) {p : Pending}
      (h : ofIntent? (r.interpret scene line) = some p) : Reachable p
  | answered (r : Registry) (scene : Scene) (line : String) {p q : Pending} (hp : Reachable p)
      (h : (p.answer r scene line).pending? = some q) : Reachable q

theorem isCoherent_of_reachable (h : p.Reachable) : p.IsCoherent := by
  induction h with
  | asked r scene line h => exact isCoherent_of_interpret r scene line h
  | answered r scene line _ h ih => exact isCoherent_answer ih r scene line h

/-- A number that waits for its unit is stored as a count. -/
theorem storedCount?_isSome_iff :
    p.storedCount?.isSome = true ↔ ∃ n, p.quantity = some n ∧ n.unit = .count := by
  unfold storedCount?
  rw [Option.isSome_map, Option.isSome_iff_exists]
  simp [Option.filter_eq_some_iff]

/-- What a host relies on between a question and its answer. -/
structure IsWellFormed (p : Pending) : Prop where
  waits : p.missing ≠ []
  once : p.missing.Nodup
  choiceFirst : .choice ∉ p.missing.tail
  options : .choice ∈ p.missing → 1 ≤ p.options.length ∧ p.options.length ≤ 4
  direction : .direction ∈ p.missing → p.args = []
  extent : .extent ∈ p.missing → p.extent = none
  amounts : ¬ (p.extent.isSome = true ∧ ∃ n, p.quantity = some n ∧ n.unit = .count)
  kind : p.kind = p.verb.kind

theorem IsCoherent.choice_not_mem_tail (h : p.IsCoherent) : .choice ∉ p.missing.tail := by
  intro hc
  have hoffer := h.choice (List.mem_of_mem_tail hc)
  obtain ⟨rest, hrest⟩ := List.head?_eq_some_iff.mp hoffer.first
  have hnodup := h.nodup
  rw [hrest] at hc hnodup
  exact (List.nodup_cons.mp hnodup).1 hc

theorem IsConsistent.not_extent_and_count (h : p.IsConsistent) :
    ¬ (p.extent.isSome = true ∧ ∃ n, p.quantity = some n ∧ n.unit = .count) := by
  rintro ⟨hextent, hcount⟩
  rw [← storedCount?_isSome_iff] at hcount
  rcases h.apart with hnone | hnone
  · rw [hnone] at hcount
    cases hcount
  · rw [hnone] at hextent
    cases hextent

/-- **Every pending intent of a dialogue is well formed**, wherever its answers are given. -/
theorem isWellFormed_of_reachable {p : Pending} (h : p.Reachable) : p.IsWellFormed := by
  have hp := isCoherent_of_reachable h
  refine ⟨hp.waits, hp.nodup, hp.choice_not_mem_tail, fun hc => ?_,
    fun hd => (hp.direction hd).2, hp.extent, hp.toIsConsistent.not_extent_and_count, hp.kind⟩
  have hoffer := hp.choice hc
  exact ⟨List.length_pos_iff.mpr hoffer.nonempty, hoffer.few⟩

theorem isWellFormed_after_go_north :
    let r := Registry.empty.register { verb := .go }
    ∃ first p, ofIntent? (r.interpret {} "go") = some first ∧
      (first.answer r {} "north").pending? = some p ∧ p.IsWellFormed := by
  intro r
  have hrun : ((ofIntent? (r.interpret {} "go")).bind fun first =>
      (first.answer r {} "north").pending?).isSome = true := by decide +kernel
  obtain ⟨p, hp⟩ := Option.isSome_iff_exists.mp hrun
  obtain ⟨first, hfirst, hp⟩ := Option.bind_eq_some_iff.mp hp
  exact ⟨first, p, hfirst, hp,
    isWellFormed_of_reachable (.answered _ _ _ (.asked _ _ _ hfirst) hp)⟩

end Pending

end PlayerCommands
