import PlayerCommands.Proofs.Acceptance
import PlayerCommands.Proofs.Options

/-!
# The arguments that a dialogue supplies

A resolved intent never has more arguments than its command takes, but it may have fewer than the
command needs: after a line was interpreted, nothing counts them again.  A dialogue about the verb
that was read first supplies one argument, however many are needed; and where another verb is chosen
in its place, that one takes over the arguments of the first, however few there are.

    first.Leads r p → p.answer r scene line = .resolved i →
      i.verb = some v ∧ i.args.length ≤ c.maxArgs ∧ (v = .go ∨ i.coversAll ∨
        v = first.verb ∧ min c.minArgs 1 ≤ i.args.length ∨
        v ≠ first.verb ∧ i.args = first.args.take c.maxArgs)                  (supplied_of_leads)

Until it ends, a dialogue about any other verb than `go` waits for a target or a choice alone
(`IsWeighing`).  Only a movement goes on for longer, and then it stays one (`IsMoving`).
-/

namespace PlayerCommands

/-- What a dialogue about an intent supplies: arguments for its verb, or those of the intent, which
were enough for that verb. -/
inductive Intent.Supplies (r : Registry) (i : Intent) (verb : Verb) (args : List String)
    (quantity : Option Quantity) : Prop
  | movement (go : verb = .go)
  | named (same : i.verb = some verb) (given : args ≠ [])
  | taken (same : args = i.args) (kept : quantity = i.quantity) (enough : i.HasEnough r)

namespace Pending

/-- A dialogue leads from a first pending intent to another one, in one registry.  The scene may be
another at every step. -/
inductive Leads (r : Registry) (first : Pending) : Pending → Prop
  | here : Leads r first first
  | answered (scene : Scene) (line : String) {p q : Pending} (hp : Leads r first p)
      (h : (p.answer r scene line).pending? = some q) : Leads r first q

/-- A movement, whatever is chosen. -/
structure IsMoving (p : Pending) : Prop where
  verb : p.verb = .go
  options : ∀ o ∈ p.options, o.verb = some .go

/-- An intent before its one question is answered. -/
structure IsWeighing (r : Registry) (i : Intent) (p : Pending) : Prop where
  verb : i.verb = some p.verb
  quantity : p.quantity = i.quantity
  asks : p.missing = [.target] ∨ p.missing = [.choice]
  options : ∀ o ∈ p.options, (o.verb = i.verb ∧ o.args ≠ []) ∨
    (p.missing = [.choice] ∧ o.args = i.args ∧ i.HasEnough r)

variable {r : Registry} {scene : Scene} {line : String} {i j : Intent} {p next q : Pending}
  {field : Field} {score : Score}

/-! ## The first question -/

theorem isMoving_or_isWeighing {question : Question Intent} (hq : question.IsPosed r i)
    (hverb : i.verb = some p.verb) (hquantity : p.quantity = i.quantity)
    (hmissing : p.missing = question.missing) (hoptions : p.options = question.options) :
    p.IsMoving ∨ p.IsWeighing r i := by
  have hsupplied := hq.supplied
  rw [← hmissing, ← hoptions] at hsupplied
  rcases hq.kind with hchoice | ⟨hgo, hnil⟩ | ⟨htarget, -, -⟩
  · exact Or.inr ⟨hverb, hquantity, Or.inr (hmissing.trans hchoice), hsupplied⟩
  · refine Or.inl ⟨Option.some.inj (hverb.symm.trans hgo), fun o ho => ?_⟩
    rw [hoptions, hnil] at ho
    cases ho
  · exact Or.inr ⟨hverb, hquantity, Or.inl (hmissing.trans htarget), hsupplied⟩

/-! ## Movements -/

theorem IsMoving.congr (h : p.IsMoving) (hq : q.verb = p.verb ∧ q.options = p.options) :
    q.IsMoving := by
  obtain ⟨hverb, hoptions⟩ := hq
  exact ⟨hverb.trans h.verb, hoptions ▸ h.options⟩

theorem isMoving_of_nil (hverb : p.verb = .go) (hoptions : p.options = []) : p.IsMoving :=
  ⟨hverb, fun o ho => (by rw [hoptions] at ho; cases ho)⟩

theorem IsMoving.choose (h : p.IsMoving) {option : Intent} (hoption : option ∈ p.options) :
    (p.choose option).IsMoving := by
  refine isMoving_of_nil ?_ rfl
  show option.verb.getD p.verb = .go
  rw [h.options option hoption]
  rfl

theorem IsMoving.escalate (h : p.IsMoving) (ha : p.Amends field next) {question : Question Intent}
    (hq : p.Raises next field question) : (next.escalate field question).IsMoving := by
  have hverb : next.verb = .go := ha.keeps.1.trans h.verb
  cases hq with
  | pronoun missing options => exact isMoving_of_nil hverb options
  | close about missing two each => exact ⟨hverb, fun o ho => h.verb ▸ (each o ho).1⟩
  | among missing two offered => exact ⟨hverb, fun o ho => h.options o (offered o ho)⟩

/-- A movement stays one until it is resolved. -/
theorem IsMoving.settle (h : p.IsMoving) {reply : Reply} (hreply : p.Replies field reply)
    (hq : (p.settle r field reply).pending? = some q) : q.IsMoving := by
  cases reply with
  | filled next score =>
    have hnext : (next.without field).IsMoving := h.congr hreply.keeps
    exact hnext.congr (keeps_of_finish hq)
  | chosen option =>
    cases hreply with
    | choice offered => exact (h.choose offered).congr (keeps_of_finish hq)
  | again next prompt =>
    cases hreply with
    | again amends =>
      cases hq
      exact h.congr amends.keeps
  | asks next question =>
    cases hreply with
    | asks amends raises =>
      cases hq
      exact h.escalate amends raises

theorem IsMoving.supplies_of_finish (h : p.IsMoving) (hj : p.finish r score = .resolved j) :
    ∃ v args, j.verb = some v ∧ j.args = r.fit v args ∧ i.Supplies r v args j.quantity := by
  obtain ⟨-, rfl⟩ := of_finish_resolved hj
  exact ⟨p.verb, p.args, rfl, rfl, .movement h.verb⟩

theorem IsMoving.supplies (h : p.IsMoving) {reply : Reply} (hreply : p.Replies field reply)
    (hj : p.settle r field reply = .resolved j) :
    ∃ v args, j.verb = some v ∧ j.args = r.fit v args ∧ i.Supplies r v args j.quantity := by
  cases reply with
  | filled next score =>
    have hnext : (next.without field).IsMoving := h.congr hreply.keeps
    exact hnext.supplies_of_finish hj
  | chosen option =>
    cases hreply with
    | choice offered => exact (h.choose offered).supplies_of_finish hj
  | again next prompt => cases hj
  | asks next question => cases hj

/-! ## Other questions -/

theorem IsWeighing.missing_eq (h : p.IsWeighing r i) (hfield : p.next? = some field) :
    p.missing = [field] := by
  unfold next? at hfield
  rcases h.asks with hmissing | hmissing
  all_goals
    rw [hmissing] at hfield ⊢
    rw [Option.some.inj hfield]

theorem IsWeighing.field_eq (h : p.IsWeighing r i) (hfield : p.next? = some field) :
    field = .target ∨ field = .choice := by
  have hmissing := h.missing_eq hfield
  rcases h.asks with hasks | hasks
  · rw [hasks] at hmissing
    exact Or.inl (List.cons.inj hmissing).1.symm
  · rw [hasks] at hmissing
    exact Or.inr (List.cons.inj hmissing).1.symm

/-- Nothing is missing once the question is answered. -/
theorem IsWeighing.without_eq (h : p.IsWeighing r i) (hfield : p.next? = some field) :
    p.missing.filter (· ≠ field) = [] := by
  rw [h.missing_eq hfield]
  simp

/-- Only a target can be filled in. -/
theorem IsWeighing.filled (h : p.IsWeighing r i) (hfield : p.next? = some field)
    (hreply : p.Replies field (.filled next score)) :
    field = .target ∧ ∃ args, args ≠ [] ∧ next = { p with args } := by
  have hasks := h.field_eq hfield
  cases hreply with
  | direction => rcases hasks with h' | h' <;> cases h'
  | extent => rcases hasks with h' | h' <;> cases h'
  | both => rcases hasks with h' | h' <;> cases h'
  | target scored given => exact ⟨rfl, _, given, rfl⟩

/-- A question that is raised in place of the first one takes its place. -/
theorem IsWeighing.escalate (h : p.IsWeighing r i) (hfield : p.next? = some field)
    (ha : p.Amends field next) {question : Question Intent}
    (hq : p.Raises next field question) : (next.escalate field question).IsWeighing r i := by
  obtain rfl : next = p := ha.eq_self (h.field_eq hfield).symm
  have hmissing : (next.escalate field question).missing = question.missing := by
    unfold Pending.escalate
    rw [h.without_eq hfield]
    rfl
  cases hq with
  | pronoun missing options =>
    refine ⟨h.verb, h.quantity, Or.inl (hmissing.trans missing), fun o ho => ?_⟩
    have ho : o ∈ question.options := ho
    rw [options] at ho
    cases ho
  | close about missing two each named =>
    exact ⟨h.verb, h.quantity, Or.inr (hmissing.trans missing),
      fun o ho => Or.inl ⟨(each o ho).1.trans h.verb.symm, named o ho⟩⟩
  | among missing two offered =>
    refine ⟨h.verb, h.quantity, Or.inr (hmissing.trans missing), fun o ho => ?_⟩
    rcases h.options o (offered o ho) with hown | ⟨-, htaken⟩
    · exact Or.inl hown
    · exact Or.inr ⟨hmissing.trans missing, htaken⟩

/-- The answer ends the dialogue, unless it is about a movement or puts another question. -/
theorem IsWeighing.settle (h : p.IsWeighing r i) (hfield : p.next? = some field) {reply : Reply}
    (hreply : p.Replies field reply) (hq : (p.settle r field reply).pending? = some q) :
    q.IsMoving ∨ q.IsWeighing r i := by
  have hnone := h.without_eq hfield
  cases reply with
  | filled next score =>
    left
    obtain ⟨rfl, args, -, rfl⟩ := h.filled hfield hreply
    by_cases hgo : p.verb = .go
    · have hmoving : (without { p with args } .target).IsMoving := by
        refine ⟨hgo, fun o ho => ?_⟩
        rcases h.options o ho with ⟨hown, -⟩ | ⟨hchoice, -⟩
        · rw [hown, h.verb, hgo]
        · cases (h.missing_eq hfield).symm.trans hchoice
      exact hmoving.congr (keeps_of_finish hq)
    · have hverb : (without { p with args } .target).verb ≠ .go := hgo
      cases hq.symm.trans (pending?_finish_of_nil hverb hnone r score)
  | chosen option =>
    left
    cases hreply with
    | choice offered =>
      by_cases hgo : (p.choose option).verb = .go
      · exact (isMoving_of_nil hgo rfl).congr (keeps_of_finish hq)
      · cases hq.symm.trans (pending?_finish_of_nil hgo hnone r 1)
  | again next prompt =>
    right
    cases hreply with
    | again amends =>
      obtain rfl : next = p := amends.eq_self (h.field_eq hfield).symm
      cases hq
      exact ⟨h.verb, h.quantity, h.asks, h.options⟩
  | asks next question =>
    right
    cases hreply with
    | asks amends raises =>
      cases hq
      exact h.escalate hfield amends raises

/-- A resolved intent has an argument for its verb, or it has those of the intent asked about. -/
theorem IsWeighing.supplies (h : p.IsWeighing r i) (hp : p.IsCoherent)
    (hfield : p.next? = some field) {reply : Reply} (hreply : p.Replies field reply)
    (hj : p.settle r field reply = .resolved j) :
    ∃ v args, j.verb = some v ∧ j.args = r.fit v args ∧ i.Supplies r v args j.quantity := by
  cases reply with
  | filled next score =>
    obtain ⟨-, rfl⟩ := of_finish_resolved hj
    obtain ⟨rfl, args, hgiven, rfl⟩ := h.filled hfield hreply
    exact ⟨p.verb, args, rfl, rfl, .named h.verb hgiven⟩
  | chosen option =>
    obtain ⟨-, rfl⟩ := of_finish_resolved hj
    cases hreply with
    | choice offered =>
      refine ⟨(p.choose option).verb, option.args, rfl, rfl, ?_⟩
      have hquantity : (p.choose option).quantity = p.quantity :=
        Intent.or_eq_of_none_or
          ((hp.choice (List.mem_of_mem_head? hfield)).amounts option offered).1
      rcases h.options option offered with ⟨hown, hargs⟩ | ⟨-, hargs, henough⟩
      · refine .named ?_ hargs
        show i.verb = some (option.verb.getD p.verb)
        rw [hown, h.verb]
        rfl
      · exact .taken hargs (hquantity.trans h.quantity) henough
  | again next prompt => cases hj
  | asks next question => cases hj

/-! ## Dialogues -/

/-- What is known of a pending intent in a dialogue about an intent. -/
structure IsGathering (r : Registry) (i : Intent) (p : Pending) : Prop where
  coherent : p.IsCoherent
  known : p.IsKnown r
  stage : p.IsMoving ∨ p.IsWeighing r i

theorem IsGathering.answer (h : p.IsGathering r i)
    (hq : (p.answer r scene line).pending? = some q) : q.IsGathering r i := by
  refine ⟨isCoherent_answer h.coherent r scene line hq, isKnown_answer h.coherent h.known hq, ?_⟩
  obtain ⟨field, reply, hfield, hreply, hq⟩ := h.coherent.settle_of_pending? hq
  rcases h.stage with hmoving | hweighing
  · exact Or.inl (hmoving.settle hreply hq)
  · exact hweighing.settle hfield hreply hq

theorem isGathering_of_leads {first : Pending} (h : first.IsGathering r i)
    (hp : Leads r first p) : p.IsGathering r i := by
  induction hp with
  | here => exact h
  | answered scene line hp hq ih => exact ih.answer hq

theorem IsGathering.supplies (h : p.IsGathering r i) (hj : p.answer r scene line = .resolved j) :
    ∃ v args, j.verb = some v ∧ j.args = r.fit v args ∧ i.Supplies r v args j.quantity := by
  obtain ⟨field, reply, hfield, hreply, hj⟩ := h.coherent.settle_of_resolved hj
  rcases h.stage with hmoving | hweighing
  · exact hmoving.supplies hreply hj
  · exact hweighing.supplies h.coherent hfield hreply hj

/-- Fitting the arguments that a command needs into it leaves enough of them. -/
theorem min_le_length_fit {v : Verb} {c : Command} {args : List String} {n : Nat}
    (hc : r.command? v = some c) (hbounds : c.minArgs ≤ c.maxArgs) (hn : n ≤ args.length) :
    min c.minArgs n ≤ (r.fit v args).length := by
  unfold Registry.fit
  rw [hc]
  simp only [List.length_take]
  omega

/-- What is left of the supplied arguments in a resolved intent. -/
theorem counted_of_supplies {v verb : Verb} {c : Command} {args : List String}
    (h : i.Supplies r v args j.quantity) (hi : i.verb = some verb) (hc : r.command? v = some c)
    (hbounds : c.minArgs ≤ c.maxArgs) (hverb : j.verb = some v) (hargs : j.args = r.fit v args) :
    v = .go ∨ j.coversAll = true ∨ (v = verb ∧ min c.minArgs 1 ≤ j.args.length) ∨
      (v ≠ verb ∧ j.args = i.args.take c.maxArgs) := by
  cases h with
  | movement go => exact Or.inl go
  | named same given =>
    refine Or.inr (Or.inr (Or.inl ⟨Option.some.inj (same.symm.trans hi), ?_⟩))
    rw [hargs]
    exact min_le_length_fit hc hbounds (List.length_pos_iff.mpr given)
  | taken same kept enough =>
    by_cases hgo : v = .go
    · exact Or.inl hgo
    · by_cases hv : v = verb
      · subst hv
        rcases enough v c hi hc hgo with hmin | hall
        · refine Or.inr (Or.inr (Or.inl ⟨rfl, ?_⟩))
          have hfits := min_le_length_fit hc hbounds hmin
          rw [hargs, same]
          omega
        · refine Or.inr (Or.inl ?_)
          unfold Intent.coversAll at hall ⊢
          rw [hverb, kept, ← hi]
          exact hall
      · refine Or.inr (Or.inr (Or.inr ⟨hv, ?_⟩))
        rw [hargs, same]
        unfold Registry.fit
        rw [hc]

theorem bounded_of_register {d : CommandDef} (hd : d.minArgs ≤ d.maxArgs) {v : Verb} {c : Command}
    (hc : (Registry.empty.register d).command? v = some c) : c.minArgs ≤ c.maxArgs := by
  rw [Registry.command?_register] at hc
  split at hc
  · cases hc
    exact hd
  · cases hc

/-- **What a dialogue supplies**: never more than the command takes; for the verb that was read
first one argument, if any is needed; for another one that was chosen what the first one had. -/
theorem supplied_of_leads {first : Pending}
    (hbounds : ∀ v c, r.command? v = some c → c.minArgs ≤ c.maxArgs)
    (hfirst : ofIntent? (r.interpret scene line) = some first) (hp : Leads r first p)
    {answer : String} {now : Scene} (hj : p.answer r now answer = .resolved j) :
    ∃ v c, j.verb = some v ∧ r.command? v = some c ∧ j.args.length ≤ c.maxArgs ∧
      (v = .go ∨ j.coversAll = true ∨ (v = first.verb ∧ min c.minArgs 1 ≤ j.args.length) ∨
        (v ≠ first.verb ∧ j.args = first.args.take c.maxArgs)) := by
  have hcoherent := isCoherent_of_interpret r scene line hfirst
  have hknown := isKnown_of_interpret hfirst
  obtain ⟨i, verb, command, question, -, hi, hq, rfl⟩ := of_ofIntent?_interpret hfirst
  have hgathering := isGathering_of_leads
    ⟨hcoherent, hknown, isMoving_or_isWeighing hq hi.verb rfl rfl rfl⟩ hp
  obtain ⟨v, c, hc, hactionable, -⟩ := isRunnable_of_answer hgathering.coherent hgathering.known hj
  obtain ⟨v', args, hverb, hargs, hsupplies⟩ := hgathering.supplies hj
  obtain rfl : v' = v := Option.some.inj (hverb.symm.trans hactionable.verb)
  exact ⟨v', c, hverb, hc, hactionable.fits,
    counted_of_supplies hsupplies hi.verb hc (hbounds v' c hc) hverb hargs⟩

/-- A stick is named after it was asked what to take. -/
theorem supplied_of_leads_stick :
    let r := Registry.empty.register { verb := .take, minArgs := 1, maxArgs := 2 }
    let scene : Scene := { nearby := ["stick", "stone"] }
    ∃ first j, ofIntent? (r.interpret scene "take") = some first ∧
      first.answer r scene "stick" = .resolved j ∧
      ∃ v c, j.verb = some v ∧ r.command? v = some c ∧ j.args.length ≤ c.maxArgs ∧
        (v = .go ∨ j.coversAll = true ∨ (v = first.verb ∧ min c.minArgs 1 ≤ j.args.length) ∨
          (v ≠ first.verb ∧ j.args = first.args.take c.maxArgs)) := by
  intro r scene
  have hrun : ((ofIntent? (r.interpret scene "take")).bind fun first =>
      (first.answer r scene "stick").intent?).isSome = true := by decide +kernel
  obtain ⟨j, hj⟩ := Option.isSome_iff_exists.mp hrun
  obtain ⟨first, hfirst, hj⟩ := Option.bind_eq_some_iff.mp hj
  have hj := Outcome.eq_resolved hj
  exact ⟨first, j, hfirst, hj,
    supplied_of_leads (fun _ _ => bounded_of_register (by decide)) hfirst .here hj⟩

/-- Of two arguments that are needed the dialogue asks for one. -/
theorem short_of_leads_spear :
    ¬ ∀ (r : Registry) (scene now : Scene) (line answer : String) (first p : Pending) (j : Intent),
      (∀ v c, r.command? v = some c → c.minArgs ≤ c.maxArgs) →
      ofIntent? (r.interpret scene line) = some first → Leads r first p →
      p.answer r now answer = .resolved j →
      ∃ v c, j.verb = some v ∧ r.command? v = some c ∧ j.args.length ≤ c.maxArgs ∧
        (v = .go ∨ j.coversAll = true ∨ c.minArgs ≤ j.args.length) := by
  intro hall
  let r := Registry.empty.register { verb := .craft, minArgs := 2, maxArgs := 3 }
  have hrun : ((ofIntent? (r.interpret {} "craft")).any fun first =>
      (first.answer r {} "spear").intent?.any fun j =>
        j.verb = some .craft && ! j.coversAll && j.args.length = 1) = true := by
    decide +kernel
  obtain ⟨first, hfirst, hsome⟩ := (Option.any_eq_true _ _).mp hrun
  obtain ⟨j, hj, hsome⟩ := (Option.any_eq_true _ _).mp hsome
  simp only [Bool.and_eq_true, Bool.not_eq_true', decide_eq_true_eq] at hsome
  obtain ⟨⟨hverb, hpartial⟩, hone⟩ := hsome
  obtain ⟨v, c, hv, hc, -, hgo | hcovers | hmin⟩ := hall r {} {} "craft" "spear" first first j
    (fun _ _ => bounded_of_register (by decide)) hfirst .here (Outcome.eq_resolved hj)
  · rw [hverb, hgo] at hv
    cases hv
  · rw [hpartial] at hcovers
    cases hcovers
  · obtain rfl : .craft = v := Option.some.inj (hverb.symm.trans hv)
    cases hc
    rw [hone] at hmin
    exact absurd hmin (by decide)

end Pending

end PlayerCommands
