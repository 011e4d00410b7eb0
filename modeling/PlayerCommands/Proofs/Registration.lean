import Mathlib.Data.List.Induction
import Mathlib.Data.List.Nodup
import PlayerCommands.Proofs.Protection
import PlayerCommands.Proofs.Spelling
import PlayerCommands.Registry.Builtin

/-!
# The last definition counts

However often the verbs are registered, and in which order, a registry is known by the last
definition of each verb: its aliases in normal form, without those of which nothing is left.  The
phrases follow verb by verb: the name, then each of those aliases where it first occurs.

    (r.registerAll defs).command? v = ((defs.last? v).map commandOf).or (r.command? v)
                                                                       (command?_registerAll_or)
    (∀ v, others.last? v = defs.last? v) → r.registerAll others = r.registerAll defs
                                                                            (registerAll_congr)
    r.entries.map Entry.listed = Verb.all.flatMap fun v => …                   (listed_entries)
-/

namespace PlayerCommands

/-! ## Definitions -/

/-- A definition as it is kept: its aliases in normal form, without those of which nothing is
left. -/
def CommandDef.normal (d : CommandDef) : CommandDef :=
  { d with aliases := (d.aliases.map Text.normalize).filter (· ≠ "") }

/-- The last definition of a verb. -/
def CommandTable.last? (defs : CommandTable) (v : Verb) : Option CommandDef :=
  defs.findRev? (·.verb = v)

/-- What a listing shows of a phrase: its verb, its text, and whether it is the verb's name. -/
def Entry.listed (e : Entry) : Verb × String × Bool := (e.verb, e.phrase.text, e.canonical)

namespace CommandTable

variable {defs : CommandTable} {d : CommandDef} {v : Verb}

theorem last?_append_singleton (defs : CommandTable) (d : CommandDef) (v : Verb) :
    last? (defs ++ [d]) v = if v = d.verb then some d else last? defs v := by
  unfold last?
  rw [List.findRev?_eq_find?_reverse, List.findRev?_eq_find?_reverse, List.reverse_append,
    List.reverse_singleton, List.singleton_append, List.find?_cons]
  by_cases h : v = d.verb
  · simp [h]
  · simp [h, Ne.symm h]

theorem mem_of_last? (h : defs.last? v = some d) : d ∈ defs := by
  unfold last? at h
  rw [List.findRev?_eq_find?_reverse] at h
  exact List.mem_reverse.mp (List.mem_of_find?_eq_some h)

end CommandTable

/-! ## Phrases -/

theorem Phrase.text_injective : Function.Injective Phrase.text := by
  rintro ⟨text, htext⟩ ⟨text', htext'⟩ h
  cases h
  rfl

theorem Phrase.normalize_text (p : Phrase) : Text.normalize p.text = p.text := by
  obtain ⟨text, -, s, rfl⟩ := p
  exact Text.normalize_normalize s

theorem Verb.text_phrase (v : Verb) : v.phrase.text = Text.normalize v.name := by
  rw [v.phrase.text_eq_unwords, ← v.words_name]
  rfl

namespace Name

variable {α β : Type} [DecidableEq α] [DecidableEq β]

theorem distinct_cons (a : α) (rest : List α) :
    distinct (a :: rest) = a :: (distinct rest).filter (· ≠ a) := rfl

theorem filter_distinct (p : α → Bool) (l : List α) :
    (distinct l).filter p = distinct (l.filter p) := by
  induction l with
  | nil => rfl
  | cons a rest ih =>
    have hrest : ((distinct rest).filter (· ≠ a)).filter p =
        (distinct (rest.filter p)).filter (· ≠ a) := by
      rw [List.filter_comm, ih]
    rw [distinct_cons]
    by_cases ha : p a = true
    · rw [List.filter_cons_of_pos ha, List.filter_cons_of_pos ha, hrest, distinct_cons]
    · rw [List.filter_cons_of_neg ha, List.filter_cons_of_neg ha, hrest]
      -- nothing that is left equals `a`, since `a` itself is not left
      refine List.filter_eq_self.mpr fun b hb => ?_
      rw [decide_eq_true_eq]
      rintro rfl
      exact ha (List.mem_filter.mp (mem_distinct.mp hb)).2

/-- The elements where they first occur are those that the library keeps. -/
theorem distinct_eq_eraseDups (l : List α) : distinct l = l.eraseDups := by
  induction hn : l.length using Nat.strongRecOn generalizing l with
  | ind n ih =>
    cases l with
    | nil => rfl
    | cons a rest =>
      have hlt : (rest.filter (· ≠ a)).length < n := by
        have := List.length_filter_le (· ≠ a) rest
        rw [List.length_cons] at hn
        omega
      have hbeq : (rest.filter fun b => ! b == a) = rest.filter (· ≠ a) :=
        List.filter_congr fun b _ => by by_cases h : b = a <;> simp [h]
      rw [List.eraseDups_cons, hbeq, ← ih _ hlt _ rfl, ← filter_distinct, distinct_cons]

theorem map_distinct {f : α → β} (hf : Function.Injective f) (l : List α) :
    (distinct l).map f = distinct (l.map f) := by
  induction l with
  | nil => rfl
  | cons a rest ih =>
    have hne : ((distinct rest).filter (· ≠ a)).map f =
        ((distinct rest).map f).filter (· ≠ f a) := by
      rw [List.filter_map]
      congr 1
      exact List.filter_congr fun b _ => by simp [hf.eq_iff]
    rw [distinct_cons, List.map_cons, hne, ih, List.map_cons, distinct_cons]

end Name

namespace Registry

variable {r s start : Registry} {defs others : CommandTable} {d : CommandDef} {v : Verb} {e : Entry}

/-! ## Histories -/

theorem eq_of_command? (h : ∀ v, r.command? v = s.command? v) : r = s := by
  obtain ⟨command?⟩ := r
  obtain ⟨command?'⟩ := s
  congr 1
  exact funext h

theorem registerAll_append_singleton (start : Registry) (defs : CommandTable) (d : CommandDef) :
    start.registerAll (defs ++ [d]) = (start.registerAll defs).register d := by
  unfold registerAll
  rw [List.foldl_append]
  rfl

/-- **The last definition of a verb counts**, and without one the verb is left as it was. -/
theorem command?_registerAll_or (start : Registry) (defs : CommandTable) (v : Verb) :
    (start.registerAll defs).command? v =
      ((defs.last? v).map commandOf).or (start.command? v) := by
  induction defs using List.reverseRecOn with
  | nil => rfl
  | append_singleton defs d ih =>
    rw [registerAll_append_singleton, command?_register, CommandTable.last?_append_singleton]
    split
    · rfl
    · exact ih

theorem registerAll_congr (h : ∀ v, others.last? v = defs.last? v) :
    start.registerAll others = start.registerAll defs :=
  eq_of_command? fun v => by rw [command?_registerAll_or, command?_registerAll_or, h]

/-- What a verb was registered with last may be registered again. -/
theorem register_last (h : defs.last? d.verb = some d) :
    (start.registerAll defs).register d = start.registerAll defs := by
  refine eq_of_command? fun v => ?_
  rw [command?_register]
  split
  · next hv =>
    rw [hv, command?_registerAll_or, h]
    rfl
  · rfl

/-! ## Kept definitions -/

theorem texts_commandOf (d : CommandDef) :
    (commandOf d).aliases.map (·.text) = d.normal.aliases := by
  have htexts : ∀ texts : List String,
      (texts.filterMap Phrase.ofText?).map (·.text) =
        (texts.map Text.normalize).filter (· ≠ "") := by
    intro texts
    induction texts with
    | nil => rfl
    | cons text rest ih =>
      by_cases h : Text.normalize text = ""
      · have hnone : Phrase.ofText? text = none := dif_pos h
        simp [hnone, h, ih]
      · have hsome : Phrase.ofText? text = some ⟨Text.normalize text, h, text, rfl⟩ := dif_neg h
        simp [hsome, h, ih]
  exact htexts d.aliases

theorem definition?_register (r : Registry) (d : CommandDef) (v : Verb) :
    (r.register d).definition? v = if v = d.verb then some d.normal else r.definition? v := by
  have hkept : (commandOf d).aliases.map (·.text) = d.normal.aliases := texts_commandOf d
  unfold definition?
  rw [command?_register]
  split
  · next hv =>
    subst hv
    rw [Option.map_some, hkept]
    rfl
  · rfl

theorem definition?_registerAll (start : Registry) (defs : CommandTable) (v : Verb) :
    (start.registerAll defs).definition? v =
      ((defs.last? v).map CommandDef.normal).or (start.definition? v) := by
  induction defs using List.reverseRecOn with
  | nil => rfl
  | append_singleton defs d ih =>
    rw [registerAll_append_singleton, definition?_register, CommandTable.last?_append_singleton]
    split
    · rfl
    · exact ih

/-! ## Listings -/

/-- The phrases of one verb: its name, then its other phrases where they first occur. -/
theorem listed_entriesOf (v : Verb) (c : Command) :
    (entriesOf v c).map Entry.listed = (v, Text.normalize v.name, true) ::
      (((c.aliases.map (·.text)).eraseDups.filter (· ≠ Text.normalize v.name)).map
        fun text => (v, text, false)) := by
  have hothers : ((Name.distinct c.aliases).filter (· ≠ v.phrase)).map (·.text) =
      (c.aliases.map (·.text)).eraseDups.filter (· ≠ Text.normalize v.name) := by
    rw [← Name.distinct_eq_eraseDups, ← Name.map_distinct Phrase.text_injective, List.filter_map]
    congr 1
    refine List.filter_congr fun p _ => ?_
    simp [← v.text_phrase, Phrase.text_injective.eq_iff]
  rw [entriesOf_eq, List.map_cons, ← hothers, List.map_map, List.map_map]
  congr 1
  show (v, v.phrase.text, true) = _
  rw [v.text_phrase]

theorem listed_entries (r : Registry) :
    r.entries.map Entry.listed = Verb.all.flatMap fun v => match r.definition? v with
      | some d => (v, Text.normalize v.name, true) ::
          ((d.aliases.eraseDups.filter (· ≠ Text.normalize v.name)).map fun text => (v, text, false))
      | none => [] := by
  unfold entries definition?
  rw [List.map_flatMap]
  congr 1
  funext v
  cases r.command? v with
  | none => rfl
  | some c => exact listed_entriesOf v c

/-- No verb has a phrase twice. -/
theorem nodup_entries (r : Registry) : (r.entries.map fun e => (e.verb, e.phrase.text)).Nodup := by
  unfold entries
  rw [List.map_flatMap, List.nodup_flatMap]
  refine ⟨fun v _ => ?_, Verb.nodup_all.imp fun {v w} hne => ?_⟩
  · cases r.command? v with
    | none => exact List.nodup_nil
    | some c =>
      have hphrases : (entriesOf v c).map (·.phrase) = Name.distinct (v.phrase :: c.aliases) := by
        rw [entriesOf_eq, List.map_cons, List.map_map]
        exact congrArg (v.phrase :: ·) (List.map_id _)
      have hpairs : ((entriesOf v c).map fun e => (e.verb, e.phrase.text)) =
          ((entriesOf v c).map (·.phrase)).map fun p => (v, p.text) := by
        rw [List.map_map]
        exact List.map_congr_left fun e he => by
          rw [verb_of_mem_entriesOf he]
          rfl
      show ((entriesOf v c).map fun e => (e.verb, e.phrase.text)).Nodup
      rw [hpairs, hphrases]
      exact (Name.nodup_distinct _).map fun p q h => Phrase.text_injective (Prod.ext_iff.mp h).2
  · -- the first component tells the verbs apart
    have hverb : ∀ u, ∀ x ∈ ((((r.command? u).map (entriesOf u)).getD []).map
        fun e => (e.verb, e.phrase.text)), x.1 = u := by
      intro u x hx
      obtain ⟨e, he, rfl⟩ := List.mem_map.mp hx
      exact verb_of_mem_getD_entriesOf he
    intro x hv hw
    exact hne ((hverb v x hv).symm.trans (hverb w x hw))

/-- **Whatever is registered over a registry, the last definition of each verb decides**: what is
kept of it, the whole registry, and so its phrases; these are in normal form, and each stands once
for its verb. -/
theorem last_definition_decides (start : Registry) (defs : CommandTable) :
    let r := start.registerAll defs
    (∀ v, r.definition? v = ((defs.last? v).map CommandDef.normal).or (start.definition? v)) ∧
      (∀ others : CommandTable, (∀ v, others.last? v = defs.last? v) →
        start.registerAll others = r) ∧
      (∀ d, defs.last? d.verb = some d → r.register d = r) ∧
      (r.entries.map Entry.listed = Verb.all.flatMap fun v => match r.definition? v with
        | some d => (v, Text.normalize v.name, true) ::
            ((d.aliases.eraseDups.filter (· ≠ Text.normalize v.name)).map
              fun text => (v, text, false))
        | none => []) ∧
      (∀ e ∈ r.entries, e.phrase.text ≠ "" ∧ Text.normalize e.phrase.text = e.phrase.text ∧
        e.phrase.words = Text.tokens e.phrase.text) ∧
      (r.entries.map fun e => (e.verb, e.phrase.text)).Nodup := by
  intro r
  refine ⟨definition?_registerAll start defs, fun others h => registerAll_congr h,
    fun d h => register_last h, listed_entries r, fun e _ => ?_, nodup_entries r⟩
  exact ⟨e.phrase.isPhrase.1, e.phrase.normalize_text, rfl⟩

example : ((Registry.empty.registerAll
    [⟨.eat, ["gulp"], 0, 1, true⟩, ⟨.go, [], 0, 1, false⟩,
      ⟨.eat, ["Chew-up", "EAT", "!", "chew up", "bite"], 0, 2, false⟩]).entries.map Entry.listed) =
    [(.go, "go", true), (.eat, "eat", true), (.eat, "chew up", false), (.eat, "bite", false)] := by
  decide +kernel

end Registry

end PlayerCommands
