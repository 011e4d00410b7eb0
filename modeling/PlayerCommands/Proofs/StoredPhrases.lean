import PlayerCommands.Proofs.Registration

/-!
# Stored phrases

A registry may store the list of its phrases beside the definitions, so that no line has to list
them.  Registering a command then puts its definition in place, clears the list, and fills it again
from the definitions that are there now: verb by verb the name, then the aliases one by one, unless
the verb has the phrase in the list already.

    (∀ v, s.definition? v = r.definition? v) → (s.register d).Stores (r.register d)
                                                                                (stores_register)
    s.Stores r → (s.registerAll defs).Stores (r.registerAll defs)            (stores_registerAll)
    s.Stores r → (p ∈ (s.registerAll defs).phrases ↔ ∃ d, … ∧ p ∈ phrasesOf d)
                                                                        (mem_phrases_registerAll)

The first one asks nothing of the list that was stored before: it is cleared as a whole.  So no
phrase of a definition that was replaced is left, and `d` is the last definition of the verb of `p`.
-/

namespace PlayerCommands

/-! ## Registries that store their phrases -/

/-- A phrase as it is stored, cut into its words. -/
structure StoredPhrase where
  verb : Verb
  text : String
  words : List String
  /-- The name of the verb, not an alias. -/
  canonical : Bool
deriving DecidableEq

namespace StoredPhrase

/-- The name of a verb. -/
def ofName (v : Verb) : StoredPhrase :=
  ⟨v, Text.normalize v.name, Text.tokens (Text.normalize v.name), true⟩

/-- An alias of a verb, given in normal form. -/
def ofAlias (v : Verb) (text : String) : StoredPhrase := ⟨v, text, Text.tokens text, false⟩

end StoredPhrase

/-- What is stored of a phrase. -/
def Entry.stored (e : Entry) : StoredPhrase :=
  ⟨e.verb, e.phrase.text, e.phrase.words, e.canonical⟩

/-- The definitions of the registered verbs, and the phrases listed from them. -/
structure StoredRegistry where
  definition? : Verb → Option CommandDef
  phrases : List StoredPhrase

namespace StoredRegistry

def empty : StoredRegistry := ⟨fun _ => none, []⟩

/-- Push an alias, unless its verb has the phrase already. -/
def pushAlias (v : Verb) (phrases : List StoredPhrase) (text : String) : List StoredPhrase :=
  if phrases.any fun p => p.verb == v && p.text == text then phrases
  else phrases ++ [.ofAlias v text]

/-- Push the phrases of a definition. -/
def pushDefinition (phrases : List StoredPhrase) (d : CommandDef) : List StoredPhrase :=
  d.aliases.foldl (pushAlias d.verb) (phrases ++ [.ofName d.verb])

/-- Clear the phrases and list them anew. -/
def rebuild (s : StoredRegistry) : StoredRegistry :=
  { s with phrases := (Verb.all.filterMap s.definition?).foldl pushDefinition [] }

/-- Register a command in place of any earlier definition of its verb. -/
def register (s : StoredRegistry) (d : CommandDef) : StoredRegistry :=
  rebuild { s with definition? := fun v => if v = d.verb then some d.normal else s.definition? v }

/-- Register commands in order. -/
def registerAll (s : StoredRegistry) (defs : List CommandDef) : StoredRegistry :=
  defs.foldl register s

/-- A registry is stored with its definitions and its phrases. -/
structure Stores (s : StoredRegistry) (r : Registry) : Prop where
  definition? : ∀ v, s.definition? v = r.definition? v
  phrases : s.phrases = r.entries.map Entry.stored

variable {s : StoredRegistry} {r : Registry} {v : Verb} {d : CommandDef} {p : StoredPhrase}
  {phrases : List StoredPhrase} {defs : CommandTable}

/-! ## Pushing phrases -/

/-- The phrases of a verb: its name, then these aliases. -/
def block (v : Verb) (texts : List String) : List StoredPhrase :=
  .ofName v :: texts.map (.ofAlias v)

/-- The phrases of a definition: the name, then its other phrases where they first occur. -/
def phrasesOf (d : CommandDef) : List StoredPhrase :=
  block d.verb (d.aliases.eraseDups.filter (· ≠ Text.normalize d.verb.name))

/-- Push a text onto those behind the name of a verb. -/
def pushText (v : Verb) (texts : List String) (text : String) : List String :=
  if (Text.normalize v.name :: texts).contains text then texts else texts ++ [text]

theorem verb_of_mem_block {texts : List String} (h : p ∈ block v texts) : p.verb = v := by
  rcases List.mem_cons.mp h with rfl | h
  · rfl
  · obtain ⟨text, -, rfl⟩ := List.mem_map.mp h
    rfl

/-- A verb has a phrase in its block if it is the name or one of the aliases. -/
theorem any_block (v : Verb) (texts : List String) (text : String) :
    ((block v texts).any fun p => p.verb == v && p.text == text) =
      (Text.normalize v.name :: texts).contains text := by
  rw [Bool.eq_iff_iff]
  simp [block, StoredPhrase.ofName, StoredPhrase.ofAlias, @eq_comm _ text]

/-- Behind phrases of other verbs, an alias is pushed onto the block of its own verb. -/
theorem pushAlias_block (hphrases : ∀ p ∈ phrases, p.verb ≠ v) (texts : List String)
    (text : String) :
    pushAlias v (phrases ++ block v texts) text = phrases ++ block v (pushText v texts text) := by
  have hothers : (phrases.any fun p => p.verb == v && p.text == text) = false := by
    rw [List.any_eq_false]
    intro p hp
    simp [hphrases p hp]
  unfold pushAlias pushText
  rw [List.any_append, hothers, Bool.false_or, any_block]
  split
  · rfl
  · rw [List.append_assoc]
    simp [block]

theorem foldl_pushText (v : Verb) (texts : List String) :
    texts.foldl (pushText v) [] = texts.eraseDups.filter (· ≠ Text.normalize v.name) := by
  -- with the name before them, each text is pushed once
  have hcons : texts.foldl (fun acc text => if acc.contains text then acc else acc ++ [text])
      [Text.normalize v.name] = Text.normalize v.name :: texts.foldl (pushText v) [] := by
    refine List.foldl_hom (Text.normalize v.name :: ·) fun texts text => ?_
    unfold pushText
    split <;> rfl
  rw [Name.foldl_push, List.singleton_append, Name.distinct_eq_eraseDups] at hcons
  rw [← (List.cons.inj hcons).2]
  exact List.filter_congr fun text _ => by simp

theorem pushDefinition_eq (h : ∀ p ∈ phrases, p.verb ≠ d.verb) :
    pushDefinition phrases d = phrases ++ phrasesOf d := by
  unfold phrasesOf
  rw [← foldl_pushText]
  show d.aliases.foldl (pushAlias d.verb) (phrases ++ block d.verb []) = _
  exact List.foldl_hom (phrases ++ block d.verb ·) (pushAlias_block h)

/-! ## Rebuilding -/

/-- Definitions of distinct verbs are pushed one behind the other. -/
theorem foldl_pushDefinition {definitions : List CommandDef}
    (hnodup : (definitions.map (·.verb)).Nodup)
    (hphrases : ∀ p ∈ phrases, ∀ d ∈ definitions, p.verb ≠ d.verb) :
    definitions.foldl pushDefinition phrases = phrases ++ definitions.flatMap phrasesOf := by
  induction definitions generalizing phrases with
  | nil => simp
  | cons d rest ih =>
    obtain ⟨hd, hrest⟩ := List.nodup_cons.mp hnodup
    rw [List.foldl_cons, pushDefinition_eq fun p hp => hphrases p hp d List.mem_cons_self,
      ih hrest, List.flatMap_cons, List.append_assoc]
    intro p hp e he
    rcases List.mem_append.mp hp with hp | hp
    · exact hphrases p hp e (List.mem_cons_of_mem _ he)
    · rw [verb_of_mem_block hp]
      exact fun hverb => hd (List.mem_map.mpr ⟨e, he, hverb.symm⟩)

end StoredRegistry

namespace Registry

variable {r : Registry} {d : CommandDef} {v : Verb}

theorem verb_of_definition? (h : r.definition? v = some d) : d.verb = v := by
  unfold definition? at h
  obtain ⟨c, -, rfl⟩ := Option.map_eq_some_iff.mp h
  rfl

theorem mem_definitions : d ∈ r.definitions ↔ r.definition? d.verb = some d := by
  unfold definitions
  rw [List.mem_filterMap]
  constructor
  · rintro ⟨v, -, hv⟩
    rwa [verb_of_definition? hv]
  · exact fun h => ⟨d.verb, Verb.mem_all _, h⟩

theorem nodup_definitions (r : Registry) : (r.definitions.map (·.verb)).Nodup := by
  unfold definitions
  rw [List.map_filterMap]
  refine Verb.nodup_all.filterMap fun v w u hv hw => ?_
  obtain ⟨d, hd, rfl⟩ := Option.map_eq_some_iff.mp hv
  obtain ⟨e, he, hverb⟩ := Option.map_eq_some_iff.mp hw
  rw [← verb_of_definition? hd, ← verb_of_definition? he, hverb]

theorem stored_entries (r : Registry) :
    r.entries.map Entry.stored = r.definitions.flatMap StoredRegistry.phrasesOf := by
  have hstored : r.entries.map Entry.stored =
      (r.entries.map Entry.listed).map fun e => ⟨e.1, e.2.1, Text.tokens e.2.1, e.2.2⟩ := by
    rw [List.map_map]
    rfl
  unfold definitions
  rw [hstored, listed_entries, List.map_flatMap, List.filterMap_eq_flatMap_toList,
    List.flatMap_assoc]
  congr 1
  funext v
  cases hd : r.definition? v with
  | none => rfl
  | some d =>
    obtain rfl := verb_of_definition? hd
    simp only [Option.toList_some, List.flatMap_singleton, List.map_cons, List.map_map]
    rfl

end Registry

namespace StoredRegistry

variable {s : StoredRegistry} {r : Registry} {v : Verb} {d : CommandDef} {p : StoredPhrase}
  {defs : CommandTable}

/-- **Rebuilding lists the phrases of the definitions**, whatever was stored before. -/
theorem stores_rebuild (h : ∀ v, s.definition? v = r.definition? v) : s.rebuild.Stores r := by
  refine ⟨h, ?_⟩
  have hdefinitions : Verb.all.filterMap s.definition? = r.definitions := by
    rw [funext h]
    rfl
  unfold rebuild
  rw [hdefinitions, foldl_pushDefinition r.nodup_definitions (by simp), r.stored_entries]
  rfl

theorem stores_register (h : ∀ v, s.definition? v = r.definition? v) (d : CommandDef) :
    (s.register d).Stores (r.register d) := by
  refine stores_rebuild fun v => ?_
  rw [Registry.definition?_register, ← h]

theorem stores_empty : empty.Stores .empty :=
  ⟨fun _ => rfl, rfl⟩

/-- **Whatever is registered, the stored phrases are those of the registry.** -/
theorem stores_registerAll (h : s.Stores r) (defs : CommandTable) :
    (s.registerAll defs).Stores (r.registerAll defs) := by
  induction defs generalizing s r with
  | nil => exact h
  | cons d rest ih => exact ih (stores_register h.definition? d)

theorem phrases_registerAll (defs : CommandTable) :
    (empty.registerAll defs).phrases =
      (Registry.empty.registerAll defs).entries.map Entry.stored :=
  (stores_registerAll stores_empty defs).phrases

/-- **A stored phrase is one of the last definition of its verb**; those of a definition that was
replaced are gone. -/
theorem mem_phrases_registerAll (h : s.Stores r) :
    p ∈ (s.registerAll defs).phrases ↔
      ∃ d, ((defs.last? p.verb).map CommandDef.normal).or (s.definition? p.verb) = some d ∧
        p ∈ phrasesOf d := by
  rw [(stores_registerAll h defs).phrases, Registry.stored_entries, List.mem_flatMap, h.definition?,
    ← Registry.definition?_registerAll]
  refine exists_congr fun d => and_congr_left fun hp => ?_
  have hverb : p.verb = d.verb := verb_of_mem_block hp
  rw [Registry.mem_definitions, hverb]

example : (empty.registerAll [⟨.eat, ["gulp", "Bite"], 0, 1, true⟩, ⟨.go, [], 0, 1, false⟩,
      ⟨.eat, ["Chew-up", "EAT", "!", "chew up"], 0, 2, false⟩]).phrases =
    [.ofName .go, .ofName .eat, .ofAlias .eat "chew up"] := by
  decide +kernel

end StoredRegistry

end PlayerCommands
