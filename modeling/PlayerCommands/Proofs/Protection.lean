import PlayerCommands.Proofs.NamedVerb
import PlayerCommands.Proofs.PlainText

/-!
# What a table without faults guarantees

A table without faults is registered definition by definition.  Each of its aliases has a letter or
a digit, and no key of an alias belongs to two verbs.  For plain aliases the key is the normal form,
so that they are all registered, and no two verbs share the words of one.

    faultsFrom seen owners table = [] → ∃ owners', ∀ d ∈ table, AreClaimed owners' d.verb d.aliases
                                                                                   (of_faultsFrom)
    IsPlain text → aliasKey text = normalize text                              (aliasKey_of_isPlain)
    faults table = [] → ∃ s, r.apply table = .ok s ∧ Protects table s     (protects_of_faults_eq_nil)

The key of any other alias may tell apart what the normal form does not: it keeps accents and letters
of all scripts, and it splits a word at punctuation that the normal form just drops.
-/

namespace PlayerCommands

namespace CommandTable

open Text (IsPlain normalize isAlphanumeric fold?)

variable {table : CommandTable} {d e : CommandDef} {text key k : String} {v verb : Verb}
  {owners : List (String × Verb)} {seen : List Verb} {texts : List String}

/-! ## Keys -/

theorem aliasKey_of_isPlain (h : IsPlain text) : aliasKey text = normalize text := by
  have hpieces : Text.pieces (! isAlphanumeric ·) text.toList =
      Text.pieces Text.isSeparator text.toList := by
    refine Text.pieces_congr fun c hc => ?_
    rcases h c hc with hletter | hsep
    · rw [Text.isAlphanumeric_of_isAlphanum hletter,
        Text.isSeparator_eq_false_of_isAlphanum hletter]
      rfl
    · rw [Text.isAlphanumeric_of_isSeparator hsep, hsep]
      rfl
  have hwords : ((Text.pieces Text.isSeparator text.toList).map fun word =>
      Text.lowercase (String.ofList word)) = Text.words text := by
    rw [h.words_eq]
    exact List.map_congr_left fun w hw => Text.lowercase_of_isAlphanum (h.isAlphanum_of_mem hw)
  unfold aliasKey
  rw [hpieces, hwords]
  rfl

/-- An alias with a key has a letter or a digit. -/
theorem exists_isAlphanumeric_of_aliasKey (h : aliasKey text ≠ "") :
    ∃ c ∈ text.toList, isAlphanumeric c = true := by
  have hpieces : Text.pieces (! isAlphanumeric ·) text.toList ≠ [] := fun hnil => by
    unfold aliasKey at h
    rw [hnil] at h
    exact h rfl
  obtain ⟨w, hw⟩ := List.exists_mem_of_ne_nil _ hpieces
  obtain ⟨c, hc⟩ := List.exists_mem_of_ne_nil w (Text.mem_pieces_ne_nil hw)
  exact ⟨c, Text.mem_of_mem_pieces hw hc, by simpa using Text.not_of_mem_pieces hw c hc⟩

/-! ## Claims -/

theorem owner?_append (owners : List (String × Verb)) (key k : String) (v : Verb) :
    owner? (owners ++ [(key, v)]) k = (owner? owners k).or (if key = k then some v else none) := by
  unfold owner?
  rw [List.find?_append]
  cases owners.find? (·.1 = k) with
  | some found => rfl
  | none => by_cases h : key = k <;> simp [h]

/-- The texts have keys, and these belong to a verb. -/
def AreClaimed (owners : List (String × Verb)) (verb : Verb) (texts : List String) : Prop :=
  ∀ text ∈ texts, aliasKey text ≠ "" ∧ owner? owners (aliasKey text) = some verb

/-- A claimed key stays with its verb. -/
theorem owner?_aliasFaults (h : owner? owners k = some v) (verb : Verb) (texts : List String) :
    owner? (aliasFaults verb owners texts).2 k = some v := by
  induction texts generalizing owners with
  | nil => exact h
  | cons text rest ih =>
    unfold aliasFaults
    simp only
    split
    · exact ih h
    · split
      · exact ih h
      · refine ih ?_
        rw [owner?_append, h]
        rfl

/-- Aliases without faults have keys, and these are claimed for their verb. -/
theorem areClaimed_of_aliasFaults (h : (aliasFaults verb owners texts).1 = []) :
    AreClaimed (aliasFaults verb owners texts).2 verb texts := by
  induction texts generalizing owners with
  | nil => intro text htext; cases htext
  | cons first rest ih =>
    unfold aliasFaults at h ⊢
    simp only at h ⊢
    split at h
    · cases h
    · next hkey =>
      rw [if_neg hkey]
      split at h
      · next owner howner =>
        -- the key is claimed already: without a fault, for this verb
        split at h
        · next hsame =>
          subst hsame
          intro text htext
          rcases List.mem_cons.1 htext with rfl | htext
          · exact ⟨hkey, owner?_aliasFaults howner _ _⟩
          · exact ih h text htext
        · cases h
      · next howner =>
        intro text htext
        rcases List.mem_cons.1 htext with rfl | htext
        · refine ⟨hkey, owner?_aliasFaults ?_ _ _⟩
          rw [owner?_append, howner]
          simp
        · exact ih h text htext

/-- What the definitions of a table without faults guarantee: each verb has one of them, the bounds
are in order, and all aliases are claimed. -/
theorem of_faultsFrom (h : faultsFrom seen owners table = []) :
    (∀ d ∈ table, d.verb ∉ seen ∧ d.minArgs ≤ d.maxArgs) ∧ (table.map (·.verb)).Nodup ∧
      ∃ owners', (∀ k v, owner? owners k = some v → owner? owners' k = some v) ∧
        ∀ d ∈ table, AreClaimed owners' d.verb d.aliases := by
  induction table generalizing seen owners with
  | nil =>
    exact ⟨fun d hd => (by cases hd), List.nodup_nil, owners, fun _ _ hk => hk,
      fun d hd => (by cases hd)⟩
  | cons first rest ih =>
    unfold faultsFrom at h
    simp only [List.append_eq_nil_iff] at h
    obtain ⟨⟨⟨hverb, hbounds⟩, haliases⟩, hrest⟩ := h
    have hverb : first.verb ∉ seen := fun hmem => by simp [hmem] at hverb
    have hbounds : first.minArgs ≤ first.maxArgs := by
      by_cases hlt : first.maxArgs < first.minArgs
      · simp [hlt] at hbounds
      · omega
    obtain ⟨hothers, hnodup, owners', hkeep, hclaimed⟩ := ih hrest
    refine ⟨fun d hd => ?_, ?_, owners', fun k v hk => ?_, fun d hd => ?_⟩
    · rcases List.mem_cons.1 hd with rfl | hd
      · exact ⟨hverb, hbounds⟩
      · obtain ⟨hunseen, horder⟩ := hothers d hd
        exact ⟨fun hmem => hunseen (List.mem_cons_of_mem _ hmem), horder⟩
    · rw [List.map_cons, List.nodup_cons]
      refine ⟨fun hmem => ?_, hnodup⟩
      obtain ⟨d, hd, heq⟩ := List.mem_map.1 hmem
      exact (hothers d hd).1 (heq ▸ List.mem_cons_self)
    · exact hkeep k v (owner?_aliasFaults hk _ _)
    · rcases List.mem_cons.1 hd with rfl | hd
      · intro text htext
        obtain ⟨hkey, howner⟩ := areClaimed_of_aliasFaults haliases text htext
        exact ⟨hkey, hkeep _ _ howner⟩
      · exact hclaimed d hd

end CommandTable

/-! ## Registration -/

namespace Phrase

variable {p : Phrase} {text : String}

theorem text_of_ofText? (h : ofText? text = some p) : p.text = Text.normalize text := by
  unfold ofText? at h
  split at h
  · cases h
  · cases h
    rfl

/-- A phrase is its words with single spaces between them. -/
theorem text_eq_unwords (p : Phrase) : p.text = Text.unwords p.words := by
  obtain ⟨text, -, s, rfl⟩ := p
  unfold words
  rw [Text.tokens_normalize]
  rfl

end Phrase

namespace Registry

open CommandTable (faults faultsFrom of_faultsFrom aliasKey)
open Text (IsPlain normalize isAlphanumeric fold?)

variable {r : Registry} {table : CommandTable} {d : CommandDef} {v : Verb} {e : Entry}
  {text : String}

theorem command?_registerAll_of_notMem (r : Registry) (h : v ∉ table.map (·.verb)) :
    (r.registerAll table).command? v = r.command? v := by
  induction table generalizing r with
  | nil => rfl
  | cons first rest ih =>
    rw [List.map_cons, List.mem_cons, not_or] at h
    obtain ⟨hne, hrest⟩ := h
    have hstep : (r.registerAll (first :: rest)).command? v =
        ((r.register first).registerAll rest).command? v := rfl
    rw [hstep, ih _ hrest, command?_register, if_neg hne]

/-- With one definition for each verb none of them is replaced. -/
theorem command?_registerAll (r : Registry) (hnodup : (table.map (·.verb)).Nodup) (hd : d ∈ table) :
    (r.registerAll table).command? d.verb = some (commandOf d) := by
  induction table generalizing r with
  | nil => cases hd
  | cons first rest ih =>
    rw [List.map_cons, List.nodup_cons] at hnodup
    obtain ⟨hfirst, hrest⟩ := hnodup
    have hstep : (r.registerAll (first :: rest)).command? d.verb =
        ((r.register first).registerAll rest).command? d.verb := rfl
    rw [hstep]
    rcases List.mem_cons.1 hd with rfl | hd
    · rw [command?_registerAll_of_notMem _ hfirst, command?_register, if_pos rfl]
    · exact ih _ hrest hd

theorem apply_of_faults (r : Registry) (h : faults table = []) :
    r.apply table = .ok (r.registerAll table) := by
  unfold apply
  rw [h]

/-- An alias is registered under its normal form, unless nothing is left of it. -/
theorem exists_mem_aliases_iff (htext : text ∈ d.aliases) :
    (∃ p ∈ (commandOf d).aliases, p.text = normalize text) ↔
      ∃ c ∈ text.toList, (fold? c).isSome = true := by
  have hleft : normalize text ≠ "" ↔ ∃ c ∈ text.toList, (fold? c).isSome = true := by
    rw [Ne, Text.normalize_eq_empty_iff]
    simp [Option.isSome_iff_ne_none]
  rw [← hleft]
  constructor
  · rintro ⟨p, -, heq⟩
    rw [← heq]
    exact p.isPhrase.1
  · intro hne
    exact ⟨⟨normalize text, hne, text, rfl⟩, List.mem_filterMap.2 ⟨text, htext, dif_neg hne⟩, rfl⟩

/-- An entry that is not a name is an alias of its verb. -/
theorem alias_of_mem_entries (he : e ∈ r.entries) (hd : r.command? e.verb = some (commandOf d))
    (halias : e.canonical = false) : ∃ text ∈ d.aliases, e.phrase.text = normalize text := by
  obtain ⟨c, hc, he⟩ := mem_entries_iff.1 he
  rw [hc] at hd
  cases hd
  rw [entriesOf_eq] at he
  rcases List.mem_cons.1 he with hname | he
  · rw [hname] at halias
    cases halias
  · obtain ⟨p, hp, hpe⟩ := List.mem_map.1 he
    rw [← hpe]
    have hp := Name.mem_distinct.1 (List.mem_filter.1 hp).1
    obtain ⟨text, htext, hof⟩ := List.mem_filterMap.1 hp
    exact ⟨text, htext, Phrase.text_of_ofText? hof⟩

/-- What holds of a registry that a table without faults was applied to. -/
structure Protects (table : CommandTable) (r : Registry) : Prop where
  registered : ∀ d ∈ table, r.command? d.verb = some (commandOf d)
  letter : ∀ d ∈ table, ∀ text ∈ d.aliases, ∃ c ∈ text.toList, isAlphanumeric c = true
  /-- An alias is there if a letter or a digit of it can be folded. -/
  kept_iff : ∀ d ∈ table, ∀ text ∈ d.aliases,
    (∃ p ∈ (commandOf d).aliases, p.text = normalize text) ↔
      ∃ c ∈ text.toList, (fold? c).isSome = true
  kept : ∀ d ∈ table, ∀ text ∈ d.aliases, IsPlain text →
    ∃ p ∈ (commandOf d).aliases, p.text = normalize text
  key_ne : ∀ d ∈ table, ∀ e ∈ table, d.verb ≠ e.verb → ∀ a ∈ d.aliases, ∀ b ∈ e.aliases,
    aliasKey a ≠ aliasKey b
  normalize_ne : ∀ d ∈ table, ∀ e ∈ table, d.verb ≠ e.verb → ∀ a ∈ d.aliases, ∀ b ∈ e.aliases,
    IsPlain a → IsPlain b → normalize a ≠ normalize b
  /-- No two verbs with plain aliases have aliases of the same words. -/
  words_ne : ∀ d ∈ table, ∀ e ∈ table, d.verb ≠ e.verb →
    (∀ a ∈ d.aliases, IsPlain a) → (∀ b ∈ e.aliases, IsPlain b) →
    ∀ x ∈ r.entries, ∀ y ∈ r.entries, x.verb = d.verb → y.verb = e.verb →
      x.canonical = false → y.canonical = false → x.phrase.words ≠ y.phrase.words

/-- A table without faults is applied to any registry, every alias of it with a letter or a digit
that can be folded is registered, and no plain alias is shared by two verbs. -/
theorem protects_of_faults_eq_nil (r : Registry) (h : faults table = []) :
    ∃ s, r.apply table = .ok s ∧ Protects table s := by
  obtain ⟨-, hnodup, owners, -, hclaimed⟩ := of_faultsFrom h
  have hregistered : ∀ d ∈ table, (r.registerAll table).command? d.verb = some (commandOf d) :=
    fun d hd => command?_registerAll r hnodup hd
  have hletter : ∀ d ∈ table, ∀ text ∈ d.aliases, ∃ c ∈ text.toList, isAlphanumeric c = true :=
    fun d hd text htext =>
      CommandTable.exists_isAlphanumeric_of_aliasKey (hclaimed d hd text htext).1
  have hkey : ∀ d ∈ table, ∀ e ∈ table, d.verb ≠ e.verb → ∀ a ∈ d.aliases, ∀ b ∈ e.aliases,
      aliasKey a ≠ aliasKey b := by
    intro d hd e he hne a ha b hb heq
    obtain ⟨-, hda⟩ := hclaimed d hd a ha
    obtain ⟨-, heb⟩ := hclaimed e he b hb
    rw [heq, heb] at hda
    exact hne (Option.some.inj hda).symm
  have hnormal : ∀ d ∈ table, ∀ e ∈ table, d.verb ≠ e.verb → ∀ a ∈ d.aliases, ∀ b ∈ e.aliases,
      IsPlain a → IsPlain b → normalize a ≠ normalize b := by
    intro d hd e he hne a ha b hb hplain hplain'
    rw [← CommandTable.aliasKey_of_isPlain hplain, ← CommandTable.aliasKey_of_isPlain hplain']
    exact hkey d hd e he hne a ha b hb
  refine ⟨r.registerAll table, apply_of_faults r h, hregistered, hletter,
    fun d _ text htext => exists_mem_aliases_iff htext, ?_, hkey, hnormal, ?_⟩
  · intro d hd text htext hplain
    obtain ⟨c, hc, hcletter⟩ := hletter d hd text htext
    exact (exists_mem_aliases_iff htext).2 ⟨c, hc, hplain.isSome_fold? hc hcletter⟩
  · intro d hd e he hne hplain hplain' x hx y hy hxd hye hxalias hyalias hwords
    obtain ⟨a, ha, hxa⟩ := alias_of_mem_entries hx (hxd ▸ hregistered d hd) hxalias
    obtain ⟨b, hb, hyb⟩ := alias_of_mem_entries hy (hye ▸ hregistered e he) hyalias
    refine hnormal d hd e he hne a ha b hb (hplain a ha) (hplain' b hb) ?_
    rw [← hxa, ← hyb, x.phrase.text_eq_unwords, y.phrase.text_eq_unwords, hwords]

theorem protects_of_faults_eq_nil_pickUp :
    faults [⟨.take, ["Pick-UP", "grab"], 1, 2, false⟩, ⟨.drop, ["put_down"], 1, 2, true⟩] = [] ∧
      ∃ s, empty.apply
          [⟨.take, ["Pick-UP", "grab"], 1, 2, false⟩, ⟨.drop, ["put_down"], 1, 2, true⟩] = .ok s ∧
        Protects
          [⟨.take, ["Pick-UP", "grab"], 1, 2, false⟩, ⟨.drop, ["put_down"], 1, 2, true⟩] s :=
  have h : faults [⟨.take, ["Pick-UP", "grab"], 1, 2, false⟩,
      ⟨.drop, ["put_down"], 1, 2, true⟩] = [] := by decide +kernel
  ⟨h, protects_of_faults_eq_nil empty h⟩

/-- Nothing is left of an alias in another script, and an accent tells only the keys apart. -/
theorem not_protected_by_keys :
    (faults [⟨.take, ["日本"], 0, 1, false⟩] = [] ∧ normalize "日本" = "") ∧
      faults [⟨.take, ["café"], 0, 1, false⟩, ⟨.drop, ["cafe"], 0, 1, false⟩] = [] ∧
        normalize "café" = normalize "cafe" := by
  decide +kernel

end Registry

end PlayerCommands
