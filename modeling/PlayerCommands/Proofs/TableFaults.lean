import PlayerCommands.Proofs.Protection

/-!
# Tables are applied as a whole or not at all

A table has no faults if and only if it is valid: one definition for each verb, bounds in order, a
key for every alias, and no key that belongs to aliases of two verbs.  The claimed keys are kept
while the table is read, and only the first claim of a key is kept; that is enough, since in a valid
table whatever claims a key later on is about the same verb.  All of a table is checked before any
of it is registered, so a table with faults changes nothing.

    faults table = [] ↔ IsValid table                                       (faults_eq_nil_iff)
    (applyInPlace table).run r = .ok () (r.registerAll table)   or   .error (faults table) r
                                                                             (run_applyInPlace)
-/

namespace PlayerCommands

namespace CommandTable

variable {table : CommandTable} {k : String} {v verb : Verb} {owners : List (String × Verb)}
  {seen : List Verb} {texts : List String}

/-- A table in which nothing is contradicted: each verb is defined once, with bounds in order and
aliases that are its own. -/
structure IsValid (table : CommandTable) : Prop where
  nodup : (table.map (·.verb)).Nodup
  bounds : ∀ d ∈ table, d.minArgs ≤ d.maxArgs
  key_ne : ∀ d ∈ table, ∀ text ∈ d.aliases, aliasKey text ≠ ""
  /-- A key does not belong to two verbs. -/
  apart : ∀ d ∈ table, ∀ e ∈ table, d.verb ≠ e.verb → ∀ a ∈ d.aliases, ∀ b ∈ e.aliases,
    aliasKey a ≠ aliasKey b

/-! ## Aliases of one verb -/

/-- Every key is claimed before, or for an alias that is read. -/
theorem of_owner?_aliasFaults (h : owner? (aliasFaults verb owners texts).2 k = some v) :
    owner? owners k = some v ∨ v = verb ∧ ∃ text ∈ texts, aliasKey text = k := by
  induction texts generalizing owners with
  | nil => exact Or.inl h
  | cons first rest ih =>
    -- whatever is said of the first alias, the others are read with its claim at most added
    have hothers : ∀ {owners' : List (String × Verb)},
        owner? (aliasFaults verb owners' rest).2 k = some v →
          owner? owners' k = some v ∨ v = verb ∧ ∃ text ∈ first :: rest, aliasKey text = k := by
      intro owners' h
      rcases ih h with h | ⟨hv, text, htext, hk⟩
      · exact Or.inl h
      · exact Or.inr ⟨hv, text, List.mem_cons_of_mem _ htext, hk⟩
    unfold aliasFaults at h
    simp only at h
    split at h
    · exact hothers h
    · split at h
      · exact hothers h
      · rcases hothers h with h | h
        · rw [owner?_append] at h
          rcases Option.or_eq_some_iff.mp h with h | ⟨-, h⟩
          · exact Or.inl h
          · split at h
            · next hk => exact Or.inr ⟨(Option.some.inj h).symm, first, List.mem_cons_self, hk⟩
            · cases h
        · exact Or.inr h

/-- Aliases with keys that nobody else has claimed are without faults. -/
theorem aliasFaults_eq_nil (hkey : ∀ text ∈ texts, aliasKey text ≠ "")
    (hown : ∀ text ∈ texts, ∀ v, owner? owners (aliasKey text) = some v → v = verb) :
    (aliasFaults verb owners texts).1 = [] := by
  induction texts generalizing owners with
  | nil => rfl
  | cons first rest ih =>
    obtain ⟨hfirst, hrest⟩ := List.forall_mem_cons.mp hkey
    obtain ⟨hownFirst, hownRest⟩ := List.forall_mem_cons.mp hown
    unfold aliasFaults
    simp only [if_neg hfirst]
    split
    · next owner howner =>
      simp only [if_pos (hownFirst owner howner)]
      exact ih hrest hownRest
    · refine ih hrest fun text htext v hv => ?_
      rw [owner?_append] at hv
      rcases Option.or_eq_some_iff.mp hv with hv | ⟨-, hv⟩
      · exact hownRest text htext v hv
      · split at hv
        · exact (Option.some.inj hv).symm
        · cases hv

/-! ## Tables -/

/-- The keys claimed so far that aliases of the table have are claimed for their verbs. -/
def Agree (owners : List (String × Verb)) (table : CommandTable) : Prop :=
  ∀ d ∈ table, ∀ text ∈ d.aliases, ∀ v, owner? owners (aliasKey text) = some v → v = d.verb

theorem faultsFrom_eq_nil (h : IsValid table) (hseen : ∀ d ∈ table, d.verb ∉ seen)
    (hagree : Agree owners table) : faultsFrom seen owners table = [] := by
  induction table generalizing seen owners with
  | nil => rfl
  | cons first rest ih =>
    have hfirst : first ∈ first :: rest := List.mem_cons_self
    have hbehind : ∀ d ∈ rest, d ∈ first :: rest := fun d hd => List.mem_cons_of_mem _ hd
    obtain ⟨hnew, hnodup⟩ := List.nodup_cons.mp h.nodup
    have hne : ∀ d ∈ rest, d.verb ≠ first.verb := fun d hd heq =>
      hnew (List.mem_map.mpr ⟨d, hd, heq⟩)
    have hvalid : IsValid rest :=
      ⟨hnodup, fun d hd => h.bounds d (hbehind d hd), fun d hd => h.key_ne d (hbehind d hd),
        fun d hd e he => h.apart d (hbehind d hd) e (hbehind e he)⟩
    have haliases : (aliasFaults first.verb owners first.aliases).1 = [] :=
      aliasFaults_eq_nil (h.key_ne first hfirst) (hagree first hfirst)
    have hunseen : ∀ d ∈ rest, d.verb ∉ first.verb :: seen := fun d hd hmem =>
      (List.mem_cons.mp hmem).elim (hne d hd) (hseen d (hbehind d hd))
    have hkeep : Agree (aliasFaults first.verb owners first.aliases).2 rest := by
      intro d hd text htext v hv
      rcases of_owner?_aliasFaults hv with hv | ⟨-, a, ha, hka⟩
      · exact hagree d (hbehind d hd) text htext v hv
      · exact absurd hka
          (h.apart first hfirst d (hbehind d hd) (hne d hd).symm a ha text htext)
    have hbounds : ¬ first.maxArgs < first.minArgs := Nat.not_lt.mpr (h.bounds first hfirst)
    unfold faultsFrom
    simp only [if_neg (hseen first hfirst), if_neg hbounds, haliases, List.nil_append]
    exact ih hvalid hunseen hkeep

/-- **A table has no faults if and only if it is valid.** -/
theorem faults_eq_nil_iff : faults table = [] ↔ IsValid table := by
  constructor
  · intro h
    obtain ⟨hverbs, hnodup, owners, -, hclaimed⟩ := of_faultsFrom h
    refine ⟨hnodup, fun d hd => (hverbs d hd).2,
      fun d hd text htext => (hclaimed d hd text htext).1, ?_⟩
    intro d hd e he hne a ha b hb heq
    -- a key has one owner, so it is the verb of both aliases
    obtain ⟨-, hda⟩ := hclaimed d hd a ha
    obtain ⟨-, heb⟩ := hclaimed e he b hb
    rw [heq, heb] at hda
    exact hne (Option.some.inj hda).symm
  · intro h
    refine faultsFrom_eq_nil h (fun _ _ hmem => by cases hmem) fun d _ text _ v hv => ?_
    cases hv

end CommandTable

/-! ## Application -/

namespace Registry

open CommandTable (faults IsValid faults_eq_nil_iff)

/-- Apply a table to a registry in place: report the faults if there are any; otherwise register
one definition after the other. -/
def applyInPlace (table : CommandTable) : EStateM (List TableFault) Registry Unit := do
  if faults table ≠ [] then throw (faults table)
  table.forM fun d => modify (·.register d)

variable {r : Registry} {table : CommandTable}

theorem apply_of_faults_ne_nil (r : Registry) (h : faults table ≠ []) :
    r.apply table = .error (faults table) := by
  unfold apply
  split
  · next hnil => exact absurd hnil h
  · rfl

theorem run_forM_register (r : Registry) (table : CommandTable) :
    EStateM.run (ε := List TableFault) (table.forM fun d => modify (·.register d)) r =
      .ok () (r.registerAll table) := by
  induction table generalizing r with
  | nil => rfl
  | cons d rest ih => exact ih (r.register d)

/-- In place, a table is registered as a whole or the registry is left as it was. -/
theorem run_applyInPlace (r : Registry) (table : CommandTable) :
    (applyInPlace table).run r = match r.apply table with
      | .ok s => .ok () s
      | .error found => .error found r := by
  unfold applyInPlace
  by_cases h : faults table = []
  · have hrun := run_forM_register r table
    rw [apply_of_faults r h, if_neg (by simp [h])]
    exact hrun
  · rw [apply_of_faults_ne_nil r h, if_pos h]
    rfl

/-- **A table is applied as a whole or not at all**: a valid one, that is one without faults, is
registered definition by definition; of any other one the faults are reported, and the registry is
left as it was. -/
theorem applies_iff_isValid (r : Registry) (table : CommandTable) :
    (faults table = [] ↔ IsValid table) ∧
      (faults table = [] → r.apply table = .ok (r.registerAll table) ∧
        (applyInPlace table).run r = .ok () (r.registerAll table)) ∧
      (faults table ≠ [] → r.apply table = .error (faults table) ∧
        (applyInPlace table).run r = .error (faults table) r) := by
  refine ⟨faults_eq_nil_iff, fun h => ?_, fun h => ?_⟩
  · have happly := apply_of_faults r h
    exact ⟨happly, by rw [run_applyInPlace, happly]⟩
  · have happly := apply_of_faults_ne_nil r h
    exact ⟨happly, by rw [run_applyInPlace, happly]⟩

example : faults [⟨.take, ["pick up", "Pick-UP"], 1, 2, false⟩, ⟨.drop, ["?", "pick_up"], 2, 1, false⟩] =
    [.invalidBounds .drop 2 1, .emptyAlias .drop "?", .sharedAlias "pick up" .take .drop] := by
  decide +kernel

end Registry

end PlayerCommands
