import PlayerCommands.Proofs.Conservation
import PlayerCommands.Proofs.NamedArguments
import PlayerCommands.Proofs.TargetAnswers

/-!
# Taking a taking back

What was taken is the last thing spoken of, so `drop it` puts it down again.  The pronoun stands for
the name under which it was taken; whatever else goes by that name, one entry comes in and one goes
out, so that as many of every name lie nearby and are carried as before.

    Argument.resolve verb [word] scene = ⟨[name], 1, none⟩                    (resolve_pronoun)
    nameCount n u.scene.nearby = nameCount n s.scene.nearby ∧
      nameCount n u.scene.inventory = nameCount n s.scene.inventory
                                                                           (restored_by_drop_it)
-/

namespace PlayerCommands

variable {r : Registry} {c : Command} {name word line : String} {i : Intent}

/-! ## Pronouns -/

/-- A pronoun is no article and no quantity. -/
theorem Argument.of_isPronoun (h : isPronoun word = true) :
    isArticle word = false ∧ Quantity.ofWord? word = none := by
  have hpronouns : ∀ word ∈ ["it", "that", "them", "this", "those"],
      isArticle word = false ∧ Quantity.ofWord? word = none := by decide
  exact hpronouns word (List.contains_iff_mem.mp h)

/-- A pronoun alone stands for the last thing spoken of, and leaves no doubt. -/
theorem Argument.resolve_pronoun {scene : Scene} (hword : isPronoun word = true)
    (hname : scene.referent? = some name) (verb : Verb) :
    resolve verb [word] scene = ⟨[name], 1, none⟩ := by
  refine resolve_of_exact (n := 1) ?_
  unfold Reading.of
  simp [(of_isPronoun hword).1, hword, hname]

/-- What was spoken of by its normal name is referred to by it. -/
theorem Scene.referent?_of_normal {scene : Scene} (hlast : scene.lastEntity = some name)
    (hnormal : Text.normalize name = name) (hne : name ≠ "") : scene.referent? = some name := by
  unfold referent?
  rw [hlast, Option.map_some, hnormal, Option.filter_some, if_pos (by simpa using hne)]

/-- A verb that takes one argument and a pronoun behind it are a complete command. -/
theorem Registry.interpret_pronoun {v : Verb} {scene : Scene} (hc : r.command? v = some c)
    (hgo : v ≠ .go) (hmin : c.minArgs ≤ 1) (hmax : 1 ≤ c.maxArgs)
    (hwords : Text.words line = v.phrase.words ++ [word])
    (hword : Argument.isPronoun word = true) (hname : scene.referent? = some name) :
    (r.interpret scene line).verb = some v ∧ (r.interpret scene line).args = [name] ∧
      (r.interpret scene line).clarify = none := by
  have hplain : ∀ w ∈ [word], Quantity.ofWord? w = none := by
    simpa using (Argument.of_isPronoun hword).2
  have hsaid := isSaid_of_interpret hc hgo scene hwords hplain
  have hresolve := Argument.resolve_pronoun hword hname v
  have hargs : (r.interpret scene line).args = [name] := by
    rw [hsaid.args, hresolve, List.take_of_length_le (by simpa using hmax)]
  refine ⟨hsaid.verb, hargs, hsaid.clear.mpr ?_⟩
  have hsurplus : [name].length - c.maxArgs = 0 := by
    rw [List.length_singleton]
    omega
  rw [hargs, hresolve]
  refine ⟨rfl, hmin, ?_⟩
  rw [hsurplus, blend_canonicalScore]
  decide +kernel

/-! ## Entries of a name -/

namespace Scene

/-- How many entries have a normal name. -/
def nameCount (name : String) (entries : List String) : Nat :=
  entries.countP (Text.normalize · = name)

variable {source target source' target' : List String}

/-- An entry that is there moves. -/
theorem moves_of_mem (h : ∃ entry ∈ source, Text.normalize entry = name) (target : List String) :
    Moves name source target (moveEntry name source target).1 (moveEntry name source target).2 := by
  refine (moves_moveEntry name source target).resolve_left fun hsame => ?_
  cases hout : takeOut name source with
  | none =>
    obtain ⟨entry, hentry, hname⟩ := h
    exact takeOut_eq_none_iff.mp hout entry hentry hname
  | some out =>
    unfold moveEntry at hsame
    rw [hout] at hsame
    simp at hsame

/-- The counts of one name change when an entry moves. -/
theorem Moves.nameCount_eq (h : Moves name source target source' target') (n : String) :
    nameCount n source = nameCount n source' + (if name = n then 1 else 0) ∧
      nameCount n target' = nameCount n target + (if name = n then 1 else 0) := by
  obtain ⟨before, entry, after, rfl, rfl, rfl, rfl⟩ := h
  unfold nameCount
  simp [List.countP_append, List.countP_cons, Nat.add_comm, Nat.add_left_comm]

theorem Moves.exists_mem (h : Moves name source target source' target') :
    ∃ entry ∈ target', Text.normalize entry = name := by
  obtain ⟨-, entry, -, -, hname, -, rfl⟩ := h
  exact ⟨entry, by simp, hname⟩

variable {s : Scene}

/-- Taking an entry that is nearby. -/
theorem after_of_take (hverb : i.verb = some .take) (hargs : i.args.head? = some name)
    (hnear : ∃ entry ∈ s.nearby, Text.normalize entry = name) :
    Moves name s.nearby s.inventory (s.after i).nearby (s.after i).inventory ∧
      (s.after i).lastEntity = some name := by
  obtain ⟨others, hargs⟩ := List.head?_eq_some_iff.mp hargs
  unfold after
  rw [hverb, hargs]
  exact ⟨moves_of_mem hnear _, rfl⟩

/-- Dropping an entry that is carried. -/
theorem after_of_drop (hverb : i.verb = some .drop) (hargs : i.args.head? = some name)
    (hcarried : ∃ entry ∈ s.inventory, Text.normalize entry = name) :
    Moves name s.inventory s.nearby (s.after i).inventory (s.after i).nearby ∧
      (s.after i).lastEntity = some name := by
  obtain ⟨others, hargs⟩ := List.head?_eq_some_iff.mp hargs
  unfold after
  rw [hverb, hargs]
  exact ⟨moves_of_mem hcarried _, rfl⟩

/-- **Dropping takes a taking back**: there are as many entries of every name in each place as
before, though not always the same ones, nor in the same order. -/
theorem nameCount_after_after {i j : Intent} (htake : i.verb = some .take)
    (hi : i.args.head? = some name) (hnear : ∃ entry ∈ s.nearby, Text.normalize entry = name)
    (hdrop : j.verb = some .drop) (hj : j.args.head? = some name) (n : String) :
    nameCount n ((s.after i).after j).nearby = nameCount n s.nearby ∧
      nameCount n ((s.after i).after j).inventory = nameCount n s.inventory := by
  obtain ⟨htaken, -⟩ := after_of_take htake hi hnear
  obtain ⟨hdropped, -⟩ := after_of_drop hdrop hj htaken.exists_mem
  obtain ⟨hleft, hcame⟩ := htaken.nameCount_eq n
  obtain ⟨hback, hthere⟩ := hdropped.nameCount_eq n
  omega

end Scene

/-! ## Sessions -/

namespace Session

variable {s : Session}

/-- A line that is taken as a harmless command is done when nothing is being asked. -/
theorem handleLine_of_clear (hplain : isMeta line = false) (hne : Text.trim line ≠ "")
    (hpending : s.pending = none) (hconfirming : s.confirming = none)
    (hclear : (r.interpret s.scene (Text.trim line)).clarify = none)
    (hsafe : isRisky r (r.interpret s.scene (Text.trim line)) = false) :
    (s.handleLine r line).session =
      (s.run (r.interpret s.scene (Text.trim line))).session := by
  rw [handleLine_of_not_isMeta r s hplain, hconfirming]
  simp only [if_neg hne, hpending]
  unfold handleCommand acceptShown accept
  simp only [hclear, hsafe, Bool.false_and, Bool.false_eq_true, if_false]

/-- An accepted line is no meta command, and leaves no question. -/
theorem of_accepted_handleLine (hs : s.AsksOnce)
    (h : (s.handleLine r line).session.accepted = s.accepted ++ [i]) :
    let t := (s.handleLine r line).session
    t.scene = s.scene.after i ∧ t.pending = none ∧ t.confirming = none := by
  intro t
  have hmore : t.accepted ≠ s.accepted := fun heq => by
    have hnil : s.accepted ++ [i] = s.accepted := h.symm.trans heq
    simp at hnil
  cases hmeta : isMeta line with
  | true =>
    obtain ⟨command, heq⟩ := handleLine_of_isMeta r s hmeta
    refine absurd ?_ hmore
    show (s.handleLine r line).session.accepted = s.accepted
    rw [heq, (handleMeta_keeps r s command).1]
  | false =>
    rcases acting_handleLine r hs hmeta with ⟨hsame, -⟩ | ⟨j, haccepted, hscene, hquiet⟩
    · exact absurd hsame hmore
    · obtain rfl : i = j := by simpa using h.symm.trans haccepted
      exact ⟨hscene, hquiet⟩

/-- What was last spoken of is dropped by `drop it`, when nothing is being asked. -/
theorem handleLine_drop_it (hc : r.command? .drop = some c) (hrisky : c.risky = false)
    (hmin : c.minArgs ≤ 1) (hmax : 1 ≤ c.maxArgs) (hpending : s.pending = none)
    (hconfirming : s.confirming = none) (hname : s.scene.referent? = some name) :
    ∃ j, (s.handleLine r "drop it").session = (s.run j).session ∧ j.verb = some .drop ∧
      j.args = [name] := by
  have htrim : Text.trim "drop it" = "drop it" := by decide
  have hwords : Text.words "drop it" = Verb.drop.phrase.words ++ ["it"] := by decide
  obtain ⟨hverb, hargs, hclear⟩ :=
    Registry.interpret_pronoun hc (by decide) hmin hmax hwords (by decide) hname
  have hsafe : isRisky r (r.interpret s.scene "drop it") = false := by
    unfold isRisky
    rw [hverb, Option.bind_some, hc, Option.any_some, hrisky]
  refine ⟨r.interpret s.scene (Text.trim "drop it"), ?_, htrim.symm ▸ hverb, htrim.symm ▸ hargs⟩
  exact handleLine_of_clear (by decide) (by decide) hpending hconfirming (htrim.symm ▸ hclear)
    (htrim.symm ▸ hsafe)

theorem scene_run (s : Session) (i : Intent) : (s.run i).session.scene = s.scene.after i := rfl

theorem accepted_run (s : Session) (i : Intent) :
    (s.run i).session.accepted = s.accepted ++ [i] := rfl

/-- **`drop it` takes back what was just taken**, in whatever way the taking came about. -/
theorem restored_by_drop_it (hc : r.command? .drop = some c) (hrisky : c.risky = false)
    (hmin : c.minArgs ≤ 1) (hmax : 1 ≤ c.maxArgs) (hs : s.Arises)
    (haccepted : (s.handleLine r line).session.accepted = s.accepted ++ [i])
    (htake : i.verb = some .take) (hargs : i.args.head? = some name)
    (hnear : ∃ entry ∈ s.scene.nearby, Text.normalize entry = name) :
    let t := (s.handleLine r line).session
    let u := (t.handleLine r "drop it").session
    (∃ j, u.accepted = t.accepted ++ [j] ∧ j.verb = some .drop ∧ j.args = [name]) ∧
      u.scene.lastEntity = some name ∧
      ∀ n, Scene.nameCount n u.scene.nearby = Scene.nameCount n s.scene.nearby ∧
        Scene.nameCount n u.scene.inventory = Scene.nameCount n s.scene.inventory := by
  obtain ⟨hscene, hpending, hconfirming⟩ := of_accepted_handleLine (asksOnce_of_arises hs) haccepted
  obtain ⟨hmoves, hlast⟩ := Scene.after_of_take htake hargs hnear
  have hi : i ∈ (s.handleLine r line).session.accepted :=
    haccepted ▸ List.mem_append_right _ List.mem_cons_self
  have hne : "" ∉ i.args := named_of_mem_accepted (hs.line r line) hi
  generalize (s.handleLine r line).session = t at *
  intro _ u
  -- the name is normal and not empty, so the pronoun stands for it
  have hnormal : Text.normalize name = name := by
    obtain ⟨entry, -, rfl⟩ := hnear
    exact Text.normalize_normalize entry
  have hreferent : t.scene.referent? = some name :=
    Scene.referent?_of_normal (hscene ▸ hlast) hnormal fun hempty =>
      hne (hempty ▸ List.mem_of_mem_head? hargs)
  obtain ⟨j, hu, hverb, hdropped⟩ :=
    handleLine_drop_it hc hrisky hmin hmax hpending hconfirming hreferent
  have hhead : j.args.head? = some name := hdropped ▸ rfl
  have hafter : u.scene = (s.scene.after i).after j := by
    rw [← hscene, ← scene_run, ← hu]
  refine ⟨⟨j, ?_, hverb, hdropped⟩, ?_, fun n => ?_⟩
  · rw [← accepted_run, ← hu]
  · rw [hafter]
    exact (Scene.after_of_drop hverb hhead hmoves.exists_mem).2
  · rw [hafter]
    exact Scene.nameCount_after_after htake hargs hnear hverb hhead n

/-- Two entries of one name lie nearby and one is carried, each spelled otherwise.  Taking is risky
and is confirmed. -/
theorem restored_by_drop_it_ferro_rod :
    let r := (Registry.empty.register { verb := .take, risky := true }).register { verb := .drop }
    let c := Registry.commandOf { verb := .drop }
    let first : Session :=
      { scene := { nearby := ["stone", "Ferro-Rod", "ferro rod!"], inventory := ["FERRO ROD"] } }
    let s := (first.handleLine r "take ferro rod").session
    let t := (s.handleLine r "yes").session
    let u := (t.handleLine r "drop it").session
    r.command? .drop = some c ∧ c.risky = false ∧ c.minArgs ≤ 1 ∧ 1 ≤ c.maxArgs ∧ s.Arises ∧
      (∃ i, t.accepted = s.accepted ++ [i] ∧ i.verb = some .take ∧
        i.args.head? = some "ferro rod") ∧
      (∃ entry ∈ s.scene.nearby, Text.normalize entry = "ferro rod") ∧
      (∃ j, u.accepted = t.accepted ++ [j] ∧ j.verb = some .drop ∧ j.args = ["ferro rod"]) ∧
      u.scene.lastEntity = some "ferro rod" ∧
      ∀ n, Scene.nameCount n u.scene.nearby = Scene.nameCount n s.scene.nearby ∧
        Scene.nameCount n u.scene.inventory = Scene.nameCount n s.scene.inventory := by
  intro r c first s t u
  have hs : s.Arises := .line r "take ferro rod" (.start _)
  have hwaits : s.accepted.map (·.args) = [] := by decide +kernel
  have hdone : t.accepted.map (fun i => (i.verb, i.args)) = [(some .take, ["ferro rod"])] := by
    decide +kernel
  have htaken : ∃ i, t.accepted = s.accepted ++ [i] ∧ i.verb = some .take ∧
      i.args.head? = some "ferro rod" := by
    obtain ⟨i, hi, hpair⟩ := List.map_eq_singleton_iff.mp hdone
    obtain ⟨hverb, hargs⟩ := Prod.mk.inj hpair
    exact ⟨i, by rw [hi, List.map_eq_nil_iff.mp hwaits, List.nil_append], hverb, by rw [hargs]; rfl⟩
  have hnear : ∃ entry ∈ s.scene.nearby, Text.normalize entry = "ferro rod" := by decide +kernel
  obtain ⟨i, haccepted, htake, hargs⟩ := htaken
  exact ⟨rfl, rfl, by decide, by decide, hs, ⟨i, haccepted, htake, hargs⟩, hnear,
    restored_by_drop_it rfl rfl (by decide) (by decide) hs haccepted htake hargs hnear⟩

end Session

end PlayerCommands
