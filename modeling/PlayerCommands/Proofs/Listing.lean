import Mathlib.Data.Set.Defs
import PlayerCommands.Proofs.ExactNames
import PlayerCommands.Proofs.RankedNames

/-!
# How a scene is listed does not matter

Two scenes that list the same names in every place, in any order and spelling and however often, are
one scene for the words of a line.  Their names differ in order only; what is searched and ranked
depends on which names there are, and a ranking is ordered by score and name alone.

    p.Resembles q → p.rank query = q.rank query                    (EntityPools.Resembles.rank)
    s.Resembles t → s.resolveDirection word = t.resolveDirection word
                                                           (Scene.Resembles.resolveDirection)
    s.Resembles t → Argument.resolve verb words s = Argument.resolve verb words t
                                                                        (resolve_of_resembles)
-/

namespace PlayerCommands

/-- The names that a list holds, in normal form, without the empty one. -/
def namesIn (entries : List String) : Set String :=
  {name | name ≠ "" ∧ ∃ entry ∈ entries, Text.normalize entry = name}

/-- The same names are in every place, and the last thing spoken of is the same. -/
structure Scene.Resembles (s t : Scene) : Prop where
  nearby : namesIn s.nearby = namesIn t.nearby
  inventory : namesIn s.inventory = namesIn t.inventory
  directions : namesIn s.directions = namesIn t.directions
  referent : s.referent? = t.referent?

theorem mem_namesIn {name : String} {entries : List String} :
    name ∈ namesIn entries ↔ name ∈ normalNames entries := mem_normalNames.symm

theorem namesIn_eq_iff {entries others : List String} : namesIn entries = namesIn others ↔
    ∀ name, name ∈ normalNames entries ↔ name ∈ normalNames others := by
  simp only [Set.ext_iff, mem_namesIn]

theorem namesIn_eq_of_perm {entries others : List String}
    (h : (normalNames entries).Perm (normalNames others)) : namesIn entries = namesIn others :=
  namesIn_eq_iff.mpr fun _ => h.mem_iff

/-! ## Things at hand -/

namespace EntityPools

/-- The same things are in both places. -/
structure Resembles (p q : EntityPools) : Prop where
  nearby : ∀ name, name ∈ p.nearby ↔ name ∈ q.nearby
  inventory : ∀ name, name ∈ p.inventory ↔ name ∈ q.inventory

namespace Resembles

variable {p q : EntityPools}

theorem mem_all (h : p.Resembles q) (name : String) : name ∈ p.all ↔ name ∈ q.all := by
  simp only [EntityPools.mem_all, h.nearby, h.inventory]

theorem isEmpty (h : p.Resembles q) : p.isEmpty = q.isEmpty := by
  unfold EntityPools.isEmpty
  rw [Bool.eq_iff_iff, List.isEmpty_iff, List.isEmpty_iff, List.eq_nil_iff_forall_not_mem,
    List.eq_nil_iff_forall_not_mem]
  simp only [h.mem_all]

theorem boostOf (h : p.Resembles q) (name : String) : p.boostOf name = q.boostOf name := by
  unfold EntityPools.boostOf
  simp only [List.contains_eq_mem, h.nearby, h.inventory]

theorem rank (h : p.Resembles q) (query : String) : p.rank query = q.rank query := by
  refine Name.rank_congr query fun c => ?_
  simp only [List.mem_map, h.mem_all, h.boostOf]

theorem resolve (h : p.Resembles q) (word : String) (next? : Option String) :
    p.resolve word next? = q.resolve word next? := by
  have htwo : p.resolveTwo? word = q.resolveTwo? word := by
    funext next
    unfold resolveTwo?
    rw [h.rank]
  unfold EntityPools.resolve
  rw [h.isEmpty, htwo, h.rank]

end Resembles

end EntityPools

/-! ## Scenes -/

namespace Scene.Resembles

variable {s t : Scene}

theorem pools (h : s.Resembles t) : (EntityPools.ofScene s).Resembles (EntityPools.ofScene t) :=
  ⟨namesIn_eq_iff.mp h.nearby, namesIn_eq_iff.mp h.inventory⟩

theorem mem_knownDirections (h : s.Resembles t) (name : String) :
    name ∈ s.knownDirections ↔ name ∈ t.knownDirections := by
  have hmem := namesIn_eq_iff.mp h.directions
  have hnil : normalNames s.directions = [] ↔ normalNames t.directions = [] := by
    simp only [List.eq_nil_iff_forall_not_mem, hmem]
  unfold knownDirections
  cases hs : normalNames s.directions with
  | nil => rw [hnil.mp hs]
  | cons first rest =>
    cases ht : normalNames t.directions with
    | nil => cases hs.symm.trans (hnil.mpr ht)
    | cons first' rest' =>
      have hname := hmem name
      rwa [hs, ht] at hname

theorem resolveDirection (h : s.Resembles t) (word : String) :
    s.resolveDirection word = t.resolveDirection word := by
  have hrank : Name.rank word (s.knownDirections.map fun d => (d, 0)) =
      Name.rank word (t.knownDirections.map fun d => (d, 0)) := by
    refine Name.rank_congr word fun c => ?_
    simp only [List.mem_map, h.mem_knownDirections]
  unfold Scene.resolveDirection
  rw [hrank]

theorem reading (h : s.Resembles t) (verb : Verb) (args : List String) (word : String)
    (next? : Option String) :
    Argument.Reading.of verb s args word next? = Argument.Reading.of verb t args word next? := by
  unfold Argument.Reading.of
  rw [h.referent, h.resolveDirection, h.pools.resolve]

end Scene.Resembles

/-- **What is made of the words depends only on the names that a scene holds**: arguments, score and
question are the same in every scene that resembles it. -/
theorem Argument.resolve_of_resembles {s t : Scene} (h : s.Resembles t) (verb : Verb)
    (words : List String) : resolve verb words s = resolve verb words t :=
  resolveFrom_congr words (h.reading verb) _ _

/-- A stick and a stone, either of which may be meant, also in another order and spelling. -/
theorem Argument.resolve_of_resembles_sticks :
    let tidy : Scene :=
      { nearby := ["stick", "stone"], inventory := ["rope"], directions := ["north"],
        lastEntity := some "rope" }
    let untidy : Scene :=
      { nearby := ["Stone", " stick", "STICK!"], inventory := ["rope", "", "Rope"],
        directions := ["NORTH", "?"], lastEntity := some "Rope!" }
    untidy.Resembles tidy ∧
      resolve .take ["the", "st"] untidy = resolve .take ["the", "st"] tidy ∧
      (resolve .take ["the", "st"] tidy).question.isSome = true := by
  intro tidy untidy
  have hresembles : untidy.Resembles tidy :=
    ⟨namesIn_eq_of_perm (by decide +kernel), namesIn_eq_of_perm (by decide +kernel),
      namesIn_eq_of_perm (by decide +kernel), by decide +kernel⟩
  exact ⟨hresembles, resolve_of_resembles hresembles .take ["the", "st"], by decide +kernel⟩

end PlayerCommands
