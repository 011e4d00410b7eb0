import Mathlib.Data.List.Infix
import Mathlib.Order.Bounds.Defs
import PlayerCommands.Name.Distance

/-!
# The edit distance counts a shortest edit script

An edit inserts, deletes or replaces one character anywhere in a text, and a script is a series of
edits.  The rows of the distance are those of a recursion on the last characters of two texts.  Its
value is the length of a script, and no edit changes it by more than one, so no script is shorter.

    as.foldl (nextRow bs) start = bs.inits.map (lastApart as)                 (foldl_nextRow_eq)
    e.perform? ds = some es → lastApart cs es ≤ lastApart cs ds + 1       (lastApart_le_of_perform?)
    IsLeast (scriptLengths a b) (editDistance a b)                        (isLeast_editDistance)
-/

namespace PlayerCommands.Name

/-! ## Edits -/

/-- An edit of one character, at a place counted from the start of a text. -/
inductive Edit where
  | insert (place : Nat) (c : Char)
  | delete (place : Nat)
  | substitute (place : Nat) (c : Char)
deriving DecidableEq

namespace Edit

/-- The characters after an edit, if they have the place that it is about. -/
def perform? : Edit → List Char → Option (List Char)
  | insert place c, cs => if place ≤ cs.length then some (cs.insertIdx place c) else none
  | delete place, cs => if place < cs.length then some (cs.eraseIdx place) else none
  | substitute place c, cs => if place < cs.length then some (cs.set place c) else none

/-- The characters after all edits of a script, one after the other. -/
def run? (script : List Edit) (cs : List Char) : Option (List Char) :=
  script.foldlM (fun cs e => e.perform? cs) cs

variable {cs ds es : List Char} {place : Nat} {c : Char} {e : Edit} {script : List Edit}

theorem insertIdx_length (before after : List Char) (c : Char) :
    (before ++ after).insertIdx before.length c = before ++ c :: after := by
  induction before with
  | nil => rfl
  | cons b before ih => exact congrArg (b :: ·) ih

theorem perform?_insert_iff : (insert place c).perform? cs = some ds ↔
    ∃ before after, cs = before ++ after ∧ before.length = place ∧
      ds = before ++ c :: after := by
  constructor
  · intro h
    obtain ⟨hplace, heq⟩ := Option.ite_none_right_eq_some.mp h
    obtain rfl := Option.some.inj heq
    have hlength : (cs.take place).length = place := List.length_take_of_le hplace
    refine ⟨cs.take place, cs.drop place, (List.take_append_drop place cs).symm, hlength, ?_⟩
    have hinsert := insertIdx_length (cs.take place) (cs.drop place) c
    rwa [List.take_append_drop, hlength] at hinsert
  · rintro ⟨before, after, rfl, rfl, rfl⟩
    have hplace : before.length ≤ (before ++ after).length := by simp
    exact (if_pos hplace).trans (congrArg some (insertIdx_length before after c))

theorem perform?_delete_iff : (delete place).perform? cs = some ds ↔
    ∃ before d after, cs = before ++ d :: after ∧ before.length = place ∧
      ds = before ++ after := by
  constructor
  · intro h
    obtain ⟨hplace, heq⟩ := Option.ite_none_right_eq_some.mp h
    obtain rfl := Option.some.inj heq
    refine ⟨cs.take place, cs[place], cs.drop (place + 1), ?_,
      List.length_take_of_le hplace.le, List.eraseIdx_eq_take_drop_succ cs place⟩
    rw [List.getElem_cons_drop, List.take_append_drop]
  · rintro ⟨before, d, after, rfl, rfl, rfl⟩
    have hplace : before.length < (before ++ d :: after).length := by simp
    refine (if_pos hplace).trans (congrArg some ?_)
    rw [List.eraseIdx_append_of_length_le (Nat.le_refl _), Nat.sub_self, List.eraseIdx_cons_zero]

theorem perform?_substitute_iff : (substitute place c).perform? cs = some ds ↔
    ∃ before d after, cs = before ++ d :: after ∧ before.length = place ∧
      ds = before ++ c :: after := by
  constructor
  · intro h
    obtain ⟨hplace, heq⟩ := Option.ite_none_right_eq_some.mp h
    obtain rfl := Option.some.inj heq
    refine ⟨cs.take place, cs[place], cs.drop (place + 1), ?_,
      List.length_take_of_le hplace.le, ?_⟩
    · rw [List.getElem_cons_drop, List.take_append_drop]
    · rw [List.set_eq_take_append_cons_drop, if_pos hplace]
  · rintro ⟨before, d, after, rfl, rfl, rfl⟩
    have hplace : before.length < (before ++ d :: after).length := by simp
    refine (if_pos hplace).trans (congrArg some ?_)
    rw [List.set_append_right _ _ (Nat.le_refl _), Nat.sub_self, List.set_cons_zero]

/-- What stands behind the edited characters does not matter. -/
theorem perform?_append (h : e.perform? cs = some ds) (es : List Char) :
    e.perform? (cs ++ es) = some (ds ++ es) := by
  cases e with
  | insert place c =>
    obtain ⟨before, after, rfl, rfl, rfl⟩ := perform?_insert_iff.mp h
    exact perform?_insert_iff.mpr ⟨before, after ++ es, by simp, rfl, by simp⟩
  | delete place =>
    obtain ⟨before, d, after, rfl, rfl, rfl⟩ := perform?_delete_iff.mp h
    exact perform?_delete_iff.mpr ⟨before, d, after ++ es, by simp, rfl, by simp⟩
  | substitute place c =>
    obtain ⟨before, d, after, rfl, rfl, rfl⟩ := perform?_substitute_iff.mp h
    exact perform?_substitute_iff.mpr ⟨before, d, after ++ es, by simp, rfl, by simp⟩

theorem run?_append (h : run? script cs = some ds) (es : List Char) :
    run? script (cs ++ es) = some (ds ++ es) := by
  induction script generalizing cs with
  | nil =>
    cases h
    rfl
  | cons e rest ih =>
    obtain ⟨next, hnext, hrest⟩ := Option.bind_eq_some_iff.mp h
    exact Option.bind_eq_some_iff.mpr ⟨next ++ es, perform?_append hnext es, ih hrest⟩

theorem run?_concat (h : run? script cs = some ds) (e : Edit) :
    run? (script ++ [e]) cs = e.perform? ds := by
  unfold run? at h ⊢
  rw [List.foldlM_append, h]
  exact bind_pure (e.perform? ds)

end Edit

/-- A script of `n` edits turns the first characters into the second. -/
def IsScripted (n : Nat) (cs ds : List Char) : Prop :=
  ∃ script : List Edit, script.length = n ∧ Edit.run? script cs = some ds

namespace IsScripted

variable {n : Nat} {cs ds : List Char} {c d : Char}

theorem nil (cs : List Char) : IsScripted 0 cs cs := ⟨[], rfl, rfl⟩

theorem append (h : IsScripted n cs ds) (es : List Char) : IsScripted n (cs ++ es) (ds ++ es) := by
  obtain ⟨script, hlength, hrun⟩ := h
  exact ⟨script, hlength, Edit.run?_append hrun es⟩

theorem concat {es : List Char} {e : Edit} (h : IsScripted n cs ds) (he : e.perform? ds = some es) :
    IsScripted (n + 1) cs es := by
  obtain ⟨script, rfl, hrun⟩ := h
  exact ⟨script ++ [e], List.length_append, (Edit.run?_concat hrun e).trans he⟩

theorem insert_last (h : IsScripted n cs ds) (d : Char) : IsScripted (n + 1) cs (ds ++ [d]) :=
  h.concat (Edit.perform?_insert_iff.mpr ⟨ds, [], (List.append_nil ds).symm, rfl, rfl⟩)

theorem delete_last (h : IsScripted n cs ds) (c : Char) : IsScripted (n + 1) (cs ++ [c]) ds :=
  (h.append [c]).concat
    (Edit.perform?_delete_iff.mpr ⟨ds, c, [], rfl, rfl, (List.append_nil ds).symm⟩)

theorem min {m : Nat} (h : IsScripted m cs ds) (h' : IsScripted n cs ds) :
    IsScripted (min m n) cs ds := by
  rcases Nat.le_total m n with hle | hle
  · rwa [Nat.min_eq_left hle]
  · rwa [Nat.min_eq_right hle]

theorem substitute_last (h : IsScripted n cs ds) (c d : Char) :
    IsScripted (n + 1) (cs ++ [c]) (ds ++ [d]) :=
  (h.append [c]).concat (Edit.perform?_substitute_iff.mpr ⟨ds, c, [], rfl, rfl, rfl⟩)

end IsScripted

/-! ## The recursion -/

/-- The number of edits by what becomes of the first characters: one stays or is replaced by the
other, or the first is deleted, or the second inserted. -/
def apart : List Char → List Char → Nat
  | [], ds => ds.length
  | cs, [] => cs.length
  | c :: cs, d :: ds =>
    min (min (apart cs ds + if c = d then 0 else 1) (apart cs (d :: ds) + 1))
      (apart (c :: cs) ds + 1)
termination_by cs ds => cs.length + ds.length

theorem apart_nil_left (ds : List Char) : apart [] ds = ds.length := by rw [apart]

theorem apart_nil_right (cs : List Char) : apart cs [] = cs.length := by
  cases cs with
  | nil => rw [apart]
  | cons c cs => rw [apart]; exact List.cons_ne_nil c cs

theorem apart_cons_cons (c d : Char) (cs ds : List Char) :
    apart (c :: cs) (d :: ds) =
      min (min (apart cs ds + if c = d then 0 else 1) (apart cs (d :: ds) + 1))
        (apart (c :: cs) ds + 1) := by
  rw [apart]

theorem apart_self (cs : List Char) : apart cs cs = 0 := by
  induction cs with
  | nil => exact apart_nil_left []
  | cons c cs ih =>
    rw [apart_cons_cons, ih, if_pos rfl]
    omega

theorem apart_cons_le (cs ds : List Char) (d : Char) : apart cs (d :: ds) ≤ apart cs ds + 1 := by
  cases cs with
  | nil => simp [apart_nil_left]
  | cons c cs =>
    rw [apart_cons_cons]
    omega

theorem cons_apart_le (cs ds : List Char) (c : Char) : apart (c :: cs) ds ≤ apart cs ds + 1 := by
  cases ds with
  | nil => simp [apart_nil_right]
  | cons d ds =>
    rw [apart_cons_cons]
    omega

/-- From anywhere, `es` is farther than `ds` by one at most. -/
def AreNear (ds es : List Char) : Prop := ∀ cs, apart cs es ≤ apart cs ds + 1

namespace AreNear

theorem insert (ds : List Char) (e : Char) : AreNear ds (e :: ds) :=
  fun cs => apart_cons_le cs ds e

theorem delete (d : Char) (ds : List Char) : AreNear (d :: ds) ds := by
  intro cs
  induction cs with
  | nil =>
    rw [apart_nil_left, apart_nil_left, List.length_cons]
    omega
  | cons c cs ih =>
    have hmore := cons_apart_le cs ds c
    rw [apart_cons_cons]
    omega

theorem substitute (d e : Char) (ds : List Char) : AreNear (d :: ds) (e :: ds) := by
  intro cs
  induction cs with
  | nil =>
    rw [apart_nil_left, apart_nil_left, List.length_cons, List.length_cons]
    omega
  | cons c cs ih =>
    rw [apart_cons_cons, apart_cons_cons]
    split <;> split <;> omega

theorem cons {ds es : List Char} (h : AreNear ds es) (b : Char) : AreNear (b :: ds) (b :: es) := by
  intro cs
  induction cs with
  | nil =>
    have hnil := h []
    rw [apart_nil_left, apart_nil_left] at hnil ⊢
    rw [List.length_cons, List.length_cons]
    omega
  | cons c cs ih =>
    have hhere := h cs
    have hbehind := h (c :: cs)
    rw [apart_cons_cons, apart_cons_cons]
    omega

theorem append {ds es : List Char} (h : AreNear ds es) (before : List Char) :
    AreNear (before ++ ds) (before ++ es) := by
  induction before with
  | nil => exact h
  | cons b before ih => exact ih.cons b

end AreNear

/-- That many edits are enough.  The lists are reversed, so that a script works at the end of what
it has made, where no later character is moved. -/
theorem isScripted_apart (cs ds : List Char) : IsScripted (apart cs ds) cs.reverse ds.reverse := by
  induction cs, ds using apart.induct with
  | case1 ds =>
    rw [apart_nil_left]
    induction ds with
    | nil => exact .nil []
    | cons d ds ih =>
      rw [List.reverse_cons]
      exact ih.insert_last d
  | case2 cs hne =>
    clear hne
    rw [apart_nil_right]
    induction cs with
    | nil => exact .nil []
    | cons c cs ih =>
      rw [List.reverse_cons]
      exact ih.delete_last c
  | case3 c cs d ds hboth hleft hright =>
    rw [List.reverse_cons] at hleft hright
    rw [apart_cons_cons, List.reverse_cons, List.reverse_cons]
    refine .min (.min ?_ (hleft.delete_last c)) (hright.insert_last d)
    split
    · next heq => exact heq ▸ hboth.append [c]
    · exact hboth.substitute_last c d

/-! ## Prefixes -/

/-- The distance by recursion on the last characters. -/
def lastApart (cs ds : List Char) : Nat := apart cs.reverse ds.reverse

theorem lastApart_nil (ds : List Char) : lastApart [] ds = ds.length := by
  rw [lastApart, List.reverse_nil, apart_nil_left, List.length_reverse]

theorem lastApart_self (cs : List Char) : lastApart cs cs = 0 := apart_self cs.reverse

theorem lastApart_concat_nil (cs : List Char) (c : Char) :
    lastApart (cs ++ [c]) [] = lastApart cs [] + 1 := by
  simp [lastApart, apart_nil_right]

theorem lastApart_concat (cs ds : List Char) (c d : Char) :
    lastApart (cs ++ [c]) (ds ++ [d]) =
      min (min (lastApart cs ds + if c = d then 0 else 1) (lastApart cs (ds ++ [d]) + 1))
        (lastApart (cs ++ [c]) ds + 1) := by
  simp only [lastApart, List.reverse_concat, apart_cons_cons]

/-- An edit changes the distance by one at most, wherever it is made. -/
theorem lastApart_le_of_perform? {ds es : List Char} {e : Edit} (h : e.perform? ds = some es)
    (cs : List Char) : lastApart cs es ≤ lastApart cs ds + 1 := by
  have hnear : AreNear ds.reverse es.reverse := by
    cases e with
    | insert place c =>
      obtain ⟨before, after, rfl, -, rfl⟩ := Edit.perform?_insert_iff.mp h
      simpa using (AreNear.insert before.reverse c).append after.reverse
    | delete place =>
      obtain ⟨before, d, after, rfl, -, rfl⟩ := Edit.perform?_delete_iff.mp h
      simpa using (AreNear.delete d before.reverse).append after.reverse
    | substitute place c =>
      obtain ⟨before, d, after, rfl, -, rfl⟩ := Edit.perform?_substitute_iff.mp h
      simpa using (AreNear.substitute d c before.reverse).append after.reverse
  exact hnear cs.reverse

theorem lastApart_le_of_run? {ds es : List Char} {script : List Edit}
    (h : Edit.run? script ds = some es) (cs : List Char) :
    lastApart cs es ≤ lastApart cs ds + script.length := by
  induction script generalizing ds with
  | nil =>
    cases h
    exact Nat.le_refl _
  | cons e rest ih =>
    obtain ⟨next, hnext, hrest⟩ := Option.bind_eq_some_iff.mp h
    have hstep := lastApart_le_of_perform? hnext cs
    have hrun := ih hrest
    rw [List.length_cons]
    omega

/-! ## Rows -/

theorem inits_eq_cons (bs : List Char) : bs.inits = [] :: bs.inits.tail := by cases bs <;> rfl

/-- Behind a prefix `ds` of the second text, a row goes on with the distances to the prefixes that
extend it. -/
theorem extendRow_eq (cs ds bs : List Char) (c : Char) :
    extendRow c (lastApart (cs ++ [c]) ds) bs (bs.inits.map fun more => lastApart cs (ds ++ more)) =
      bs.inits.tail.map fun more => lastApart (cs ++ [c]) (ds ++ more) := by
  induction bs generalizing ds with
  | nil => rfl
  | cons b bs ih =>
    have hmap (before : List Char) :
        ((b :: bs).inits.tail.map fun more => lastApart before (ds ++ more)) =
          bs.inits.map fun more => lastApart before (ds ++ [b] ++ more) := by simp
    have hrest := ih (ds ++ [b])
    rw [inits_eq_cons (b :: bs), List.map_cons, hmap, List.tail_cons, hmap, List.append_nil]
    rw [inits_eq_cons bs] at hrest ⊢
    rw [List.map_cons, List.append_nil] at hrest ⊢
    rw [extendRow, ← lastApart_concat, List.map_cons, List.append_nil, hrest, List.tail_cons]

theorem nextRow_eq (cs bs : List Char) (c : Char) :
    nextRow bs (bs.inits.map (lastApart cs)) c = bs.inits.map (lastApart (cs ++ [c])) := by
  have hrest := extendRow_eq cs [] bs c
  simp only [List.nil_append] at hrest
  rw [inits_eq_cons bs, List.map_cons] at hrest ⊢
  rw [nextRow, ← lastApart_concat_nil, hrest, List.tail_cons, List.map_cons]

theorem foldl_nextRow_eq (cs as bs : List Char) :
    as.foldl (nextRow bs) (bs.inits.map (lastApart cs)) = bs.inits.map (lastApart (cs ++ as)) := by
  induction as generalizing cs with
  | nil => rw [List.append_nil, List.foldl_nil]
  | cons a rest ih => rw [List.foldl_cons, nextRow_eq, ih, List.append_assoc, List.singleton_append]

theorem range_eq (bs : List Char) :
    List.range (bs.length + 1) = bs.inits.map (lastApart []) := by
  refine List.ext_getElem (by simp) fun n hn _ => ?_
  rw [List.length_range] at hn
  rw [List.getElem_range, List.getElem_map, lastApart_nil, List.getElem_inits,
    List.length_take_of_le (Nat.le_of_lt_succ hn)]

/-- The last entry of the last row is the distance of the whole texts. -/
theorem distance_eq (as bs : List Char) : distance as bs = lastApart as bs := by
  have hlast : bs.inits.getLast? = some bs := by
    rw [List.getLast?_eq_getElem?, List.length_inits, Nat.add_sub_cancel,
      List.getElem?_eq_getElem (by simp), List.getElem_inits, List.take_length]
  unfold distance
  rw [range_eq, foldl_nextRow_eq, List.nil_append, List.getLast?_map, hlast]
  rfl

/-! ## Shortest scripts -/

theorem isScripted_editDistance (a b : String) :
    IsScripted (editDistance a b) a.toList b.toList := by
  have hscript := isScripted_apart a.toList.reverse b.toList.reverse
  rw [List.reverse_reverse, List.reverse_reverse] at hscript
  unfold editDistance
  rwa [distance_eq]

/-- Texts that no edit separates are the same. -/
theorem eq_of_editDistance_eq_zero {a b : String} (h : editDistance a b = 0) : a = b := by
  obtain ⟨script, hlength, hrun⟩ := isScripted_editDistance a b
  obtain rfl : script = [] := List.length_eq_zero_iff.mp (hlength.trans h)
  exact String.toList_inj.mp (Option.some.inj hrun)

/-- The lengths of the scripts that turn one text into another. -/
def scriptLengths (a b : String) : Set Nat := {n | IsScripted n a.toList b.toList}

/-- **The edit distance of two texts is the length of a shortest script** that turns the first into
the second. -/
theorem isLeast_editDistance (a b : String) : IsLeast (scriptLengths a b) (editDistance a b) := by
  refine ⟨isScripted_editDistance a b, ?_⟩
  rintro n ⟨script, rfl, hrun⟩
  have hle := lastApart_le_of_run? hrun a.toList
  unfold editDistance
  rwa [distance_eq, ← Nat.zero_add script.length, ← lastApart_self a.toList]

example : Edit.run? [.substitute 0 's', .substitute 4 'i', .insert 6 'g'] "kitten".toList =
    some "sitting".toList := by
  decide

end PlayerCommands.Name
