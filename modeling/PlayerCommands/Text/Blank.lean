/-!
# Blanks

The characters with the White_Space property, and the two cuts that are made at them: trimming the
ends of a text and splitting it into tokens.  A token is never empty and holds no blank, and tokens
that are joined by a blank come apart again.

    pieces p (join c ws) = ws      for a `c` of the class, `ws` tokens      (pieces_intercalate)
-/

namespace PlayerCommands.Text

/-! ## The class -/

/-- A character with the Unicode property White_Space. -/
def isBlank (c : Char) : Bool :=
  let n := c.toNat
  (9 ≤ n && n ≤ 13) || n == 0x20 || n == 0x85 || n == 0xA0 || n == 0x1680 ||
    (0x2000 ≤ n && n ≤ 0x200A) || n == 0x2028 || n == 0x2029 || n == 0x202F || n == 0x205F ||
    n == 0x3000

/-! ## Cuts -/

/-- A list without the elements of a class at its two ends. -/
def trimBy {α : Type} (p : α → Bool) (l : List α) : List α :=
  ((l.dropWhile p).reverse.dropWhile p).reverse

/-- A text without the blanks at its two ends. -/
def trim (s : String) : String := String.ofList (trimBy isBlank s.toList)

/-- The pieces between the characters of a class, empty ones left out. -/
def pieces (p : Char → Bool) (cs : List Char) : List (List Char) :=
  (cs.splitOnP p).filter (! ·.isEmpty)

/-- The tokens of a text: its pieces between blanks. -/
def tokens (s : String) : List String := (pieces isBlank s.toList).map String.ofList

/-! ## Lemmas -/

theorem mem_pieces_ne_nil {p : Char → Bool} {cs w : List Char} (h : w ∈ pieces p cs) : w ≠ [] := by
  have := (List.mem_filter.1 h).2
  simpa using this

theorem pieces_append_cons {p : Char → Bool} (as bs : List Char) {c : Char} (h : p c = true) :
    pieces p (as ++ c :: bs) = pieces p as ++ pieces p bs := by
  simp [pieces, List.splitOnP_append_cons _ _ h]

theorem forall_of_mem_splitOnP {p : Char → Bool} (cs : List Char) :
    ∀ w ∈ cs.splitOnP p, ∀ c ∈ w, p c = false := by
  induction cs with
  | nil => simp
  | cons c rest ih =>
    rw [List.splitOnP_cons_eq_if_modifyHead]
    split
    · simpa using ih
    · next hc =>
      rcases h : rest.splitOnP p with _ | ⟨first, others⟩
      · simp
      · rw [h] at ih
        intro w hw
        simp only [List.modifyHead_cons, List.mem_cons] at hw
        rcases hw with rfl | hw
        · intro d hd
          rcases List.mem_cons.1 hd with rfl | hd
          · simpa using hc
          · exact ih first (by simp) d hd
        · exact ih w (by simp [hw])

theorem not_of_mem_pieces {p : Char → Bool} {cs w : List Char} (h : w ∈ pieces p cs) :
    ∀ c ∈ w, p c = false := forall_of_mem_splitOnP cs w (List.mem_filter.1 h).1

theorem pieces_of_forall {p : Char → Bool} {w : List Char} (hne : w ≠ [])
    (h : ∀ c ∈ w, p c = false) : pieces p w = [w] := by
  simp [pieces, List.splitOnP_eq_singleton h, hne]

theorem pieces_intercalate {p : Char → Bool} {sep : Char} (hsep : p sep = true)
    (ws : List (List Char)) (h : ∀ w ∈ ws, w ≠ [] ∧ ∀ c ∈ w, p c = false) :
    pieces p ([sep].intercalate ws) = ws := by
  induction ws with
  | nil => simp [pieces]
  | cons w rest ih =>
    have hw := h w (by simp)
    have hrest := ih fun v hv => h v (by simp [hv])
    by_cases hnil : rest = []
    · subst hnil
      simpa using pieces_of_forall hw.1 hw.2
    · rw [List.intercalate_cons_of_ne_nil hnil, List.append_assoc, List.singleton_append,
        pieces_append_cons _ _ hsep, hrest, pieces_of_forall hw.1 hw.2]
      rfl

theorem pieces_reverse_dropWhile {p q : Char → Bool} (hpq : ∀ c, q c = true → p c = true)
    (cs : List Char) : pieces p (cs.dropWhile q).reverse = pieces p cs.reverse := by
  induction cs with
  | nil => rfl
  | cons c rest ih =>
    rw [List.dropWhile_cons]
    split
    · next hc =>
      rw [ih, List.reverse_cons, pieces_append_cons _ _ (hpq c hc)]
      simp [pieces]
    · rfl

theorem pieces_dropWhile {p q : Char → Bool} (hpq : ∀ c, q c = true → p c = true)
    (cs : List Char) : pieces p (cs.dropWhile q) = pieces p cs := by
  induction cs with
  | nil => rfl
  | cons c rest ih =>
    rw [List.dropWhile_cons]
    split
    · next hc =>
      rw [ih, ← List.nil_append (c :: rest), pieces_append_cons _ _ (hpq c hc)]
      simp [pieces]
    · rfl

/-- Cutting at a class that holds the blanks does not depend on those at the ends. -/
theorem pieces_trimBy {p q : Char → Bool} (hpq : ∀ c, q c = true → p c = true) (cs : List Char) :
    pieces p (trimBy q cs) = pieces p cs := by
  unfold trimBy
  rw [pieces_reverse_dropWhile hpq, List.reverse_reverse, pieces_dropWhile hpq]

example : tokens " go  north\t" = ["go", "north"] := by decide
example : trim "  : help " = ": help" := by decide

end PlayerCommands.Text
