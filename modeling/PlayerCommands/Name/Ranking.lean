import PlayerCommands.Name.Distance
import PlayerCommands.Score.Basic

/-!
# Ranked names

Things, directions and options are matched by name in one way: an exact match beats the start of a
name, and that beats a few typos.  Candidates are ranked by score, then by name, and a ranking is a
close call when its first two are too near each other to choose between them.
-/

namespace PlayerCommands

/-! ## Rankings in general -/

namespace Ranking

variable {α : Type}

/-- Insert an element before the first one that does not outrank it. -/
def insert (outranks : α → α → Bool) (a : α) : List α → List α
  | [] => [a]
  | b :: rest => if outranks b a then b :: insert outranks a rest else a :: b :: rest

/-- Sort by rank; elements that do not outrank each other keep their order. -/
def sort (outranks : α → α → Bool) (l : List α) : List α := l.foldr (insert outranks) []

theorem perm_insert (outranks : α → α → Bool) (a : α) (l : List α) :
    (insert outranks a l).Perm (a :: l) := by
  induction l with
  | nil => exact .refl _
  | cons b rest ih =>
    simp only [insert]
    split
    · exact (ih.cons b).trans (.swap a b rest)
    · exact .refl _

theorem perm_sort (outranks : α → α → Bool) (l : List α) : (sort outranks l).Perm l := by
  induction l with
  | nil => exact .refl _
  | cons a rest ih => exact (perm_insert outranks a _).trans (ih.cons a)

theorem mem_sort {outranks : α → α → Bool} {a : α} {l : List α} :
    a ∈ sort outranks l ↔ a ∈ l := (perm_sort outranks l).mem_iff

end Ranking

/-- A value with its score. -/
structure Scored (α : Type) where
  value : α
  score : Score
deriving DecidableEq

namespace Scored

variable {α : Type} [LT α] [DecidableLT α]

/-- A higher score first, then the smaller value. -/
def outranks (a b : Scored α) : Bool :=
  decide (b.score < a.score) || (decide (a.score ≤ b.score) && decide (b.score ≤ a.score) &&
    decide (a.value < b.value))

/-- A ranking of scored values. -/
def ranking (l : List (Scored α)) : List (Scored α) := Ranking.sort outranks l

end Scored

/-! ## Close calls -/

/-- Name and command matches below this are discarded. -/
def matchFloor : Score := 0.5

/-- The first two of a ranking are a close call up to this difference. -/
def tieMargin : Score := 0.05 + 1e-9

/-- The runner-up is within the tie margin of the leader, and its score is one that counts. -/
def isCloseCall {α : Type} (ranked : List (Scored α)) (counts : Score → Bool) : Bool :=
  match ranked with
  | best :: second :: _ => decide (best.score - second.score ≤ tieMargin) && counts second.score
  | _ => false

/-! ## Names -/

namespace Name

def exactScore : Score := 1
def startScore : Score := 0.9

/-- The score of a match with `edits` typos. -/
def typoScore (edits : Nat) : Score := 0.8 - 0.1 * Score.ofNat edits

/-- How well `query` names `candidate`, or nothing when they are too far apart. -/
def score? (query candidate : String) : Option Score :=
  if query = "" ∨ candidate = "" then none
  else if query = candidate then some exactScore
  else if 2 ≤ query.utf8ByteSize ∧ query.toList.isPrefixOf candidate.toList then some startScore
  else
    let limit := editLimit candidate.length
    if limit = 0 then none
    else
      let edits := editDistance query candidate
      if limit < edits then none else some (typoScore edits)

/-- Add a scored name to a list that holds each name once, with its best score. -/
def keepBest (found : Scored String) : List (Scored String) → List (Scored String)
  | [] => [found]
  | old :: rest =>
    if old.value = found.value then (if old.score < found.score then found else old) :: rest
    else old :: keepBest found rest

/-- A candidate with its boost scored against a query, unless the sum is below the floor. -/
def boosted? (query : String) (candidate : String × Score) : Option (Scored String) :=
  (score? query candidate.1).bind fun score =>
    if score + candidate.2 < matchFloor then none else some ⟨candidate.1, score + candidate.2⟩

/-- The candidates that `query` may name, each once with its best score, ranked. -/
def rank (query : String) (candidates : List (String × Score)) : List (Scored String) :=
  Scored.ranking
    ((candidates.filterMap (boosted? query)).foldl (fun found s => keepBest s found) [])

/-! ## Lists of names -/

/-- The elements of a list, each only where it occurs first. -/
def distinct {α : Type} [DecidableEq α] : List α → List α
  | [] => []
  | a :: rest => a :: (distinct rest).filter (· ≠ a)

theorem mem_distinct {α : Type} [DecidableEq α] {a : α} {l : List α} :
    a ∈ distinct l ↔ a ∈ l := by
  induction l with
  | nil => simp [distinct]
  | cons b rest ih =>
    by_cases h : a = b <;> simp [distinct, ih, h]

theorem nodup_distinct {α : Type} [DecidableEq α] (l : List α) : (distinct l).Nodup := by
  induction l with
  | nil => exact .nil
  | cons b rest ih => exact List.nodup_cons.2 ⟨by simp, ih.filter _⟩

theorem distinct_of_nodup {α : Type} [DecidableEq α] {l : List α} (h : l.Nodup) :
    distinct l = l := by
  induction l with
  | nil => rfl
  | cons a rest ih =>
    obtain ⟨ha, hrest⟩ := List.nodup_cons.1 h
    unfold distinct
    rw [ih hrest, List.filter_eq_self.mpr]
    intro b hb
    rw [decide_eq_true_eq]
    rintro rfl
    exact ha hb

/-- What is pushed onto a list comes behind it, each once, unless it is there already. -/
theorem foldl_push {α : Type} [DecidableEq α] (l acc : List α) :
    l.foldl (fun acc a => if acc.contains a then acc else acc ++ [a]) acc =
      acc ++ (distinct l).filter (· ∉ acc) := by
  induction l generalizing acc with
  | nil => simp [distinct]
  | cons a rest ih =>
    rw [List.foldl_cons, ih]
    by_cases ha : a ∈ acc
    · have hfilter : ((distinct rest).filter (· ≠ a)).filter (· ∉ acc) =
          (distinct rest).filter (· ∉ acc) := by
        rw [List.filter_filter]
        refine List.filter_congr fun b _ => ?_
        by_cases hb : b = a <;> simp [hb, ha]
      rw [if_pos (by simpa using ha), distinct, List.filter_cons_of_neg (by simpa using ha),
        hfilter]
    · have hfilter : ((distinct rest).filter (· ≠ a)).filter (· ∉ acc) =
          (distinct rest).filter (· ∉ acc ++ [a]) := by
        rw [List.filter_filter]
        refine List.filter_congr fun b _ => ?_
        by_cases hb : b = a <;> simp [hb]
      rw [if_neg (by simpa using ha), distinct, List.filter_cons_of_pos (by simpa using ha),
        hfilter, List.append_assoc, List.singleton_append]

/-- How words were matched against a set of names. -/
inductive Match where
  /-- One name, with the number of words that it took. -/
  | found (name : String) (score : Score) (consumed : Nat)
  /-- A close call. -/
  | ambiguous (ranked : List (Scored String))
  | none
deriving DecidableEq

/-- The outcome of a ranking for words of which `consumed` were used. -/
def Match.ofRanking (consumed : Nat) (counts : Score → Bool) (ranked : List (Scored String)) :
    Match :=
  if isCloseCall ranked counts then .ambiguous ranked
  else match ranked with
    | top :: _ => .found top.value top.score consumed
    | [] => .none

end Name

end PlayerCommands
