import PlayerCommands.Direction

/-!
# Things at hand

The things of a scene by their normal names: those nearby, then those only carried.  A name is
matched by two words first and by one otherwise; a thing counts more for every place it is in.
-/

namespace PlayerCommands

/-- The normal names of the things nearby and carried. -/
structure EntityPools where
  nearby : List String
  inventory : List String
deriving DecidableEq

namespace EntityPools

/-- Added to a score once for each place that holds the candidate. -/
def boost : Score := 0.08

/-- A two-word match above this takes both words. -/
def twoWordFloor : Score := 0.9

def ofScene (s : Scene) : EntityPools := ⟨normalNames s.nearby, normalNames s.inventory⟩

/-- All names, each once. -/
def all (p : EntityPools) : List String :=
  p.nearby ++ p.inventory.filter (fun name => ! p.nearby.contains name)

def isEmpty (p : EntityPools) : Bool := p.all.isEmpty

/-- The boost of a name. -/
def boostOf (p : EntityPools) (name : String) : Score :=
  let nearby := if p.nearby.contains name then (0 : Score) + boost else 0
  if p.inventory.contains name then nearby + boost else nearby

/-- The names that `query` may mean, ranked. -/
def rank (p : EntityPools) (query : String) : List (Scored String) :=
  Name.rank query (p.all.map fun name => (name, p.boostOf name))

/-- A runner-up that reaches the tie floor counts. -/
def counts (second : Score) : Bool := decide (tieFloor ≤ second)

/-- The thing that two words name together, if it stands out. -/
def resolveTwo? (p : EntityPools) (word next : String) : Option Name.Match :=
  let ranked := p.rank (word ++ " " ++ next)
  match ranked with
  | top :: _ =>
    if twoWordFloor < top.score && ! isCloseCall ranked counts then
      some (.found top.value top.score 2)
    else none
  | [] => none

/-- The thing that is named by a word, or by it and the next one. -/
def resolve (p : EntityPools) (word : String) (next? : Option String) : Name.Match :=
  if p.isEmpty then .none
  else
    match next?.bind (p.resolveTwo? word) with
    | some found => found
    | none => Name.Match.ofRanking 1 counts (p.rank word)

end EntityPools

end PlayerCommands
