import PlayerCommands.Scene

/-!
# Directions

Ten compass directions, up and down are understood everywhere, in a short and a long form.  Any
other word is matched by name against the directions of the scene, or against the four main ones if
the scene has none.
-/

namespace PlayerCommands

/-- The directions that are understood in every scene. -/
inductive Direction where
  | north | south | east | west | northeast | northwest | southeast | southwest | up | down
deriving DecidableEq

namespace Direction

/-- The long form. -/
def name : Direction → String
  | north => "north"
  | south => "south"
  | east => "east"
  | west => "west"
  | northeast => "northeast"
  | northwest => "northwest"
  | southeast => "southeast"
  | southwest => "southwest"
  | up => "up"
  | down => "down"

/-- The short form. -/
def abbreviation : Direction → String
  | north => "n"
  | south => "s"
  | east => "e"
  | west => "w"
  | northeast => "ne"
  | northwest => "nw"
  | southeast => "se"
  | southwest => "sw"
  | up => "u"
  | down => "d"

def all : List Direction :=
  [north, south, east, west, northeast, northwest, southeast, southwest, up, down]

/-- The direction with this short or long form. -/
def ofWord? (word : String) : Option Direction :=
  all.find? fun d => d.name = word || d.abbreviation = word

/-- The names of the four main directions. -/
def main : List String := [north, south, east, west].map name

theorem mem_all (d : Direction) : d ∈ all := by cases d <;> decide

theorem ofWord?_name (d : Direction) : ofWord? d.name = some d := by cases d <;> decide

theorem ofWord?_abbreviation (d : Direction) : ofWord? d.abbreviation = some d := by
  cases d <;> decide

end Direction

/-- A runner-up that makes a close call worth asking about scores at least this much. -/
def tieFloor : Score := 0.6

namespace Scene

/-- The names of the ways that lead on. -/
def knownDirections (s : Scene) : List String :=
  match normalNames s.directions with
  | [] => Direction.main
  | names => names

/-- Resolve a word as a direction. -/
def resolveDirection (s : Scene) (word : String) : Name.Match :=
  match Direction.ofWord? word with
  | some d => .found d.name 1 1
  | none =>
    Name.Match.ofRanking 1 (fun second => decide (tieFloor < second))
      (Name.rank word (s.knownDirections.map fun d => (d, 0)))

end Scene

end PlayerCommands
