/-!
# Files

Reading text files by their paths, as far as it can fail, and a directory given by the list of its
files.
-/

namespace PlayerCommands

/-- Why a file cannot be read. -/
inductive FileFault where
  | notFound
  /-- A part of the path that should be a directory is a file. -/
  | notDirectory
  | isDirectory
  | nameTooLong
  | permissionDenied
  | invalidText
  /-- Any other reason, in words. -/
  | other (reason : String)
deriving DecidableEq

def FileFault.message : FileFault → String
  | notFound => "No such file or directory (os error 2)"
  | notDirectory => "Not a directory (os error 20)"
  | isDirectory => "Is a directory (os error 21)"
  | nameTooLong => "File name too long (os error 36)"
  | permissionDenied => "Permission denied (os error 13)"
  | invalidText => "stream did not contain valid UTF-8"
  | other reason => reason

/-- What can be asked of the files in reach. -/
structure Files where
  read : String → Except FileFault String
  isDirectory : String → Bool

namespace Files

/-- A path in a directory. -/
def join (directory path : String) : String :=
  match directory.toList.getLast? with
  | none => path
  | some '/' => directory ++ path
  | some _ => directory ++ "/" ++ path

/-- A path without its last part. -/
def parent (path : String) : String :=
  String.ofList ((path.toList.reverse.dropWhile (· ≠ '/')).drop 1).reverse

/-! ## A directory by its files -/

/-- The parts of a path. -/
def parts (path : String) : List String :=
  ((path.toList.splitOnP (· == '/')).map String.ofList).filter fun part => part ≠ "" ∧ part ≠ "."

/-- What stands at a path. -/
inductive Node where
  | file (text : String)
  | directory

/-- Where one part of a path leads from a place, which is given by the names that lead to it. -/
def step (place : List String) (part : String) : List String :=
  if part = ".." then place.dropLast else place ++ [part]

/-- The place that the parts of a path lead to. -/
def placeOf (parts : List String) : List String := parts.foldl step []

/-- What is in a directory. -/
structure Tree where
  /-- The files by their places, the one written last first. -/
  texts : List (List String × String)
  /-- The directories below. -/
  directories : List (List String)

namespace Tree

/-- The tree after files were written one after the other; every directory that a path leads
through is made. -/
def ofList (files : List (String × String)) : Tree where
  texts := (files.map fun (path, text) => (placeOf (parts path), text)).reverse
  directories := files.flatMap fun (path, _) =>
    (List.range (parts path).length).map fun n => placeOf ((parts path).take n)

/-- What stands at a place. -/
def nodeAt? (tree : Tree) (place : List String) : Option Node :=
  match tree.texts.find? (·.1 = place) with
  | some (_, text) => some (.file text)
  | none => if place = [] ∨ place ∈ tree.directories then some .directory else none

/-- The greatest number of bytes in a name. -/
def maxNameSize : Nat := 255

/-- The greatest number of bytes in a path. -/
def maxPathSize : Nat := 4095

/-- Walk from a place along the parts of a path. -/
def walk (tree : Tree) (place : List String) : List String → Except FileFault Node
  | [] =>
    match tree.nodeAt? place with
    | some node => .ok node
    | none => .error .notFound
  | part :: rest =>
    match tree.nodeAt? place with
    | none => .error .notFound
    | some (.file _) => .error .notDirectory
    | some .directory =>
      if maxNameSize < part.utf8ByteSize then .error .nameTooLong
      else if part = ".." ∧ place = [] then .error .notFound
      else walk tree (step place part) rest

/-- What a path leads to; nothing outside the directory is known. -/
def lookUp (tree : Tree) (path : String) : Except FileFault Node :=
  if maxPathSize < path.utf8ByteSize then .error .nameTooLong
  else if path = "" ∨ path.toList.head? = some '/' then .error .notFound
  else tree.walk [] (parts path)

end Tree

/-- The files of a directory by their paths, of which later ones replace earlier ones. -/
def ofList (files : List (String × String)) : Files :=
  let tree := Tree.ofList files
  { read := fun path =>
      match tree.lookUp path with
      | .ok (.file text) => .ok text
      | .ok .directory => .error .isDirectory
      | .error fault => .error fault
    isDirectory := fun path =>
      match tree.lookUp path with
      | .ok .directory => true
      | _ => false }

end Files

end PlayerCommands
