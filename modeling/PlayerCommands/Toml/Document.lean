import PlayerCommands.Toml.Scalar

/-!
# TOML documents

A document is read line by line: headers, keys with values, comments and blank lines.  Values nest
at most 79 deep, and so many parts a key has at most.
-/

namespace PlayerCommands.Toml

/-- Arrays and inline tables nest less deep than this, and a key has fewer parts. -/
def nestingLimit : Nat := 80

/-! ## Between the tokens -/

def skipSpaces (cs : List Char) : List Char := cs.dropWhile isSpace

/-- What follows the end of a line, at the start of a text. -/
def readNewline : List Char → Option (List Char)
  | '\n' :: rest => some rest
  | '\r' :: '\n' :: rest => some rest
  | _ => none

/-- What follows a comment, if the text starts with one. -/
def skipComment : List Char → List Char
  | '#' :: rest => rest.dropWhile isTextChar
  | cs => cs

/-- What follows the end of a line behind an entry: blanks, a comment, and a line end unless the
document ends. -/
def endLine (cs : List Char) : Option (List Char) :=
  match skipComment (skipSpaces cs) with
  | [] => some []
  | rest => readNewline rest

/-- Blanks, line ends and comments between the items of an array; a comment ends with its line. -/
def skipBetween (cs : List Char) : Option (List Char) :=
  match skipLines cs with
  | '#' :: rest =>
    match readNewline (rest.dropWhile isTextChar) with
    | some after =>
      if after.length < cs.length then skipBetween after else none
    | none => none
  | rest => some rest
termination_by cs.length

/-! ## Keys -/

def isBareKeyChar (c : Char) : Bool := c.isAlphanum || c = '_' || c = '-'

/-- One part of a key. -/
def readSimpleKey (cs : List Char) : Option (String × List Char) :=
  match cs with
  | '"' :: rest => (readBasic rest).map fun (s, rest) => (String.ofList s, rest)
  | '\x27' :: rest => (readLiteral rest).map fun (s, rest) => (String.ofList s, rest)
  | _ =>
    match cs.takeWhile isBareKeyChar with
    | [] => none
    | word => some (String.ofList word, cs.dropWhile isBareKeyChar)

/-- A key of at most `parts` parts with points between them, blanks around each part left out. -/
def readKey : (parts : Nat) → List Char → Option (List String × List Char)
  | 0, _ => none
  | parts + 1, cs => do
    let (part, rest) ← readSimpleKey (skipSpaces cs)
    match skipSpaces rest with
    | '.' :: rest => do
      let (others, rest) ← readKey parts rest
      return (part :: others, rest)
    | rest => return ([part], rest)

/-! ## Values -/

/-- The rest of an array behind its opening bracket or a comma. -/
def readItems (read : List Char → Option (Value × List Char)) (cs : List Char) :
    Option (List Value × List Char) :=
  match skipBetween cs with
  | none => none
  | some (']' :: rest) => some ([], rest)
  | some rest =>
    match read rest with
    | none => none
    | some (v, rest) =>
      match skipBetween rest with
      | some (',' :: rest) =>
        if rest.length < cs.length then
          (readItems read rest).map fun (items, rest) => (v :: items, rest)
        else none
      | some (']' :: rest) => some ([v], rest)
      | _ => none
termination_by cs.length

/-- The rest of an inline table behind its opening brace or a comma, added to its fields. -/
def readPairs (read : List Char → Option (Value × List Char)) (fields : Fields)
    (cs : List Char) : Option (Fields × List Char) :=
  match readKey (nestingLimit - 1) cs with
  | some (key, '=' :: rest) =>
    match read (skipSpaces rest) with
    | none => none
    | some (v, rest) =>
      match Fields.assign v key fields, skipSpaces rest with
      | some fields, ',' :: rest =>
        if rest.length < cs.length then readPairs read fields rest else none
      | some fields, '\x7d' :: rest => some (fields, rest)
      | _, _ => none
  | _ => none
termination_by cs.length

/-- A value at the start of a text, with arrays and inline tables up to `depth` deep. -/
def readValue : (depth : Nat) → List Char → Option (Value × List Char)
  | 0, cs =>
    match cs with
    | '[' :: _ | '\x7b' :: _ => none
    | '"' :: _ | '\x27' :: _ => (readString cs).map fun (s, rest) => (.string (String.ofList s), rest)
    | _ => readWord cs
  | depth + 1, cs =>
    match cs with
    | '[' :: rest => (readItems (readValue depth) rest).map fun (items, rest) => (.array items, rest)
    | '\x7b' :: rest =>
      match skipSpaces rest with
      | '\x7d' :: rest => some (.table .inline [], rest)
      | rest =>
        (readPairs (readValue depth) [] rest).map fun (fields, rest) =>
          (.table .inline fields, rest)
    | '"' :: _ | '\x27' :: _ => (readString cs).map fun (s, rest) => (.string (String.ofList s), rest)
    | _ => readWord cs

/-! ## Lines -/

/-- The path of a header or key without its last part, and that part. -/
def splitPath (key : List String) : Option (List String × String) :=
  key.getLast?.map fun last => (key.dropLast, last)

/-- Read one line of a document with fields `root`, under the header `path`.  The result is the
fields and the header after it, and the rest. -/
def readLine (root : Fields) (path : List String) (cs : List Char) :
    Option (Fields × List String × List Char) :=
  match skipSpaces cs with
  | '[' :: '[' :: rest => do
    let (key, rest) ← readKey (nestingLimit - 1) rest
    let rest ← endLine (← expect ']' (← expect ']' rest))
    let (parents, last) ← splitPath key
    return (← Fields.within (Fields.declareElement last) parents root, key, rest)
  | '[' :: rest => do
    let (key, rest) ← readKey (nestingLimit - 1) rest
    let rest ← endLine (← expect ']' rest)
    let (parents, last) ← splitPath key
    return (← Fields.within (Fields.declareTable last) parents root, key, rest)
  | rest =>
    match endLine rest with
    | some after => some (root, path, after)
    | none => do
      let (key, rest) ← readKey (nestingLimit - 1) rest
      let (v, rest) ← readValue (nestingLimit - 1) (skipSpaces (← expect '=' rest))
      let rest ← endLine rest
      return (← Fields.within (Fields.assign v key) path root, path, rest)

/-- Read the lines of a document from one on. -/
def readLines (root : Fields) (path : List String) (cs : List Char) : Option Fields :=
  if cs.isEmpty then some root
  else
    match readLine root path cs with
    | none => none
    | some (root, path, rest) =>
      if rest.length < cs.length then readLines root path rest else none
termination_by cs.length

/-- The fields of a document, if the text is one; a byte order mark at its start is ignored. -/
def ofText? (text : String) : Option Fields :=
  readLines [] [] (if text.toList.head? = some '\ufeff' then text.toList.tail else text.toList)

end PlayerCommands.Toml
