/-!
# TOML values

The values of a TOML document, and how a document grows: a header declares a table, a double header
adds a table to an array, and a key with a value adds a field.  A table knows how it came to be,
because that decides who may add to it later: a header opens a table once, after longer headers may
have implied it; a dotted key adds only to tables that dotted keys have made.
-/

namespace PlayerCommands.Toml

/-- How a table came to be. -/
inductive Origin where
  /-- By a header of its own. -/
  | header
  /-- By a longer header. -/
  | implied
  /-- By a dotted key. -/
  | dotted
  /-- As a value between braces. -/
  | inline
deriving DecidableEq

inductive Value where
  | string (s : String)
  | integer (n : Int)
  /-- A number with a fraction or an exponent, or one of the special numbers. -/
  | float (text : String)
  | boolean (b : Bool)
  /-- A date, a time, or both. -/
  | datetime (text : String)
  /-- An array between brackets. -/
  | array (items : List Value)
  /-- An array of tables that double headers have made. -/
  | tables (items : List (List (String × Value)))
  | table (origin : Origin) (fields : List (String × Value))

/-- The fields of a table. -/
abbrev Fields := List (String × Value)

namespace Fields

/-- The value of a field. -/
def get? (fields : Fields) (key : String) : Option Value := (fields.find? (·.1 = key)).map (·.2)

/-- The fields with one of them changed, or added at the end. -/
def set (key : String) (v : Value) : Fields → Fields
  | [] => [(key, v)]
  | (k, old) :: rest => if k = key then (k, v) :: rest else (k, old) :: set key v rest

/-- A change to the last table of an array of tables. -/
def onLast (change : Fields → Option Fields) (items : List Fields) : Option Value := do
  let last ← items.getLast?
  return .tables (items.dropLast ++ [← change last])

/-- A change to the table behind a path of headers; missing tables are implied. -/
def within (change : Fields → Option Fields) : List String → Fields → Option Fields
  | [], fields => change fields
  | key :: path, fields =>
    match get? fields key with
    | none => do return set key (.table .implied (← within change path [])) fields
    | some (.table .inline _) => none
    | some (.table origin sub) => do return set key (.table origin (← within change path sub)) fields
    | some (.tables items) => do return set key (← onLast (within change path) items) fields
    | some _ => none

/-- Open the table `key`. -/
def declareTable (key : String) (fields : Fields) : Option Fields :=
  match get? fields key with
  | none => some (set key (.table .header []) fields)
  | some (.table .implied sub) => some (set key (.table .header sub) fields)
  | some _ => none

/-- Add an empty table to the array of tables `key`. -/
def declareElement (key : String) (fields : Fields) : Option Fields :=
  match get? fields key with
  | none => some (set key (.tables [[]]) fields)
  | some (.tables items) => some (set key (.tables (items ++ [[]])) fields)
  | some _ => none

/-- Add a field under a dotted key. -/
def assign (v : Value) : List String → Fields → Option Fields
  | [], _ => none
  | [key], fields => if (get? fields key).isSome then none else some (set key v fields)
  | part :: key :: path, fields =>
    match get? fields part with
    | none => do return set part (.table .dotted (← assign v (key :: path) [])) fields
    | some (.table .dotted sub) => do
      return set part (.table .dotted (← assign v (key :: path) sub)) fields
    | some (.table .implied sub) =>
      if path.isEmpty then none
      else do return set part (.table .implied (← assign v (key :: path) sub)) fields
    | some (.tables items) =>
      if path.isEmpty then none
      else do return set part (← onLast (assign v (key :: path)) items) fields
    | some _ => none

end Fields

end PlayerCommands.Toml
