import PlayerCommands.Score.Basic
import PlayerCommands.Toml.Value

/-!
# Strings, numbers and dates in TOML

Strings come in four spellings: between double or single quotes, on one line or between three quotes
over several.  All other scalars are words without blanks, except that a time may follow its date
after one space; a word is classified as a whole.
-/

namespace PlayerCommands.Toml

/-! ## Characters -/

/-- A character that may stand in comments and strings as it is: no control character but the
tab. -/
def isTextChar (c : Char) : Bool := c = '\t' || (32 ≤ c.toNat && c.toNat ≠ 127)

/-- A blank within a line. -/
def isSpace (c : Char) : Bool := c = ' ' || c = '\t'

def hexDigit? (c : Char) : Option Nat :=
  if c.isDigit then some (c.toNat - 48)
  else if 'a' ≤ c ∧ c ≤ 'f' then some (c.toNat - 87)
  else if 'A' ≤ c ∧ c ≤ 'F' then some (c.toNat - 55)
  else none

/-- The character with a code in hexadecimal digits. -/
def scalar? (digits : List Char) : Option Char := do
  let values ← digits.mapM hexDigit?
  let code := values.foldl (fun n d => 16 * n + d) 0
  if code.isValidChar then some (Char.ofNat code) else none

/-- The character that a letter behind a backslash stands for. -/
def escape? : Char → Option Char
  | 'b' => some '\x08'
  | 't' => some '\t'
  | 'n' => some '\n'
  | 'f' => some '\x0c'
  | 'r' => some '\r'
  | '"' => some '"'
  | '\\' => some '\\'
  | _ => none

/-- Blanks and line ends taken off the front. -/
def skipLines : List Char → List Char
  | '\r' :: '\n' :: rest => skipLines rest
  | c :: rest => if isSpace c || c = '\n' then skipLines rest else c :: rest
  | [] => []

theorem length_skipLines_le (cs : List Char) : (skipLines cs).length ≤ cs.length := by
  fun_induction skipLines cs <;> simp_all <;> omega

/-! ## Strings -/

/-- A character of a string as it stands, or none if it ends a run of plain characters.  The result
of reading a string is its content with the rest behind its closing quotes. -/
abbrev StringResult := Option (List Char × List Char)

/-- Put a character in front of the content. -/
def StringResult.push (c : Char) (r : StringResult) : StringResult :=
  r.map fun (content, rest) => (c :: content, rest)

/-- A string on one line behind its opening double quote. -/
def readBasic : List Char → StringResult
  | '"' :: rest => some ([], rest)
  | '\\' :: 'u' :: a :: b :: c :: d :: rest => do
    StringResult.push (← scalar? [a, b, c, d]) (readBasic rest)
  | '\\' :: 'U' :: a :: b :: c :: d :: e :: f :: g :: h :: rest => do
    StringResult.push (← scalar? [a, b, c, d, e, f, g, h]) (readBasic rest)
  | '\\' :: c :: rest => do StringResult.push (← escape? c) (readBasic rest)
  | c :: rest => if isTextChar c then (readBasic rest).push c else none
  | [] => none

/-- A string on one line behind its opening single quote. -/
def readLiteral : List Char → StringResult
  | [] => none
  | c :: rest =>
    if c = '\x27' then some ([], rest)
    else if isTextChar c then (readLiteral rest).push c
    else none

/-- Three to five quotes close a string of several lines; those before the last three belong to
it. -/
def closing? (quote : Char) (cs : List Char) : StringResult :=
  let run := (cs.takeWhile (· = quote)).length
  if run < 3 then none
  else some (List.replicate (min run 5 - 3) quote, cs.drop (min run 5))

/-- A string of several lines behind its opening double quotes. -/
def readMultiBasic (cs : List Char) : StringResult :=
  match closing? '"' cs with
  | some closed => some closed
  | none =>
    match cs with
    | '\r' :: '\n' :: rest => (readMultiBasic rest).push '\n'
    | '\\' :: 'u' :: a :: b :: c :: d :: rest => do
      StringResult.push (← scalar? [a, b, c, d]) (readMultiBasic rest)
    | '\\' :: 'U' :: a :: b :: c :: d :: e :: f :: g :: h :: rest => do
      StringResult.push (← scalar? [a, b, c, d, e, f, g, h]) (readMultiBasic rest)
    | '\\' :: c :: rest =>
      match escape? c with
      | some e => (readMultiBasic rest).push e
      | none =>
        match (c :: rest).dropWhile isSpace with
        | '\n' :: _ | '\r' :: '\n' :: _ =>
          have : (skipLines (c :: rest)).length ≤ rest.length + 1 := length_skipLines_le (c :: rest)
          readMultiBasic (skipLines (c :: rest))
        | _ => none
    | c :: rest => if isTextChar c || c = '\n' then (readMultiBasic rest).push c else none
    | [] => none
termination_by cs.length

/-- A string of several lines behind its opening single quotes. -/
def readMultiLiteral (cs : List Char) : StringResult :=
  match closing? '\x27' cs with
  | some closed => some closed
  | none =>
    match cs with
    | '\r' :: '\n' :: rest => (readMultiLiteral rest).push '\n'
    | c :: rest => if isTextChar c || c = '\n' then (readMultiLiteral rest).push c else none
    | [] => none
termination_by cs.length

/-- A text without a line end at its start. -/
def dropNewline : List Char → List Char
  | '\n' :: rest => rest
  | '\r' :: '\n' :: rest => rest
  | cs => cs

/-- A string of any spelling at the start of a text. -/
def readString (cs : List Char) : StringResult :=
  match cs with
  | '"' :: '"' :: '"' :: rest => readMultiBasic (dropNewline rest)
  | '"' :: rest => readBasic rest
  | '\x27' :: '\x27' :: '\x27' :: rest => readMultiLiteral (dropNewline rest)
  | '\x27' :: rest => readLiteral rest
  | _ => none

/-! ## Numbers -/

/-- Digits without the underscores between them; every underscore needs a digit on both sides. -/
def digits? (isDigit : Char → Bool) : List Char → Option (List Char)
  | [] => none
  | [c] => if isDigit c then some [c] else none
  | c :: '_' :: rest => if isDigit c then (digits? isDigit rest).map (c :: ·) else none
  | c :: rest => if isDigit c then (digits? isDigit rest).map (c :: ·) else none

/-- The value of digits in some base. -/
def valueIn (base : Nat) (digits : List Char) : Nat :=
  digits.foldl (fun n c => base * n + (hexDigit? c).getD 0) 0

/-- A sign, and what it stands before. -/
def splitSign : List Char → Bool × List Char
  | '-' :: rest => (true, rest)
  | '+' :: rest => (false, rest)
  | cs => (false, cs)

/-- Decimal digits without a needless zero at the front. -/
def decimal? (cs : List Char) : Option (List Char) :=
  (digits? Char.isDigit cs).filter fun ds => ds.length = 1 || ds.head? ≠ some '0'

/-- Digits of a base behind its mark. -/
def based? (base : Nat) (cs : List Char) : Option Nat :=
  (digits? (fun c => (hexDigit? c).any (· < base)) cs).map (valueIn base)

/-- A whole number of at most 64 bits. -/
def integer? (word : List Char) : Option Int :=
  let n : Option Int :=
    match word with
    | '0' :: 'x' :: rest => (based? 16 rest).map Int.ofNat
    | '0' :: 'o' :: rest => (based? 8 rest).map Int.ofNat
    | '0' :: 'b' :: rest => (based? 2 rest).map Int.ofNat
    | _ =>
      let (negative, rest) := splitSign word
      (decimal? rest).map fun ds =>
        if negative then -(valueIn 10 ds : Int) else (valueIn 10 ds : Int)
  n.filter fun n => -9223372036854775808 ≤ n && n ≤ 9223372036854775807

/-- Whether `m * 10 ^ e` lies within the range of finite numbers. -/
def isFinite (m : List Char) (e : Int) : Bool :=
  let n := valueIn 10 m
  let size := ((m.dropWhile (· = '0')).length : Int) + e
  n = 0 || size < 0 || (size < 400 && (Score.ofRat? ((n : Rat) * (10 : Rat) ^ e)).isSome)

/-- A number with a fraction, an exponent or both; a positive one has to be finite. -/
def isFloat (word : List Char) : Bool :=
  let (negative, body) := splitSign word
  if body = ['i', 'n', 'f'] || body = ['n', 'a', 'n'] then true
  else
    let isExp (c : Char) : Bool := c = 'e' || c = 'E'
    let mantissa := body.takeWhile (! isExp ·)
    let whole := mantissa.takeWhile (· ≠ '.')
    let fraction := mantissa.drop whole.length
    let power := body.drop mantissa.length
    let places : Option (List Char) :=
      match fraction with
      | [] => some []
      | _ :: ds => digits? Char.isDigit ds
    let exponent : Option Int :=
      match power with
      | [] => some 0
      | _ :: rest =>
        let (minus, ds) := splitSign rest
        (digits? Char.isDigit ds).map fun ds =>
          if minus then -(valueIn 10 ds : Int) else (valueIn 10 ds : Int)
    match decimal? whole, places, exponent with
    | some ds, some places, some e =>
      (! fraction.isEmpty || ! power.isEmpty) &&
        (negative || isFinite (ds ++ places) (e - places.length))
    | _, _, _ => false

/-! ## Dates and times -/

/-- A number of exactly `n` digits at the start of a text. -/
def readDigits (n : Nat) (cs : List Char) : Option (Nat × List Char) :=
  if (cs.take n).length = n ∧ (cs.take n).all Char.isDigit then
    some (valueIn 10 (cs.take n), cs.drop n)
  else none

/-- Skip one character. -/
def expect (c : Char) : List Char → Option (List Char)
  | d :: rest => if d = c then some rest else none
  | [] => none

def daysIn (year month : Nat) : Nat :=
  if month = 2 then (if (year % 4 = 0 ∧ year % 100 ≠ 0) ∨ year % 400 = 0 then 29 else 28)
  else if month = 4 ∨ month = 6 ∨ month = 9 ∨ month = 11 then 30
  else 31

/-- What follows a date at the start of a text. -/
def readDate (cs : List Char) : Option (List Char) := do
  let (year, cs) ← readDigits 4 cs
  let (month, cs) ← readDigits 2 (← expect '-' cs)
  let (day, cs) ← readDigits 2 (← expect '-' cs)
  guard (1 ≤ month ∧ month ≤ 12 ∧ 1 ≤ day ∧ day ≤ daysIn year month)
  return cs

/-- What follows a time at the start of a text. -/
def readTime (cs : List Char) : Option (List Char) := do
  let (hour, cs) ← readDigits 2 cs
  let (minute, cs) ← readDigits 2 (← expect ':' cs)
  let (second, cs) ← readDigits 2 (← expect ':' cs)
  guard (hour ≤ 23 ∧ minute ≤ 59 ∧ second ≤ 60)
  match cs with
  | '.' :: rest =>
    if rest.head?.any Char.isDigit then some (rest.dropWhile Char.isDigit) else none
  | _ => some cs

/-- A distance from universal time, which may be missing. -/
def isOffset : List Char → Bool
  | [] => true
  | ['Z'] | ['z'] => true
  | c :: rest =>
    (c = '+' || c = '-') && Option.isSome do
      let (hour, rest) ← readDigits 2 rest
      let (minute, rest) ← readDigits 2 (← expect ':' rest)
      guard (hour ≤ 23 ∧ minute ≤ 59 ∧ rest = [])

/-- A time that may be followed by its distance from universal time. -/
def isOffsetTime (word : List Char) : Bool := (readTime word).any isOffset

/-- A date, a time, or both with a letter between them. -/
def isDatetime (word : List Char) : Bool :=
  readTime word = some [] ||
    match readDate word with
    | some [] => true
    | some (c :: rest) => (c = 'T' || c = 't') && isOffsetTime rest
    | none => false

/-! ## Words -/

/-- A character of a word. -/
def isWordChar (c : Char) : Bool :=
  c.isAlphanum || c = '_' || c = '+' || c = '-' || c = '.' || c = ':'

/-- The value of a word. -/
def ofWord? (word : List Char) : Option Value :=
  if word = ['t', 'r', 'u', 'e'] then some (.boolean true)
  else if word = ['f', 'a', 'l', 's', 'e'] then some (.boolean false)
  else match integer? word with
    | some n => some (.integer n)
    | none =>
      if isFloat word then some (.float (String.ofList word))
      else if isDatetime word then some (.datetime (String.ofList word))
      else none

/-- A scalar without quotes at the start of a text; a date takes a time behind one space along. -/
def readWord (cs : List Char) : Option (Value × List Char) := do
  let word := cs.takeWhile isWordChar
  let rest := cs.dropWhile isWordChar
  let v ← ofWord? word
  match rest with
  | ' ' :: after =>
    let time := after.takeWhile isWordChar
    if readDate word = some [] ∧ isOffsetTime time then
      return (.datetime (String.ofList (word ++ ' ' :: time)), after.dropWhile isWordChar)
    else return (v, rest)
  | _ => return (v, rest)

end PlayerCommands.Toml
