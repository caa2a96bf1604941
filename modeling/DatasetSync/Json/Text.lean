import DatasetSync.Json.MergePatch
import DatasetSync.Text.Digits

/-!
# JSON texts

A text (RFC 8259) is read into a value and a value is written as a text without blanks. An
integer is a number that is written with digits alone; `-0` is none, for no integer is
written so. Of two members of one name the later counts, in the place of the earlier.
-/

namespace DatasetSync.Json

/-- The number that four hexadecimal digits write, and what follows them. -/
def unit? : List Char → Option (Nat × List Char)
  | a :: b :: c :: d :: rest => (Text.numberIn? 16 [a, b, c, d]).map (·, rest)
  | _ => none

/-- The character that an escape of four digits writes. A character outside the first plane
    is written as two escapes, the second of which follows at once. -/
def escapedChar? (text : List Char) : Option (Char × List Char) := do
  let (first, rest) ← unit? text
  if first < 0xD800 || 0xE000 ≤ first then return (Char.ofNat first, rest)
  else if 0xDC00 ≤ first then none
  else
    match rest with
    | '\\' :: 'u' :: rest => do
      let (second, rest) ← unit? rest
      if 0xDC00 ≤ second && second < 0xE000 then
        return (Char.ofNat (0x10000 + (first - 0xD800) * 0x400 + (second - 0xDC00)), rest)
      else none
    | _ => none

/-- The character that a backslash and a letter write. -/
def shortEscape? : Char → Option Char
  | '"' => some '"'
  | '\\' => some '\\'
  | '/' => some '/'
  | 'b' => some '\x08'
  | 'f' => some '\x0c'
  | 'n' => some '\n'
  | 'r' => some '\x0d'
  | 't' => some '\t'
  | _ => none

/-- The characters of a string behind its opening quote, and what follows the closing one. -/
def stringRest? : Nat → List Char → Option (List Char × List Char)
  | 0, _ => none
  | fuel + 1, text =>
    match text with
    | [] => none
    | '"' :: rest => some ([], rest)
    | '\\' :: 'u' :: rest => do
      let (character, rest) ← escapedChar? rest
      let (later, rest) ← stringRest? fuel rest
      return (character :: later, rest)
    | '\\' :: letter :: rest => do
      let character ← shortEscape? letter
      let (later, rest) ← stringRest? fuel rest
      return (character :: later, rest)
    | character :: rest =>
      if character.toNat < 0x20 then none
      else do
        let (later, rest) ← stringRest? fuel rest
        return (character :: later, rest)

/-- A string behind its opening quote. -/
def quoted? (text : List Char) : Option (String × List Char) :=
  (stringRest? (text.length + 1) text).map fun (characters, rest) =>
    (String.ofList characters, rest)

/-- Whether a character can be part of a number. -/
def isNumberPart (character : Char) : Bool :=
  character.isDigit || ['-', '+', '.', 'e', 'E'].contains character

/-- The digits behind a point, if there is one, and what follows them. -/
def fraction? : List Char → Option (List Char × List Char)
  | '.' :: rest =>
    let digits := rest.takeWhile Char.isDigit
    if digits.isEmpty then none else some (digits, rest.dropWhile Char.isDigit)
  | rest => some ([], rest)

/-- The exponent that characters write, all of them; zero if there are none. -/
def exponent? : List Char → Option Int
  | [] => some 0
  | mark :: rest =>
    if mark = 'e' || mark = 'E' then
      match rest with
      | '+' :: digits => (Text.decimal? digits).map Int.ofNat
      | '-' :: digits => (Text.decimal? digits).map fun value => -Int.ofNat value
      | digits => (Text.decimal? digits).map Int.ofNat
    else none

/-- The number that characters write. The part in front of the point has no leading
    zeros. -/
def number? (written : List Char) : Option Json := do
  let (negative, unsigned) :=
    match written with
    | '-' :: rest => (true, rest)
    | rest => (false, rest)
  let signed (value : Nat) : Int := if negative then -Int.ofNat value else Int.ofNat value
  let whole := unsigned.takeWhile Char.isDigit
  let behind := unsigned.dropWhile Char.isDigit
  let value ← Text.decimal? whole
  if 1 < whole.length && whole.head? = some '0' then none
  else if behind.isEmpty then
    if negative && value = 0 then return .decimal 0 0 else return .integer (signed value)
  else
    let (fraction, rest) ← fraction? behind
    let exponent ← exponent? rest
    let digits ← Text.decimal? (whole ++ fraction)
    return .decimal (signed digits) (exponent - fraction.length)

/-- What follows blanks. -/
def dropBlanks (text : List Char) : List Char :=
  text.dropWhile fun character => [' ', '\t', '\n', '\x0d'].contains character

mutual

/-- Read a value and tell what follows it. -/
def value? : Nat → List Char → Option (Json × List Char)
  | 0, _ => none
  | fuel + 1, text =>
    match dropBlanks text with
    | 'n' :: 'u' :: 'l' :: 'l' :: rest => some (.null, rest)
    | 't' :: 'r' :: 'u' :: 'e' :: rest => some (.bool true, rest)
    | 'f' :: 'a' :: 'l' :: 's' :: 'e' :: rest => some (.bool false, rest)
    | '"' :: rest => (quoted? rest).map fun (value, rest) => (.string value, rest)
    | '[' :: rest =>
      match dropBlanks rest with
      | ']' :: rest => some (.array [], rest)
      | rest => elements? fuel [] rest
    | '\x7b' :: rest =>
      match dropBlanks rest with
      | '\x7d' :: rest => some (.object [], rest)
      | rest => entries? fuel [] rest
    | rest => do
      let number ← number? (rest.takeWhile isNumberPart)
      return (number, rest.dropWhile isNumberPart)

/-- Read the elements of an array up to its closing bracket; those so far stand in reverse. -/
def elements? : Nat → List Json → List Char → Option (Json × List Char)
  | 0, _, _ => none
  | fuel + 1, elements, text => do
    let (element, rest) ← value? fuel text
    match dropBlanks rest with
    | ',' :: rest => elements? fuel (element :: elements) rest
    | ']' :: rest => return (.array (element :: elements).reverse, rest)
    | _ => none

/-- Read the members of an object up to its closing brace. -/
def entries? : Nat → Members → List Char → Option (Json × List Char)
  | 0, _, _ => none
  | fuel + 1, members, text =>
    match dropBlanks text with
    | '"' :: rest => do
      let (name, rest) ← quoted? rest
      match dropBlanks rest with
      | ':' :: rest => do
        let (value, rest) ← value? fuel rest
        let members := Members.set members name value
        match dropBlanks rest with
        | ',' :: rest => entries? fuel members rest
        | '\x7d' :: rest => return (.object members, rest)
        | _ => none
      | _ => none
    | _ => none

end

/-- Read a text that holds one value and nothing else. -/
def parse? (text : String) : Option Json := do
  let characters := text.toList
  let (value, rest) ← value? (2 * characters.length + 2) characters
  if (dropBlanks rest).isEmpty then some value else none

/-- A character of a string: quotes, backslashes and control characters are escaped. -/
def escape (character : Char) : List Char :=
  if character = '"' then ['\\', '"']
  else if character = '\\' then ['\\', '\\']
  else if character.toNat < 0x20 then
    ['\\', 'u', '0', '0', Text.hexDigit (character.toNat / 16),
      Text.hexDigit (character.toNat % 16)]
  else [character]

/-- A string in quotes. -/
def quote (text : String) : String := String.ofList ('"' :: (text.toList.flatMap escape ++ ['"']))

mutual

/-- The text of a value. -/
def render : Json → String
  | null => "null"
  | bool value => if value then "true" else "false"
  | integer value => toString value
  | decimal digits exponent => toString digits ++ "e" ++ toString exponent
  | string value => quote value
  | array elements => "[" ++ ",".intercalate (renderElements elements) ++ "]"
  | object members => "\x7b" ++ ",".intercalate (renderMembers members) ++ "\x7d"

/-- The texts of the elements of an array. -/
def renderElements : List Json → List String
  | [] => []
  | element :: elements => render element :: renderElements elements

/-- The texts of the members of an object. -/
def renderMembers : List (String × Json) → List String
  | [] => []
  | (name, value) :: members => (quote name ++ ":" ++ render value) :: renderMembers members

end

end DatasetSync.Json
