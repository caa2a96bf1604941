import DatasetSync.Text.Digits
import DatasetSync.Yaml.Cursor

/-!
# YAML scalars

A scalar may go over several lines. Blanks around the end of a line are dropped; the end of
one line becomes a space, and each empty line after it a line feed. A plain scalar ends in
front of white space unless more of it follows; in quotes all white space counts.
-/

namespace DatasetSync.Yaml

/-- White space inside a scalar. -/
structure Space where
  /-- The blanks in front of the first end of a line, latest first. -/
  blanks : List Char
  /-- Whether the white space goes over the end of a line. -/
  newLine : Bool
  /-- Whether the end of a line becomes a space where nothing is kept. -/
  folds : Bool
  /-- The ends of lines that are kept, latest first. -/
  kept : List Char
deriving DecidableEq, Repr, Inhabited

namespace Space

/-- No white space. -/
def empty : Space := ⟨[], false, false, []⟩

/-- What an escaped end of a line leaves: blanks that follow on the next line are dropped. -/
def escaped : Space := ⟨[], true, false, []⟩

/-- Whether there is any white space. -/
def isSome (space : Space) : Bool := space.newLine || !space.blanks.isEmpty

/-- One more blank. -/
def blank (space : Space) (character : Char) : Space :=
  if space.newLine then space else { space with blanks := character :: space.blanks }

/-- One more end of a line. Only a line feed becomes a space. -/
def lineEnd (space : Space) (character : Char) : Space :=
  if space.newLine then { space with kept := character :: space.kept }
  else if character = '\n' then ⟨[], true, true, []⟩
  else ⟨[], true, false, [character]⟩

/-- What the white space becomes between two parts of a scalar, latest first. -/
def text (space : Space) : List Char :=
  if !space.newLine then space.blanks
  else if space.folds && space.kept.isEmpty then [' ']
  else space.kept

end Space

/-- A scalar that was read. -/
structure Scalar where
  text : String
  /-- Whether a line ended behind the scalar, so that a key may follow. -/
  keyAllowed : Bool
  /-- The position behind the scalar. -/
  cursor : Cursor
deriving DecidableEq, Repr, Inhabited

/-- Whether a character separates the items of a flow collection. -/
def isFlowIndicator (character : Char) : Bool :=
  [',', '[', ']', '\x7b', '\x7d'].contains character

/-- Whether a character has a meaning of its own and starts no plain scalar. -/
def isIndicator (character : Char) : Bool :=
  isFlowIndicator character
    || ['#', '&', '*', '!', '|', '>', '\x27', '"', '%', '@', '\x60'].contains character

/-- Whether a plain scalar can start with a character. -/
def startsPlain (flow : Bool) (character : Char) (rest : List Char) : Bool :=
  if character = '-' then !atBlank rest
  else if character = '?' || character = ':' then !flow && !atBlank rest
  else !atBlank [character] && !isIndicator character

/-- Whether a plain scalar ends in front of a character that no white space precedes: a colon
    in front of a blank, and in flow context a separator. -/
def endsPlain (flow : Bool) (character : Char) (rest : List Char) : Bool :=
  (character = ':' && atBlank rest) || (flow && isFlowIndicator character)

/-- Whether a character behind white space belongs to no plain scalar: it starts a comment
    or is a mark between documents, or it is not indented far enough. -/
def outsidePlain (flow : Bool) (indent : Nat) (place : Place) (rest : List Char) : Bool :=
  (!flow && place.column < indent) || atMarker place rest || rest.head? = some '#'

/-- In flow context a colon that touches a separator is neither part nor end of a plain
    scalar. -/
def misplacedColon (flow : Bool) (character : Char) (rest : List Char) : Bool :=
  flow && character = ':' && rest.head?.any fun next => isFlowIndicator next || next = '?'

/-- Read a plain scalar whose lines are indented by at least a number of columns. What was
    read so far is given in reverse, with the white space behind it. The white space behind
    the scalar is read over; no tab in it may stand in for an indentation. -/
def plainFrom? (flow : Bool) (indent : Nat) :
    (text : List Char) → Space → Place → List Char → Option Scalar
  | text, space, place, [] => some ⟨String.ofList text.reverse, space.newLine, ⟨place, []⟩⟩
  | text, space, place, character :: rest =>
    let further := place.past character
    if isBlank character then
      if character = '\t' && space.newLine && place.column < indent then none
      else plainFrom? flow indent text (space.blank character) further rest
    else if isLineEnd character then
      plainFrom? flow indent text (space.lineEnd character) further rest
    else if (space.isSome && outsidePlain flow indent place (character :: rest))
        || endsPlain flow character rest then
      some ⟨String.ofList text.reverse, space.newLine, ⟨place, character :: rest⟩⟩
    else if misplacedColon flow character rest then none
    else plainFrom? flow indent (character :: (space.text ++ text)) .empty further rest

/-- Read the rest of a scalar in single quotes, where a quote is written twice. -/
def singleFrom? : (text : List Char) → Space → Place → List Char → Option Scalar
  | _, _, _, [] => none
  | text, space, place, '\x27' :: '\x27' :: rest =>
    let further := (place.past '\x27').past '\x27'
    singleFrom? ('\x27' :: (space.text ++ text)) .empty further rest
  | text, space, place, character :: rest =>
    let further := place.past character
    if isBlank character then singleFrom? text (space.blank character) further rest
    else if isLineEnd character then singleFrom? text (space.lineEnd character) further rest
    else if atMarker place (character :: rest) then none
    else if character = '\x27' then
      some ⟨String.ofList (space.text ++ text).reverse, false, ⟨further, rest⟩⟩
    else singleFrom? (character :: (space.text ++ text)) .empty further rest

/-- The character that a letter stands for behind a backslash. -/
def escaped? : Char → Option Char
  | '0' => some '\x00'
  | 'a' => some '\x07'
  | 'b' => some '\x08'
  | 't' => some '\t'
  | '\t' => some '\t'
  | 'n' => some '\n'
  | 'v' => some '\x0b'
  | 'f' => some '\x0c'
  | 'r' => some '\r'
  | 'e' => some '\x1b'
  | ' ' => some ' '
  | '"' => some '"'
  | '/' => some '/'
  | '\\' => some '\\'
  | 'N' => some '\u0085'
  | '_' => some '\u00a0'
  | 'L' => some '\u2028'
  | 'P' => some '\u2029'
  | _ => none

/-- How many hexadecimal digits follow a letter behind a backslash. -/
def codeWidth? : Char → Option Nat
  | 'x' => some 2
  | 'u' => some 4
  | 'U' => some 8
  | _ => none

/-- The character with a code point that is written in hexadecimal digits. -/
def ofCode? (digits : List Char) : Option Char := do
  let code ← Text.numberIn? 16 digits
  if code.isValidChar then some (Char.ofNat code) else none

/-- The character that is written behind a backslash, and how many characters write it. -/
def escape? : List Char → Option (Char × Nat)
  | [] => none
  | letter :: rest =>
    match codeWidth? letter with
    | none => (escaped? letter).map (·, 1)
    | some width =>
      if rest.length < width then none else (ofCode? (rest.take width)).map (·, width + 1)

/-- Read the rest of a scalar in double quotes, where a backslash starts an escape and an
    end of a line behind it is left out. A number of characters belong to an escape that was
    read already. -/
def doubleFrom? : (text : List Char) → Space → (escaped : Nat) → Place → List Char →
    Option Scalar
  | _, _, _, _, [] => none
  | text, space, escaped + 1, place, character :: rest =>
    doubleFrom? text space escaped (place.past character) rest
  | text, space, 0, place, character :: rest =>
    let further := place.past character
    if isBlank character then doubleFrom? text (space.blank character) 0 further rest
    else if isLineEnd character then
      doubleFrom? text (space.lineEnd character) 0 further rest
    else if atMarker place (character :: rest) then none
    else if character = '"' then
      some ⟨String.ofList (space.text ++ text).reverse, false, ⟨further, rest⟩⟩
    else if character ≠ '\\' then
      doubleFrom? (character :: (space.text ++ text)) .empty 0 further rest
    else if rest.head?.any isLineEnd then
      doubleFrom? (space.text ++ text) .escaped 1 further rest
    else
      match escape? rest with
      | none => none
      | some (meant, width) =>
        doubleFrom? (meant :: (space.text ++ text)) .empty width further rest

end DatasetSync.Yaml
