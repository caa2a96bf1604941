/-!
# Positions in a YAML text

Indentation is part of the grammar, so a position knows its line and its column. A *gap* is
what may stand between two tokens: spaces, comments and line ends. A tab may stand in a gap
as well, but not where it could be taken for an indentation, in front of a key.
-/

namespace DatasetSync.Yaml

/-- Whether a character is a blank within a line. -/
def isBlank (character : Char) : Bool := character = ' ' || character = '\t'

/-- Whether a character ends a line. -/
def isLineEnd (character : Char) : Bool :=
  character = '\n' || character = '\u2028' || character = '\u2029'

/-- A line and a column, both counted from zero. -/
structure Place where
  line : Nat
  column : Nat
deriving DecidableEq, Repr, Inhabited

namespace Place

/-- The place behind a character: on the same line, or at the beginning of the next. -/
def past (place : Place) (character : Char) : Place :=
  if isLineEnd character then ⟨place.line + 1, 0⟩
  else { place with column := place.column + 1 }

end Place

/-- A position: its place, and the characters that follow it. -/
structure Cursor where
  place : Place
  rest : List Char
deriving DecidableEq, Repr, Inhabited

/-- Whether a token ends in front of these characters: at a blank, at the end of a line or
    at the end of the text. -/
def atBlank : List Char → Bool
  | [] => true
  | character :: _ => isBlank character || isLineEnd character

/-- Whether a mark between documents stands here, which is at the beginning of a line. -/
def atMarker (place : Place) (rest : List Char) : Bool :=
  place.column = 0 &&
    match rest with
    | '-' :: '-' :: '-' :: rest => atBlank rest
    | '.' :: '.' :: '.' :: rest => atBlank rest
    | _ => false

/-- The end of a gap, and whether a key may begin there. -/
structure Gap where
  cursor : Cursor
  keyAllowed : Bool

/-- Go over a gap, from within a comment or not. A comment ends with its line; outside flow
    context a key may begin on every new line. -/
def gapFrom (flow : Bool) : (comment keyAllowed : Bool) → Place → List Char → Gap
  | _, keyAllowed, place, [] => ⟨⟨place, []⟩, keyAllowed⟩
  | comment, keyAllowed, place, character :: rest =>
    let further := place.past character
    if isLineEnd character then gapFrom flow false (keyAllowed || !flow) further rest
    else if comment || character = '#' then gapFrom flow true keyAllowed further rest
    else if character = ' ' || (character = '\t' && (flow || !keyAllowed)) then
      gapFrom flow false keyAllowed further rest
    else ⟨⟨place, character :: rest⟩, keyAllowed⟩

/-- Go over the gap in front of a token. -/
def Cursor.gap (cursor : Cursor) (flow keyAllowed : Bool) : Gap :=
  gapFrom flow false keyAllowed cursor.place cursor.rest

/-- Whether a character may stand in a text. -/
def isPrintable (character : Char) : Bool :=
  let code := character.toNat
  code = 0x09 || code = 0x0A || code = 0x0D || (0x20 ≤ code && code ≤ 0x7E) || code = 0x85
    || (0xA0 ≤ code && code ≤ 0xD7FF) || (0xE000 ≤ code && code ≤ 0xFFFD) || 0x10000 ≤ code

/-- Write the common ends of lines as line feeds. The separators of lines and paragraphs
    stay, for a scalar keeps them. -/
def unifyLines : List Char → List Char
  | [] => []
  | '\r' :: '\n' :: rest => '\n' :: unifyLines rest
  | '\r' :: rest => '\n' :: unifyLines rest
  | '\u0085' :: rest => '\n' :: unifyLines rest
  | character :: rest => character :: unifyLines rest

/-- The beginning of a text; nothing if the text holds a character that may not stand in it.
    A byte order mark takes up a column. -/
def Cursor.ofText? (text : String) : Option Cursor :=
  if text.toList.all isPrintable then
    match unifyLines text.toList with
    | '\ufeff' :: rest => some ⟨⟨0, 1⟩, rest⟩
    | rest => some ⟨⟨0, 0⟩, rest⟩
  else none

end DatasetSync.Yaml
