import DatasetSync.Yaml.Scalar
import DatasetSync.Yaml.Token

/-!
# From a YAML text to its tokens

The column of a token decides which block collections end in front of it. That a key began
is known only from the colon behind it; until then its place is kept as a *candidate*, one
for each bracket that is open. A key that bears no mark of its own stands on one line and
takes up at most 1024 characters.

What stands outside the part of YAML that is read here (anchors, tags, block scalars,
directives) is refused like any other error.
-/

namespace DatasetSync.Yaml

/-- A place where a key may turn out to have begun. -/
structure Candidate where
  place : Place
  /-- The tokens in front of it, latest first. -/
  preceding : List Token
  /-- Whether nothing but a key can stand there. -/
  required : Bool
deriving Repr, Inhabited

/-- Whether a key that begins with a candidate can no longer end at a place. -/
def Candidate.isStale (candidate : Candidate) (place : Place) : Bool :=
  candidate.place.line < place.line || candidate.place.column + 1024 < place.column

/-- How far the tokens of a text have been read. -/
structure Lexer where
  cursor : Cursor
  /-- The tokens behind the latest candidate, latest first. -/
  tokens : List Token
  /-- The columns of the open block collections, innermost first. -/
  columns : List Nat
  candidate : Option Candidate
  /-- For each open bracket, innermost first, the candidate in front of it. -/
  outer : List (Option Candidate)
  /-- Whether a key may begin with the next token. -/
  keyAllowed : Bool
deriving Repr, Inhabited

namespace Lexer

/-- Nothing has been read. -/
def start (cursor : Cursor) : Lexer :=
  { cursor, tokens := [], columns := [], candidate := none, outer := [], keyAllowed := true }

/-- Whether a bracket is open. -/
def inFlow (lexer : Lexer) : Bool := !lexer.outer.isEmpty

/-- The column in which the innermost block collection stands, if there is one. -/
def column? (lexer : Lexer) : Option Nat := lexer.columns.head?

/-- The least column of further lines of a scalar. -/
def indent (lexer : Lexer) : Nat :=
  match lexer.column? with
  | none => 0
  | some column => column + 1

/-- One more token. -/
def push (lexer : Lexer) (token : Token) : Lexer :=
  { lexer with tokens := token :: lexer.tokens }

/-- The position behind a number of characters of the same line. -/
def skip (lexer : Lexer) (count : Nat) : Lexer :=
  let place := lexer.cursor.place
  { lexer with cursor :=
    ⟨{ place with column := place.column + count }, lexer.cursor.rest.drop count⟩ }

/-- Give up the candidate. -/
def dropCandidate? (lexer : Lexer) : Option Lexer :=
  match lexer.candidate with
  | none => some lexer
  | some candidate =>
    if candidate.required then none
    else some { lexer with tokens := lexer.tokens ++ candidate.preceding, candidate := none }

/-- Give up the candidate if its key can no longer end. -/
def dropStale? (lexer : Lexer) : Option Lexer :=
  if lexer.candidate.any (·.isStale lexer.cursor.place) then lexer.dropCandidate? else some lexer

/-- Make the next token the candidate, if a key may begin with it. In the column of a block
    collection nothing else can. -/
def offer? (lexer : Lexer) : Option Lexer :=
  if lexer.keyAllowed then do
    let place := lexer.cursor.place
    let required := !lexer.inFlow && lexer.column? = some place.column
    let lexer ← lexer.dropCandidate?
    return { lexer with tokens := [], candidate := some ⟨place, lexer.tokens, required⟩ }
  else some lexer

/-- Whether a block collection begins in a column: it stands behind the column of the one
    around it. -/
def opens (lexer : Lexer) (column : Nat) : Bool :=
  !lexer.inFlow && lexer.column?.all (· < column)

/-- Begin a block collection with the next token, unless that belongs to one already. -/
def openBlock (lexer : Lexer) (token : Token) : Lexer :=
  let column := lexer.cursor.place.column
  if lexer.opens column then
    { lexer.push token with columns := column :: lexer.columns }
  else lexer

/-- End block collections until a number of them are open. -/
def closeUntil (lexer : Lexer) (columns : List Nat) : Lexer :=
  let ended := lexer.columns.length - columns.length
  { lexer with tokens := List.replicate ended .blockEnd ++ lexer.tokens, columns }

/-- End the block collections that stand behind the column of the next token. -/
def closeBlocks (lexer : Lexer) : Lexer :=
  if lexer.inFlow then lexer
  else lexer.closeUntil (lexer.columns.dropWhile (lexer.cursor.place.column < ·))

/-- End all block collections. -/
def closeAll (lexer : Lexer) : Lexer :=
  if lexer.inFlow then lexer else lexer.closeUntil []

/-- Mark the candidate as a key. Its column may begin a block mapping. -/
def acceptKey (lexer : Lexer) (candidate : Candidate) : Lexer :=
  let column := candidate.place.column
  let opens := lexer.opens column
  let preceding := if opens then .blockMapping :: candidate.preceding else candidate.preceding
  { lexer with
    tokens := lexer.tokens ++ .key :: preceding
    columns := if opens then column :: lexer.columns else lexer.columns
    candidate := none }

/-- Go over the gap in front of the next token. -/
def toToken? (lexer : Lexer) : Option Lexer := do
  let gap := lexer.cursor.gap lexer.inFlow lexer.keyAllowed
  let lexer ← { lexer with cursor := gap.cursor, keyAllowed := gap.keyAllowed }.dropStale?
  return lexer.closeBlocks

/-- A mark between documents. -/
def marker? (lexer : Lexer) (token : Token) : Option Lexer := do
  let lexer ← lexer.closeAll.dropCandidate?
  return { (lexer.push token).skip 3 with keyAllowed := false }

/-- An opening bracket or brace. -/
def opening? (lexer : Lexer) (token : Token) : Option Lexer := do
  let lexer ← lexer.offer?
  return { (lexer.push token).skip 1 with
    candidate := none, outer := lexer.candidate :: lexer.outer, keyAllowed := true }

/-- A closing bracket or brace. -/
def closing? (lexer : Lexer) (token : Token) : Option Lexer := do
  let lexer ← lexer.dropCandidate?
  return { (lexer.push token).skip 1 with
    candidate := lexer.outer.head?.join, outer := lexer.outer.tail, keyAllowed := false }

/-- A comma. -/
def comma? (lexer : Lexer) : Option Lexer := do
  let lexer ← lexer.dropCandidate?
  return { (lexer.push .comma).skip 1 with keyAllowed := true }

/-- A dash. Outside flow context it marks an item and stands where a key could begin. -/
def dash? (lexer : Lexer) : Option Lexer := do
  if !lexer.inFlow && !lexer.keyAllowed then none
  let lexer ← (lexer.openBlock .blockSequence).dropCandidate?
  return { (lexer.push .dash).skip 1 with keyAllowed := true }

/-- A question mark: the explicit mark of a key. -/
def key? (lexer : Lexer) : Option Lexer := do
  if !lexer.inFlow && !lexer.keyAllowed then none
  let lexer ← (lexer.openBlock .blockMapping).dropCandidate?
  return { (lexer.push .key).skip 1 with keyAllowed := !lexer.inFlow }

/-- A colon. The candidate in front of it is a key; no key begins behind it on its line. -/
def value? (lexer : Lexer) : Option Lexer :=
  match lexer.candidate with
  | some candidate =>
    some { ((lexer.acceptKey candidate).push .value).skip 1 with keyAllowed := false }
  | none =>
    if !lexer.inFlow && !lexer.keyAllowed then none
    else
      let opened := lexer.openBlock .blockMapping
      some { (opened.push .value).skip 1 with keyAllowed := !lexer.inFlow }

/-- A scalar. -/
def scalar? (lexer : Lexer) (read : Option Scalar) (node : String → Yaml) : Option Lexer := do
  let scalar ← read
  let lexer ← lexer.offer?
  return { lexer.push (.scalar (node scalar.text)) with
    cursor := scalar.cursor, keyAllowed := scalar.keyAllowed }

/-- The token that starts with a character. -/
def token? (lexer : Lexer) (character : Char) (rest : List Char) : Option Lexer :=
  let place := lexer.cursor.place
  if place.column = 0 && character = '%' then none
  else if atMarker place (character :: rest) then
    lexer.marker? (if character = '-' then .documentStart else .documentEnd)
  else if character = '[' then lexer.opening? .openBracket
  else if character = '\x7b' then lexer.opening? .openBrace
  else if character = ']' then lexer.closing? .closeBracket
  else if character = '\x7d' then lexer.closing? .closeBrace
  else if character = ',' then lexer.comma?
  else if character = '-' && atBlank rest then lexer.dash?
  else if character = '?' && (lexer.inFlow || atBlank rest) then lexer.key?
  else if character = ':' && (lexer.inFlow || atBlank rest) then lexer.value?
  else if character = '\x27' then
    lexer.scalar? (singleFrom? [] .empty (place.past character) rest) .quoted
  else if character = '"' then
    lexer.scalar? (doubleFrom? [] .empty 0 (place.past character) rest) .quoted
  else if startsPlain lexer.inFlow character rest then
    lexer.scalar? (plainFrom? lexer.inFlow lexer.indent [] .empty place (character :: rest)) .plain
  else none

/-- The end of the text, where no bracket may be open. -/
def finish? (lexer : Lexer) : Option (List Token) :=
  if lexer.inFlow then none else lexer.closeAll.dropCandidate?.map (·.tokens.reverse)

/-- Read the remaining tokens. -/
def run? : Nat → Lexer → Option (List Token)
  | 0, _ => none
  | fuel + 1, lexer => do
    let lexer ← lexer.toToken?
    match lexer.cursor.rest with
    | [] => lexer.finish?
    | character :: rest => run? fuel (← lexer.token? character rest)

end Lexer

/-- The tokens of a text. Each takes up at least one character. -/
def tokens? (text : String) : Option (List Token) := do
  let cursor ← Cursor.ofText? text
  (Lexer.start cursor).run? (cursor.rest.length + 1)

end DatasetSync.Yaml
