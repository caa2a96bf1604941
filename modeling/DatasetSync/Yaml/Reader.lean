import DatasetSync.Yaml.Lexer

/-!
# Reading YAML

A text holds one document, which may start and end with marks. The tokens already say where
a block collection begins and ends, but for one: a sequence that is the value of a key may
stand in the column of the key, and such a *compact* sequence ends with its last dash.

What is not written is an empty plain scalar: the value of a key without one, the item
behind a lone dash, the whole document.
-/

namespace DatasetSync.Yaml

/-- Where a node stands. -/
inductive Context where
  /-- Between brackets, where columns do not matter. -/
  | flow
  | block
  /-- Beside the mark of a key or a value, where a compact sequence may stand. -/
  | entry
deriving DecidableEq, Repr

/-- A node that was read, and the tokens behind it. -/
abbrev Reading := Option (Yaml × List Token)

/-- A node that is not written. -/
def absent : Yaml := .plain ""

/-- Whether the next token is one of some. -/
def startsWith (expected : List Token) (tokens : List Token) : Bool :=
  tokens.head?.any expected.contains

mutual

/-- Read a node. -/
def node? : Nat → Context → List Token → Reading
  | 0, _, _ => none
  | fuel + 1, context, tokens =>
    match tokens with
    | .scalar node :: rest => some (node, rest)
    | .openBracket :: rest => flowItems? fuel [] rest
    | .openBrace :: rest => flowEntries? fuel [] rest
    | .blockSequence :: rest => if context = .flow then none else blockItems? fuel [] rest
    | .blockMapping :: rest => if context = .flow then none else blockEntries? fuel [] rest
    | .dash :: _ => if context = .entry then compactItems? fuel [] tokens else none
    | _ => none

/-- Read the node that may stand in front of some tokens. -/
def nodeUnless? : Nat → (stop : List Token) → Context → List Token → Reading
  | 0, _, _, _ => none
  | fuel + 1, stop, context, tokens =>
    if startsWith stop tokens then some (absent, tokens) else node? fuel context tokens

/-- Read the value that a mark announces, if there is the mark. -/
def value? : Nat → (stop : List Token) → Context → List Token → Reading
  | 0, _, _, _ => none
  | fuel + 1, stop, context, tokens =>
    match tokens with
    | .value :: rest => nodeUnless? fuel stop context rest
    | _ => some (absent, tokens)

/-- Read the remaining items of a flow sequence. An item may be a mapping of one entry
    without braces. -/
def flowItems? : Nat → List Yaml → List Token → Reading
  | 0, _, _ => none
  | fuel + 1, items, tokens =>
    match tokens with
    | .closeBracket :: rest => some (.sequence items, rest)
    | _ => do
      let (item, rest) ← flowItem? fuel tokens
      match rest with
      | .comma :: rest => flowItems? fuel (items ++ [item]) rest
      | .closeBracket :: rest => some (.sequence (items ++ [item]), rest)
      | _ => none

/-- Read an item of a flow sequence. Behind the mark of a key that is not written, one token
    is passed over. -/
def flowItem? : Nat → List Token → Reading
  | 0, _ => none
  | fuel + 1, tokens =>
    match tokens with
    | .key :: rest => do
      let stop : List Token := [.comma, .closeBracket]
      let (key, rest) ←
        if startsWith (.value :: stop) rest then some (absent, rest.tail)
        else node? fuel .flow rest
      let (value, rest) ← value? fuel stop .flow rest
      return (.mapping [(key, value)], rest)
    | _ => node? fuel .flow tokens

/-- Read the remaining entries of a flow mapping. An entry may be a key alone. -/
def flowEntries? : Nat → List (Yaml × Yaml) → List Token → Reading
  | 0, _, _ => none
  | fuel + 1, entries, tokens =>
    match tokens with
    | .closeBrace :: rest => some (.mapping entries, rest)
    | _ => do
      let (entry, rest) ← flowEntry? fuel tokens
      match rest with
      | .comma :: rest => flowEntries? fuel (entries ++ [entry]) rest
      | .closeBrace :: rest => some (.mapping (entries ++ [entry]), rest)
      | _ => none

/-- Read an entry of a flow mapping. -/
def flowEntry? : Nat → List Token → Option ((Yaml × Yaml) × List Token)
  | 0, _ => none
  | fuel + 1, tokens =>
    match tokens with
    | .key :: rest => do
      let stop : List Token := [.comma, .closeBrace]
      let (key, rest) ← nodeUnless? fuel (.value :: stop) .flow rest
      let (value, rest) ← value? fuel stop .flow rest
      return ((key, value), rest)
    | _ => (node? fuel .flow tokens).map fun (key, rest) => ((key, absent), rest)

/-- Read the remaining items of a block sequence. -/
def blockItems? : Nat → List Yaml → List Token → Reading
  | 0, _, _ => none
  | fuel + 1, items, tokens =>
    match tokens with
    | .dash :: rest => do
      let (item, rest) ← nodeUnless? fuel [.dash, .blockEnd] .block rest
      blockItems? fuel (items ++ [item]) rest
    | .blockEnd :: rest => some (.sequence items, rest)
    | _ => none

/-- Read the remaining items of a compact sequence. -/
def compactItems? : Nat → List Yaml → List Token → Reading
  | 0, _, _ => none
  | fuel + 1, items, tokens =>
    match tokens with
    | .dash :: rest => do
      let (item, rest) ← nodeUnless? fuel [.dash, .key, .value, .blockEnd] .block rest
      compactItems? fuel (items ++ [item]) rest
    | _ => some (.sequence items, tokens)

/-- Read the remaining entries of a block mapping. -/
def blockEntries? : Nat → List (Yaml × Yaml) → List Token → Reading
  | 0, _, _ => none
  | fuel + 1, entries, tokens =>
    match tokens with
    | .key :: rest => do
      let stop : List Token := [.key, .value, .blockEnd]
      let (key, rest) ← nodeUnless? fuel stop .entry rest
      let (value, rest) ← value? fuel stop .entry rest
      blockEntries? fuel (entries ++ [(key, value)]) rest
    | .blockEnd :: rest => some (.mapping entries, rest)
    | _ => none

end

/-- Read the node of a document. It starts with a mark or with the first token. -/
def document? (tokens : List Token) : Reading :=
  let fuel := 4 * (tokens.length + 1)
  match tokens with
  | [] => some (absent, [])
  | .documentStart :: rest =>
    if rest.isEmpty then some (absent, rest)
    else nodeUnless? fuel [.documentStart, .documentEnd] .block rest
  | _ => node? fuel .block tokens

/-- Read a text that holds one document. Nothing but end marks may follow it. -/
def ofText? (text : String) : Option Yaml := do
  let tokens ← tokens? text
  let (node, rest) ← document? tokens
  if rest.all (· == .documentEnd) then some node else none

end DatasetSync.Yaml
