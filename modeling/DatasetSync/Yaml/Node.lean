import DatasetSync.Text.Digits

/-!
# YAML nodes

The part of YAML that a configuration file uses: mappings, sequences and scalars. A scalar
remembers whether it was quoted, for only a plain one can be a number, a truth value or
null.
-/

namespace DatasetSync

/-- A YAML node. -/
inductive Yaml where
  /-- A scalar without quotes; an absent value is an empty one. -/
  | plain (text : String)
  | quoted (text : String)
  | sequence (items : List Yaml)
  | mapping (entries : List (Yaml × Yaml))
deriving Repr, BEq, Inhabited

namespace Yaml

/-- The text of a scalar, quoted or not. -/
def text? : Yaml → Option String
  | plain text => some text
  | quoted text => some text
  | _ => none

/-- Whether a scalar stands for no value. -/
def isNull : Yaml → Bool
  | plain text => text.isEmpty || ["~", "null", "Null", "NULL"].contains text
  | _ => false

/-- The truth value of a plain scalar. -/
def bool? : Yaml → Option Bool
  | plain text =>
    if ["true", "True", "TRUE"].contains text then some true
    else if ["false", "False", "FALSE"].contains text then some false
    else none
  | _ => none

/-- The natural number that a text writes: decimal without leading zeros, or in base 16, 8
    or 2 with a mark in front; a plus sign may precede either. -/
def numberOf? (text : List Char) : Option Nat :=
  let unsigned :=
    match text with
    | '+' :: rest => rest
    | rest => rest
  let marked :=
    match unsigned with
    | '0' :: 'x' :: digits => Text.numberIn? 16 digits
    | '0' :: 'o' :: digits => Text.numberIn? 8 digits
    | '0' :: 'b' :: digits => Text.numberIn? 2 digits
    | _ => none
  match marked with
  | some value => some value
  | none =>
    match unsigned with
    | '0' :: _ :: _ => none
    | digits => Text.decimal? digits

/-- The natural number that a plain scalar writes, up to a bound, included. -/
def natural? (greatest : Nat) : Yaml → Option Nat
  | plain text => (numberOf? text.toList).filter (· ≤ greatest)
  | _ => none

end Yaml

end DatasetSync
