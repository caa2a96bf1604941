/-!
# Numbers written with digits

Numbers are read in bases up to sixteen, letters of either case counting as digits from ten
on. They are written with capital letters.
-/

namespace DatasetSync.Text

/-- The value of a digit in bases up to sixteen. -/
def digitValue? (digit : Char) : Option Nat :=
  if '0' ≤ digit ∧ digit ≤ '9' then some (digit.toNat - '0'.toNat)
  else if 'a' ≤ digit ∧ digit ≤ 'f' then some (digit.toNat - 'a'.toNat + 10)
  else if 'A' ≤ digit ∧ digit ≤ 'F' then some (digit.toNat - 'A'.toNat + 10)
  else none

/-- The number that digits write in a base; there has to be at least one digit. -/
def numberIn? (base : Nat) : List Char → Option Nat
  | [] => none
  | digits =>
    digits.foldlM (fun total digit => do
      let value ← digitValue? digit
      if value < base then some (base * total + value) else none) 0

/-- The number that decimal digits write. -/
def decimal? (digits : List Char) : Option Nat := numberIn? 10 digits

/-- The digit of a number below sixteen. -/
def hexDigit (value : Nat) : Char :=
  if value < 10 then Char.ofNat (0x30 + value) else Char.ofNat (0x41 + (value - 10))

/-- A number in decimal digits, with leading zeros up to a width. -/
def padded (width value : Nat) : String :=
  let digits := (toString value).toList
  String.ofList (List.replicate (width - digits.length) '0' ++ digits)

end DatasetSync.Text
