import DatasetSync.Text.Blank
import DatasetSync.Text.Digits

/-!
# Numbers read back

A number that was written with digits, with leading zeros or without, is read as the same number.
The reader goes from the first digit to the last and does not look for more.
-/

namespace DatasetSync.Text

variable {digits : List Char} {digit : Char} {width value : Nat}

/-- The decimal digits are the characters that have a value below ten, and the value is counted from
the character of zero. -/
theorem digitValue?_of_isDigit (decimal : digit.isDigit = true) :
    digitValue? digit = some (digit.toNat - '0'.toNat) ∧ digit.toNat - '0'.toNat < 10 := by
  have range : '0' ≤ digit ∧ digit ≤ '9' := by
    simpa [Char.isDigit, Char.le_def] using decimal
  refine ⟨by rw [digitValue?, if_pos range], ?_⟩
  have bounds : digit.toNat ≤ '9'.toNat := range.2
  change digit.toNat - 48 < 10
  have nine : '9'.toNat = 57 := rfl
  omega

/-- No decimal digit is white space. So a number behind white space is found where the white space
ends. -/
theorem not_isWhiteSpace_of_isDigit (decimal : digit.isDigit = true) :
    isWhiteSpace digit = false := by
  have range : 48 ≤ digit.toNat ∧ digit.toNat ≤ 57 := by
    simpa [Char.isDigit, Char.le_def, UInt32.le_iff_toNat_le] using decimal
  simp only [isWhiteSpace, whiteSpace, List.any_cons, List.any_nil, Bool.or_false,
    Bool.or_eq_false_iff, Bool.and_eq_false_iff, decide_eq_false_iff_not]
  omega

/-- Decimal digits are read as the number that they write. There has to be at least one digit; there
may be any number of them, with leading zeros. -/
theorem decimal?_of_isDigit (some : digits ≠ [])
    (decimal : ∀ digit ∈ digits, digit.isDigit = true) :
    decimal? digits = .some (Nat.ofDigitChars 10 digits 0) := by
  have total : ∀ start, digits.foldlM (fun total digit => do
      let value ← digitValue? digit
      if value < 10 then .some (10 * total + value) else none) start =
        .some (Nat.ofDigitChars 10 digits start) := by
    clear some
    induction digits with
    | nil => simp
    | cons digit rest ih =>
      intro start
      obtain ⟨reads, below⟩ := digitValue?_of_isDigit (decimal digit List.mem_cons_self)
      have below' : digit.toNat - 48 < 10 := below
      have others := ih fun other member => decimal other (List.mem_cons_of_mem _ member)
      rw [Nat.ofDigitChars_cons, ← others]
      simp [reads, below']
  cases digits with
  | nil => exact absurd rfl some
  | cons digit rest => exact total 0

/-- The digits of a number with leading zeros: as many zeros as the width leaves, and then the
digits of the number, of which there may be more than the width. -/
theorem toList_padded (width value : Nat) : (padded width value).toList =
    List.replicate (width - (Nat.toDigits 10 value).length) '0' ++ Nat.toDigits 10 value := by
  simp [padded]

/-- Only decimal digits are written for a number with leading zeros. -/
theorem isDigit_of_mem_padded {digit : Char} (member : digit ∈ (padded width value).toList) :
    digit.isDigit = true := by
  rw [toList_padded] at member
  rcases List.mem_append.mp member with zero | own
  · rw [(List.mem_replicate.mp zero).2]
    rfl
  · exact Nat.isDigit_of_mem_toDigits (by decide) (by decide) own

/-- At least one digit is written for every number, also for zero in no width. -/
theorem padded_ne_nil : (padded width value).toList ≠ [] := by
  rw [toList_padded]
  exact List.append_ne_nil_of_right_ne_nil _ Nat.toDigits_ne_nil

/-- A number with leading zeros is as wide as it is to be, if it is not wider itself. -/
theorem length_padded (fits : (Nat.toDigits 10 value).length ≤ width) :
    (padded width value).toList.length = width := by
  rw [toList_padded, List.length_append, List.length_replicate]
  omega

/-- A number with leading zeros reads back, in every width. The zeros count nothing, and the digits
behind them are those of the number. -/
theorem decimal?_padded : decimal? (padded width value).toList = some value := by
  rw [decimal?_of_isDigit padded_ne_nil fun _ => isDigit_of_mem_padded, toList_padded,
    Nat.ofDigitChars_append, Nat.ofDigitChars_replicate_zero, Nat.mul_zero,
    Nat.ofDigitChars_ten_toDigits]

end DatasetSync.Text
