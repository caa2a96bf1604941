import DatasetSync.Proofs.Text.Digits
import DatasetSync.Text.Timestamp

/-!
# Times in their one form

A text that claims to be a point in time is read leniently and written in one way. That one way is
itself a text of the kind, and it reads as itself: whatever was read is read again without change.

A reading that is moved to another zone stays on the calendar, with one exception that the reader
asks about: a day at the end of the calendar may have no successor on it.
-/

namespace DatasetSync.Timestamp

open Text

variable {civil : Civil} {digits rest : List Char} {mark : Char} {most value : Nat}
  {year ahead : Int}

/-! ### Parts of a text -/

/-- A text that starts with a digit has no white space to leave out. What follows the digits does
not matter. -/
theorem dropSpace_of_isDigit (some : digits ≠ [])
    (decimal : ∀ digit ∈ digits, digit.isDigit = true) :
    dropSpace (digits ++ rest) = digits ++ rest := by
  cases digits with
  | nil => exact absurd rfl some
  | cons digit others =>
    have visible := not_isWhiteSpace_of_isDigit (decimal digit List.mem_cons_self)
    simp [dropSpace, visible]

/-- As many digits are read as are asked for, or as there are. The reading stops at the bound, or at
the first character behind the digits that is none. -/
theorem digits?_append (read : decimal? digits = some value)
    (decimal : ∀ digit ∈ digits, digit.isDigit = true) (fits : digits.length ≤ most)
    (stops : (rest.take (most - digits.length)).takeWhile Char.isDigit = []) :
    digits? most (digits ++ rest) = some (value, rest) := by
  have own : ((digits ++ rest).take most).takeWhile Char.isDigit = digits := by
    rw [List.take_append, List.take_of_length_le fits, List.takeWhile_append_of_pos decimal, stops,
      List.append_nil]
  rw [digits?, own, read]
  simp

/-- A part of a time that was written with two digits reads back, with anything behind it. A greater
number would be written with more digits than are read. -/
theorem pair?_padded (small : value < 100) :
    pair? ((padded 2 value).toList ++ rest) = some (value, rest) := by
  have width : (padded 2 value).toList.length = 2 :=
    length_padded ((Nat.length_toDigits_le_iff (by decide) (by decide)).mpr small)
  rw [pair?, dropSpace_of_isDigit padded_ne_nil fun _ => isDigit_of_mem_padded]
  exact digits?_append decimal?_padded (fun _ => isDigit_of_mem_padded) (Nat.le_of_eq width)
    (by simp [width])

/-- A mark that stands right there is found, if it is visible: white space in front of a mark is
left out. -/
theorem behind?_cons (visible : isWhiteSpace mark = false) :
    behind? mark (mark :: rest) = some rest := by
  simp [behind?, dropSpace, visible]

/-- A year behind a sign reads back, whatever its length: as many digits are read as there are, and
a hyphen ends them. -/
theorem digits?_signed (number : Nat) :
    digits? ((padded 4 number).toList ++ '-' :: rest).length
      ((padded 4 number).toList ++ '-' :: rest) = some (number, '-' :: rest) :=
  digits?_append decimal?_padded (fun _ => isDigit_of_mem_padded) (by simp) (by simp)

/-- A year without a sign begins with a digit, and then at most four digits are read of it. -/
theorem year?_of_isDigit (some : digits ≠ [])
    (decimal : ∀ digit ∈ digits, digit.isDigit = true) :
    year? (digits ++ rest) = (digits? 4 (digits ++ rest)).map fun (year, rest) => (↑year, rest) := by
  rw [year?, dropSpace_of_isDigit some decimal]
  cases digits with
  | nil => exact absurd rfl some
  | cons digit others =>
    have numeral := decimal digit List.mem_cons_self
    rw [List.cons_append]
    split
    · rename_i same
      cases same
      cases numeral
    · rename_i same
      cases same
      cases numeral
    · rfl

/-- Behind a hyphen the digits of a year before the year zero are read, as many as there are. -/
theorem year?_hyphen (text : List Char) : year? ('-' :: text) =
    (digits? text.length text).map fun (year, rest) => (-(year : Int), rest) := by
  have visible : dropSpace ('-' :: text) = '-' :: text := rfl
  rw [year?, visible]
  rfl

/-- Behind a plus sign the digits of a year are read, as many as there are: years of more than four
digits are written so. -/
theorem year?_plus (text : List Char) : year? ('+' :: text) =
    (digits? text.length text).map fun (year, rest) => (↑year, rest) := by
  have visible : dropSpace ('+' :: text) = '+' :: text := rfl
  rw [year?, visible]
  rfl

/-- A year that was written reads back. It is written without a sign exactly if it has at most four
digits and is not negative; otherwise the sign tells the reader to take all digits. -/
theorem year?_writtenYear :
    year? ((writtenYear year).toList ++ '-' :: rest) = some (year, '-' :: rest) := by
  by_cases negative : year < 0
  · have written : (writtenYear year).toList = '-' :: (padded 4 year.natAbs).toList := by
      simp [writtenYear, negative]
    have same : -(year.natAbs : Int) = year := by omega
    rw [written, List.cons_append, year?_hyphen, digits?_signed]
    simp only [Option.map_some, same]
  · have same : (year.natAbs : Int) = year := by omega
    by_cases long : 9999 < year
    · have written : (writtenYear year).toList = '+' :: (padded 4 year.natAbs).toList := by
        simp [writtenYear, negative, long]
      rw [written, List.cons_append, year?_plus, digits?_signed]
      simp only [Option.map_some, same]
    · have written : writtenYear year = padded 4 year.natAbs := by
        simp [writtenYear, negative, long]
      have small : year.natAbs < 10000 := by omega
      have width : (padded 4 year.natAbs).toList.length = 4 :=
        length_padded ((Nat.length_toDigits_le_iff (by decide) (by decide)).mpr small)
      rw [written, year?_of_isDigit padded_ne_nil fun _ => isDigit_of_mem_padded,
        digits?_append decimal?_padded (fun _ => isDigit_of_mem_padded) (Nat.le_of_eq width)
          (by simp [width])]
      simp only [Option.map_some, same]

/-! ### Readings of the calendar -/

/-- Every part of a reading lies in its range. The day is bounded by the month of that year, and a
leap second is allowed. -/
theorem valid_iff : civil.valid = true ↔ inCalendar civil.year = true ∧
    (1 ≤ civil.month ∧ civil.month ≤ 12) ∧
    (1 ≤ civil.day ∧ civil.day ≤ daysIn civil.year civil.month) ∧
    civil.hour ≤ 23 ∧ civil.minute ≤ 59 ∧ civil.second ≤ 60 := by
  simp [Civil.valid, and_assoc]

/-- A month has 28 to 31 days. So a step by one day crosses at most one end of a month. -/
theorem daysIn_bounds (year : Int) (month : Nat) :
    28 ≤ daysIn year month ∧ daysIn year month ≤ 31 := by
  unfold daysIn
  split
  · split <;> decide
  · split <;> decide

/-- A reading in UTC is not moved: an offset of no minutes changes neither the time of day nor the
date. -/
theorem toUtc_zero (valid : civil.valid = true) : civil.toUtc 0 = civil := by
  obtain ⟨-, -, -, hour, minute, -⟩ := valid_iff.mp valid
  have early : ((civil.hour * 60 + civil.minute : Nat) : Int) < 1440 := by omega
  have kept : (((civil.hour * 60 + civil.minute : Nat) : Int) - 0).emod 1440 =
      (civil.hour * 60 + civil.minute : Nat) := by
    rw [Int.sub_zero]
    exact Int.emod_eq_of_lt (by omega) early
  have hours : (((civil.hour * 60 + civil.minute : Nat) : Int) / 60).toNat = civil.hour := by omega
  have minutes : (((civil.hour * 60 + civil.minute : Nat) : Int) % 60).toNat = civil.minute := by
    omega
  unfold Civil.toUtc
  dsimp only
  rw [kept, if_neg (by omega), if_neg (by omega), hours, minutes]

/-- The day after a day of the calendar is one, unless its year is behind the last one. -/
theorem valid_nextDay (valid : civil.valid = true) (inside : inCalendar civil.nextDay.year = true) :
    civil.nextDay.valid = true := by
  obtain ⟨-, month, day, clock⟩ := valid_iff.mp valid
  have first := daysIn_bounds
  refine valid_iff.mpr ⟨inside, ?_⟩
  unfold Civil.nextDay
  split
  · exact ⟨month, ⟨by simp, by assumption⟩, clock⟩
  · split
    · have := first civil.year (civil.month + 1)
      exact ⟨⟨by simp, by simp; omega⟩, ⟨by simp, by simp; omega⟩, clock⟩
    · have := first (civil.year + 1) 1
      exact ⟨⟨by simp, by simp⟩, ⟨by simp, by simp; omega⟩, clock⟩

/-- The day before a day of the calendar is one, unless its year is before the first one. -/
theorem valid_previousDay (valid : civil.valid = true)
    (inside : inCalendar civil.previousDay.year = true) : civil.previousDay.valid = true := by
  obtain ⟨-, month, day, clock⟩ := valid_iff.mp valid
  refine valid_iff.mpr ⟨inside, ?_⟩
  unfold Civil.previousDay
  split
  · exact ⟨month, ⟨by simp; omega, by simp; omega⟩, clock⟩
  · split
    · have := daysIn_bounds civil.year (civil.month - 1)
      exact ⟨⟨by simp; omega, by simp; omega⟩, ⟨by simp; omega, by simp⟩, clock⟩
    · exact ⟨⟨by simp, by simp⟩, ⟨by simp, by simp [daysIn]⟩, clock⟩

/-- A reading of the calendar that is moved to UTC is one, if its year is. -/
theorem valid_toUtc (valid : civil.valid = true)
    (inside : inCalendar (civil.toUtc ahead).year = true) : (civil.toUtc ahead).valid = true := by
  obtain ⟨year, month, day, hour, minute, second⟩ := valid_iff.mp valid
  have moved : ∀ shifted : Int, 0 ≤ shifted → shifted < 1440 →
      ({ civil with hour := (shifted / 60).toNat, minute := (shifted % 60).toNat } : Civil).valid =
        true := fun shifted least most =>
    valid_iff.mpr ⟨year, month, day, by simp; omega, by simp; omega, second⟩
  have least := Int.emod_nonneg (((civil.hour * 60 + civil.minute : Nat) : Int) - ahead)
    (by decide : (1440 : Int) ≠ 0)
  have most := Int.emod_lt_of_pos (((civil.hour * 60 + civil.minute : Nat) : Int) - ahead)
    (by decide : (0 : Int) < 1440)
  have clock := moved _ least most
  unfold Civil.toUtc at inside ⊢
  dsimp only at inside ⊢
  split at inside
  · rename_i before
    rw [if_pos before]
    exact valid_previousDay clock inside
  · rename_i notBefore
    rw [if_neg notBefore]
    split at inside
    · rename_i after
      rw [if_pos after]
      exact valid_nextDay clock inside
    · rename_i notAfter
      rw [if_neg notAfter]
      exact clock

/-! ### Whole texts -/

/-- A reading of the calendar in UTC that was written is read, and written in the same way. -/
theorem ofRfc3339?_write (valid : civil.valid = true) :
    ofRfc3339? civil.write = some civil.write := by
  obtain ⟨inside, month, day, hour, minute, second⟩ := valid_iff.mp valid
  have days := (daysIn_bounds civil.year civil.month).2
  have written : civil.write.toList = (writtenYear civil.year).toList ++ '-' ::
      ((padded 2 civil.month).toList ++ '-' :: ((padded 2 civil.day).toList ++ 'T' ::
        ((padded 2 civil.hour).toList ++ ':' :: ((padded 2 civil.minute).toList ++ ':' ::
          ((padded 2 civil.second).toList ++ ['Z']))))) := by
    simp [Civil.write]
  have fraction : dropFraction? ['Z'] = some ['Z'] := rfl
  have zone : offset? ['Z'] = some (0, []) := rfl
  have hyphen : isWhiteSpace '-' = false := by decide
  have colon : isWhiteSpace ':' = false := by decide
  have separated : ∀ rest, ¬ (!(('T' :: rest).head?.any isSeparator)) = true := fun _ => by
    simp [isSeparator]
  unfold ofRfc3339?
  rw [written]
  refine Option.bind_eq_some_iff.mpr ⟨_, year?_writtenYear, ?_⟩
  refine Option.bind_eq_some_iff.mpr ⟨_, behind?_cons hyphen, ?_⟩
  refine Option.bind_eq_some_iff.mpr ⟨_, pair?_padded (by omega), ?_⟩
  refine Option.bind_eq_some_iff.mpr ⟨_, behind?_cons hyphen, ?_⟩
  refine Option.bind_eq_some_iff.mpr ⟨_, pair?_padded (by omega), ?_⟩
  refine Option.ite_none_left_eq_some.mpr ⟨separated _, ?_⟩
  refine Option.bind_eq_some_iff.mpr ⟨_, pair?_padded (by omega), ?_⟩
  refine Option.bind_eq_some_iff.mpr ⟨_, behind?_cons colon, ?_⟩
  refine Option.bind_eq_some_iff.mpr ⟨_, pair?_padded (by omega), ?_⟩
  refine Option.bind_eq_some_iff.mpr ⟨_, behind?_cons colon, ?_⟩
  refine Option.bind_eq_some_iff.mpr ⟨_, pair?_padded (by omega), ?_⟩
  refine Option.bind_eq_some_iff.mpr ⟨_, fraction, ?_⟩
  refine Option.bind_eq_some_iff.mpr ⟨_, zone, ?_⟩
  refine Option.ite_none_right_eq_some.mpr ⟨?_, ?_⟩
  · have same : (civil.toUtc 0).year = civil.year := by rw [toUtc_zero valid]
    simpa [valid, same] using inside
  · exact congrArg (fun utc : Civil => some utc.write) (toUtc_zero valid)

/-- What was read is a reading of the calendar in UTC that was written. The proof follows the
reader: the parts up to the day, the separator, the parts of the time of day, and the zone. -/
theorem exists_of_ofRfc3339? {text : String} {time : Timestamp}
    (read : ofRfc3339? text = some time) :
    ∃ civil : Civil, civil.valid = true ∧ time = civil.write := by
  unfold ofRfc3339? at read
  obtain ⟨⟨year, _⟩, -, read⟩ := Option.bind_eq_some_iff.mp read
  obtain ⟨_, -, read⟩ := Option.bind_eq_some_iff.mp read
  obtain ⟨⟨month, _⟩, -, read⟩ := Option.bind_eq_some_iff.mp read
  obtain ⟨_, -, read⟩ := Option.bind_eq_some_iff.mp read
  obtain ⟨⟨day, _⟩, -, read⟩ := Option.bind_eq_some_iff.mp read
  obtain ⟨-, read⟩ := Option.ite_none_left_eq_some.mp read
  obtain ⟨⟨hour, _⟩, -, read⟩ := Option.bind_eq_some_iff.mp read
  obtain ⟨_, -, read⟩ := Option.bind_eq_some_iff.mp read
  obtain ⟨⟨minute, _⟩, -, read⟩ := Option.bind_eq_some_iff.mp read
  obtain ⟨_, -, read⟩ := Option.bind_eq_some_iff.mp read
  obtain ⟨⟨second, _⟩, -, read⟩ := Option.bind_eq_some_iff.mp read
  obtain ⟨_, -, read⟩ := Option.bind_eq_some_iff.mp read
  obtain ⟨⟨ahead, _⟩, -, read⟩ := Option.bind_eq_some_iff.mp read
  obtain ⟨sound, written⟩ := Option.ite_none_right_eq_some.mp read
  simp only [Bool.and_eq_true] at sound
  exact ⟨_, valid_toUtc sound.1.2 sound.2, (Option.some.inj written).symm⟩

/-- What was read is read again without change. So a time that was once taken from a document stays
as it is, however often the document is written and read. -/
theorem ofRfc3339?_again {text : String} {time : Timestamp}
    (read : ofRfc3339? text = some time) : ofRfc3339? time = some time := by
  obtain ⟨civil, valid, rfl⟩ := exists_of_ofRfc3339? read
  exact ofRfc3339?_write valid

end DatasetSync.Timestamp
