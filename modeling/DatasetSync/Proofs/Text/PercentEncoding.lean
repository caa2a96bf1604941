import DatasetSync.Text.PercentEncoding

/-!
# Reading encoded keys

An encoded text is read character by character: a percent sign announces a byte in two hexadecimal
digits, any other character stands for its own UTF-8 form, and the bytes that come out have to be
the UTF-8 form of a text.

What is relied on of an encoding is only what is documented: letters, digits and four marks are
kept, and every other byte is escaped (`IsEncoding`). The digits may be of either case. The encoding
of this library is one of these (`isEncoding_percentEncode`).

A key is encoded segment by segment and read as a whole. Reading finds the key again
(`percentDecode?_encodeSegments`), as a byte is never written with a slash: the slashes of the
encoded key are those of the key (`count_slash_encodeSegments`).
-/

namespace DatasetSync.Text

/-! ## Reading -/

/-- The bytes that an encoded text stands for; nothing if a percent sign is not followed by two
hexadecimal digits. -/
def percentBytes? : List Char → Option (List UInt8)
  | [] => some []
  | character :: rest =>
    if character = '%' then
      match rest with
      | high :: low :: rest => do
        let high ← digitValue? high
        let low ← digitValue? low
        let bytes ← percentBytes? rest
        return UInt8.ofNat (16 * high + low) :: bytes
      | _ => none
    else (percentBytes? rest).map (String.utf8EncodeChar character ++ ·)

/-- A character that is not a percent sign is read as its own UTF-8 form, whatever follows it. -/
theorem percentBytes?_cons {character : Char} (rest : List Char) (unmarked : character ≠ '%') :
    percentBytes? (character :: rest) =
      (percentBytes? rest).map (String.utf8EncodeChar character ++ ·) := by
  rw [percentBytes?.eq_def]
  exact if_neg unmarked

/-- The text that an encoded text stands for, if there is one. -/
def percentDecode? (text : String) : Option String :=
  (percentBytes? text.toList).bind fun bytes => String.fromUTF8? bytes.toByteArray

/-- The bytes of a text are read as the text. They are valid UTF-8 by what the type of texts
carries. -/
theorem fromUTF8?_utf8Encode (text : String) :
    String.fromUTF8? text.toList.utf8Encode = some text := by
  have bytes : text.toList.utf8Encode = text.toByteArray := by
    rw [← String.toByteArray_ofList, String.ofList_toList]
  rw [bytes, String.fromUTF8?, dif_pos text.isValidUTF8]
  rfl

/-! ## Writing -/

/-- How bytes are written. -/
inductive Writes : List UInt8 → List Char → Prop
  | nil : Writes [] []
  /-- An ASCII letter or digit and the four marks are kept. -/
  | kept {byte : UInt8} {bytes : List UInt8} {text : List Char}
      (unreserved : isUnreserved byte = true) (later : Writes bytes text) :
      Writes (byte :: bytes) (Char.ofNat byte.toNat :: text)
  /-- Any other byte is escaped, in digits of either case. -/
  | escaped {byte : UInt8} {high low : Char} {bytes : List UInt8} {text : List Char}
      (reserved : isUnreserved byte = false) (first : digitValue? high = some (byte.toNat / 16))
      (second : digitValue? low = some (byte.toNat % 16)) (later : Writes bytes text) :
      Writes (byte :: bytes) ('%' :: high :: low :: text)

/-- What is documented of an encoding: every byte of the UTF-8 form of a text is written so. -/
def IsEncoding (encode : List Char → List Char) : Prop :=
  ∀ text, Writes (text.flatMap String.utf8EncodeChar) (encode text)

/-- Each of the sixteen digits that are written has the value that it was written for. -/
theorem digitValue?_hexDigit : ∀ value < 16, digitValue? (hexDigit value) = some value := by
  decide

/-- The encoding of this library keeps and escapes what is documented. It writes one byte after the
other; the digits of a byte are its high and its low half, and each is below sixteen. -/
theorem isEncoding_percentEncode : IsEncoding percentEncode := by
  intro text
  rw [percentEncode, ← List.flatMap_assoc]
  induction text.flatMap String.utf8EncodeChar with
  | nil => exact .nil
  | cons byte bytes ih =>
    have bound := byte.toNat_lt
    rw [List.flatMap_cons, encodeByte]
    cases reserved : isUnreserved byte with
    | true => exact .kept reserved ih
    | false =>
      exact .escaped reserved (digitValue?_hexDigit _ (by omega)) (digitValue?_hexDigit _ (by omega))
        ih

/-- An ASCII letter or digit, or one of the four unreserved marks. -/
def IsPlain (character : Char) : Prop := character.isAlphanum ∨ character ∈ ['-', '_', '.', '~']

instance (character : Char) : Decidable (IsPlain character) :=
  inferInstanceAs (Decidable (_ ∨ _))

/-- A byte that is kept becomes a plain character, whose UTF-8 form is that byte alone. There are
256 bytes, and this is checked for each of them. -/
theorem plain_of_isUnreserved {byte : UInt8} (unreserved : isUnreserved byte = true) :
    IsPlain (Char.ofNat byte.toNat) ∧
      String.utf8EncodeChar (Char.ofNat byte.toNat) = [byte] := by
  have each : ∀ value < 256, isUnreserved (UInt8.ofNat value) = true →
      IsPlain (Char.ofNat value) ∧
        String.utf8EncodeChar (Char.ofNat value) = [UInt8.ofNat value] := by
    decide +kernel
  have own := each byte.toNat byte.toNat_lt
  rw [UInt8.ofNat_toNat] at own
  exact own unreserved

/-- Percent signs and slashes are not plain. So a kept byte is neither mistaken for an escape nor
for the end of a segment. -/
theorem IsPlain.ne {character : Char} (plain : IsPlain character) :
    character ≠ '%' ∧ character ≠ '/' := by
  constructor <;> rintro rfl <;> revert plain <;> decide

/-- A slash is no digit in any base, so an escape has no slash in it. -/
theorem ne_slash_of_digitValue? {digit : Char} {value : Nat}
    (counts : digitValue? digit = some value) : digit ≠ '/' := by
  rintro rfl
  cases counts

namespace Writes

variable {bytes : List UInt8} {text : List Char}

/-- Bytes that were written are read, whatever is written after them. The induction is on how the
bytes were written: a kept byte is read as its own UTF-8 form, and an escaped one is put together of
its two digits. -/
theorem read (writes : Writes bytes text) (rest : List Char) :
    percentBytes? (text ++ rest) = (percentBytes? rest).map (bytes ++ ·) := by
  induction writes with
  | nil => simp
  | @kept byte bytes text unreserved _ ih =>
    obtain ⟨plain, form⟩ := plain_of_isUnreserved unreserved
    rw [List.cons_append, percentBytes?_cons _ plain.ne.1, ih, form, Option.map_map]
    rfl
  | @escaped byte high low bytes text _ first second _ ih =>
    have whole : UInt8.ofNat (16 * (byte.toNat / 16) + byte.toNat % 16) = byte := by
      rw [Nat.div_add_mod, UInt8.ofNat_toNat]
    simp only [List.cons_append, percentBytes?, first, second, if_true, Option.bind_eq_bind,
      Option.bind_some, whole, Option.pure_def, ih]
    cases percentBytes? rest <;> rfl

/-- No byte is written with a slash, also not the byte of the slash itself, which is escaped. This
makes the slashes of an encoded key those between its segments. -/
theorem slash_not_mem (writes : Writes bytes text) : '/' ∉ text := by
  induction writes with
  | nil => exact List.not_mem_nil
  | kept unreserved _ ih =>
    rw [List.mem_cons, not_or]
    exact ⟨(plain_of_isUnreserved unreserved).1.ne.2.symm, ih⟩
  | escaped _ first second _ ih =>
    simp only [List.mem_cons, not_or]
    exact ⟨by decide, (ne_slash_of_digitValue? first).symm, (ne_slash_of_digitValue? second).symm,
      ih⟩

end Writes

/-- A text of plain characters, escaped bytes and slashes. -/
inductive IsEscaped : List Char → Prop
  | nil : IsEscaped []
  | plain {character : Char} {rest : List Char} (plain : IsPlain character)
      (escaped : IsEscaped rest) : IsEscaped (character :: rest)
  | byte {high low : Char} {rest : List Char} (first : (digitValue? high).isSome)
      (second : (digitValue? low).isSome) (escaped : IsEscaped rest) :
      IsEscaped ('%' :: high :: low :: rest)
  | slash {rest : List Char} (escaped : IsEscaped rest) : IsEscaped ('/' :: rest)

/-- Bytes that are written before an escaped text make a longer escaped text: what is kept is
unreserved, and what is escaped is a percent sign with two digits. -/
theorem Writes.isEscaped {bytes : List UInt8} {text rest : List Char} (writes : Writes bytes text)
    (escaped : IsEscaped rest) : IsEscaped (text ++ rest) := by
  induction writes with
  | nil => exact escaped
  | kept unreserved _ ih => exact .plain (plain_of_isUnreserved unreserved).1 ih
  | escaped _ first second _ ih =>
    exact .byte (Option.isSome_of_eq_some first) (Option.isSome_of_eq_some second) ih

/-! ## Keys -/

section Segments

variable {encode : List Char → List Char} {segments : List (List Char)}

/-- Encoded segments with slashes between them are read as the segments with slashes between them. A
slash is read as itself, so reading a segment stops for nothing at its end. -/
theorem percentBytes?_intercalate (documented : IsEncoding encode) (segments : List (List Char)) :
    percentBytes? (['/'].intercalate (segments.map encode)) =
      some ((['/'].intercalate segments).flatMap String.utf8EncodeChar) := by
  induction segments with
  | nil => rfl
  | cons segment segments ih =>
    cases segments with
    | nil => simpa [percentBytes?] using (documented segment).read []
    | cons next segments =>
      have slash : '/' ≠ '%' := by decide
      rw [List.map_cons, List.map_cons, List.intercalate_cons_cons, ← List.map_cons,
        List.append_assoc, (documented segment).read, List.singleton_append,
        percentBytes?_cons _ slash, ih, List.intercalate_cons_cons]
      simp

/-- Encoded segments with slashes between them consist of unreserved characters, escapes, and these
slashes. -/
theorem isEscaped_intercalate (documented : IsEncoding encode) (segments : List (List Char)) :
    IsEscaped (['/'].intercalate (segments.map encode)) := by
  induction segments with
  | nil => exact .nil
  | cons segment segments ih =>
    cases segments with
    | nil => simpa using (documented segment).isEscaped .nil
    | cons next segments =>
      rw [List.map_cons, List.map_cons, List.intercalate_cons_cons, ← List.map_cons,
        List.append_assoc]
      exact (documented segment).isEscaped (.slash ih)

/-- A text has one segment more than it has marks. Segments may be empty: a mark at the start, at
the end or behind another mark makes an empty one. -/
theorem length_splitOn (mark : Char) (text : List Char) :
    (text.splitOn mark).length = text.count mark + 1 := by
  induction text with
  | nil => rfl
  | cons character text ih =>
    rw [List.splitOn_cons_eq_if_modifyHead, List.count_cons]
    split
    · rw [List.length_cons, ih]
    · rw [List.length_modifyHead, ih]

/-- Segments without slashes are put together with one slash fewer than there are segments. Of no
segments at all nothing is made, which is why the difference is that of natural numbers. -/
theorem count_slash_intercalate (plain : ∀ segment ∈ segments, '/' ∉ segment) :
    (['/'].intercalate segments).count '/' = segments.length - 1 := by
  induction segments with
  | nil => rfl
  | cons segment segments ih =>
    have own : segment.count '/' = 0 := List.count_eq_zero.mpr (plain segment List.mem_cons_self)
    cases segments with
    | nil => simpa using own
    | cons next segments =>
      rw [List.intercalate_cons_cons, List.count_append, List.count_append, own,
        ih fun other member => plain other (List.mem_cons_of_mem _ member)]
      simp [Nat.add_comm]

/-- Reading undoes the encoding of keys, for every encoding that does what is documented and for
every key: its segments are put together as they were split. -/
theorem percentDecode?_encodeSegments (documented : IsEncoding encode) (key : String) :
    percentDecode? (encodeSegments encode key) = some key := by
  rw [percentDecode?, encodeSegments, String.toList_ofList, percentBytes?_intercalate documented,
    List.intercalate_splitOn]
  exact fromUTF8?_utf8Encode key

/-- An encoded key consists of unreserved characters, escapes and slashes only. -/
theorem isEscaped_encodeSegments (documented : IsEncoding encode) (key : String) :
    IsEscaped (encodeSegments encode key).toList := by
  rw [encodeSegments, String.toList_ofList]
  exact isEscaped_intercalate documented _

/-- An encoded key has as many slashes as the key: one fewer than there are segments, and a segment
is encoded without any. -/
theorem count_slash_encodeSegments (documented : IsEncoding encode) (key : String) :
    (encodeSegments encode key).toList.count '/' = key.toList.count '/' := by
  have encoded : ∀ segment ∈ (key.toList.splitOn '/').map encode, '/' ∉ segment := by
    intro segment member
    obtain ⟨former, -, rfl⟩ := List.mem_map.mp member
    exact (documented former).slash_not_mem
  rw [encodeSegments, String.toList_ofList, count_slash_intercalate encoded, List.length_map,
    length_splitOn, Nat.add_sub_cancel]

end Segments

end DatasetSync.Text
