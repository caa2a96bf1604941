import DatasetSync.Text.Digits

/-!
# Percent-encoding of key segments

Letters, digits and the four unreserved marks stand for themselves; every other byte of
the UTF-8 form is written as a percent sign and two hexadecimal digits. A key is encoded
segment by segment, so its slashes stay.
-/

namespace DatasetSync.Text

/-- Whether a byte stands for itself: an ASCII letter or digit, or one of `-`, `_`, `.`
    and `~`. -/
def isUnreserved (byte : UInt8) : Bool :=
  (0x41 ≤ byte && byte ≤ 0x5A) || (0x61 ≤ byte && byte ≤ 0x7A) || (0x30 ≤ byte && byte ≤ 0x39)
    || byte == 0x2D || byte == 0x5F || byte == 0x2E || byte == 0x7E

/-- The encoded form of one byte. -/
def encodeByte (byte : UInt8) : List Char :=
  if isUnreserved byte then [Char.ofNat byte.toNat]
  else ['%', hexDigit (byte.toNat / 16), hexDigit (byte.toNat % 16)]

/-- The encoded form of a text, with no regard to slashes. -/
def percentEncode (text : List Char) : List Char :=
  text.flatMap fun character => (String.utf8EncodeChar character).flatMap encodeByte

/-- The encoded form of a slash-separated key: every segment is encoded in a given way, the
    slashes stay. -/
def encodeSegments (encode : List Char → List Char) (key : String) : String :=
  String.ofList (['/'].intercalate ((key.toList.splitOn '/').map encode))

end DatasetSync.Text
