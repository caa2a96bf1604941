import DatasetSync.Text.Blank

/-!
# Text in XML

An XML element cannot hold every text. Some control characters may not appear in it, and
white space alone is taken for layout, as if the element were empty.
-/

namespace DatasetSync.Text

/-- Whether a character may appear in XML. -/
def isXmlCharacter (character : Char) : Bool :=
  let code := character.toNat
  ['\t', '\n', '\r'].contains character || (0x20 ≤ code && code ≠ 0xFFFE && code ≠ 0xFFFF)

/-- What an element with a text says to its reader; nothing if the text cannot be written. -/
def throughXml? (text : String) : Option String :=
  if text.toList.all isXmlCharacter then some (if isBlank text then "" else text) else none

end DatasetSync.Text
