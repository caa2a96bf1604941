/-!
# Blank text

A text is blank when all its characters have the Unicode property `White_Space`. The
zero-width space, the byte order mark and the unit separators do not have it.
-/

namespace DatasetSync.Text

/-- The code points of the Unicode property `White_Space`, as inclusive ranges. -/
def whiteSpace : List (Nat × Nat) :=
  [(0x09, 0x0D), (0x20, 0x20), (0x85, 0x85), (0xA0, 0xA0), (0x1680, 0x1680),
   (0x2000, 0x200A), (0x2028, 0x2029), (0x202F, 0x202F), (0x205F, 0x205F), (0x3000, 0x3000)]

/-- Whether a character has the property `White_Space`. -/
def isWhiteSpace (character : Char) : Bool :=
  whiteSpace.any fun (first, last) => first ≤ character.toNat && character.toNat ≤ last

/-- Whether a text holds nothing but white space. -/
def isBlank (text : String) : Bool := text.toList.all isWhiteSpace

end DatasetSync.Text
