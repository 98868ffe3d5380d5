import Enigma.Text.Ranges

/-!
# Text/Blank — blank characters, and the cuts made at them

A blank is a character with Unicode's `White_Space` property: the ASCII controls from tab to
carriage return, the space, the two of Latin-1 and the spaces and separators above them. Trimming
and splitting into words work on character lists; `trimmed` and `words` are their forms on strings.
-/

namespace Enigma.Text

/-- The characters with the `White_Space` property. -/
def blankRanges : Ranges :=
  [(0x09, 0x0D), (0x20, 0x20), (0x85, 0x85), (0xA0, 0xA0), (0x1680, 0x1680), (0x2000, 0x200A),
    (0x2028, 0x2029), (0x202F, 0x202F), (0x205F, 0x205F), (0x3000, 0x3000)]

/-- Whether the character is white space. -/
def isBlank (c : Char) : Bool := blankRanges.contains c

/-- The text without the characters of a class at its end. -/
def dropWhileEnd (p : Char → Bool) (s : List Char) : List Char :=
  (s.reverse.dropWhile p).reverse

/-- The text without the blanks before it. -/
def trimStart (s : List Char) : List Char := s.dropWhile isBlank

/-- The text without the blanks before and after it. -/
def trim (s : List Char) : List Char := dropWhileEnd isBlank (trimStart s)

/-- The string without the blanks before and after it. -/
def trimmed (s : String) : String := String.ofList (trim s.toList)

/-- The maximal runs of characters that are not blank, in order. -/
def words (s : String) : List String :=
  ((s.toList.splitOnP isBlank).filter (!·.isEmpty)).map String.ofList

/-- What is between the quotes: every double quote at either end is dropped. -/
def unquoted (s : String) : String :=
  String.ofList (dropWhileEnd (· == '"') (s.toList.dropWhile (· == '"')))

/-- Text in a column of the given width: spaces fill it on the right, and a longer text is kept
whole. Widths count characters. -/
def column (width : Nat) (s : String) : String :=
  s ++ String.ofList (List.replicate (width - s.length) ' ')

end Enigma.Text
