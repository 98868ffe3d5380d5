import Enigma.Text.Blank

/-!
# Assembly/Line — reading a line of assembly

A line is a mnemonic and operands with commas between them; a comma between double quotes does not
divide. Blanks around the line and around operands do not count, and neither do empty operands. A
line that starts with a semicolon is a comment, and one that ends with a colon defines a label.
-/

namespace Enigma

/-- A line taken apart. -/
structure Line where
  mnemonic : String
  operands : List String
deriving Repr, DecidableEq

namespace Line

/-- Cuts at the commas that are not between quotes; `quoted` says that a quote is open. -/
def cutAtCommas (quoted : Bool) : List Char → List (List Char)
  | [] => [[]]
  | c :: s =>
    if c == ',' && !quoted then [] :: cutAtCommas quoted s
    else (cutAtCommas (if c == '"' then !quoted else quoted) s).modifyHead (c :: ·)

/-- The operands in the text behind the mnemonic. -/
def operandsOf (s : List Char) : List String :=
  (((cutAtCommas false s).map Text.trim).filter (!·.isEmpty)).map String.ofList

/-- Takes a line apart, unless it is blank. -/
def split? (line : String) : Option Line :=
  match Text.trim line.toList with
  | [] => none
  | s@(_ :: _) =>
    let mnemonic := s.takeWhile (!Text.isBlank ·)
    some ⟨String.ofList mnemonic, operandsOf (s.drop (mnemonic.length + 1))⟩

/-- Whether the line is a comment. -/
def isComment (line : String) : Bool := (Text.trimStart line.toList).head? == some ';'

/-- The label that the line defines. -/
def label? (line : String) : Option String :=
  let s := Text.trim line.toList
  if isComment line then none
  else if s.getLast? == some ':' then some (String.ofList s.dropLast)
  else none

end Line

end Enigma
