import Enigma.Machine.Cell
import Std.Data.ExtTreeMap

/-!
# Machine/Memory — cells by address

Memory holds the cells that were written, in the order of their addresses; two memories with the
same cells are equal. Reading a cell that was never written gives zero.
-/

namespace Enigma

/-- The cells that were written, by address. -/
abbrev Memory := Std.ExtTreeMap Nat Cell

namespace Memory

/-- The cell at an address. -/
def read (m : Memory) (address : Nat) : Cell := m[address]?.getD .zero

/-- Writes a cell. -/
def write (m : Memory) (address : Nat) (c : Cell) : Memory := m.insert address c

/-- A written cell is found at its address, and all others are as they were. -/
theorem getElem?_write (m : Memory) (a b : Nat) (c : Cell) :
    (m.write a c)[b]? = if a = b then some c else m[b]? := by
  rw [write, Std.ExtTreeMap.getElem?_insert]
  by_cases h : a = b <;> simp [h]

/-- A written cell reads as what was written, and all others read as before. -/
theorem read_write (m : Memory) (a b : Nat) (c : Cell) :
    (m.write a c).read b = if a = b then c else m.read b := by
  rw [read, getElem?_write, read]
  split <;> rfl

/-- The line that shows a cell. -/
def line (entry : Nat × Cell) : String :=
  "Memory[" ++ toString entry.1 ++ "] = " ++ entry.2.text ++ "\n"

/-- Memory as text: a line for each cell, in the order of addresses. -/
def dump (m : Memory) : String := String.join (m.toList.map line)

end Memory

end Enigma
