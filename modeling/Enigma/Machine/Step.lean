import Enigma.Assembly.Line
import Enigma.Machine.Memory

/-!
# Machine/Step — running lines of assembly

The machine runs lines from top to bottom and follows no jumps: comments, labels, tests and jumps do
nothing. A load fills a register, a store, a string or a move fills a cell, and an addition takes a
register and an operand to a register. What a line cannot mean is an error, and the machine stays as
it was.

* `Machine.step` — one line; `Machine.run` — lines in order; `execute` — from an empty machine.
-/

namespace Enigma

/-- Why a line cannot be run. -/
inductive ExecutionError
  | unknownInstruction (line : String)
  | malformed (line : String)
  | invalidOperand (operand line : String)
  | typeMismatch (left right : Cell)
deriving DecidableEq

/-- What is reported for it. -/
def ExecutionError.message : ExecutionError → String
  | unknownInstruction line => s!"Unknown instruction '{line}'"
  | malformed line => s!"Malformed instruction '{line}'"
  | invalidOperand operand line => s!"Invalid operand '{operand}' in '{line}'"
  | typeMismatch left right => "Cannot add " ++ left.text ++ " and " ++ right.text

/-- A register file: every name is a register, and one that was never filled holds zero. -/
abbrev Registers := String → Cell

/-- The registers and the memory. -/
structure Machine where
  registers : Registers := fun _ => .zero
  memory : Memory := ∅

/-- What stands between two given characters. -/
def between? (left right : Char) (s : String) : Option String :=
  match s.toList with
  | [] => none
  | c :: rest =>
    if c == left && rest.getLast? == some right then some (String.ofList rest.dropLast) else none

/-- Whether the text names a register: `r` or `fr` and ASCII digits. -/
def isRegister (s : String) : Bool :=
  let digits := match s.toList with
    | 'f' :: 'r' :: rest => rest
    | 'r' :: rest => rest
    | _ => []
  !digits.isEmpty && digits.all Char.isDigit

namespace Machine

/-- The machine with another register filled. -/
def setRegister (m : Machine) (name : String) (c : Cell) : Machine :=
  { m with registers := fun r => if r = name then c else m.registers r }

/-- The machine with another cell filled. -/
def setCell (m : Machine) (address : Nat) (c : Cell) : Machine :=
  { m with memory := m.memory.write address c }

/-- The error for an operand; it quotes the line without the blanks around it. -/
def invalid (operand line : String) : ExecutionError :=
  .invalidOperand operand (Text.trimmed line)

/-- The register that an operand names. -/
def register (line operand : String) : Except ExecutionError String :=
  if isRegister operand then .ok operand else .error (invalid operand line)

/-- The address that an operand gives; blanks around it do not count. -/
def address (line operand : String) : Except ExecutionError Nat :=
  match Number.address? (Text.trim operand.toList) with
  | some a => .ok a
  | none => .error (invalid operand line)

/-- The value of an operand: a cell in brackets, a string in quotes, a register, an integer or a
real, whichever it is first. -/
def value (m : Machine) (line operand : String) : Except ExecutionError Cell :=
  match between? '[' ']' operand with
  | some inner => (address line inner).map m.memory.read
  | none =>
    match between? '"' '"' operand with
    | some text => .ok (.str text)
    | none =>
      if isRegister operand then .ok (m.registers operand)
      else
        match Number.int64? operand, Number.real? operand with
        | some n, _ => .ok (.int n)
        | none, some x => .ok (.real x)
        | none, none => .error (invalid operand line)

/-- Fills a register from an operand. -/
def load (m : Machine) (line source dest : String) : Except ExecutionError Machine := do
  let c ← m.value line source
  let r ← register line dest
  pure (m.setRegister r c)

/-- Fills a cell from a register. -/
def store (m : Machine) (line source dest : String) : Except ExecutionError Machine := do
  let r ← register line source
  let a ← address line dest
  pure (m.setCell a (m.registers r))

/-- Fills a cell with the text between quotes. -/
def storeText (m : Machine) (line quoted dest : String) : Except ExecutionError Machine := do
  match between? '"' '"' quoted with
  | some text =>
    let a ← address line dest
    pure (m.setCell a (.str text))
  | none => .error (invalid quoted line)

/-- Fills a cell from an operand. -/
def move (m : Machine) (line source dest : String) : Except ExecutionError Machine := do
  let c ← m.value line source
  let a ← address line dest
  pure (m.setCell a c)

/-- Adds an operand to a register. -/
def add (m : Machine) (line operand source dest : String) : Except ExecutionError Machine := do
  let left ← (register line source).map m.registers
  let right ← m.value line operand
  match left.add? right with
  | some sum =>
    let r ← register line dest
    pure (m.setRegister r sum)
  | none => .error (.typeMismatch left right)

/-- What an instruction does, by its mnemonic; each takes a fixed number of operands. -/
def perform (m : Machine) (line mnemonic : String) (operands : List String) :
    Except ExecutionError Machine :=
  if mnemonic = "IF" ∨ mnemonic = "JMP" then .ok m
  else if mnemonic = "LOAD" ∨ mnemonic = "FLOAD" then
    match operands with
    | [source, dest] => m.load line source dest
    | _ => .error (.malformed (Text.trimmed line))
  else if mnemonic = "STORE" ∨ mnemonic = "FSTORE" then
    match operands with
    | [source, dest] => m.store line source dest
    | _ => .error (.malformed (Text.trimmed line))
  else if mnemonic = "STR" then
    match operands with
    | [quoted, dest] => m.storeText line quoted dest
    | _ => .error (.malformed (Text.trimmed line))
  else if mnemonic = "MOV" then
    match operands with
    | [source, dest] => m.move line source dest
    | _ => .error (.malformed (Text.trimmed line))
  else if mnemonic = "ADD" then
    match operands with
    | [operand, source, dest] => m.add line operand source dest
    | _ => .error (.malformed (Text.trimmed line))
  else .error (.unknownInstruction (Text.trimmed line))

/-- Runs one line. -/
def step (m : Machine) (line : String) : Except ExecutionError Machine :=
  if Line.isComment line || (Line.label? line).isSome then .ok m
  else
    match Line.split? line with
    | some ⟨mnemonic, operands⟩ => m.perform line mnemonic operands
    | none => .ok m

/-- Runs lines from top to bottom, up to the first that cannot be run. -/
def run (m : Machine) (lines : List String) : Except ExecutionError Machine := lines.foldlM step m

end Machine

/-- Runs lines on an empty machine: the memory they leave. -/
def execute (lines : List String) : Except ExecutionError Memory :=
  (Machine.run {} lines).map Machine.memory

end Enigma
