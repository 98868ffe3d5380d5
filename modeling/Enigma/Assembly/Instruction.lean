/-!
# Assembly/Instruction — instructions and how they are written

An instruction moves a value between registers and memory, adds, marks a place, or only says
something. Registers and labels are text; addresses are numbers. `Instruction.text` is the line of
assembly.
-/

namespace Enigma

/-- Where an instruction takes a value from. -/
inductive Operand
  /-- The text itself. -/
  | immediate (text : String)
  /-- The cell at an address. -/
  | memory (address : Nat)
  | register (name : String)
deriving Repr, DecidableEq

/-- An operand as it is written. -/
def Operand.text : Operand → String
  | immediate text => text
  | memory address => "[" ++ toString address ++ "]"
  | register name => name

inductive Instruction
  | load (source : Operand) (dest : String)
  | store (source : String) (address : Nat)
  | loadReal (source : Operand) (dest : String)
  | storeReal (source : String) (address : Nat)
  | str (text : String) (address : Nat)
  | add (operand : Operand) (source dest : String)
  | move (source : Operand) (address : Nat)
  | jump (target : String)
  /-- Goes on if the condition holds. -/
  | test (condition : String)
  | label (name : String)
  | comment (text : String)
deriving Repr, DecidableEq

namespace Instruction

/-- The line of assembly for an instruction. -/
def text : Instruction → String
  | load source dest => "LOAD " ++ source.text ++ ", " ++ dest
  | store source address => "STORE " ++ source ++ ", " ++ toString address
  | loadReal source dest => "FLOAD " ++ source.text ++ ", " ++ dest
  | storeReal source address => "FSTORE " ++ source ++ ", " ++ toString address
  | str text address => "STR \"" ++ text ++ "\", " ++ toString address
  | add operand source dest => "ADD " ++ operand.text ++ ", " ++ source ++ ", " ++ dest
  | move source address => "MOV " ++ source.text ++ ", " ++ toString address
  | jump target => "JMP " ++ target
  | test condition => "IF " ++ condition ++ " THEN"
  | label name => name ++ ":"
  | comment text => "; " ++ text

end Instruction

end Enigma
