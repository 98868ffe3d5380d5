import Enigma.Assembly.Generate
import Enigma.Assembly.Optimize
import Enigma.Program.Reader
import Enigma.Symbol.Analysis
import Enigma.Token.Scan

/-!
# Compile — from source text to assembly

Scanning, reading, checking, generating and optimising follow one another, and the first that fails
ends the compilation. The errors of a scan are reported together.

* `readSource` — the tokens and the program of a text;
* `compile` — the whole way.
-/

namespace Enigma

/-- Why a source text does not compile. -/
inductive CompileError
  | lexical (errors : List LexError)
  | grammar (error : SyntaxError)
  | semantic (error : SemanticError)
deriving DecidableEq

namespace CompileError

/-- What is wrong: a count and a line for each error of the scan, or the one error with the phase it
belongs to. -/
def message : CompileError → String
  | lexical errors =>
    toString errors.length ++ " lexical error(s):" ++
      String.join (errors.map fun e => "\nError: " ++ e.message)
  | grammar e => "Syntax error: " ++ e.message
  | semantic e => "Semantic error: " ++ e.message

/-- What is shown to the user: an error of the grammar comes with the line it is on. -/
def report : CompileError → String
  | grammar e => e.report
  | e => e.message

end CompileError

/-- What compiling gives. -/
structure Compilation where
  tokens : List Token
  program : Program
  table : SymbolTable
  /-- The instructions as generated. -/
  code : List Instruction
  /-- The lines after the optimiser, or as generated if it was left out. -/
  optimized : List String
  /-- The last sum of two numerals in the program. -/
  folded : Option Value

namespace Compilation

/-- The lines as generated. -/
def lines (c : Compilation) : List String := c.code.map Instruction.text

/-- The final lines as one text. -/
def assembly (c : Compilation) : String := "\n".intercalate c.optimized

end Compilation

/-- The tokens of a source text, if every character of it fits. -/
def scanSource (source : String) : Except CompileError (List Token) :=
  let tokens := Token.scan source
  match Token.lexErrors tokens with
  | [] => .ok tokens
  | errors => .error (.lexical errors)

/-- The tokens and the program of a source text. -/
def readSource (source : String) : Except CompileError (List Token × Program) := do
  let tokens ← scanSource source
  let program ← (Program.parse tokens source).mapError .grammar
  pure (tokens, program)

/-- Compiles a source text. -/
def compile (source : String) (optimize : Bool) : Except (Stop CompileError) Compilation := do
  let (tokens, program) ← (readSource source).mapError .refused
  let table ← program.analyze.mapError (Stop.map .semantic)
  let generated ← (program.generate table).mapError .fault
  let code := generated.instructions
  let lines := code.map Instruction.text
  let optimized := if optimize then Assembly.optimize lines else lines
  pure { tokens, program, table, code, optimized, folded := generated.folded }

end Enigma
