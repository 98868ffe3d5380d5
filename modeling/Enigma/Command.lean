import Enigma.Compile
import Enigma.Machine.Step

/-!
# Command — what the command line answers

A command works on the text of one file. Its report is what goes to the two output streams and the
status to exit with; nothing here reads or prints.
-/

namespace Enigma

/-- The commands; compiling and running may leave the optimiser out. -/
inductive Command
  | tokens
  | parse
  | symbols
  | compile (optimize : Bool)
  | run (optimize : Bool)
deriving Repr, DecidableEq

/-- What a command leaves behind. -/
structure Report where
  status : Nat := 0
  out : String := ""
  err : String := ""
deriving Repr, DecidableEq

namespace Report

/-- A report of failure: what was printed so far, and the message. -/
def failure (out message : String) : Report :=
  { status := 1, out, err := message ++ "\n" }

/-- A report of a fault. -/
def broken (fault : Fault) : Report :=
  { status := 101, err := fault.message ++ "\n" }

end Report

/-- Why a file cannot be read. -/
inductive ReadError
  | notFound
  | notText
  | other (reason : String)
deriving Repr, DecidableEq

namespace ReadError

/-- The reason as it is reported. -/
def reason : ReadError → String
  | notFound => "No such file or directory (os error 2)"
  | notText => "stream did not contain valid UTF-8"
  | other reason => reason

/-- The report for a file that cannot be read. -/
def report (e : ReadError) (file : String) : Report :=
  .failure "" ("Failed to read " ++ file ++ ": " ++ e.reason)

end ReadError

namespace Command

/-- Lists the tokens of a source text; errors come behind them. -/
def listTokens (source : String) : Report :=
  let tokens := Token.scan source
  let out := String.join (tokens.map fun t => t.listing ++ "\n")
  match Token.lexErrors tokens with
  | [] => { out }
  | errors => .failure out (CompileError.lexical errors).message

/-- Reads a source text as a program and goes on with it. -/
def withProgram (source : String) (next : Program → Report) : Report :=
  match readSource source with
  | .ok (_, program) => next program
  | .error e => .failure "" e.report

/-- Checks that a source text is a program. -/
def check (source : String) : Report :=
  withProgram source fun _ => { out := "Parsing successful!\n" }

/-- Shows the table of a source text. -/
def showSymbols (source : String) : Report :=
  withProgram source fun program =>
    match program.analyze with
    | .ok table => { out := table.listing }
    | .error (.refused e) => .failure "" e.message
    | .error (.fault f) => .broken f

/-- Compiles a source text and goes on with what was printed and the lines. -/
def withLines (source : String) (optimize : Bool) (next : String → List String → Report) : Report :=
  match Enigma.compile source optimize with
  | .error (.refused e) => .failure "" e.report
  | .error (.fault f) => .broken f
  | .ok c =>
    let folded := match c.folded with
      | some v => "Folded constant: " ++ v.text ++ "\n"
      | none => ""
    next ("Parsing successful!\nSemantic analysis successful!\n" ++ folded) c.optimized

/-- Shows the assembly of a source text. -/
def showAssembly (source : String) (optimize : Bool) : Report :=
  withLines source optimize fun out lines => { out := out ++ "\n".intercalate lines ++ "\n" }

/-- Runs a source text and shows the memory it leaves. -/
def showMemory (source : String) (optimize : Bool) : Report :=
  withLines source optimize fun out lines =>
    match execute lines with
    | .ok memory => { out := out ++ memory.dump }
    | .error e => .failure out e.message

/-- What a command answers for a source text. -/
def respond : Command → String → Report
  | tokens, source => listTokens source
  | parse, source => check source
  | symbols, source => showSymbols source
  | compile optimize, source => showAssembly source optimize
  | run optimize, source => showMemory source optimize

/-- Reads the arguments of the command line: a command and a file, and for compiling and running a
switch in any place behind the command. -/
def ofArguments? : List String → Option (Command × String)
  | ["tokens", file] => some (tokens, file)
  | ["parse", file] => some (parse, file)
  | ["symbols", file] => some (symbols, file)
  | "compile" :: rest => (fileAndSwitch? rest).map fun (file, on) => (compile on, file)
  | "run" :: rest => (fileAndSwitch? rest).map fun (file, on) => (run on, file)
  | _ => none
where
  /-- A file, and whether the optimiser stays on. -/
  fileAndSwitch? : List String → Option (String × Bool)
    | ["--no-optimize", file] => some (file, false)
    | [file, "--no-optimize"] => some (file, false)
    | [file] => some (file, true)
    | _ => none

end Command

end Enigma
