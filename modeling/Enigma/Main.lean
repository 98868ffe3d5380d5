import Enigma.Command

/-!
# Main — the command line

    enigma (tokens | parse | symbols) FILE
    enigma (compile | run) [--no-optimize] FILE

Reads the file, asks `Command` for the report, prints it and exits with its status.
-/

namespace Enigma

/-- Shown when the arguments are not understood. -/
def usage : String :=
  "Usage: enigma <tokens|parse|symbols> <FILE>\n" ++
  "       enigma <compile|run> [--no-optimize] <FILE>\n"

/-- The text of a file. -/
def loadText (file : String) : IO (Except ReadError String) := do
  try
    let bytes ← IO.FS.readBinFile file
    match String.fromUTF8? bytes with
    | some text => return .ok text
    | none => return .error .notText
  catch
    | .noFileOrDirectory _ _ _ => return .error .notFound
    | e => return .error (.other (toString e))

/-- Prints a report and gives its status. -/
def Report.emit (r : Report) : IO UInt32 := do
  IO.print r.out
  IO.eprint r.err
  return r.status.toUInt32

end Enigma

open Enigma in
/-- Runs the command that the arguments name. -/
def main (args : List String) : IO UInt32 := do
  match Command.ofArguments? args with
  | some (command, file) =>
    match ← loadText file with
    | .ok source => (command.respond source).emit
    | .error e => (e.report file).emit
  | none =>
    IO.eprint usage
    return 2
