import Enigma.Assembly.Line

/-!
# Assembly/Optimize — six passes over lines of assembly

Each pass takes a list of lines to a list of lines, and looks at nothing but the lines. `optimize`
runs them once, in the order of `Pass.all`.

* `foldConstants` — holds the place of folding; no line is changed yet;
* `dropRepeats` — a line that occurred before is dropped;
* `joinMoves` — a load and the store behind it become a move;
* `dropUnusedLabels` — a label that no jump or test names is dropped;
* `dropRedundantJumps` — a jump to the very next line is dropped;
* `dropUnusedAccesses` — a load or store stays if its operand is one that loads and stores use.
-/

namespace Enigma

namespace Assembly

/-- Leaves every line as it is. -/
def foldConstants (lines : List String) : List String := lines

/-- Keeps the first of equal lines. -/
def dropRepeats (lines : List String) : List String := lines.eraseDups

/-- The move that a load and the store of the same register behind it amount to. -/
def move? (first second : String) : Option String :=
  match Line.split? first, Line.split? second with
  | some ⟨"LOAD", [source, register]⟩, some ⟨"STORE", [stored, address]⟩ =>
    if register = stored then some ("MOV " ++ source ++ ", " ++ address) else none
  | _, _ => none

/-- Replaces each load and store that amount to a move. -/
def joinMoves : List String → List String
  | [] => []
  | [line] => [line]
  | first :: second :: rest =>
    match move? first second with
    | some move => move :: joinMoves rest
    | none => first :: joinMoves (second :: rest)

/-- The last word of a line that starts like a jump or a test. -/
def namedLabel? (line : String) : Option String :=
  let s := Text.trim line.toList
  if "JMP".toList.isPrefixOf s || "IF".toList.isPrefixOf s then (Text.words line).getLast? else none

/-- Drops the labels that no jump and no test names. -/
def dropUnusedLabels (lines : List String) : List String :=
  let named := lines.filterMap namedLabel?
  lines.filter fun line =>
    match Line.label? line with
    | some label => named.contains label
    | none => true

/-- Whether the line jumps to the label that the next line defines. -/
def jumpsTo (line next : String) : Bool :=
  match Line.split? line, Line.label? next with
  | some ⟨"JMP", target :: _⟩, some label => target == label
  | _, _ => false

/-- Drops the jumps to the next line. -/
def dropRedundantJumps : List String → List String
  | [] => []
  | [line] => [line]
  | line :: next :: rest =>
    if jumpsTo line next then dropRedundantJumps (next :: rest)
    else line :: dropRedundantJumps (next :: rest)

/-- What a load reads, or where a store writes. -/
def accessed? (line : String) : Option String :=
  match Line.split? line with
  | some ⟨mnemonic, operands⟩ =>
    if mnemonic = "LOAD" ∨ mnemonic = "FLOAD" then operands[0]?
    else if mnemonic = "STORE" ∨ mnemonic = "FSTORE" then operands[1]?
    else none
  | none => none

/-- Drops the loads and stores whose operand no load or store uses. -/
def dropUnusedAccesses (lines : List String) : List String :=
  let used := lines.filterMap accessed?
  lines.filter fun line =>
    match accessed? line with
    | some operand => used.contains operand
    | none => true

/-- The passes. -/
inductive Pass
  | foldConstants
  | dropRepeats
  | joinMoves
  | dropUnusedLabels
  | dropRedundantJumps
  | dropUnusedAccesses
deriving Repr, DecidableEq

namespace Pass

/-- The passes in the order in which they run. -/
def all : List Pass :=
  [foldConstants, dropRepeats, joinMoves, dropUnusedLabels, dropRedundantJumps, dropUnusedAccesses]

/-- What a pass does. -/
def run : Pass → List String → List String
  | foldConstants => Assembly.foldConstants
  | dropRepeats => Assembly.dropRepeats
  | joinMoves => Assembly.joinMoves
  | dropUnusedLabels => Assembly.dropUnusedLabels
  | dropRedundantJumps => Assembly.dropRedundantJumps
  | dropUnusedAccesses => Assembly.dropUnusedAccesses

end Pass

/-- Runs every pass once, each on what the one before it left. -/
def optimize (lines : List String) : List String :=
  Pass.all.foldl (fun ls pass => pass.run ls) lines

end Assembly

end Enigma
