/-!
# Fault — how work is broken off

A phase that refuses its input says why with an error of its own. A fault is something else: a
counter has run out, or a phase was handed a program that an earlier one should have refused.
Nothing can be done about it, so all faults share one type, and `Stop` puts the two ways of stopping
side by side.
-/

namespace Enigma

/-- Why work cannot go on. -/
inductive Fault
  /-- A counter of 32 bits has run out. -/
  | overflow
  /-- A variable is used that the table does not know. -/
  | undeclared
  /-- A variable is not where the table has it. -/
  | diverged (name : String)
  /-- A loop is left outside of any. -/
  | strayLeave
  /-- A loop is resumed outside of any. -/
  | strayResume
deriving Repr, DecidableEq

/-- What is reported for a fault. -/
def Fault.message : Fault → String
  | overflow => "attempt to add with overflow"
  | undeclared => "Semantic analysis should have caught this undeclared variable"
  | diverged name =>
    s!"assertion `left == right` failed: memory layout of '{name}' diverged from the symbol table"
  | strayLeave => "parser rejects br outside loops"
  | strayResume => "parser rejects cont outside loops"

/-- How a phase stops short of a result: it refuses its input, or a fault breaks it off. -/
inductive Stop (ε : Type)
  | refused (error : ε)
  | fault (cause : Fault)
deriving Repr, DecidableEq

/-- The same stop, with the error told another way. -/
def Stop.map {ε δ : Type} (f : ε → δ) : Stop ε → Stop δ
  | refused error => refused (f error)
  | fault cause => fault cause

end Enigma
