import Enigma.Program.Stmt

/-!
# Program/Binding — what a program does with variables, in order

A program is flattened into the declarations, assignments and reads it makes, from left to right.
Every question about variables is a fold over this one sequence, so all answers see declarations in
the same order.
-/

namespace Enigma

/-- One thing done with a variable. A declaration or an assignment may have no known value:
parameters and the step of an `iterate` have none. -/
inductive Binding
  | declare (dataType : String) (name : String) (value : Option Expr) (line : Nat)
  | assign (name : String) (value : Option Expr) (line : Nat)
  | read (name : String) (line : Nat)
deriving Repr, DecidableEq

/-- The reads of an expression on a line. -/
def Expr.bindings (e : Expr) (line : Nat) : List Binding := e.reads.map (.read · line)

/-- A declaration reads its value before it declares. -/
def Declaration.bindings (d : Declaration) : List Binding :=
  d.value.bindings d.line ++ [.declare d.dataType d.name (some d.value) d.line]

/-- A parameter is declared without a value. -/
def Param.binding (p : Param) : Binding := .declare p.dataType p.name none p.line

/-- A step reads its variable and gives it a new value. -/
def Step.bindings (s : Step) : List Binding := [.read s.name s.line, .assign s.name none s.line]

mutual

/-- What a statement does with variables. -/
def Stmt.bindings : Stmt → List Binding
  | .declare d => d.bindings
  | .assign name value line => value.bindings line ++ [.assign name (some value) line]
  | .conditional branches => branchesBindings branches
  | .iterate init condition step body line =>
    init.bindings ++ condition.bindings line ++ step.bindings ++ blockBindings body
  | .whilst condition body line => condition.bindings line ++ blockBindings body
  | .function _ params body => params.map Param.binding ++ blockBindings body
  | .leave _ => []
  | .resume _ => []

/-- What an arm does with variables: its condition comes first. -/
def Branch.bindings : Branch → List Binding
  | .mk _ (some condition) body line => condition.bindings line ++ blockBindings body
  | .mk _ none body _ => blockBindings body

/-- What statements in a row do with variables. -/
def blockBindings : List Stmt → List Binding
  | [] => []
  | s :: rest => s.bindings ++ blockBindings rest

/-- What arms in a row do with variables. -/
def branchesBindings : List Branch → List Binding
  | [] => []
  | b :: rest => b.bindings ++ branchesBindings rest

end

/-- What a program does with variables, from left to right. -/
def Program.bindings (p : Program) : List Binding := blockBindings p

end Enigma
