import Enigma.Machine.Cell
import Enigma.Proofs.Actions

/-!
# Proofs/Reference — what a program means, without code

The reference run of a program takes its actions in order and keeps, for every variable, the cell
written last.  Expressions are evaluated from left to right: a sum is the sum of cells, any other
operator evaluates both sides and yields the left one, and a variable that was never written is
zero.

A value is stored as it is, unless what the expression yields is a literal itself: then a string
variable takes the literal's text, and a boolean one takes one or zero.

* `Expr.eval` — the value of an expression; `Expr.literal?` — the literal that it yields, if any;
* `Action.run` — one action; `Program.reference` — a whole program.
-/

namespace Enigma

/-- Why the reference run stops. -/
inductive RunError
  | unreadable (numeral : String)
  | mismatch (left right : Cell)

/-- The cells of the variables that were written. -/
abbrev Env := String → Option Cell

namespace Env

/-- The cell of a variable; one that was never written is zero. -/
def read (env : Env) (name : String) : Cell := (env name).getD .zero

/-- The cells with another one for a variable. -/
def write (env : Env) (name : String) (c : Cell) : Env :=
  fun x => if x = name then some c else env x

end Env

namespace LiteralKind

/-- The cell of a literal: integers are tried before reals, and a string loses its quotes. -/
def cell : LiteralKind → String → Except RunError Cell
  | number, text =>
    match Number.int64? text, Number.real? text with
    | some n, _ => .ok (.int n)
    | none, some x => .ok (.real x)
    | none, none => .error (.unreadable text)
  | string, text => .ok (.str (Text.unquoted text))
  | boolean, text => .ok (.int (if text = "yup" then 1 else 0))

/-- The text of a literal where text is asked for: a boolean is a digit there. -/
def written : LiteralKind → String → String
  | boolean, text => if text = "yup" then "1" else "0"
  | number, text => text
  | string, text => text

end LiteralKind

/-- The sum of two cells. -/
def Cell.plus (a b : Cell) : Except RunError Cell :=
  match a.add? b with
  | some c => .ok c
  | none => .error (.mismatch a b)

namespace Expr

/-- The value of an expression. -/
def eval (env : Env) : Expr → Except RunError Cell
  | literal kind text => kind.cell text
  | ident name => .ok (env.read name)
  | group inner => inner.eval env
  | binary left operator right => do
    let a ← left.eval env
    let b ← right.eval env
    if operator = "+" then a.plus b else pure a

/-- The literal that an expression yields, if it yields one and not a variable or a sum. -/
def literal? : Expr → Option (LiteralKind × String)
  | literal kind text => some (kind, text)
  | ident _ => none
  | group inner => inner.literal?
  | binary left operator _ => if operator = "+" then none else left.literal?

end Expr

/-- The cell that a variable of a type takes when an expression with the given value is stored. -/
def DataType.stored (type : DataType) (e : Expr) (value : Cell) : Cell :=
  match type, e.literal? with
  | string, some (kind, text) => .str (Text.unquoted (kind.written text))
  | boolean, some (kind, text) => .int (if kind.written text = "1" then 1 else 0)
  | _, _ => value

/-- What an `iterate` adds to its variable. -/
def Step.delta (s : Step) : Cell := .int (if s.operator = "--" then -1 else 1)

/-- Evaluates an expression and stores it in a variable, where variables have the given types. -/
def Env.store (types : String → Option DataType) (env : Env) (name : String) (e : Expr) :
    Except RunError Env := do
  let c ← e.eval env
  pure (env.write name (((types name).map (·.stored e c)).getD c))

/-- One action of the reference run. -/
def Action.run (types : String → Option DataType) (env : Env) : Action → Except RunError Env
  | declare d => env.store types d.name d.value
  | reserve _ => pure env
  | assign name value => env.store types name value
  | count s => do
    let c ← (env.read s.name).plus s.delta
    pure (env.write s.name c)

namespace Program

/-- The data type that a program declares a variable with. -/
def typeOf? (p : Program) (name : String) : Option DataType :=
  ((p.actions.filterMap Action.head?).lookup name).bind DataType.ofName?

/-- The reference run: the cells that a program leaves in its variables. -/
def reference (p : Program) : Except RunError Env :=
  p.actions.foldlM (Action.run p.typeOf?) fun _ => none

end Program

end Enigma
