import Enigma.Program.Expr
import Enigma.Token.Basic

/-!
# Program/ExprReader — reading an expression one token at a time

    expression  →  operand (OPERATOR operand)*
    operand     →  NUMBER | STRING | BOOLEAN_VAL | VARIABLE | LPAREN expression RPAREN

A reader is at a place in an expression: either an operand comes next, or an operand is behind it
and an operator may follow. For each open parenthesis it keeps what the group will be an operand of.
`feed` takes the next token if it belongs to the expression; `result?` is the expression read, once
all parentheses are closed and an operand is behind.
-/

namespace Enigma

/-- The left operand and the operator that wait for an operand, if any do. -/
abbrev Pending := Option (Expr × String)

/-- The operand with what waited for it. -/
def Pending.complete : Pending → Expr → Expr
  | none, e => e
  | some (left, operator), e => .binary left operator e

/-- A place in an expression. -/
inductive ExprReader.Point
  | operand (pending : Pending)
  | operator (read : Expr)
deriving Repr, DecidableEq

/-- An expression that is being read: the place reached, and what each open parenthesis, innermost
first, will be an operand of. -/
structure ExprReader where
  point : ExprReader.Point := .operand none
  groups : List Pending := []
deriving Repr, DecidableEq

namespace ExprReader

/-- The kinds an operand starts with. -/
def operandStart : List TokenKind := [.number, .string, .boolean, .name, .leftParen]

/-- The expression that a token is by itself. -/
def atom? (t : Token) : Option Expr :=
  match t.kind with
  | .number => some (.literal .number t.text)
  | .string => some (.literal .string t.text)
  | .boolean => some (.literal .boolean t.text)
  | .name => some (.ident t.text)
  | _ => none

/-- Takes a token that belongs to the expression. -/
def feed (r : ExprReader) (t : Token) : Option ExprReader :=
  match r.point with
  | .operand pending =>
    match atom? t with
    | some e => some { r with point := .operator (pending.complete e) }
    | none =>
      if t.kind = .leftParen then some ⟨.operand none, pending :: r.groups⟩ else none
  | .operator e =>
    if t.kind = .operator then some { r with point := .operand (some (e, t.text)) }
    else
      match r.groups with
      | pending :: groups =>
        if t.kind = .rightParen then some ⟨.operator (pending.complete (.group e)), groups⟩
        else none
      | [] => none

/-- The expression read, if it may end here. -/
def result? (r : ExprReader) : Option Expr :=
  match r.point, r.groups with
  | .operator e, [] => some e
  | _, _ => none

/-- The kinds asked for when a token neither belongs to the expression nor may end it; an operator
is never asked for. -/
def expected (r : ExprReader) : List TokenKind :=
  match r.point with
  | .operand _ => operandStart
  | .operator _ => [.rightParen]

end ExprReader

end Enigma
