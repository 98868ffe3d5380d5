/-!
# Program/Expr — expressions

An expression is a literal or a variable with the text it was written as, two expressions with an
operator between them, or an expression in parentheses. Operators are kept as text and associate to
the left; parentheses are kept too, so that an expression prints as it was written.

* `Expr.text` — its tokens with single spaces between them;
* `Expr.reads` — the variables it reads, left to right.
-/

namespace Enigma

/-- What a literal is. -/
inductive LiteralKind
  | number
  | string
  | boolean
deriving Repr, DecidableEq

inductive Expr
  | literal (kind : LiteralKind) (text : String)
  | ident (name : String)
  | binary (left : Expr) (operator : String) (right : Expr)
  | group (inner : Expr)
deriving Repr, DecidableEq

namespace Expr

/-- The tokens of the expression, with single spaces between them. -/
def text : Expr → String
  | literal _ text => text
  | ident name => name
  | binary left operator right => left.text ++ " " ++ operator ++ " " ++ right.text
  | group inner => "( " ++ inner.text ++ " )"

/-- The variables the expression reads, left to right. -/
def reads : Expr → List String
  | literal _ _ => []
  | ident name => [name]
  | binary left _ right => left.reads ++ right.reads
  | group inner => inner.reads

end Expr

end Enigma
