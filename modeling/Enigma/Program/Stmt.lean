import Enigma.Program.Expr

/-!
# Program/Stmt — statements and programs

A program is a list of statements; conditionals, loops and functions hold lists of statements of
their own. Data types are kept as they were written, since unknown ones are refused later. Each
statement that can be wrong on its own knows its line.
-/

namespace Enigma

/-- A variable with its first value: `enum v-a = 1,`. -/
structure Declaration where
  dataType : String
  name : String
  value : Expr
  line : Nat
deriving Repr, DecidableEq

/-- A parameter of a function. -/
structure Param where
  dataType : String
  name : String
  line : Nat
deriving Repr, DecidableEq

/-- What an `iterate` does to its variable after each round: `v-i++,`. -/
structure Step where
  name : String
  operator : String
  line : Nat
deriving Repr, DecidableEq

/-- What a function returns and what it is called. -/
structure Signature where
  returnType : String
  name : String
deriving Repr, DecidableEq

/-- The arms of a conditional: the first, those after it with a condition, and the one without. -/
inductive BranchKind
  | iff
  | maybe
  | orelse
deriving Repr, DecidableEq

mutual

/-- A statement. -/
inductive Stmt
  | declare (declaration : Declaration)
  | assign (name : String) (value : Expr) (line : Nat)
  | conditional (branches : List Branch)
  | iterate (init : Declaration) (condition : Expr) (step : Step) (body : List Stmt) (line : Nat)
  | whilst (condition : Expr) (body : List Stmt) (line : Nat)
  | function (signature : Signature) (params : List Param) (body : List Stmt)
  | leave (line : Nat)
  | resume (line : Nat)

/-- An arm of a conditional; only `orelse` has no condition. -/
inductive Branch
  | mk (kind : BranchKind) (condition : Option Expr) (body : List Stmt) (line : Nat)

end

/-- A program is the list of its statements. -/
abbrev Program := List Stmt

end Enigma
