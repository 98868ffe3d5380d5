import Enigma.Symbol.Allocator
import Enigma.Symbol.Value

/-!
# Symbol/Table — variables with their types, values and addresses

A table lists variables in the order of their declaration. A variable is declared once; its type and
its address never change, its value may. There is one scope, so blocks share their variables.

* `SymbolTable.declare`, `SymbolTable.set` — the two changes;
* `SymbolTable.get?` and its companions — the views;
* `SymbolTable.constant?` — the value of an expression, as far as the table knows it;
* `SymbolTable.listing` — the table as text.
-/

namespace Enigma

/-- Where a variable can be seen. -/
inductive Scope
  | global
deriving Repr, DecidableEq

/-- A scope as it is shown. -/
def Scope.name : Scope → String
  | global => "global"

/-- A variable in the table. -/
structure Symbol where
  name : String
  dataType : DataType
  value : Option Value
  scope : Scope := .global
  location : Nat
deriving DecidableEq

/-- The variables of a program, in the order of declaration, and the addresses left. -/
structure SymbolTable where
  symbols : List Symbol := []
  memory : Allocator := {}
deriving DecidableEq

/-- Why a change to the table is refused. -/
inductive TableError
  | alreadyExists
  | doesNotExist
deriving Repr, DecidableEq

/-- What is reported for a refused change. -/
def TableError.message : TableError → String
  | alreadyExists => "Variable already exists!"
  | doesNotExist => "Variable does not exist!"

namespace SymbolTable

/-- The variable with the given name. -/
def get? (t : SymbolTable) (name : String) : Option Symbol := t.symbols.find? (·.name == name)

/-- Whether the variable is declared. -/
def contains (t : SymbolTable) (name : String) : Bool := (t.get? name).isSome

/-- The address of a variable. -/
def location? (t : SymbolTable) (name : String) : Option Nat := (t.get? name).map Symbol.location

/-- The data type of a variable. -/
def dataType? (t : SymbolTable) (name : String) : Option DataType :=
  (t.get? name).map Symbol.dataType

/-- The first address that no variable has. -/
def nextLocation (t : SymbolTable) : Nat := t.memory.next

/-- Declares a variable at the next free address. -/
def declare (t : SymbolTable) (name : String) (dataType : DataType) (value : Option Value) :
    Except (Stop TableError) (Nat × SymbolTable) :=
  if t.contains name then .error (.refused .alreadyExists)
  else
    match t.memory.allocate with
    | .ok (location, memory) =>
      .ok (location, ⟨t.symbols ++ [{ name, dataType, value, location }], memory⟩)
    | .error fault => .error (.fault fault)

/-- The table with another value for the variables of that name. -/
def setValue (t : SymbolTable) (name : String) (value : Option Value) : SymbolTable :=
  { t with symbols := t.symbols.map fun s => if s.name == name then { s with value } else s }

/-- Gives a declared variable another value. -/
def set (t : SymbolTable) (name : String) (value : Option Value) : Except TableError SymbolTable :=
  if t.contains name then .ok (t.setValue name value) else .error .doesNotExist

/-- The value of an expression, if the table knows enough: literals, variables with a value, and
sums of numbers. -/
def constant? (t : SymbolTable) : Expr → Option Value
  | .literal kind text => Value.ofLiteral? kind text
  | .ident name => (t.get? name).bind Symbol.value
  | .group inner => t.constant? inner
  | .binary left operator right =>
    if operator = "+" then
      match t.constant? left, t.constant? right with
      | some a, some b => a.add? b
      | _, _ => none
    else none

/-- One line of the listing: five columns, each as wide as its head allows. -/
def row (name dataType value scope location : String) : String :=
  " ".intercalate [Text.column 20 name, Text.column 10 dataType, Text.column 15 value,
    Text.column 10 scope, Text.column 15 location] ++ "\n"

/-- The line of the listing that shows a variable. -/
def symbolRow (s : Symbol) : String :=
  row s.name s.dataType.name ((s.value.map Value.text).getD "None") s.scope.name
    (toString s.location)

/-- The table as text: a title, a head, a rule and a line for each variable. -/
def listing (t : SymbolTable) : String :=
  "Symbol Table:\n" ++ row "Identifier" "Data Type" "Value" "Scope" "Memory Location" ++
    String.ofList (List.replicate 70 '-') ++ "\n" ++ String.join (t.symbols.map symbolRow)

end SymbolTable

end Enigma
