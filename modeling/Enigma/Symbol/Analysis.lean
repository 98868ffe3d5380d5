import Enigma.Program.Binding
import Enigma.Symbol.Table

/-!
# Symbol/Analysis — checking a program's variables and making its table

The bindings of a program are taken in order. A declaration needs a well-formed name, a known data
type and a name that is new, checked in this order; an assignment or a read needs a declared
variable. Values are followed as far as they are known. Checking stops at the first binding that is
refused, with the table as it was before it.

* `SymbolTable.bind` — one binding; `SymbolTable.bindAll` — a list of them;
* `Program.analyze` — a whole program, checked; `Program.outline` — the table of a program that is
  not checked: what would be refused is passed over.
-/

namespace Enigma

/-- Why a program's use of variables is refused. -/
inductive SemanticError
  | invalidName (name : String) (line : Nat)
  | invalidDataType (dataType name : String) (line : Nat)
  | alreadyDeclared (name : String) (line : Nat)
  | usedBeforeDeclaration (name : String) (line : Nat)
deriving Repr, DecidableEq

/-- What is reported for it. -/
def SemanticError.message : SemanticError → String
  | invalidName name line => s!"Invalid variable name '{name}' at line {line}"
  | invalidDataType dataType name line =>
    s!"Invalid data type '{dataType}' for '{name}' at line {line}"
  | alreadyDeclared name line => s!"Variable '{name}' already declared (line {line})"
  | usedBeforeDeclaration name line => s!"Variable '{name}' used before declaration (line {line})"

/-- Whether a variable may have this name: `v-`, an ASCII letter, and ASCII letters and digits. -/
def isValidName (name : String) : Bool :=
  match name.toList with
  | 'v' :: '-' :: c :: rest => !c.isDigit && (c :: rest).all Char.isAlphanum
  | _ => false

namespace SymbolTable

/-- Checks that a variable is declared. -/
def requireDeclared (t : SymbolTable) (name : String) (line : Nat) :
    Except (Stop SemanticError) Unit :=
  if t.contains name then .ok () else .error (.refused (.usedBeforeDeclaration name line))

/-- The data type of a new variable, if its name and the type's are in order. -/
def checkDeclaration (dataType name : String) (line : Nat) : Except (Stop SemanticError) DataType :=
  if isValidName name then
    match DataType.ofName? dataType with
    | some type => .ok type
    | none => .error (.refused (.invalidDataType dataType name line))
  else .error (.refused (.invalidName name line))

/-- Takes one binding. -/
def bind (t : SymbolTable) : Binding → Except (Stop SemanticError) SymbolTable
  | .declare dataType name value line => do
    let type ← checkDeclaration dataType name line
    match t.declare name type (value.bind t.constant?) with
    | .ok (_, t') => .ok t'
    | .error (.refused _) => .error (.refused (.alreadyDeclared name line))
    | .error (.fault fault) => .error (.fault fault)
  | .assign name value line => do
    t.requireDeclared name line
    match value with
    | some e => .ok (t.setValue name (t.constant? e))
    | none => .ok t
  | .read name line => do
    t.requireDeclared name line
    .ok t

/-- Takes bindings in order up to the first that is refused: the table before it, and why. -/
def bindAll (t : SymbolTable) : List Binding → SymbolTable × Option (Stop SemanticError)
  | [] => (t, none)
  | b :: rest =>
    match t.bind b with
    | .ok t' => t'.bindAll rest
    | .error stop => (t, some stop)

/-- Takes one binding without checking it: a declaration of an unknown type or of a name that is
taken changes nothing, and neither does an assignment to an unknown name. -/
def sketch (t : SymbolTable) : Binding → Except Fault SymbolTable
  | .declare dataType name value _ =>
    match DataType.ofName? dataType with
    | some type =>
      match t.declare name type (value.bind t.constant?) with
      | .ok (_, t') => .ok t'
      | .error (.refused _) => .ok t
      | .error (.fault fault) => .error fault
    | none => .ok t
  | .assign name (some e) _ =>
    if t.contains name then .ok (t.setValue name (t.constant? e)) else .ok t
  | .assign _ none _ => .ok t
  | .read _ _ => .ok t

end SymbolTable

namespace Program

/-- Checks a program against the variables of a table. -/
def analyzeIn (t : SymbolTable) (p : Program) : SymbolTable × Option (Stop SemanticError) :=
  t.bindAll (bindings p)

/-- Checks a program and makes its table. -/
def analyze (p : Program) : Except (Stop SemanticError) SymbolTable :=
  match analyzeIn {} p with
  | (t, none) => .ok t
  | (_, some stop) => .error stop

/-- The table of a program that is not checked. -/
def outline (p : Program) : Except Fault SymbolTable :=
  (bindings p).foldlM SymbolTable.sketch {}

end Program

end Enigma
