import Enigma.Assembly.Instruction
import Enigma.Program.Stmt
import Enigma.Symbol.Table

/-!
# Assembly/Generate — the instructions of a program

| statement            | instructions                                                      |
|----------------------|-------------------------------------------------------------------|
| `enum v-a = e,`      | those of `e`, then a load and a store                             |
| `efl v-a = e,`       | the same for reals                                                |
| `estr v-a = e,`      | those of `e`, then the text itself or a move                      |
| `iff (c) {s} …`      | a test between comments, then those of `s`, for each arm          |
| `whilst (c) {s}`     | a label, a test, those of `s`, a label                            |
| `iterate (d c i) {s}`| those of `d`, a label, a test, those of `s`, a label, `i`, a label|
| `br,` and `cont,`    | a jump to a label of the innermost loop                           |

Of the operators only `+` is computed, into a fresh cell behind the variables; for any other a
comment is left and the left operand stands for the result. Each part is generated in turn and the
instructions are put one behind the other; the counters are threaded through.

* `Expr.generate`, `Stmt.generate` — the parts; `Program.generate` — a program, from fresh counters.
-/

namespace Enigma

/-- What is counted while instructions are generated, and the last sum of two numerals. -/
structure Counters where
  memory : Allocator := {}
  temporaries : Allocator
  nextLabel : Nat := 1
  folded : Option Value := none
deriving DecidableEq

/-- Generation: counters are threaded, and a fault breaks it off. -/
abbrev Gen := StateT Counters (Except Fault)

/-- The labels of a loop: where the next round starts, and behind the loop. -/
structure LoopLabels where
  next : String
  stop : String
deriving Repr, DecidableEq

namespace Gen

/-- Breaks off. -/
def fail {α : Type} (fault : Fault) : Gen α := fun _ => .error fault

/-- A label that was not used before. -/
def label : Gen String := fun c =>
  if c.nextLabel + 1 < Number.addressLimit then
    .ok ("L" ++ toString c.nextLabel, { c with nextLabel := c.nextLabel + 1 })
  else .error .overflow

/-- A cell for an intermediate result. -/
def temporary : Gen Nat := fun c =>
  match c.temporaries.allocate with
  | .ok (location, temporaries) => .ok (location, { c with temporaries })
  | .error fault => .error fault

/-- The address of a variable that is declared now; the table must have it there. -/
def variableCell (t : SymbolTable) (name : String) : Gen Nat := fun c =>
  match c.memory.allocate with
  | .ok (location, memory) =>
    if t.location? name = some location then .ok (location, { c with memory })
    else .error (.diverged name)
  | .error fault => .error fault

/-- What the table knows of a variable. -/
def symbol (t : SymbolTable) (name : String) : Gen Symbol :=
  match t.get? name with
  | some s => pure s
  | none => fail .undeclared

/-- Keeps the sum of two numerals. -/
def fold (sum : Option Value) : Gen Unit := modify fun c => { c with folded := sum }

end Gen

/-- The value of a numeral that stands by itself. -/
def Expr.numeral? : Expr → Option Value
  | .literal .number text => Value.ofLiteral? .number text
  | _ => none

/-- The instructions that add two operands into a cell. Two numerals need one register less. -/
def sumCode (numerals : Bool) (a b : Operand) (cell : Nat) : List Instruction :=
  if numerals then [.load a "r1", .add b "r1" "r2", .store "r2" cell]
  else [.load a "r1", .load b "r2", .add (.register "r2") "r1" "r3", .store "r3" cell]

/-- The instructions of an expression, and where its value can be taken from. -/
def Expr.generate (t : SymbolTable) : Expr → Gen (List Instruction × Operand)
  | .literal .boolean text => pure ([], .immediate (if text = "yup" then "1" else "0"))
  | .literal _ text => pure ([], .immediate text)
  | .ident name => do
    let s ← Gen.symbol t name
    pure ([], .memory s.location)
  | .group inner => inner.generate t
  | .binary left operator right => do
    let (leftCode, a) ← left.generate t
    let (rightCode, b) ← right.generate t
    if operator = "+" then
      let cell ← Gen.temporary
      match left.numeral?, right.numeral? with
      | some x, some y =>
        Gen.fold (x.add? y)
        pure (leftCode ++ rightCode ++ sumCode true a b cell, .memory cell)
      | _, _ => pure (leftCode ++ rightCode ++ sumCode false a b cell, .memory cell)
    else
      pure (leftCode ++ rightCode ++ [.comment ("unsupported operator '" ++ operator ++ "'")], a)

/-- An operand as a boolean is stored from it: a constant is one or zero. -/
def Operand.toBoolean : Operand → Operand
  | immediate text => immediate (if text = "1" then "1" else "0")
  | operand => operand

/-- The instructions that store an operand the way values of the type are stored. -/
def DataType.storeCode : DataType → Operand → Nat → List Instruction
  | integer, operand, address => [.load operand "r1", .store "r1" address]
  | boolean, operand, address => [.load operand.toBoolean "r1", .store "r1" address]
  | real, operand, address => [.loadReal operand "fr1", .storeReal "fr1" address]
  | string, .immediate text, address => [.str (Text.unquoted text) address]
  | string, operand, address => [.move operand address]

/-- The instructions of a declaration. -/
def Declaration.generate (t : SymbolTable) (d : Declaration) : Gen (List Instruction) := do
  let location ← Gen.variableCell t d.name
  let s ← Gen.symbol t d.name
  let (code, operand) ← d.value.generate t
  pure (code ++ s.dataType.storeCode operand location)

/-- The instructions that count a variable up or down. -/
def Step.generate (t : SymbolTable) (s : Step) : Gen (List Instruction) := do
  let v ← Gen.symbol t s.name
  let delta := if s.operator = "--" then "-1" else "1"
  pure [.load (.memory v.location) "r1", .add (.immediate delta) "r1" "r2", .store "r2" v.location]

/-- The word for an arm in comments. -/
def BranchKind.word : BranchKind → String
  | iff => "iff"
  | maybe => "maybe"
  | orelse => "orelse"

/-- The comments and the test in front of an arm's instructions. -/
def BranchKind.header (kind : BranchKind) (condition : Option Expr) : List Instruction :=
  [.comment ("Begin " ++ kind.word ++ " condition")] ++
    (condition.map fun e => Instruction.test e.text).toList ++
    [.comment ("End " ++ kind.word ++ " condition")]

mutual

/-- The instructions of a statement; `loop` has the labels of the loop around it. -/
def Stmt.generate (t : SymbolTable) (loop : Option LoopLabels) : Stmt → Gen (List Instruction)
  | .declare d => d.generate t
  | .assign name value _ => do
    let s ← Gen.symbol t name
    let (code, operand) ← value.generate t
    pure (code ++ s.dataType.storeCode operand s.location)
  | .conditional branches => generateBranches t loop branches
  | .iterate init condition step body _ => do
    let initCode ← init.generate t
    let start ← Gen.label
    let next ← Gen.label
    let stop ← Gen.label
    let bodyCode ← generateBlock t (some ⟨next, stop⟩) body
    let stepCode ← step.generate t
    pure ([.comment "Begin ITERATE loop"] ++ initCode ++
      [.label start, .test condition.text, .comment "ITERATE body"] ++ bodyCode ++
      [.label next] ++ stepCode ++
      [.comment "End ITERATE body", .label stop, .comment "End ITERATE loop"])
  | .whilst condition body _ => do
    let start ← Gen.label
    let stop ← Gen.label
    let bodyCode ← generateBlock t (some ⟨start, stop⟩) body
    pure ([.comment "Begin WHILST loop", .label start, .test condition.text,
      .comment "WHILST body"] ++ bodyCode ++
      [.comment "End WHILST body", .label stop, .comment "End WHILST loop"])
  | .function signature params body => do
    let head := "FUNCTION f-" ++ signature.returnType ++ " " ++ signature.name
    params.forM fun p => discard (Gen.variableCell t p.name)
    let bodyCode ← generateBlock t loop body
    pure ([.comment ("Begin " ++ head)] ++ bodyCode ++ [.comment ("End " ++ head)])
  | .leave _ =>
    match loop with
    | some labels => pure [.jump labels.stop]
    | none => Gen.fail .strayLeave
  | .resume _ =>
    match loop with
    | some labels => pure [.jump labels.next]
    | none => Gen.fail .strayResume

/-- The instructions of an arm. -/
def Branch.generate (t : SymbolTable) (loop : Option LoopLabels) : Branch → Gen (List Instruction)
  | .mk kind condition body _ => do
    let bodyCode ← generateBlock t loop body
    pure (kind.header condition ++ bodyCode)

/-- The instructions of statements in a row. -/
def generateBlock (t : SymbolTable) (loop : Option LoopLabels) : List Stmt → Gen (List Instruction)
  | [] => pure []
  | s :: rest => do
    let code ← s.generate t loop
    let restCode ← generateBlock t loop rest
    pure (code ++ restCode)

/-- The instructions of arms in a row. -/
def generateBranches (t : SymbolTable) (loop : Option LoopLabels) :
    List Branch → Gen (List Instruction)
  | [] => pure []
  | b :: rest => do
    let code ← b.generate t loop
    let restCode ← generateBranches t loop rest
    pure (code ++ restCode)

end

/-- What generating a program gives: its instructions, and the last sum of two numerals in it. -/
structure Generated where
  instructions : List Instruction
  folded : Option Value

/-- Generates a program from fresh counters: variables from the base on, intermediate results behind
the variables of the table. -/
def Program.generate (t : SymbolTable) (p : Program) : Except Fault Generated := do
  let (instructions, counters) ← (generateBlock t none p).run { temporaries := ⟨t.nextLocation⟩ }
  pure ⟨instructions, counters.folded⟩

end Enigma
