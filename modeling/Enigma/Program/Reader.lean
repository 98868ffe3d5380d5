import Enigma.Program.ExprReader
import Enigma.Program.Stmt
import Enigma.Program.SyntaxError

/-!
# Program/Reader — reading a program one token at a time

    program      →  statement*
    statement    →  declaration | assignment | conditional | iterate | whilst | function | control
    declaration  →  DATATYPE VARIABLE ASSIGN expression STATEMENT_TERMINATOR
    assignment   →  VARIABLE ASSIGN expression STATEMENT_TERMINATOR
    conditional  →  IFF condition block (MAYBE condition block)* (ORELSE block)?
    iterate      →  ITERATE LPAREN declaration expression step RPAREN block
    step         →  VARIABLE OPERATOR STATEMENT_TERMINATOR            (the operator is ++ or --)
    whilst       →  WHILST condition block
    function     →  FUNCTION_DEF LPAREN (parameter (separator parameter)*)? RPAREN block
    parameter    →  DATATYPE VARIABLE
    separator    →  COMMA | STATEMENT_TERMINATOR
    control      →  (BR | CONT) STATEMENT_TERMINATOR                  (inside a loop)
    condition    →  LPAREN expression RPAREN
    block        →  LCURLY statement* RCURLY

The reader is a machine with a stack. Its stack holds the blocks that are open, each with what it
will belong to; its point says where it is within the innermost statement. Each token either moves
it on (`Reader.feed`) or is refused, and then the point alone says what was expected. A program is
read when the tokens end with no block open and no statement begun.

* `Reader.advance` — one token; `Reader.finish` — the end of the tokens;
* `Program.ofTokens` — the whole list; `Program.parse` — with the source text to quote in errors.
-/

namespace Enigma

/-- What the function head `f-type name` says. -/
def Signature.ofText (text : String) : Signature :=
  let parts := Text.words text
  let returnType := match parts.head? with
    | some first => match first.toList with
      | 'f' :: '-' :: rest => String.ofList rest
      | _ => ""
    | none => ""
  ⟨returnType, (parts[1]?).getD ""⟩

/-- The head of a condition: what the block behind it will be. -/
inductive ConditionUse
  | branch (earlier : List Branch) (kind : BranchKind)
  | whilst

/-- What an open block will belong to. -/
inductive BlockUse
  | branch (earlier : List Branch) (kind : BranchKind) (condition : Option Expr) (line : Nat)
  | iterate (init : Declaration) (condition : Expr) (step : Step) (line : Nat)
  | whilst (condition : Expr) (line : Nat)
  | function (signature : Signature) (params : List Param)

/-- What the block behind a condition will belong to. -/
def ConditionUse.block (use : ConditionUse) (condition : Expr) (line : Nat) : BlockUse :=
  match use with
  | .branch earlier kind => .branch earlier kind (some condition) line
  | .whilst => .whilst condition line

/-- What a declaration will be: a statement, or the start of an `iterate` on the given line. -/
inductive DeclarationUse
  | statement
  | iterate (line : Nat)
deriving Repr, DecidableEq

/-- A block that is open around the innermost one, with the statements before it. -/
structure OpenBlock where
  use : BlockUse
  earlier : List Stmt

/-- A place within the innermost statement. -/
inductive Point
  /-- A statement may start, or the block may close. -/
  | statement
  /-- Arms of a conditional are read; another may follow. -/
  | branches (earlier : List Branch)
  | declarationStart (line : Nat)
  | declarationName (use : DeclarationUse) (dataType : Token)
  | declarationAssign (use : DeclarationUse) (dataType name : Token)
  | declarationValue (use : DeclarationUse) (dataType name : Token) (value : ExprReader)
  | assignmentAssign (name : Token)
  | assignmentValue (name : Token) (value : ExprReader)
  | controlEnd (keyword : Token)
  | conditionOpen (use : ConditionUse) (line : Nat)
  | condition (use : ConditionUse) (line : Nat) (value : ExprReader)
  | iterateOpen (line : Nat)
  | iterateCondition (line : Nat) (init : Declaration) (value : ExprReader)
  | stepOperator (line : Nat) (init : Declaration) (condition : Expr) (name : Token)
  | stepEnd (line : Nat) (init : Declaration) (condition : Expr) (step : Step)
  | iterateClose (line : Nat) (init : Declaration) (condition : Expr) (step : Step)
  | paramsOpen (signature : Signature)
  | paramsStart (signature : Signature)
  | paramName (signature : Signature) (params : List Param) (dataType : Token)
  | paramEnd (signature : Signature) (params : List Param)
  /-- A separator is read; it only counts as one if a parameter follows. -/
  | paramNext (signature : Signature) (params : List Param) (separator : Token)
  | blockOpen (use : BlockUse)

/-- A program that is being read: the open blocks, innermost first, the statements of the innermost
one, and the place within the statement that is being read. -/
structure Reader where
  blocks : List OpenBlock := []
  statements : List Stmt := []
  point : Point := .statement

/-- The kinds a statement starts with. -/
def statementStart : List TokenKind :=
  [.dataType, .name, .iff, .iterate, .whilst, .functionHead, .br, .cont]

/-- The kinds asked for behind an expression that is being read. -/
def ExprReader.expectedBefore (r : ExprReader) (close : TokenKind) : List TokenKind :=
  if r.result?.isSome then [close] else r.expected

/-- The kinds asked for at a place. -/
def Point.expected : Point → List TokenKind
  | statement => statementStart
  | branches _ => statementStart
  | declarationStart _ => [.dataType]
  | declarationName _ _ => [.name]
  | declarationAssign _ _ _ => [.assign]
  | declarationValue _ _ _ value => value.expectedBefore .terminator
  | assignmentAssign _ => [.assign]
  | assignmentValue _ value => value.expectedBefore .terminator
  | controlEnd _ => [.terminator]
  | conditionOpen _ _ => [.leftParen]
  | condition _ _ value => value.expectedBefore .rightParen
  | iterateOpen _ => [.leftParen]
  | iterateCondition _ _ value => value.expectedBefore .name
  | stepOperator _ _ _ _ => [.operator]
  | stepEnd _ _ _ _ => [.terminator]
  | iterateClose _ _ _ _ => [.rightParen]
  | paramsOpen _ => [.leftParen]
  | paramsStart _ => [.rightParen]
  | paramName _ _ _ => [.name]
  | paramEnd _ _ => [.rightParen]
  | paramNext _ _ _ => [.rightParen]
  | blockOpen _ => [.leftCurly]

/-- Whether the open blocks are inside a loop; a function's body starts anew. -/
def inLoop : List OpenBlock → Bool
  | [] => false
  | b :: rest =>
    match b.use with
    | .iterate _ _ _ _ | .whilst _ _ => true
    | .function _ _ => false
    | .branch _ _ _ _ => inLoop rest

namespace Reader

/-- The reader at another place of the same block. -/
def goTo (r : Reader) (point : Point) : Reader := { r with point }

/-- The reader behind a finished statement. -/
def push (r : Reader) (s : Stmt) : Reader :=
  { r with statements := r.statements ++ [s], point := .statement }

/-- Takes a token of the one kind that fits and goes on with it. -/
def take (kind : TokenKind) (t : Token) (next : Reader) : Option Reader :=
  if t.kind = kind then some next else none

/-- Takes a token of an expression, or one of the kind that closes it. -/
def value (e : ExprReader) (t : Token) (more : ExprReader → Reader) (close : TokenKind)
    (next : Expr → Reader) : Option Reader :=
  match e.feed t with
  | some e' => some (more e')
  | none => e.result?.bind fun x => take close t (next x)

/-- Closes the innermost block and finishes what it belongs to; an arm with a condition may be
followed by another. -/
def close (r : Reader) : Option Reader :=
  match r.blocks with
  | [] => none
  | ⟨use, earlier⟩ :: blocks =>
    let outer : Reader := { blocks, statements := earlier }
    match use with
    | .branch arms kind condition line =>
      let arms := arms ++ [.mk kind condition r.statements line]
      match kind with
      | .orelse => some (outer.push (.conditional arms))
      | .iff | .maybe => some (outer.goTo (.branches arms))
    | .iterate init condition step line =>
      some (outer.push (.iterate init condition step r.statements line))
    | .whilst condition line => some (outer.push (.whilst condition r.statements line))
    | .function signature params => some (outer.push (.function signature params r.statements))

/-- Takes the first token of a statement, or the end of the block. -/
def start (r : Reader) (t : Token) : Option Reader :=
  match t.kind with
  | .dataType => some (r.goTo (.declarationName .statement t))
  | .name => some (r.goTo (.assignmentAssign t))
  | .iff => some (r.goTo (.conditionOpen (.branch [] .iff) t.line))
  | .iterate => some (r.goTo (.iterateOpen t.line))
  | .whilst => some (r.goTo (.conditionOpen .whilst t.line))
  | .functionHead => some (r.goTo (.paramsOpen (Signature.ofText t.text)))
  | .br | .cont => if inLoop r.blocks then some (r.goTo (.controlEnd t)) else none
  | .rightCurly => r.close
  | _ => none

/-- Finishes a declaration. -/
def declared (r : Reader) (use : DeclarationUse) (d : Declaration) : Reader :=
  match use with
  | .statement => r.push (.declare d)
  | .iterate line => r.goTo (.iterateCondition line d {})

/-- Takes the next token, if it fits the place. -/
def feed (r : Reader) (t : Token) : Option Reader :=
  match r.point with
  | .statement => r.start t
  | .branches arms =>
    match t.kind with
    | .maybe => some (r.goTo (.conditionOpen (.branch arms .maybe) t.line))
    | .orelse => some (r.goTo (.blockOpen (.branch arms .orelse none t.line)))
    | _ => (r.push (.conditional arms)).start t
  | .declarationStart line => take .dataType t (r.goTo (.declarationName (.iterate line) t))
  | .declarationName use dataType => take .name t (r.goTo (.declarationAssign use dataType t))
  | .declarationAssign use dataType name =>
    take .assign t (r.goTo (.declarationValue use dataType name {}))
  | .declarationValue use dataType name e =>
    value e t (fun e => r.goTo (.declarationValue use dataType name e)) .terminator
      fun x => r.declared use ⟨dataType.text, name.text, x, dataType.line⟩
  | .assignmentAssign name => take .assign t (r.goTo (.assignmentValue name {}))
  | .assignmentValue name e =>
    value e t (fun e => r.goTo (.assignmentValue name e)) .terminator
      fun x => r.push (.assign name.text x name.line)
  | .controlEnd keyword =>
    take .terminator t
      (r.push (if keyword.kind = .br then .leave keyword.line else .resume keyword.line))
  | .conditionOpen use line => take .leftParen t (r.goTo (.condition use line {}))
  | .condition use line e =>
    value e t (fun e => r.goTo (.condition use line e)) .rightParen
      fun x => r.goTo (.blockOpen (use.block x line))
  | .iterateOpen line => take .leftParen t (r.goTo (.declarationStart line))
  | .iterateCondition line init e =>
    value e t (fun e => r.goTo (.iterateCondition line init e)) .name
      fun x => r.goTo (.stepOperator line init x t)
  | .stepOperator line init condition name =>
    if t.text = "++" ∨ t.text = "--" then
      take .operator t (r.goTo (.stepEnd line init condition ⟨name.text, t.text, name.line⟩))
    else none
  | .stepEnd line init condition step =>
    take .terminator t (r.goTo (.iterateClose line init condition step))
  | .iterateClose line init condition step =>
    take .rightParen t (r.goTo (.blockOpen (.iterate init condition step line)))
  | .paramsOpen signature => take .leftParen t (r.goTo (.paramsStart signature))
  | .paramsStart signature =>
    match t.kind with
    | .dataType => some (r.goTo (.paramName signature [] t))
    | .rightParen => some (r.goTo (.blockOpen (.function signature [])))
    | _ => none
  | .paramName signature params dataType =>
    take .name t
      (r.goTo (.paramEnd signature (params ++ [⟨dataType.text, t.text, dataType.line⟩])))
  | .paramEnd signature params =>
    match t.kind with
    | .comma | .terminator => some (r.goTo (.paramNext signature params t))
    | .rightParen => some (r.goTo (.blockOpen (.function signature params)))
    | _ => none
  | .paramNext signature params _ =>
    take .dataType t (r.goTo (.paramName signature params t))
  | .blockOpen use =>
    take .leftCurly t { blocks := ⟨use, r.statements⟩ :: r.blocks }

/-- Why a token that does not fit is refused. A separator without a parameter behind it is itself
what does not fit, and a token for the end of input counts as the end where no block is open. -/
def refusal (r : Reader) (t : Token) : Mismatch :=
  match r.point with
  | .statement | .branches _ =>
    match t.kind with
    | .eof => if r.blocks.isEmpty then .ended statementStart else .unexpected t [.rightCurly]
    | .br | .cont => .misplaced t
    | _ => .unexpected t statementStart
  | .paramNext _ _ separator => .unexpected separator r.point.expected
  | point => .unexpected t point.expected

/-- What is missing when the tokens end. -/
def missing (r : Reader) : Mismatch :=
  match r.point with
  | .statement | .branches _ => .ended [.rightCurly]
  | .paramNext _ _ separator => .unexpected separator r.point.expected
  | point => .ended point.expected

/-- Reads one token. -/
def advance (r : Reader) (t : Token) : Except Mismatch Reader :=
  match r.feed t with
  | some r' => .ok r'
  | none => .error (r.refusal t)

/-- The program read, if it may end here. -/
def finish (r : Reader) : Except Mismatch Program :=
  match r.blocks, r.point with
  | [], .statement => .ok r.statements
  | [], .branches arms => .ok (r.statements ++ [.conditional arms])
  | _, _ => .error r.missing

end Reader

namespace Program

/-- Reads a list of tokens as a program. -/
def ofTokens (tokens : List Token) : Except Mismatch Program := do
  let r ← tokens.foldlM Reader.advance {}
  r.finish

/-- Reads a list of tokens as a program; errors quote the source text. -/
def parse (tokens : List Token) (source : String) : Except SyntaxError Program :=
  (ofTokens tokens).mapError fun m =>
    m.toSyntaxError source ((tokens.getLast?.map Token.line).getD 0)

end Program

end Enigma
