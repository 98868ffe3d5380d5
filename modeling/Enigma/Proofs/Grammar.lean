import Enigma.Program.Stmt
import Enigma.Text.Blank
import Enigma.Token.Basic

/-!
# Proofs/Grammar — which tokens make which program

The grammar as relations between token lists and the trees they derive, one relation for each
production, with no reader in sight.  A token enters a derivation by its kind, by its text where the
tree keeps it, and by its line where the tree keeps that: the line of a construct is the line of its
first token, and the line of a step is the line of its variable.

* `Expression`, `Term` — operators of any text, associated to the left;
* `Head` — what the text of a function head says: its words, told by their characters;
* `Statement`, `Branches`, `Block`, `Statements` — statements, indexed by whether the loop controls
  are allowed: the body of a loop allows them, the body of a function starts anew, and the arms of a
  conditional keep what they find;
* `Derives` — a whole program, outside of every loop.
-/

namespace Enigma

namespace Grammar

/-! ## Expressions -/

mutual

/-- `expression → term (OPERATOR term)*` -/
inductive Expression : List Token → Expr → Prop
  | term {ts : List Token} {e : Expr} (h : Term ts e) : Expression ts e
  | binary {ts us : List Token} {left right : Expr} {op : Token} (hl : Expression ts left)
      (hop : op.kind = .operator) (hr : Term us right) :
      Expression (ts ++ op :: us) (.binary left op.text right)

/-- `term → NUMBER | STRING | BOOLEAN_VAL | VARIABLE | LPAREN expression RPAREN` -/
inductive Term : List Token → Expr → Prop
  | number {t : Token} (h : t.kind = .number) : Term [t] (.literal .number t.text)
  | string {t : Token} (h : t.kind = .string) : Term [t] (.literal .string t.text)
  | boolean {t : Token} (h : t.kind = .boolean) : Term [t] (.literal .boolean t.text)
  | name {t : Token} (h : t.kind = .name) : Term [t] (.ident t.text)
  | group {ts : List Token} {e : Expr} {l r : Token} (hl : l.kind = .leftParen)
      (h : Expression ts e) (hr : r.kind = .rightParen) : Term (l :: (ts ++ [r])) (.group e)

end

/-- `condition → LPAREN expression RPAREN` -/
inductive Condition : List Token → Expr → Prop
  | mk {ts : List Token} {e : Expr} {l r : Token} (hl : l.kind = .leftParen)
      (h : Expression ts e) (hr : r.kind = .rightParen) : Condition (l :: (ts ++ [r])) e

/-! ## Parts of statements -/

/-- `declaration → DATATYPE VARIABLE ASSIGN expression STATEMENT_TERMINATOR` -/
inductive Declares : List Token → Declaration → Prop
  | mk {ts : List Token} {e : Expr} {type name assign stop : Token}
      (htype : type.kind = .dataType) (hname : name.kind = .name)
      (hassign : assign.kind = .assign) (h : Expression ts e) (hstop : stop.kind = .terminator) :
      Declares (type :: name :: assign :: (ts ++ [stop])) ⟨type.text, name.text, e, type.line⟩

/-- `step → VARIABLE OPERATOR STATEMENT_TERMINATOR`, where the operator is `++` or `--` -/
inductive Steps : List Token → Step → Prop
  | mk {name op stop : Token} (hname : name.kind = .name) (hop : op.kind = .operator)
      (htext : op.text = "++" ∨ op.text = "--") (hstop : stop.kind = .terminator) :
      Steps [name, op, stop] ⟨name.text, op.text, name.line⟩

/-- `parameters → parameter (separator parameter)*`, where a parameter is `DATATYPE VARIABLE` and a
separator `COMMA | STATEMENT_TERMINATOR` -/
inductive Parameters : List Token → List Param → Prop
  | one {type name : Token} (htype : type.kind = .dataType) (hname : name.kind = .name) :
      Parameters [type, name] [⟨type.text, name.text, type.line⟩]
  | more {ts : List Token} {params : List Param} {separator type name : Token}
      (h : Parameters ts params)
      (hseparator : separator.kind = .comma ∨ separator.kind = .terminator)
      (htype : type.kind = .dataType) (hname : name.kind = .name) :
      Parameters (ts ++ [separator, type, name]) (params ++ [⟨type.text, name.text, type.line⟩])

/-- `parameters?` -/
inductive ParameterList : List Token → List Param → Prop
  | none : ParameterList [] []
  | some {ts : List Token} {params : List Param} (h : Parameters ts params) :
      ParameterList ts params

/-! ## Function heads

A function head is a single token, and its text has parts of its own: the first word names the
return type and the second word the function.  Any text has them, for a part that is not there is
empty. -/

/-- `text → BLANK* (word rest)?`, where the word goes up to the next blank or to the end -/
inductive FirstWord : List Char → List Char → List Char → Prop
  | none {blanks : List Char} (hb : blanks.all Text.isBlank = true) : FirstWord blanks [] []
  | some {blanks word rest : List Char} (hb : blanks.all Text.isBlank = true) (hne : word ≠ [])
      (hw : word.all (!Text.isBlank ·) = true) (hr : rest.head?.all Text.isBlank = true) :
      FirstWord (blanks ++ (word ++ rest)) word rest

/-- `word → "f-" type`, and a word that starts in another way names no type -/
inductive ReturnType : List Char → List Char → Prop
  | named (type : List Char) : ReturnType ('f' :: '-' :: type) type
  | unnamed {word : List Char} (h : ∀ type, word ≠ 'f' :: '-' :: type) : ReturnType word []

/-- `head → first name rest`, where the first word names the return type -/
inductive Head : List Char → Signature → Prop
  | mk {text first type name behind rest : List Char} (hf : FirstWord text first behind)
      (ht : ReturnType first type) (hn : FirstWord behind name rest) :
      Head text ⟨String.ofList type, String.ofList name⟩

/-! ## Statements -/

mutual

/-- `statement → declaration | assignment | conditional | iterate | whilst | function | control`,
where the flag says whether a control may stand here -/
inductive Statement : Bool → List Token → Stmt → Prop
  | declaration {inLoop : Bool} {ts : List Token} {d : Declaration} (h : Declares ts d) :
      Statement inLoop ts (.declare d)
  | assignment {inLoop : Bool} {ts : List Token} {e : Expr} {name assign stop : Token}
      (hname : name.kind = .name) (hassign : assign.kind = .assign) (h : Expression ts e)
      (hstop : stop.kind = .terminator) :
      Statement inLoop (name :: assign :: (ts ++ [stop])) (.assign name.text e name.line)
  | conditional {inLoop : Bool} {ts : List Token} {branches : List Branch}
      (h : Branches inLoop ts branches) : Statement inLoop ts (.conditional branches)
  | conditionalElse {inLoop : Bool} {ts us : List Token} {branches : List Branch}
      {keyword : Token} {body : List Stmt} (h : Branches inLoop ts branches)
      (hk : keyword.kind = .orelse) (hb : Block inLoop us body) :
      Statement inLoop (ts ++ keyword :: us)
        (.conditional (branches ++ [.mk .orelse none body keyword.line]))
  | iterate {inLoop : Bool} {ts us vs ws : List Token} {keyword l r : Token} {init : Declaration}
      {e : Expr} {step : Step} {body : List Stmt} (hk : keyword.kind = .iterate)
      (hl : l.kind = .leftParen) (hi : Declares ts init) (hc : Expression us e) (hs : Steps vs step)
      (hr : r.kind = .rightParen) (hb : Block true ws body) :
      Statement inLoop (keyword :: l :: (ts ++ (us ++ (vs ++ r :: ws))))
        (.iterate init e step body keyword.line)
  | whilst {inLoop : Bool} {ts us : List Token} {keyword : Token} {e : Expr} {body : List Stmt}
      (hk : keyword.kind = .whilst) (hc : Condition ts e) (hb : Block true us body) :
      Statement inLoop (keyword :: (ts ++ us)) (.whilst e body keyword.line)
  | function {inLoop : Bool} {ts us : List Token} {head l r : Token} {signature : Signature}
      {params : List Param} {body : List Stmt} (hk : head.kind = .functionHead)
      (hs : Head head.text.toList signature) (hl : l.kind = .leftParen)
      (hp : ParameterList ts params) (hr : r.kind = .rightParen) (hb : Block false us body) :
      Statement inLoop (head :: l :: (ts ++ r :: us)) (.function signature params body)
  | leave {keyword stop : Token} (hk : keyword.kind = .br) (hstop : stop.kind = .terminator) :
      Statement true [keyword, stop] (.leave keyword.line)
  | resume {keyword stop : Token} (hk : keyword.kind = .cont) (hstop : stop.kind = .terminator) :
      Statement true [keyword, stop] (.resume keyword.line)

/-- `branches → IFF condition block (MAYBE condition block)*` -/
inductive Branches : Bool → List Token → List Branch → Prop
  | iff {inLoop : Bool} {ts us : List Token} {keyword : Token} {e : Expr} {body : List Stmt}
      (hk : keyword.kind = .iff) (hc : Condition ts e) (hb : Block inLoop us body) :
      Branches inLoop (keyword :: (ts ++ us)) [.mk .iff (some e) body keyword.line]
  | maybe {inLoop : Bool} {ts us vs : List Token} {branches : List Branch} {keyword : Token}
      {e : Expr} {body : List Stmt} (h : Branches inLoop ts branches)
      (hk : keyword.kind = .maybe) (hc : Condition us e) (hb : Block inLoop vs body) :
      Branches inLoop (ts ++ keyword :: (us ++ vs))
        (branches ++ [.mk .maybe (some e) body keyword.line])

/-- `block → LCURLY statement* RCURLY` -/
inductive Block : Bool → List Token → List Stmt → Prop
  | mk {inLoop : Bool} {ts : List Token} {l r : Token} {body : List Stmt}
      (hl : l.kind = .leftCurly) (h : Statements inLoop ts body) (hr : r.kind = .rightCurly) :
      Block inLoop (l :: (ts ++ [r])) body

/-- `statement*` -/
inductive Statements : Bool → List Token → List Stmt → Prop
  | nil {inLoop : Bool} : Statements inLoop [] []
  | cons {inLoop : Bool} {ts us : List Token} {s : Stmt} {rest : List Stmt}
      (h : Statement inLoop ts s) (hrest : Statements inLoop us rest) :
      Statements inLoop (ts ++ us) (s :: rest)

end

/-- `program → statement*`, outside of every loop -/
def Derives (tokens : List Token) (p : Program) : Prop := Statements false tokens p

/-- **One more statement** behind those derived. -/
theorem Statements.concat {inLoop : Bool} {ts us : List Token} {body : List Stmt} {s : Stmt}
    (h : Statements inLoop ts body) (hs : Statement inLoop us s) :
    Statements inLoop (ts ++ us) (body ++ [s]) := by
  induction body generalizing ts with
  | nil =>
    cases h
    simpa using Statements.cons hs .nil
  | cons s' rest ih =>
    cases h with
    | cons hs' hrest =>
      rw [List.append_assoc]
      exact .cons hs' (ih hrest)

end Grammar

end Enigma
