/-!
# Token/Basic — the kinds of token, and a token with its place in the text

A token is a piece of the text with the kind it was recognised as. Positions count lines and columns
from one, columns in characters; a span counts UTF-8 bytes from zero. A token made by hand has no
span, and is then compared with others by kind and text alone (`Token.agrees`).
-/

namespace Enigma

/-- The kinds of token, in the order in which they are tried: keywords come before names,
two-character operators before `=`, and `error` takes whatever is left. -/
inductive TokenKind
  | comment
  | blank
  | dataType
  | boolean
  | functionHead
  | iff
  | maybe
  | orelse
  | iterate
  | whilst
  | br
  | cont
  | name
  | number
  | string
  | operator
  | assign
  | terminator
  | comma
  | leftParen
  | rightParen
  | leftCurly
  | rightCurly
  | error
  | eof
deriving Repr, DecidableEq

namespace TokenKind

/-- Every kind, in the order of trial. -/
def all : List TokenKind :=
  [comment, blank, dataType, boolean, functionHead, iff, maybe, orelse, iterate, whilst, br, cont,
    name, number, string, operator, assign, terminator, comma, leftParen, rightParen, leftCurly,
    rightCurly, error, eof]

theorem mem_all (k : TokenKind) : k ∈ all := by cases k <;> decide

/-- The name a kind goes by in listings and messages. -/
def label : TokenKind → String
  | comment => "COMMENT"
  | blank => "WHITE_SPACE"
  | dataType => "DATATYPE"
  | boolean => "BOOLEAN_VAL"
  | functionHead => "FUNCTION_DEF"
  | iff => "IFF"
  | maybe => "MAYBE"
  | orelse => "ORELSE"
  | iterate => "ITERATE"
  | whilst => "WHILST"
  | br => "BR"
  | cont => "CONT"
  | name => "VARIABLE"
  | number => "NUMBER"
  | string => "STRING"
  | operator => "OPERATOR"
  | assign => "ASSIGN"
  | terminator => "STATEMENT_TERMINATOR"
  | comma => "COMMA"
  | leftParen => "LPAREN"
  | rightParen => "RPAREN"
  | leftCurly => "LCURLY"
  | rightCurly => "RCURLY"
  | error => "ERROR"
  | eof => "EOF"

/-- Whether pieces of this kind are left out of the token list. -/
def ignored : TokenKind → Bool
  | comment | blank => true
  | _ => false

end TokenKind

/-- A place in the text: bytes before it, its line and its column. -/
structure Position where
  offset : Nat := 0
  line : Nat := 1
  column : Nat := 1
deriving Repr, DecidableEq

namespace Position

/-- The place behind one character; a newline starts the next line. -/
def next (p : Position) (c : Char) : Position :=
  if c == '\n' then ⟨p.offset + c.utf8Size, p.line + 1, 1⟩
  else ⟨p.offset + c.utf8Size, p.line, p.column + 1⟩

/-- The place behind a piece of text. -/
def after (p : Position) (s : List Char) : Position := s.foldl next p

@[simp] theorem after_nil (p : Position) : p.after [] = p := rfl

theorem after_append (p : Position) (s t : List Char) : p.after (s ++ t) = (p.after s).after t :=
  List.foldl_append

theorem after_cons (p : Position) (c : Char) (s : List Char) :
    p.after (c :: s) = (p.next c).after s := rfl

/-- **Offsets count bytes.** -/
theorem offset_after (p : Position) (s : List Char) :
    (p.after s).offset = p.offset + (String.ofList s).utf8ByteSize := by
  induction s generalizing p with
  | nil => simp
  | cons c s ih =>
    have hnext : (p.next c).offset = p.offset + c.utf8Size := by
      unfold next
      split <;> rfl
    rw [after_cons, ih, hnext, String.ofList_cons, String.utf8ByteSize_append,
      String.utf8ByteSize_singleton, Nat.add_assoc]

/-- **Lines count newlines.** -/
theorem line_after (p : Position) (s : List Char) :
    (p.after s).line = p.line + s.count '\n' := by
  induction s generalizing p with
  | nil => simp
  | cons c s ih =>
    rw [after_cons, ih, List.count_cons]
    unfold next
    split
    · exact Nat.add_right_comm _ _ _
    · rfl

/-- **Columns count the characters behind the last newline.** -/
theorem column_after (s : List Char) :
    (after {} s).column = 1 + (s.reverse.takeWhile (· != '\n')).length := by
  -- the last character decides, so the induction is on the text read backwards
  suffices h : ∀ r : List Char,
      (after {} r.reverse).column = 1 + (r.takeWhile (· != '\n')).length by
    simpa using h s.reverse
  intro r
  induction r with
  | nil => rfl
  | cons c r ih =>
    rw [List.reverse_cons, after_append, after_cons, after_nil]
    unfold next
    by_cases hc : c = '\n'
    · simp [hc]
    · simp [hc, ih, Nat.add_assoc]

end Position

/-- Bytes of the source, from `start` up to but not including `stop`. -/
structure Span where
  start : Nat
  stop : Nat
deriving Repr, DecidableEq

/-- A piece of text of a known kind. -/
structure Token where
  kind : TokenKind
  text : String
  line : Nat
  column : Nat
  span : Option Span := none
deriving Repr, DecidableEq

namespace Token

/-- The line of a listing that shows the token. -/
def listing (t : Token) : String := t.kind.label ++ " " ++ t.text

/-- Whether two tokens are taken for the same: by kind and text, and by place too if both carry a
span. -/
def agrees (a b : Token) : Bool :=
  match a.span, b.span with
  | some _, some _ => a == b
  | _, _ => a.text == b.text && a.kind == b.kind

end Token

/-- Text that fits no token. -/
structure LexError where
  text : String
  line : Nat
  column : Nat
deriving Repr, DecidableEq

namespace LexError

/-- What is reported for it. -/
def message (e : LexError) : String :=
  s!"Unexpected character(s) '{e.text}' at line {e.line}, column {e.column}"

end LexError

end Enigma
