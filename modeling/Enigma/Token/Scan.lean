import Enigma.Token.Lexeme

/-!
# Token/Scan — cutting a text into tokens

The text is cut from the left: at each place the first kind that fits takes its characters. `pieces`
keeps everything, blanks and comments included, so the pieces put together are the text again;
`scan` keeps what the parser reads. Text that fits no kind becomes a token of kind `error`, and each
of those is an error of the scan.

* `flatten_pieces` — nothing is lost and nothing is added.
-/

namespace Enigma

namespace Token

/-- The token of a kind that stands at a place and has the given characters. -/
def ofChars (p : Position) (kind : TokenKind) (s : List Char) : Token where
  kind := kind
  text := String.ofList s
  line := p.line
  column := p.column
  span := some ⟨p.offset, (p.after s).offset⟩

/-- The pieces of a text that starts at the given place. -/
def piecesFrom (p : Position) : List Char → List Token
  | [] => []
  | c :: s =>
    match first? (c :: s) with
    | some (kind, n + 1) =>
      let lexeme := c :: s.take n
      ofChars p kind lexeme :: piecesFrom (p.after lexeme) (s.drop n)
    | _ => []
termination_by s => s.length
decreasing_by simp only [List.length_drop, List.length_cons]; omega

/-- The pieces of a source text. -/
def pieces (source : String) : List Token := piecesFrom {} source.toList

/-- **Nothing is lost and nothing is added**: the pieces put together are the text. -/
theorem flatten_piecesFrom (p : Position) (s : List Char) :
    ((piecesFrom p s).map (·.text.toList)).flatten = s := by
  fun_induction piecesFrom p s with
  | case1 => rfl
  | case2 p c s kind n h lexeme ih =>
    simp only [List.map_cons, List.flatten_cons, ih, ofChars, String.toList_ofList, lexeme,
      List.cons_append, List.take_append_drop]
  | case3 p c s h =>
    obtain ⟨k, n, hkn, -⟩ := first?_cons c s
    exact absurd hkn (h k n)

theorem flatten_pieces (source : String) :
    ((pieces source).map (·.text.toList)).flatten = source.toList :=
  flatten_piecesFrom _ _

/-- The tokens of a source text, without blanks and comments. -/
def scan (source : String) : List Token := (pieces source).filter (!·.kind.ignored)

/-- The error that a token stands for, if it is one. -/
def lexError? (t : Token) : Option LexError :=
  if t.kind = .error then some ⟨t.text, t.line, t.column⟩ else none

/-- The errors among the tokens, in order. -/
def lexErrors (tokens : List Token) : List LexError := tokens.filterMap lexError?

end Token

end Enigma
