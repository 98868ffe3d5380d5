import Enigma.Token.Scan

/-!
# Proofs/Seams — a newline ends every token

For most rules of the scan a blank is as good as the end of the text: what stands behind it cannot
change how far a token reaches (`TokenKind.lexeme?_append_blank`).  Blanks, comments, strings and
function heads may go on behind a blank, but not behind a newline, blanks apart
(`TokenKind.lexeme?_append_newline`), so that no token holds one (`TokenKind.not_mem_newline`).  A
text can then be scanned line by line:

* `Token.scanFrom_append_newline` — the tokens of two texts with a newline between them are those of
  the first and then those of the second;
* `Token.scanFrom_shift` — where a text starts shows in the places of its tokens only;
* `scan_append_newline` — the two together, for tokens and for errors.
-/

namespace Enigma

open Text

/-! ## Blanks are in no other class -/

namespace Text

variable {c : Char}

theorem isDigit_eq_false_of_isBlank (h : isBlank c = true) : isDigit c = false := by
  refine eq_false_of_ne_true fun hd => ?_
  have hw := isWord_of_isDigit hd
  rw [isWord_eq_false_of_isBlank h] at hw
  cases hw

theorem isAlphanum_eq_false_of_isBlank (h : isBlank c = true) : c.isAlphanum = false := by
  refine eq_false_of_ne_true fun ha => ?_
  have hw := isWord_of_isAlphanum ha
  rw [isWord_eq_false_of_isBlank h] at hw
  cases hw

/-- A blank is none of the characters that are no blanks. -/
theorem ne_of_isBlank (h : isBlank c = true) {d : Char} (hd : isBlank d = false) : c ≠ d := by
  rintro rfl
  rw [h] at hd
  cases hd

end Text

/-! ## Behind a character that cannot be part of a token -/

namespace Lexeme

variable {c : Char}

/-- A run stops in front of a character outside its class. -/
theorem takeWhile_append_cons {p : Char → Bool} (hp : p c = false) (s u : List Char) :
    (s ++ c :: u).takeWhile p = s.takeWhile p := by
  rw [List.takeWhile_append, List.takeWhile_cons_of_neg (by simp [hp]), List.append_nil]
  split
  · exact ((List.takeWhile_prefix p).eq_of_length ‹_›).symm
  · rfl

/-- **A run ends in front of a character that is not of its class**, whatever comes behind it. -/
theorem run?_append_cons {p : Char → Bool} (hp : p c = false) (s u : List Char) :
    run? p (s ++ c :: u) = run? p s := by
  rw [run?, takeWhile_append_cons hp, run?]

/-- A text is not found across a character that it does not hold. -/
theorem isPrefixOf_append_cons {w : List Char} (hw : c ∉ w) (s u : List Char) :
    w.isPrefixOf (s ++ c :: u) = w.isPrefixOf s := by
  induction w generalizing s with
  | nil => simp
  | cons a w ih =>
    rw [List.mem_cons, not_or] at hw
    obtain ⟨hne, hw⟩ := hw
    cases s with
    | nil => simp [List.isPrefixOf, Ne.symm hne]
    | cons b s => rw [List.cons_append, List.isPrefixOf_cons_cons, ih hw, List.isPrefixOf_cons_cons]

/-- Whether a word ends does not depend on what comes behind the end of the text. -/
theorem atWordEnd_append_cons (hc : isWord c = false) (s u : List Char) :
    atWordEnd (s ++ c :: u) = atWordEnd s := by
  cases s with
  | nil => simp [atWordEnd, hc]
  | cons d s => rfl

/-! ## Tokens that start with fixed characters -/

theorem name?_of_ne {s : List Char} (hs : ∀ t, s ≠ 'v' :: '-' :: t) :
    name? s = none := by
  unfold name?
  split
  · exact absurd rfl (hs _)
  · rfl

theorem functionHead?_of_ne {s : List Char} (hs : ∀ t, s ≠ 'f' :: '-' :: t) :
    functionHead? s = none := by
  unfold functionHead?
  split
  · exact absurd rfl (hs _)
  · rfl

theorem comment?_of_ne {s : List Char} (hs : ∀ t, s ≠ '/' :: '/' :: t) : comment? s = none := by
  unfold comment?
  split
  · exact absurd rfl (hs _)
  · rfl

theorem string?_of_ne {c : Char} (hc : c ≠ '"') (s : List Char) : string? (c :: s) = none := by
  simp [string?, hc]

/-! ## The two forms of a number -/

/-- **A number with a point** takes the digits behind it if the word ends there. -/
theorem number?_of_point {s t : List Char} {whole : Nat} (hw : run? isDigit s = some whole)
    (ht : s.drop whole = '.' :: t) :
    number? s = match run? isDigit t with
      | some n => if atWordEnd (t.drop n) then some (whole + 1 + n) else some whole
      | none => some whole := by
  cases hn : run? isDigit t <;> simp [number?, hw, ht, hn]

/-- **A number without a point** is taken if the word ends behind its digits. -/
theorem number?_of_plain {s : List Char} {whole : Nat} (hw : run? isDigit s = some whole)
    (ht : ∀ t, s.drop whole ≠ '.' :: t) :
    number? s = if atWordEnd (s.drop whole) then some whole else none := by
  simp only [number?, hw, Option.bind_eq_bind, Option.bind_some]

/-! ## Behind a blank -/

variable {options : List String} (hc : isBlank c = true)

include hc

theorem not_mem_of_isBlank {w : String} (hw : w.toList.all (!isBlank ·) = true) : c ∉ w.toList := by
  intro hmem
  have hnot := List.all_eq_true.1 hw c hmem
  rw [hc] at hnot
  cases hnot

/-- One of some texts without blanks is found in front of a blank as at the end. -/
theorem oneOf?_append_blank (ho : ∀ w ∈ options, w.toList.all (!isBlank ·) = true)
    (s u : List Char) : oneOf? options (s ++ c :: u) = oneOf? options s := by
  have hfind : options.find? (fun w => w.toList.isPrefixOf (s ++ c :: u))
      = options.find? fun w => w.toList.isPrefixOf s := by
    rw [← List.head?_filter, ← List.head?_filter]
    refine congrArg List.head? (List.filter_congr fun w hw => ?_)
    exact isPrefixOf_append_cons (not_mem_of_isBlank hc (ho w hw)) s u
  rw [oneOf?, hfind, oneOf?]

/-- A whole word is found in front of a blank as at the end. -/
theorem word?_append_blank (ho : ∀ w ∈ options, w.toList.all (!isBlank ·) = true)
    (s u : List Char) : word? options (s ++ c :: u) = word? options s := by
  have hfind : options.find?
        (fun w => w.toList.isPrefixOf (s ++ c :: u) && atWordEnd ((s ++ c :: u).drop w.length))
      = options.find? fun w => w.toList.isPrefixOf s && atWordEnd (s.drop w.length) := by
    rw [← List.head?_filter, ← List.head?_filter]
    refine congrArg List.head? (List.filter_congr fun w hw => ?_)
    rw [isPrefixOf_append_cons (not_mem_of_isBlank hc (ho w hw))]
    cases hp : w.toList.isPrefixOf s with
    | false => rfl
    | true =>
      have hle := (List.isPrefixOf_iff_prefix.1 hp).length_le
      rw [String.length_toList] at hle
      rw [List.drop_append_of_le_length hle,
        atWordEnd_append_cons (isWord_eq_false_of_isBlank hc)]
  rw [word?, hfind, word?]

theorem isNameChar_eq_false_of_isBlank : isNameChar c = false := by
  have hne : c ≠ '_' := ne_of_isBlank hc (by decide)
  simp [isNameChar, isAlphanum_eq_false_of_isBlank hc, hne]

/-- An identifier ends in front of a blank as at the end. -/
theorem identifier?_append_blank (s u : List Char) :
    identifier? (s ++ c :: u) = identifier? s := by
  cases s with
  | nil =>
    have halpha : c.isAlpha = false := by
      have h := isAlphanum_eq_false_of_isBlank hc
      rw [Char.isAlphanum, Bool.or_eq_false_iff] at h
      exact h.1
    simp [identifier?, halpha]
  | cons a s =>
    have hle := length_takeWhile_le isNameChar s
    rw [List.cons_append, identifier?, takeWhile_append_cons (isNameChar_eq_false_of_isBlank hc),
      identifier?, List.drop_append_of_le_length hle,
      atWordEnd_append_cons (isWord_eq_false_of_isBlank hc)]

/-- Two characters in front, neither of them a blank, are not made by a blank. -/
theorem append_blank_eq_cons_cons {a b : Char} (ha : isBlank a = false) (hb : isBlank b = false)
    {s u t : List Char} (h : s ++ c :: u = a :: b :: t) : ∃ s', s = a :: b :: s' := by
  match s with
  | [] => exact absurd (List.cons.inj h).1 (ne_of_isBlank hc ha)
  | [x] => exact absurd (List.cons.inj (List.cons.inj h).2).1 (ne_of_isBlank hc hb)
  | x :: y :: s' =>
    obtain ⟨hx, htail⟩ := List.cons.inj h
    exact ⟨s', by rw [hx, (List.cons.inj htail).1]⟩

theorem name?_append_blank (s u : List Char) : name? (s ++ c :: u) = name? s := by
  by_cases hs : ∃ t, s = 'v' :: '-' :: t
  · obtain ⟨t, rfl⟩ := hs
    rw [List.cons_append, List.cons_append, name?, identifier?_append_blank hc, name?]
  · rw [name?_of_ne fun t ht => hs ⟨t, ht⟩, name?_of_ne fun t ht => hs ?_]
    exact append_blank_eq_cons_cons hc (by decide) (by decide) ht

/-- A number ends in front of a blank as at the end, also with a point there. -/
theorem number?_append_blank (s u : List Char) : number? (s ++ c :: u) = number? s := by
  have hdigit := isDigit_eq_false_of_isBlank hc
  have hword := isWord_eq_false_of_isBlank hc
  have hrun := run?_append_cons hdigit s u
  cases hw : run? isDigit s with
  | none => simp only [number?, hrun, hw, Option.bind_eq_bind, Option.bind_none]
  | some whole =>
    have hdrop : (s ++ c :: u).drop whole = s.drop whole ++ c :: u :=
      List.drop_append_of_le_length (run?_bounds hw).2
    rw [hw] at hrun
    by_cases hpoint : ∃ t, s.drop whole = '.' :: t
    · obtain ⟨t, ht⟩ := hpoint
      rw [ht, List.cons_append] at hdrop
      rw [number?_of_point hrun hdrop, run?_append_cons hdigit, number?_of_point hw ht]
      cases hn : run? isDigit t with
      | none => rfl
      | some n =>
        dsimp only
        rw [List.drop_append_of_le_length (run?_bounds hn).2, atWordEnd_append_cons hword]
    · rw [not_exists] at hpoint
      rw [number?_of_plain hw hpoint, number?_of_plain hrun, hdrop, atWordEnd_append_cons hword]
      intro t ht
      rw [hdrop] at ht
      cases hd : s.drop whole with
      | nil =>
        rw [hd] at ht
        exact ne_of_isBlank hc (by decide) (List.cons.inj ht).1
      | cons d t' =>
        rw [hd] at ht
        exact hpoint t' (by rw [hd, (List.cons.inj ht).1])

theorem stray?_append_blank (s u : List Char) (hs : s ≠ []) : stray? (s ++ c :: u) = stray? s := by
  obtain ⟨d, s, rfl⟩ := List.exists_cons_of_ne_nil hs
  have hrun := run?_append_cons (isWord_eq_false_of_isBlank hc) (d :: s) u
  rw [List.cons_append] at hrun
  rw [List.cons_append, stray?, hrun, stray?]

end Lexeme

/-! ## Behind a newline -/

namespace Lexeme

/-- The head of a function is not found across lines, though it may hold blanks. -/
theorem functionHead?_append_newline (s u : List Char) :
    functionHead? (s ++ '\n' :: u) = functionHead? s := by
  have hblank : isBlank '\n' = true := by decide
  by_cases hs : ∃ t, s = 'f' :: '-' :: t
  · obtain ⟨t, rfl⟩ := hs
    rw [List.cons_append, List.cons_append, functionHead?, functionHead?,
      oneOf?_append_blank hblank (by decide)]
    cases htype : oneOf? ["none", "enum", "efl", "estr", "ebool"] t with
    | none => rfl
    | some type =>
      have hle := (oneOf?_bounds (by decide) htype).2
      simp only [Option.bind_eq_bind, Option.bind_some]
      rw [List.drop_append_of_le_length hle, run?_append_cons (by decide)]
      cases hgap : run? (fun c => c == ' ' || c == '\t') (t.drop type) with
      | none => rfl
      | some gap =>
        have hle' := (run?_bounds hgap).2
        rw [List.length_drop] at hle'
        simp only [Option.bind_some]
        rw [List.drop_append_of_le_length (by omega), identifier?_append_blank hblank]
  · rw [functionHead?_of_ne fun t ht => hs ⟨t, ht⟩, functionHead?_of_ne fun t ht => hs ?_]
    exact append_blank_eq_cons_cons hblank (by decide) (by decide) ht

/-- A string is not found across lines. -/
theorem string?_append_newline (s u : List Char) : string? (s ++ '\n' :: u) = string? s := by
  cases s with
  | nil => rfl
  | cons c s =>
    by_cases hc : c = '"'
    · subst hc
      have hrun := takeWhile_append_cons (p := fun c => c != '"' && c != '\n') (c := '\n')
        (by decide) s u
      have hle := length_takeWhile_le (fun c => c != '"' && c != '\n') s
      rw [List.cons_append, string?, hrun, string?, List.drop_append_of_le_length hle]
      cases s.drop (s.takeWhile fun c => c != '"' && c != '\n').length with
      | nil => rfl
      | cons d t =>
        by_cases hd : d = '"'
        · subst hd
          rfl
        · simp [hd]
    · rw [List.cons_append, string?_of_ne hc, string?_of_ne hc]

/-- A comment ends with its line. -/
theorem comment?_append_newline (s u : List Char) : comment? (s ++ '\n' :: u) = comment? s := by
  by_cases hs : ∃ t, s = '/' :: '/' :: t
  · obtain ⟨t, rfl⟩ := hs
    rw [List.cons_append, List.cons_append, comment?, takeWhile_append_cons (by decide), comment?]
  · rw [comment?_of_ne fun t ht => hs ⟨t, ht⟩, comment?_of_ne fun t ht => hs ?_]
    exact append_blank_eq_cons_cons (by decide) (by decide) (by decide) ht

end Lexeme

namespace TokenKind

open Lexeme

/-- Whether a token of the kind can go on behind a blank. -/
def spansBlanks : TokenKind → Bool
  | comment | blank | functionHead | string => true
  | _ => false

/-- **A blank is as good as the end of the text** for a token that does not go on behind one. -/
theorem lexeme?_append_blank {k : TokenKind} (hk : k.spansBlanks = false) {c : Char}
    (hc : isBlank c = true) {s : List Char} (hs : s ≠ []) (u : List Char) :
    k.lexeme? (s ++ c :: u) = k.lexeme? s := by
  cases k with
  | comment | blank | functionHead | string => cases hk
  | name => exact name?_append_blank hc s u
  | number => exact number?_append_blank hc s u
  | error => exact stray?_append_blank hc s u hs
  | eof => rfl
  | dataType | boolean | iff | maybe | orelse | iterate | whilst | br | cont =>
    exact word?_append_blank hc (by decide) s u
  | operator | assign | terminator | comma | leftParen | rightParen | leftCurly | rightCurly =>
    exact oneOf?_append_blank hc (by decide) s u

/-- **A newline is as good as the end of the text** for every token but a blank. -/
theorem lexeme?_append_newline {k : TokenKind} (hk : k ≠ .blank) (s u : List Char) :
    k.lexeme? (s ++ '\n' :: u) = k.lexeme? s := by
  cases s with
  | nil =>
    -- no token starts with a newline
    cases k with
    | blank => exact absurd rfl hk
    | _ => rfl
  | cons c s =>
    cases k with
    | comment => exact comment?_append_newline _ u
    | blank => exact absurd rfl hk
    | functionHead => exact functionHead?_append_newline _ u
    | string => exact string?_append_newline _ u
    | _ => exact lexeme?_append_blank rfl (by decide) (List.cons_ne_nil c s) u

/-- **No token but a blank holds a newline.** -/
theorem not_mem_newline {k : TokenKind} (hk : k ≠ .blank) {s : List Char} {n : Nat}
    (h : k.lexeme? s = some n) : '\n' ∉ s.take n := by
  intro hmem
  obtain ⟨a, u, rfl, ha⟩ := List.eq_append_cons_of_mem (List.mem_of_mem_take hmem)
  rw [lexeme?_append_newline hk] at h
  rw [List.take_append_of_le_length (lexeme?_bounds h).2] at hmem
  exact ha (List.mem_of_mem_take hmem)

end TokenKind

/-! ## The first token of a text -/

namespace Token

variable {c : Char} {s : List Char}

/-- The first token is settled by what every kind makes of the text. -/
theorem first?_congr {t : List Char} (h : ∀ k : TokenKind, k.lexeme? s = k.lexeme? t) :
    first? s = first? t := by
  simp only [first?, h]

theorem lexeme?_blank_of_not_isBlank (hc : isBlank c = false) (s : List Char) :
    TokenKind.blank.lexeme? (c :: s) = none := by
  simp [TokenKind.lexeme?, Lexeme.run?, hc]

/-- **Blanks are taken together.** -/
theorem first?_of_isBlank (hc : isBlank c = true) (s : List Char) :
    first? (c :: s) = some (.blank, (s.takeWhile isBlank).length + 1) := by
  have hcomment : Lexeme.comment? (c :: s) = none := by
    have hne : c ≠ '/' := ne_of_isBlank hc (by decide)
    simp [Lexeme.comment?, hne]
  simp [first?, TokenKind.all, TokenKind.lexeme?, hcomment, Lexeme.run?, hc]

/-- **A text's first token is settled on its first line**, if it does not start with a blank. -/
theorem first?_append_newline (hc : isBlank c = false) (s u : List Char) :
    first? (c :: s ++ '\n' :: u) = first? (c :: s) := by
  refine first?_congr fun k => ?_
  by_cases hk : k = .blank
  · rw [hk, List.cons_append, lexeme?_blank_of_not_isBlank hc, lexeme?_blank_of_not_isBlank hc]
  · exact TokenKind.lexeme?_append_newline hk (c :: s) u

/-! ## The tokens of a text -/

/-- The tokens of a text that starts at the given place, without blanks and comments. -/
def scanFrom (p : Position) (s : List Char) : List Token :=
  (piecesFrom p s).filter (!·.kind.ignored)

theorem scan_eq (source : String) : scan source = scanFrom {} source.toList := rfl

@[simp] theorem scanFrom_nil (p : Position) : scanFrom p [] = [] := by
  rw [scanFrom, piecesFrom]
  rfl

/-- **A scan takes one token** off the front, drops it if it is ignored, and goes on behind it. -/
theorem scanFrom_cons {kind : TokenKind} {n : Nat} (h : first? (c :: s) = some (kind, n + 1))
    (p : Position) :
    scanFrom p (c :: s) = [ofChars p kind (c :: s.take n)].filter (!·.kind.ignored) ++
      scanFrom (p.after (c :: s.take n)) (s.drop n) := by
  rw [scanFrom, piecesFrom, h]
  dsimp only
  rw [← List.singleton_append, List.filter_append]
  rfl

theorem drop_length_takeWhile (p : Char → Bool) (s : List Char) :
    s.drop (s.takeWhile p).length = s.dropWhile p := by
  induction s with
  | nil => rfl
  | cons c s ih => cases hc : p c <;> simp [hc, ih]

/-- **Blanks in front are skipped**, all of them at once. -/
theorem scanFrom_skip (p : Position) (s : List Char) :
    scanFrom p s = scanFrom (p.after (s.takeWhile isBlank)) (s.dropWhile isBlank) := by
  cases s with
  | nil => rfl
  | cons c s =>
    cases hc : isBlank c with
    | false => simp [hc]
    | true =>
      have htake : s.take (s.takeWhile isBlank).length = s.takeWhile isBlank :=
        (List.prefix_iff_eq_take.1 (List.takeWhile_prefix isBlank)).symm
      rw [scanFrom_cons (first?_of_isBlank hc s), htake, drop_length_takeWhile,
        List.takeWhile_cons_of_pos hc, List.dropWhile_cons_of_pos hc]
      rfl

/-- **A blank in front is skipped.** -/
theorem scanFrom_blank (hc : isBlank c = true) (p : Position) (s : List Char) :
    scanFrom p (c :: s) = scanFrom (p.next c) s := by
  rw [scanFrom_skip, scanFrom_skip (p.next c), List.takeWhile_cons_of_pos hc,
    List.dropWhile_cons_of_pos hc, Position.after_cons]

/-- **Two texts with a newline between them** have the tokens of the first and then those of the
second.  A blank at the seam may reach into both; elsewhere the first token is the same. -/
theorem scanFrom_append_newline (p : Position) : ∀ s u : List Char,
    scanFrom p (s ++ '\n' :: u) = scanFrom p s ++ scanFrom ((p.after s).next '\n') u
  | [], u => by rw [List.nil_append, scanFrom_blank (by decide), scanFrom_nil]; rfl
  | c :: s, u => by
    cases hc : isBlank c with
    | true =>
      rw [List.cons_append, scanFrom_blank hc, scanFrom_blank hc,
        scanFrom_append_newline (p.next c) s u, Position.after_cons]
    | false =>
      obtain ⟨kind, n, hfirst, hn⟩ := first?_cons c s
      have hseam := first?_append_newline hc s u
      rw [hfirst, List.cons_append] at hseam
      rw [List.cons_append, scanFrom_cons hseam, scanFrom_cons hfirst,
        List.take_append_of_le_length hn, List.drop_append_of_le_length hn,
        scanFrom_append_newline _ (s.drop n) u, ← Position.after_append, List.cons_append,
        List.take_append_drop, List.append_assoc]
termination_by s => s.length

end Token

/-! ## The same text elsewhere -/

/-- The place so many bytes and lines further on. -/
def Position.shift (bytes lines : Nat) (p : Position) : Position :=
  ⟨p.offset + bytes, p.line + lines, p.column⟩

/-- The span so many bytes further on. -/
def Span.shift (bytes : Nat) (s : Span) : Span := ⟨s.start + bytes, s.stop + bytes⟩

/-- The token so many bytes and lines further on, in the same column. -/
def Token.shift (bytes lines : Nat) (t : Token) : Token :=
  { t with line := t.line + lines, span := t.span.map (Span.shift bytes) }

/-- The error so many lines further on, in the same column. -/
def LexError.shift (lines : Nat) (e : LexError) : LexError := { e with line := e.line + lines }

section Shift

variable (bytes lines : Nat)

/-- Positions go on from a shifted one as from the other, shifted. -/
theorem Position.after_shift (p : Position) (s : List Char) :
    (p.shift bytes lines).after s = (p.after s).shift bytes lines := by
  induction s generalizing p with
  | nil => rfl
  | cons c s ih =>
    have hnext : (p.shift bytes lines).next c = (p.next c).shift bytes lines := by
      by_cases hc : c = '\n' <;> simp [next, shift, hc] <;> omega
    rw [after_cons, hnext, ih, after_cons]

namespace Token

theorem ofChars_shift (p : Position) (kind : TokenKind) (s : List Char) :
    ofChars (p.shift bytes lines) kind s = (ofChars p kind s).shift bytes lines := by
  simp only [ofChars, Position.after_shift]
  rfl

/-- **Pieces from a shifted position** are those from the other one, shifted. -/
theorem piecesFrom_shift (p : Position) (s : List Char) :
    piecesFrom (p.shift bytes lines) s = (piecesFrom p s).map (shift bytes lines) := by
  fun_induction piecesFrom p s with
  | case1 => rw [piecesFrom]; rfl
  | case2 p c s kind n h lexeme ih =>
    rw [piecesFrom, h]
    dsimp only
    rw [Position.after_shift, ih, ofChars_shift]
    rfl
  | case3 p c s h =>
    obtain ⟨k, n, hkn, -⟩ := first?_cons c s
    exact absurd hkn (h k n)

/-- **Where a text starts shows in the places of its tokens only.** -/
theorem scanFrom_shift (p : Position) (s : List Char) :
    scanFrom (p.shift bytes lines) s = (scanFrom p s).map (shift bytes lines) := by
  rw [scanFrom, piecesFrom_shift, List.filter_map]
  rfl

/-- Errors are shifted with their tokens. -/
theorem lexErrors_shift (ts : List Token) :
    lexErrors (ts.map (shift bytes lines)) = (lexErrors ts).map (LexError.shift lines) := by
  have hshift (t : Token) :
      lexError? (t.shift bytes lines) = (lexError? t).map (LexError.shift lines) := by
    by_cases hk : t.kind = .error <;> simp [lexError?, shift, LexError.shift, hk]
  rw [lexErrors, lexErrors, List.filterMap_map, List.map_filterMap]
  exact congrArg (List.filterMap · ts) (funext hshift)

end Token

end Shift

/-- **Lexing is compositional at newlines.**  The tokens of two texts with a newline between them
are those of the first, and then those of the second as many bytes and lines further on as the first
and the newline take; and so for the errors. -/
theorem scan_append_newline (s u : String) :
    Token.scan (s ++ "\n" ++ u) = Token.scan s ++
        (Token.scan u).map (Token.shift (s.utf8ByteSize + 1) (1 + s.toList.count '\n')) ∧
      Token.lexErrors (Token.scan (s ++ "\n" ++ u)) = Token.lexErrors (Token.scan s) ++
        (Token.lexErrors (Token.scan u)).map (LexError.shift (1 + s.toList.count '\n')) := by
  have hplace : ((({} : Position).after s.toList).next '\n')
      = Position.shift (s.utf8ByteSize + 1) (1 + s.toList.count '\n') {} := by
    have hoffset : (Position.after {} s.toList).offset = s.utf8ByteSize := by
      rw [Position.offset_after, String.ofList_toList]
      exact Nat.zero_add _
    have hsize : '\n'.utf8Size = 1 := by decide
    simp only [Position.next, beq_self_eq_true, if_true, hoffset, Position.line_after, hsize,
      Position.shift, Nat.zero_add, Nat.add_left_comm 1, Nat.add_comm 1]
  have htext : (s ++ "\n" ++ u).toList = s.toList ++ '\n' :: u.toList := by simp
  have hscan : Token.scan (s ++ "\n" ++ u) = Token.scan s ++ (Token.scan u).map
      (Token.shift (s.utf8ByteSize + 1) (1 + s.toList.count '\n')) := by
    rw [Token.scan_eq, htext, Token.scanFrom_append_newline, hplace, Token.scanFrom_shift]
    rfl
  refine ⟨hscan, ?_⟩
  rw [hscan, Token.lexErrors, List.filterMap_append, ← Token.lexErrors_shift]
  rfl

end Enigma
