import Enigma.Text.Word
import Enigma.Token.Basic

/-!
# Token/Lexeme — how far a token of each kind reaches

`TokenKind.lexeme?` gives, for a kind and a text, the number of characters at the front of the text
that make a token of that kind. Words and names reach as far as they can and must end where no word
character follows; a number whose fraction runs into a word gives up its fraction.

* `Lexeme.word?`, `Lexeme.identifier?`, `Lexeme.number?` and their companions are the rules by form;
* `TokenKind.lexeme?` assigns them to kinds;
* `Token.first?` is the first kind in the order of trial that fits, with its length;
* `TokenKind.lexeme?_bounds` — a token takes at least one character and no more than there are;
* `Token.first?_cons` — some kind always fits.
-/

namespace Enigma

namespace Lexeme

open Text

/-- The first of the given texts that the input starts with. -/
def oneOf? (options : List String) (s : List Char) : Option Nat :=
  (options.find? fun w => w.toList.isPrefixOf s).map String.length

/-- The first of the given words that the input starts with and that ends there. -/
def word? (options : List String) (s : List Char) : Option Nat :=
  (options.find? fun w => w.toList.isPrefixOf s && atWordEnd (s.drop w.length)).map String.length

/-- A nonempty run of characters of a class. -/
def run? (p : Char → Bool) (s : List Char) : Option Nat :=
  let n := (s.takeWhile p).length
  if n = 0 then none else some n

/-- The characters an identifier goes on with. -/
def isNameChar (c : Char) : Bool := c.isAlphanum || c == '_'

/-- An ASCII letter and the letters, digits and underscores behind it, up to the end of the word. -/
def identifier? : List Char → Option Nat
  | [] => none
  | c :: s =>
    let n := (s.takeWhile isNameChar).length
    if c.isAlpha && atWordEnd (s.drop n) then some (n + 1) else none

/-- A variable: an identifier behind `v-`. -/
def name? : List Char → Option Nat
  | 'v' :: '-' :: s => (identifier? s).map (· + 2)
  | _ => none

/-- The head of a function: `f-` and a return type, spaces or tabs, and an identifier. -/
def functionHead? : List Char → Option Nat
  | 'f' :: '-' :: s => do
    let type ← oneOf? ["none", "enum", "efl", "estr", "ebool"] s
    let gap ← run? (fun c => c == ' ' || c == '\t') (s.drop type)
    let name ← identifier? (s.drop (type + gap))
    some (2 + type + gap + name)
  | _ => none

/-- Digits, and a point with more digits if the word ends behind them. -/
def number? (s : List Char) : Option Nat := do
  let whole ← run? isDigit s
  match s.drop whole with
  | '.' :: t =>
    match run? isDigit t with
    | some n => if atWordEnd (t.drop n) then some (whole + 1 + n) else some whole
    | none => some whole
  | t => if atWordEnd t then some whole else none

/-- Text between two double quotes on one line. -/
def string? : List Char → Option Nat
  | '"' :: s =>
    let n := (s.takeWhile fun c => c != '"' && c != '\n').length
    match s.drop n with
    | '"' :: _ => some (n + 2)
    | _ => none
  | _ => none

/-- Two slashes and the rest of the line. -/
def comment? : List Char → Option Nat
  | '/' :: '/' :: s => some ((s.takeWhile (· != '\n')).length + 2)
  | _ => none

/-- A whole word, or one character that does not end the line. -/
def stray? : List Char → Option Nat
  | [] => none
  | c :: s =>
    match run? isWord (c :: s) with
    | some n => some n
    | none => if c == '\n' then none else some 1

/-! ## Lengths

Every rule takes at least one character, and never more than the text has. -/

/-- **A run** is all characters of its class at the front, and there is at least one. -/
theorem run?_eq_some {p : Char → Bool} {s : List Char} {n : Nat} (h : run? p s = some n) :
    0 < n ∧ n = (s.takeWhile p).length := by
  simp only [run?, Option.ite_none_left_eq_some, Option.some.injEq] at h
  omega

/-- What is taken off the front is no longer than the whole. -/
theorem length_takeWhile_le (p : Char → Bool) (s : List Char) :
    (s.takeWhile p).length ≤ s.length :=
  (List.takeWhile_prefix p).length_le

/-- **A run takes something** and nothing beyond the end, as every lexeme below does. -/
theorem run?_bounds {p : Char → Bool} {s : List Char} {n : Nat} (h : run? p s = some n) :
    0 < n ∧ n ≤ s.length :=
  ⟨(run?_eq_some h).1, (run?_eq_some h).2 ▸ length_takeWhile_le p s⟩

/-- One of some texts is in bounds if none of them is empty. -/
theorem oneOf?_bounds {options : List String} (ho : ∀ w ∈ options, 0 < w.length) {s : List Char}
    {n : Nat} (h : oneOf? options s = some n) : 0 < n ∧ n ≤ s.length := by
  obtain ⟨w, hw, rfl⟩ := Option.map_eq_some_iff.1 h
  have hb : w.toList.isPrefixOf s = true := by simpa using List.find?_some hw
  have hp : w.toList <+: s := List.isPrefixOf_iff_prefix.1 hb
  exact ⟨ho w (List.mem_of_find?_eq_some hw), String.length_toList ▸ hp.length_le⟩

/-- A whole word is in bounds as well: its options are tried in the same way. -/
theorem word?_bounds {options : List String} (ho : ∀ w ∈ options, 0 < w.length) {s : List Char}
    {n : Nat} (h : word? options s = some n) : 0 < n ∧ n ≤ s.length := by
  obtain ⟨w, hw, rfl⟩ := Option.map_eq_some_iff.1 h
  have hb := List.find?_some hw
  have hp : w.toList <+: s := List.isPrefixOf_iff_prefix.1 (Bool.and_eq_true_iff.1 hb).1
  exact ⟨ho w (List.mem_of_find?_eq_some hw), String.length_toList ▸ hp.length_le⟩

/-- An identifier is in bounds: its first letter is there, and a run goes on from it. -/
theorem identifier?_bounds {s : List Char} {n : Nat} (h : identifier? s = some n) :
    0 < n ∧ n ≤ s.length := by
  cases s with
  | nil => simp [identifier?] at h
  | cons c s =>
    simp only [identifier?, Option.ite_none_right_eq_some, Option.some.injEq] at h
    have := length_takeWhile_le isNameChar s
    simp only [List.length_cons]
    omega

/-- The name of a variable is an identifier behind two more characters. -/
theorem name?_bounds {s : List Char} {n : Nat} (h : name? s = some n) :
    0 < n ∧ n ≤ s.length := by
  unfold name? at h
  split at h
  · obtain ⟨m, hm, rfl⟩ := Option.map_eq_some_iff.1 h
    have := identifier?_bounds hm
    simp only [List.length_cons]
    omega
  · simp at h

/-- The head of a function is in bounds: its prefix, a type, blanks and an identifier add up. -/
theorem functionHead?_bounds {s : List Char} {n : Nat} (h : functionHead? s = some n) :
    0 < n ∧ n ≤ s.length := by
  unfold functionHead? at h
  split at h
  · rename_i t
    simp only [Option.bind_eq_bind, Option.bind_eq_some_iff, Option.some.injEq] at h
    obtain ⟨type, htype, gap, hgap, name, hname, rfl⟩ := h
    have h1 := run?_bounds hgap
    have h2 := identifier?_bounds hname
    simp only [List.length_drop, List.length_cons] at h1 h2 ⊢
    omega
  · simp at h

/-- A number is in bounds; with a fraction it is two runs and the point between them. -/
theorem number?_bounds {s : List Char} {n : Nat} (h : number? s = some n) :
    0 < n ∧ n ≤ s.length := by
  simp only [number?, Option.bind_eq_bind, Option.bind_eq_some_iff] at h
  obtain ⟨whole, hw, h⟩ := h
  have hb := run?_bounds hw
  split at h
  · rename_i t ht
    have hl : s.length = whole + (t.length + 1) := by
      have := congrArg List.length ht
      simp only [List.length_drop, List.length_cons] at this
      omega
    split at h
    · rename_i m hm
      have := run?_bounds hm
      split at h <;> simp only [Option.some.injEq] at h <;> omega
    · simp only [Option.some.injEq] at h
      omega
  · simp only [Option.ite_none_right_eq_some, Option.some.injEq] at h
    omega

/-- A string is in bounds: the closing quote lies behind the opening one. -/
theorem string?_bounds {s : List Char} {n : Nat} (h : string? s = some n) :
    0 < n ∧ n ≤ s.length := by
  unfold string? at h
  split at h
  · rename_i t
    simp only at h
    split at h
    · rename_i u hu
      have := congrArg List.length hu
      simp only [List.length_drop, List.length_cons, Option.some.injEq] at this h ⊢
      omega
    · simp at h
  · simp at h

/-- A comment is in bounds, for it ends with its line or with the text. -/
theorem comment?_bounds {s : List Char} {n : Nat} (h : comment? s = some n) :
    0 < n ∧ n ≤ s.length := by
  unfold comment? at h
  split at h
  · rename_i t
    have := length_takeWhile_le (· != '\n') t
    simp only [Option.some.injEq, List.length_cons] at h ⊢
    omega
  · simp at h

/-- A stray word or character is in bounds, being a run or one character of a text that has one. -/
theorem stray?_bounds {s : List Char} {n : Nat} (h : stray? s = some n) :
    0 < n ∧ n ≤ s.length := by
  cases s with
  | nil => simp [stray?] at h
  | cons c s =>
    simp only [stray?] at h
    split at h
    · rename_i m hm
      have := run?_bounds hm
      simp only [Option.some.injEq] at h
      omega
    · simp only [Option.ite_none_left_eq_some, Option.some.injEq, List.length_cons] at h ⊢
      omega

end Lexeme

namespace TokenKind

open Lexeme

/-- The number of characters at the front of the text that make a token of the kind. The end of
input is no text at all. -/
def lexeme? : TokenKind → List Char → Option Nat
  | comment => comment?
  | blank => run? Text.isBlank
  | dataType => word? ["enum", "efl", "estr", "ebool"]
  | boolean => word? ["yup", "nah"]
  | functionHead => functionHead?
  | iff => word? ["iff"]
  | maybe => word? ["maybe"]
  | orelse => word? ["orelse"]
  | iterate => word? ["iterate"]
  | whilst => word? ["whilst"]
  | br => word? ["br"]
  | cont => word? ["cont"]
  | name => name?
  | number => number?
  | string => string?
  | operator => oneOf? ["++", "--", "==", "!=", "<=", ">=", "+", "-", "*", "/", "<", ">", "!"]
  | assign => oneOf? ["="]
  | terminator => oneOf? [","]
  | comma => oneOf? [","]
  | leftParen => oneOf? ["("]
  | rightParen => oneOf? [")"]
  | leftCurly => oneOf? ["\x7b"]
  | rightCurly => oneOf? ["\x7d"]
  | error => stray?
  | eof => fun _ => none

/-- **A token takes at least one character and no more than there are.** -/
theorem lexeme?_bounds {k : TokenKind} {s : List Char} {n : Nat}
    (h : k.lexeme? s = some n) : 0 < n ∧ n ≤ s.length := by
  cases k with
  | comment => exact comment?_bounds h
  | blank => exact run?_bounds h
  | functionHead => exact functionHead?_bounds h
  | name => exact name?_bounds h
  | number => exact number?_bounds h
  | string => exact string?_bounds h
  | error => exact stray?_bounds h
  | eof => simp [lexeme?] at h
  | dataType | boolean | iff | maybe | orelse | iterate | whilst | br | cont =>
    exact word?_bounds (by decide) h
  | operator | assign | terminator | comma | leftParen | rightParen | leftCurly | rightCurly =>
    exact oneOf?_bounds (by decide) h

end TokenKind

/-- The first kind, in the order of trial, of which the text starts with a token, and that token's
length. -/
def Token.first? (s : List Char) : Option (TokenKind × Nat) :=
  TokenKind.all.findSome? fun k => (k.lexeme? s).map fun n => (k, n)

/-- **Some kind always fits**: a newline is a blank, and any other character is at least stray. -/
theorem Token.first?_cons (c : Char) (s : List Char) :
    ∃ k n, first? (c :: s) = some (k, n + 1) ∧ n ≤ s.length := by
  have hsome : (first? (c :: s)).isSome = true := by
    rw [first?, List.findSome?_isSome_iff]
    by_cases hc : c = '\n'
    · refine ⟨.blank, TokenKind.mem_all _, ?_⟩
      subst hc
      have : Text.isBlank '\n' = true := by decide
      simp [TokenKind.lexeme?, Lexeme.run?, this]
    · refine ⟨.error, TokenKind.mem_all _, ?_⟩
      simp only [TokenKind.lexeme?, Lexeme.stray?, Option.isSome_map]
      split <;> simp [hc]
  obtain ⟨⟨k, n⟩, h⟩ := Option.isSome_iff_exists.1 hsome
  obtain ⟨k', -, h'⟩ := List.exists_of_findSome?_eq_some h
  obtain ⟨m, hm, hkm⟩ := Option.map_eq_some_iff.1 h'
  obtain ⟨rfl, rfl⟩ := Prod.mk.inj hkm
  have := TokenKind.lexeme?_bounds hm
  simp only [List.length_cons] at this
  obtain ⟨j, rfl⟩ : ∃ j, m = j + 1 := ⟨m - 1, by omega⟩
  exact ⟨k', j, h, by omega⟩

end Enigma
