import Enigma.Proofs.Literals
import Enigma.Proofs.Seams

/-!
# Proofs/Places — where tokens stand, and what stands between them

A scan goes through the text once and leaves nothing out: each step takes a token, a blank or a
comment, and the place it keeps is that of the text behind it.  `Tiled` tells such a walk, and
everything about spans, lines and columns is read off it.

* `Token.StandsBehind` — a token's span, line and column, told by the text in front of it;
* `Skipped` — text of blanks and comments; `Token.gaps` — the spans between tokens;
* `Tiled.scanFrom` — a scan is such a walk;
* `scan_covers` — so the tokens cover the source, and only skipped text is between them.
-/

namespace Enigma

open Text

/-! ## Places -/

namespace Text

theorem not_mem_takeWhile_newline (s : List Char) : '\n' ∉ s.takeWhile (· != '\n') := by
  intro hmem
  have hall := List.all_eq_true.1 (List.all_takeWhile (p := (· != '\n')) (l := s)) _ hmem
  simp at hall

theorem head?_dropWhile_newline (s : List Char) :
    ∀ c ∈ (s.dropWhile (· != '\n')).head?, c = '\n' := by
  intro c hc
  have hhead := List.head?_dropWhile_not (· != '\n') s
  rw [hc] at hhead
  simpa using hhead

end Text

/-- **A comment reaches to the end of its line.** -/
theorem Lexeme.comment?_eq_some {s : List Char} {n : Nat} (h : comment? s = some n) :
    ∃ body rest, s = '/' :: '/' :: (body ++ rest) ∧ n = body.length + 2 ∧ '\n' ∉ body ∧
      ∀ c ∈ rest.head?, c = '\n' := by
  unfold comment? at h
  split at h
  · rename_i t
    obtain rfl := Option.some.inj h
    refine ⟨t.takeWhile (· != '\n'), t.dropWhile (· != '\n'), ?_, rfl, ?_, ?_⟩
    · rw [List.takeWhile_append_dropWhile]
    · exact not_mem_takeWhile_newline t
    · exact head?_dropWhile_newline t
  · cases h

/-- Whether a token is where it says, if the given text is all that comes before it: its span counts
bytes, its line the newlines, and its column the characters behind the last of them. -/
structure Token.StandsBehind (before : String) (t : Token) : Prop where
  span : t.span = some ⟨before.utf8ByteSize, (before ++ t.text).utf8ByteSize⟩
  line : t.line = 1 + before.toList.count '\n'
  column : t.column = 1 + (before.toList.reverse.takeWhile (· != '\n')).length

theorem Token.standsBehind_ofChars (before : List Char) (kind : TokenKind) (s : List Char) :
    (ofChars (Position.after {} before) kind s).StandsBehind (String.ofList before) := by
  have hoffset (text : List Char) :
      (Position.after {} text).offset = (String.ofList text).utf8ByteSize := by
    rw [Position.offset_after]
    exact Nat.zero_add _
  constructor
  · rw [ofChars, ← Position.after_append, hoffset, hoffset, String.ofList_append]
  · rw [ofChars, Position.line_after, String.toList_ofList]
  · rw [ofChars, Position.column_after, String.toList_ofList]

/-- Blanks, and comments up to the end of their lines, in front of a text. -/
inductive Skipped (after : List Char) : List Char → Prop
  | nil : Skipped after []
  | blank {c : Char} {s : List Char} (hc : isBlank c = true) (h : Skipped after s) :
      Skipped after (c :: s)
  | comment {body s : List Char} (hbody : '\n' ∉ body)
      (hend : ∀ c ∈ (s ++ after).head?, c = '\n') (h : Skipped after s) :
      Skipped after ('/' :: '/' :: (body ++ s))

/-! ## The walk of a scan -/

/-- A text behind another, taken apart into tokens at their places, blanks and comments. -/
inductive Tiled : List Char → List Token → List Char → Prop
  | done {before : List Char} : Tiled before [] []
  | blank {before : List Char} {ts : List Token} {c : Char} {s : List Char} (hc : isBlank c = true)
      (h : Tiled (before ++ [c]) ts s) : Tiled before ts (c :: s)
  | comment {before : List Char} {ts : List Token} {body s : List Char} (hbody : '\n' ∉ body)
      (hend : ∀ c ∈ s.head?, c = '\n') (h : Tiled (before ++ '/' :: '/' :: body) ts s) :
      Tiled before ts ('/' :: '/' :: (body ++ s))
  | token {before : List Char} {t : Token} {ts : List Token} {s : List Char}
      (ht : t.StandsBehind (String.ofList before)) (hne : t.text.toList ≠ [])
      (hline : '\n' ∉ t.text.toList) (h : Tiled (before ++ t.text.toList) ts s) :
      Tiled before (t :: ts) (t.text.toList ++ s)

namespace Tiled

/-- **A scan is such a walk.** -/
theorem scanFrom : ∀ before s : List Char,
    Tiled before (Token.scanFrom (Position.after {} before) s) s
  | before, [] => by
    rw [Token.scanFrom_nil]
    exact .done
  | before, c :: s => by
    have hstep (piece : List Char) :
        (Position.after {} before).after piece = Position.after {} (before ++ piece) :=
      (Position.after_append ..).symm
    cases hc : isBlank c with
    | true =>
      have h := scanFrom (before ++ [c]) s
      rw [← hstep] at h
      rw [Token.scanFrom_blank hc]
      exact .blank hc h
    | false =>
      obtain ⟨kind, n, hfirst, hn⟩ := Token.first?_cons c s
      have hlexeme := Token.lexeme?_of_first? hfirst
      have hkind : kind ≠ .blank := by
        rintro rfl
        rw [Token.lexeme?_blank_of_not_isBlank hc] at hlexeme
        cases hlexeme
      have h := scanFrom (before ++ c :: s.take n) (s.drop n)
      rw [Token.scanFrom_cons hfirst, hstep]
      by_cases hcomment : kind = .comment
      · subst hcomment
        obtain ⟨body, rest, htext, hlength, hbody, hend⟩ := Lexeme.comment?_eq_some hlexeme
        obtain ⟨rfl, rfl⟩ := List.cons.inj htext
        obtain rfl : n = body.length + 1 := by omega
        rw [List.take_succ_cons, List.drop_succ_cons, List.take_left, List.drop_left] at h ⊢
        exact .comment hbody hend h
      · have hkept : kind.ignored = false := by
          cases kind with
          | comment => exact absurd rfl hcomment
          | blank => exact absurd rfl hkind
          | _ => rfl
        have hline := TokenKind.not_mem_newline hkind hlexeme
        have htoken := Tiled.token (Token.standsBehind_ofChars before kind (c :: s.take n))
          (by simp [Token.ofChars]) (by simpa [Token.ofChars] using hline)
          (by simpa [Token.ofChars] using h)
        simpa [Token.ofChars, hkept] using htoken
termination_by _ s => s.length

variable {before s : List Char} {ts : List Token}

/-- **Every token has its place**, and only the text in front of it decides which. -/
theorem place (h : Tiled before ts s) {t : Token} (ht : t ∈ ts) :
    ∃ a b, s = a ++ t.text.toList ++ b ∧ t.StandsBehind (String.ofList (before ++ a)) ∧
      t.text.toList ≠ [] ∧ '\n' ∉ t.text.toList := by
  induction h with
  | done => cases ht
  | @blank before ts c s hc _ ih =>
    obtain ⟨a, b, rfl, hplace, htext⟩ := ih ht
    exact ⟨c :: a, b, rfl, by simpa using hplace, htext⟩
  | @comment before ts body s _ _ _ ih =>
    obtain ⟨a, b, rfl, hplace, htext⟩ := ih ht
    exact ⟨'/' :: '/' :: (body ++ a), b, by simp, by simpa using hplace, htext⟩
  | @token before t' ts s ht' hne hline _ ih =>
    rcases List.mem_cons.1 ht with rfl | ht
    · exact ⟨[], s, rfl, by simpa using ht', hne, hline⟩
    · obtain ⟨a, b, rfl, hplace, htext⟩ := ih ht
      exact ⟨t'.text.toList ++ a, b, by simp, by simpa using hplace, htext⟩

/-- **Tokens do not overlap**, and come in the order of their spans. -/
theorem pairwise (h : Tiled before ts s) :
    ts.Pairwise fun t u => ∀ a ∈ t.span, ∀ b ∈ u.span, a.stop ≤ b.start := by
  induction h with
  | done => exact .nil
  | blank _ _ ih => exact ih
  | comment _ _ _ ih => exact ih
  | token ht _ _ h ih =>
    refine List.pairwise_cons.2 ⟨fun u hu a ha b hb => ?_, ih⟩
    obtain ⟨between, -, -, hplace, -⟩ := h.place hu
    rw [ht.span] at ha
    rw [hplace.span] at hb
    obtain rfl := Option.some.inj ha
    obtain rfl := Option.some.inj hb
    rw [String.ofList_append, String.ofList_append, String.ofList_toList,
      String.utf8ByteSize_append (t := String.ofList between)]
    exact Nat.le_add_right _ _

/-- **Skipped text comes first**, and then the first token or the end. -/
theorem split (h : Tiled before ts s) : ∃ gap rest, s = gap ++ rest ∧ Skipped rest gap ∧
    (ts = [] ∧ rest = [] ∨ ∃ t us after, ts = t :: us ∧ rest = t.text.toList ++ after ∧
      t.StandsBehind (String.ofList (before ++ gap)) ∧
      Tiled (before ++ gap ++ t.text.toList) us after) := by
  induction h with
  | done => exact ⟨[], [], rfl, .nil, .inl ⟨rfl, rfl⟩⟩
  | @blank before ts c s hc _ ih =>
    obtain ⟨gap, rest, rfl, hgap, hrest⟩ := ih
    exact ⟨c :: gap, rest, rfl, .blank hc hgap, by simpa using hrest⟩
  | @comment before ts body s hbody hend _ ih =>
    obtain ⟨gap, rest, rfl, hgap, hrest⟩ := ih
    exact ⟨'/' :: '/' :: (body ++ gap), rest, by simp, .comment hbody hend hgap,
      by simpa using hrest⟩
  | @token before t ts s ht _ _ h =>
    exact ⟨[], t.text.toList ++ s, rfl, .nil,
      .inr ⟨t, ts, s, rfl, rfl, by simpa using ht, by simpa using h⟩⟩

end Tiled

/-! ## Gaps -/

/-- The spans before, between and behind tokens, from a byte on and up to another. -/
def Token.gaps (stop : Nat) : Nat → List Token → List Span
  | start, [] => [⟨start, stop⟩]
  | start, t :: ts =>
    match t.span with
    | some span => ⟨start, span.start⟩ :: gaps stop span.stop ts
    | none => gaps stop start ts

/-- **Gaps are skipped text.** -/
theorem Tiled.gaps {before s : List Char} {ts : List Token} (h : Tiled before ts s) {gap : Span}
    (hgap : gap ∈ Token.gaps (String.ofList (before ++ s)).utf8ByteSize
      (String.ofList before).utf8ByteSize ts) :
    ∃ a text b, before ++ s = a ++ text ++ b ∧ Skipped b text ∧
      gap = ⟨(String.ofList a).utf8ByteSize, (String.ofList (a ++ text)).utf8ByteSize⟩ := by
  induction ts generalizing before s with
  | nil =>
    obtain ⟨text, rest, rfl, htext, ⟨-, rfl⟩ | ⟨t, us, after, hcons, -⟩⟩ := h.split
    · rw [List.append_nil] at hgap
      exact ⟨before, text, [], by simp, htext, List.mem_singleton.1 hgap⟩
    · cases hcons
  | cons t ts ih =>
    obtain ⟨text, rest, rfl, htext, ⟨hnil, -⟩ | ⟨t', us, after, hcons, rfl, hplace, h'⟩⟩ := h.split
    · cases hnil
    · obtain ⟨rfl, rfl⟩ := List.cons.inj hcons
      rw [Token.gaps, hplace.span] at hgap
      rcases List.mem_cons.1 hgap with rfl | hgap
      · exact ⟨before, text, t.text.toList ++ after, by simp, htext, rfl⟩
      · rw [← List.append_assoc, ← List.append_assoc] at hgap ⊢
        refine ih h' ?_
        have hstop : String.ofList (before ++ text ++ t.text.toList)
            = String.ofList (before ++ text) ++ t.text := by
          rw [String.ofList_append, String.ofList_toList]
        rwa [hstop]

/-! ## Sources -/

/-- **The errors are the tokens of kind `error`**, in order. -/
theorem Token.lexErrors_eq (ts : List Token) :
    lexErrors ts = (ts.filter (·.kind = .error)).map fun t => ⟨t.text, t.line, t.column⟩ := by
  induction ts with
  | nil => rfl
  | cons t ts ih =>
    rw [lexErrors] at ih ⊢
    by_cases hk : t.kind = .error <;> simp [lexError?, hk, ih]

theorem eq_of_toList_eq {source : String} {a b c : List Char} (h : source.toList = a ++ b ++ c) :
    source = String.ofList a ++ String.ofList b ++ String.ofList c := by
  rw [← String.ofList_toList (s := source), h, String.ofList_append, String.ofList_append]

/-- **Tokens cover the source.**  Every token is at its place and on one line, tokens come in order
and do not overlap, what is before, between and behind them is blanks and comments, and the errors
are the tokens of kind `error`. -/
theorem scan_covers (source : String) :
    (∀ t ∈ Token.scan source, t.text ≠ "" ∧ '\n' ∉ t.text.toList ∧
      ∃ before after, source = before ++ t.text ++ after ∧ t.StandsBehind before) ∧
    ((Token.scan source).Pairwise fun t u => ∀ a ∈ t.span, ∀ b ∈ u.span, a.stop ≤ b.start) ∧
    (∀ gap ∈ Token.gaps source.utf8ByteSize 0 (Token.scan source), ∃ before text after,
      source = before ++ text ++ after ∧ Skipped after.toList text.toList ∧
        gap = ⟨before.utf8ByteSize, (before ++ text).utf8ByteSize⟩) ∧
    Token.lexErrors (Token.scan source) =
      ((Token.scan source).filter (·.kind = .error)).map fun t => ⟨t.text, t.line, t.column⟩ := by
  have htiled : Tiled [] (Token.scan source) source.toList := Tiled.scanFrom [] source.toList
  refine ⟨fun t ht => ?_, htiled.pairwise, fun gap hgap => ?_, Token.lexErrors_eq _⟩
  · obtain ⟨a, b, hsource, hplace, hne, hline⟩ := htiled.place ht
    have hsplit := eq_of_toList_eq hsource
    rw [String.ofList_toList] at hsplit
    exact ⟨fun hempty => hne (by rw [hempty]; rfl), hline, String.ofList a, String.ofList b, hsplit,
      hplace⟩
  · obtain ⟨a, text, b, hsource, htext, rfl⟩ := htiled.gaps (by simpa using hgap)
    refine ⟨String.ofList a, String.ofList text, String.ofList b, eq_of_toList_eq hsource, ?_, ?_⟩
    · rwa [String.toList_ofList, String.toList_ofList]
    · rw [String.ofList_append]

end Enigma
