import Enigma.Proofs.Places
import Enigma.Proofs.Relexing
import Enigma.Proofs.Totality

/-!
# Proofs/Quoting — an error of the grammar quotes the line it is on

A token knows its line by the newlines in front of it and its column by the characters behind the
last of them; an error cuts the source at newlines and takes the line of that number, without the
carriage returns at its end.  Both speak of the same line, since a token lies within one and never
ends in a blank.

* `IsLine` — the lines of a text, told by the text around them; `IsLine.codeLine_eq` — the line
  that is looked up is one of them;
* `Token.exists_isLine` — a token lies on its line, in its column;
* `Reader.exists_refusal` — reading fails at one token, so that an error is on the line of one
  (`Program.exists_place`);
* `parse_error_quotes` — so an error points at the text that does not fit.
-/

namespace Enigma

open Text Lexeme

/-! ## Lines -/

/-- Whether a text has the given line: it is what stands between two newlines, or between a newline
and an end of the text, and its number counts the newlines in front of it from one on. -/
def IsLine (s : List Char) (n : Nat) (line : List Char) : Prop :=
  ∃ before after, s = before ++ line ++ after ∧ '\n' ∉ line ∧ n = 1 + before.count '\n' ∧
    (∀ c ∈ before.getLast?, c = '\n') ∧ ∀ c ∈ after.head?, c = '\n'

theorem length_splitOn_newline (s : List Char) : (s.splitOn '\n').length = s.count '\n' + 1 := by
  induction s with
  | nil => rfl
  | cons c s ih =>
    rw [List.splitOn_eq_splitOnP] at ih ⊢
    rw [List.splitOnP_cons_eq_if_modifyHead, List.count_cons]
    split
    · rw [List.length_cons, ih]
    · rw [List.length_modifyHead, ih]

/-- A line that starts the text is the first piece between newlines. -/
theorem head?_splitOn_newline {line after : List Char} (hline : '\n' ∉ line)
    (hafter : ∀ c ∈ after.head?, c = '\n') : ((line ++ after).splitOn '\n')[0]? = some line := by
  have hfree : ∀ c ∈ line, (c == '\n') = false := fun c hc => by
    rw [beq_eq_false_iff_ne]
    exact fun heq => hline (heq ▸ hc)
  cases after with
  | nil =>
    rw [List.append_nil, List.splitOn_eq_singleton hline]
    rfl
  | cons c after =>
    obtain rfl := hafter c rfl
    rw [List.splitOn_eq_splitOnP, List.splitOnP_append_cons_of_forall_mem hfree '\n' (by decide)]
    rfl

/-- **A line is the piece of its number** between newlines. -/
theorem IsLine.getElem?_splitOn {s line : List Char} {n : Nat} (h : IsLine s (n + 1) line) :
    (s.splitOn '\n')[n]? = some line := by
  obtain ⟨before, after, rfl, hline, hn, hbefore, hafter⟩ := h
  obtain rfl : n = before.count '\n' := by omega
  have hfirst := head?_splitOn_newline hline hafter
  rcases List.eq_nil_or_concat before with rfl | ⟨front, c, rfl⟩
  · exact hfirst
  · obtain rfl := hbefore c (by simp)
    have hsplit : (front ++ ['\n'] ++ line ++ after).splitOn '\n'
        = front.splitOn '\n' ++ (line ++ after).splitOn '\n' := by
      rw [List.append_assoc, List.append_assoc, List.singleton_append, List.splitOn_eq_splitOnP,
        List.splitOnP_append_cons _ _ (by decide)]
      rfl
    rw [List.concat_eq_append, hsplit, List.count_append, List.getElem?_append_right
      (by rw [length_splitOn_newline]; exact Nat.le_refl _), length_splitOn_newline]
    simpa using hfirst

/-- **The line that is looked up**, without the carriage returns at its end. -/
theorem IsLine.codeLine_eq {source : String} {n : Nat} {line : List Char}
    (h : IsLine source.toList n line) :
    codeLine source n = String.ofList (dropWhileEnd (· == '\r') line) := by
  cases n with
  | zero =>
    obtain ⟨before, after, -, -, hn, -⟩ := h
    omega
  | succ n => rw [codeLine, h.getElem?_splitOn]

/-- Whether a text is quoted as the line of the given number: the line is that text with nothing but
carriage returns behind it, and the text does not end in one. -/
def Quotes (source : String) (n : Nat) (quoted : String) : Prop :=
  (∃ k, IsLine source.toList n (quoted.toList ++ List.replicate k '\r')) ∧
    quoted.toList.getLast? ≠ some '\r'

theorem Text.exists_dropWhileEnd_append (s : List Char) (c : Char) :
    (∃ k, dropWhileEnd (· == c) s ++ List.replicate k c = s) ∧
      (dropWhileEnd (· == c) s).getLast? ≠ some c := by
  constructor
  · have hall : ∀ x ∈ s.reverse.takeWhile (· == c), x = c := fun x hx => by
      simpa using List.all_eq_true.1 List.all_takeWhile x hx
    refine ⟨(s.reverse.takeWhile (· == c)).length, ?_⟩
    rw [← List.reverse_replicate, ← List.eq_replicate_of_mem hall, dropWhileEnd_append_takeWhile]
  · intro hlast
    simpa using getLast?_dropWhileEnd hlast

theorem IsLine.quotes_codeLine {source : String} {n : Nat} {line : List Char}
    (h : IsLine source.toList n line) : Quotes source n (codeLine source n) := by
  obtain ⟨⟨k, hk⟩, hlast⟩ := Text.exists_dropWhileEnd_append line '\r'
  rw [h.codeLine_eq, Quotes, String.toList_ofList]
  exact ⟨⟨k, hk.symm ▸ h⟩, hlast⟩

/-! ## Tokens on their lines -/

/-- **Around a text without newlines is a line**, which starts behind the last newline in front. -/
theorem IsLine.exists_around (a b : List Char) {s : List Char} (hs : '\n' ∉ s) :
    ∃ u v, IsLine (a ++ s ++ b) (1 + a.count '\n') (u ++ s ++ v) ∧
      u.length = (a.reverse.takeWhile (· != '\n')).length := by
  let u := (a.reverse.takeWhile (· != '\n')).reverse
  let before := (a.reverse.dropWhile (· != '\n')).reverse
  have ha : a = before ++ u := by
    rw [← List.reverse_append, List.takeWhile_append_dropWhile, List.reverse_reverse]
  have hu : '\n' ∉ u := by simpa [u] using not_mem_takeWhile_newline a.reverse
  refine ⟨u, b.takeWhile (· != '\n'), ⟨before, b.dropWhile (· != '\n'), ?_, ?_, ?_, ?_,
    head?_dropWhile_newline b⟩, List.length_reverse⟩
  · conv => lhs; rw [ha, ← List.takeWhile_append_dropWhile (p := (· != '\n')) (l := b)]
    simp only [List.append_assoc]
  · simp only [List.mem_append, not_or]
    exact ⟨⟨hu, hs⟩, not_mem_takeWhile_newline b⟩
  · conv => lhs; rw [ha, List.count_append, List.count_eq_zero.2 hu]
    rfl
  · intro c hc
    rw [List.getLast?_reverse] at hc
    exact head?_dropWhile_newline a.reverse c hc

/-- **A token lies on its line, in its column.** -/
theorem Token.exists_isLine {source : String} {t : Token} (ht : t ∈ scan source) :
    ∃ u v, IsLine source.toList t.line (u ++ t.text.toList ++ v) ∧ t.column = 1 + u.length ∧
      t.text.toList ≠ [] := by
  have htiled : Tiled [] (scan source) source.toList := Tiled.scanFrom [] source.toList
  obtain ⟨a, b, hsource, hplace, hne, hline⟩ := htiled.place ht
  obtain ⟨u, v, h, hu⟩ := IsLine.exists_around a b hline
  refine ⟨u, v, ?_, ?_, hne⟩
  · rw [hsource, hplace.line, String.toList_ofList]
    exact h
  · rw [hplace.column, hu, String.toList_ofList, List.nil_append]

/-- **The line of a token can be quoted.** -/
theorem Token.quotes_codeLine {source : String} {t : Token} (ht : t ∈ scan source) :
    Quotes source t.line (codeLine source t.line) := by
  obtain ⟨u, v, hline, -⟩ := exists_isLine ht
  exact hline.quotes_codeLine

/-- A token that ends in front of blanks holds none. -/
theorem TokenKind.not_mem_of_isBlank {k : TokenKind} (hk : k.spansBlanks = false) {c : Char}
    (hc : isBlank c = false) {s : List Char} {n : Nat} (h : k.lexeme? (c :: s) = some n) {d : Char}
    (hd : isBlank d = true) : d ∉ (c :: s).take n := by
  intro hmem
  obtain ⟨a, u, hsplit, ha⟩ := List.eq_append_cons_of_mem (List.mem_of_mem_take hmem)
  have hne : a ≠ [] := by
    rintro rfl
    exact ne_of_isBlank hd hc (List.cons.inj hsplit).1.symm
  rw [hsplit] at h hmem
  rw [lexeme?_append_blank hk hd hne] at h
  rw [List.take_append_of_le_length (lexeme?_bounds h).2] at hmem
  exact ha (List.mem_of_mem_take hmem)

theorem getLast?_append_of_ne_nil (a : List Char) {b : List Char} (hb : b ≠ []) :
    (a ++ b).getLast? = b.getLast? := by
  rw [List.getLast?_append, List.getLast?_eq_some_getLast hb, Option.some_or]

theorem IsIdentifier.not_mem_of_isBlank {t : List Char} (h : IsIdentifier t) {d : Char}
    (hd : isBlank d = true) : d ∉ t := by
  obtain ⟨c, s, rfl, hc, hs⟩ := h
  rintro (_ | ⟨_, hmem⟩)
  · have hletter := isAlphanum_eq_false_of_isBlank hd
    rw [Char.isAlphanum, hc] at hletter
    cases hletter
  · have hname := List.all_eq_true.1 hs d hmem
    rw [isNameChar_eq_false_of_isBlank hd] at hname
    cases hname

theorem IsFunctionHead.isBlank_getLast {t : List Char} (h : IsFunctionHead t) {d : Char}
    (hd : t.getLast? = some d) : isBlank d = false := by
  obtain ⟨type, -, gap, name, rfl, -, -, hname⟩ := h
  have hne : name ≠ [] := by
    obtain ⟨c, s, rfl, -⟩ := hname
    exact List.cons_ne_nil c s
  rw [← List.cons_append, ← List.cons_append, ← List.append_assoc,
    getLast?_append_of_ne_nil _ hne] at hd
  exact eq_false_of_ne_true fun hblank =>
    hname.not_mem_of_isBlank hblank (List.mem_of_getLast? hd)

theorem IsString.getLast? {t : List Char} (h : IsString t) : t.getLast? = some '"' := by
  obtain ⟨s, -, rfl⟩ := h
  rw [← List.cons_append, List.getLast?_concat]

/-- **No token ends in a blank.** -/
theorem Token.isBlank_getLast {source : String} {t : Token} (ht : t ∈ scan source) {d : Char}
    (hd : t.text.toList.getLast? = some d) : isBlank d = false := by
  obtain ⟨s, n, hfirst, htext⟩ := first?_of_mem_scan ht
  have hkept : t.kind.ignored = false := by simpa using (List.mem_filter.1 ht).2
  have hlexeme := lexeme?_of_first? hfirst
  rw [htext] at hd
  cases hspan : t.kind.spansBlanks with
  | false =>
    refine eq_false_of_ne_true fun hblank => ?_
    cases s with
    | nil => cases hfirst
    | cons c s =>
      have hc : isBlank c = false := by
        refine eq_false_of_ne_true fun hc => ?_
        rw [first?_of_isBlank hc] at hfirst
        rw [← (Prod.mk.inj (Option.some.inj hfirst)).1] at hkept
        cases hkept
      exact TokenKind.not_mem_of_isBlank hspan hc hlexeme hblank (List.mem_of_getLast? hd)
  | true =>
    generalize t.kind = k at hkept hlexeme hspan
    cases k with
    | comment | blank => cases hkept
    | functionHead => exact (isFunctionHead_of_functionHead? hlexeme).isBlank_getLast hd
    | string =>
      obtain rfl := Option.some.inj ((isString_of_string? hlexeme).getLast?.symm.trans hd)
      decide
    | _ => cases hspan

/-- **The quoted line shows a token in its column.** -/
theorem Token.text_prefix_codeLine {source : String} {t : Token} (ht : t ∈ scan source) :
    t.text.toList <+: (codeLine source t.line).toList.drop (t.column - 1) := by
  obtain ⟨u, v, hline, hcolumn, hne⟩ := exists_isLine ht
  have hlast : ∀ c, (u ++ t.text.toList).getLast? = some c → (c == '\r') = false := by
    intro c hc
    rw [getLast?_append_of_ne_nil u hne] at hc
    have hblank := isBlank_getLast ht hc
    rw [beq_eq_false_iff_ne]
    rintro rfl
    exact absurd hblank (by decide)
  rw [hline.codeLine_eq, dropWhileEnd_append v hlast, String.toList_ofList, hcolumn,
    Nat.add_sub_cancel_left, List.append_assoc, List.drop_left]
  exact List.prefix_append ..

/-! ## Where reading fails -/

/-- The token that does not fit, unless the input ended. -/
def Mismatch.found : Mismatch → Option Token
  | unexpected found _ => some found
  | ended _ => none
  | misplaced found => some found

namespace Reader

/-- **Reading fails at one token**, which does not fit behind those before it. -/
theorem exists_refusal {r : Reader} {tokens : List Token} {m : Mismatch}
    (h : tokens.foldlM advance r = .error m) :
    ∃ before t after r', tokens = before ++ t :: after ∧ r.feedAll before = some r' ∧
      r'.feed t = none ∧ m = r'.refusal t := by
  induction tokens generalizing r with
  | nil => cases h
  | cons t tokens ih =>
    rw [List.foldlM_cons, advance] at h
    cases hfeed : r.feed t with
    | none =>
      rw [hfeed] at h
      exact ⟨[], t, tokens, r, rfl, rfl, hfeed, (Except.error.inj h).symm⟩
    | some r₁ =>
      rw [hfeed] at h
      obtain ⟨before, t', after, r', rfl, hrun, hnone, hm⟩ := ih h
      exact ⟨t :: before, t', after, r', rfl, by rw [feedAll_cons, hfeed]; exact hrun, hnone, hm⟩

/-- A separator that waits for a parameter is among the tokens read. -/
theorem Covers.separator_mem {r : Reader} {ts : List Token} (h : r.Covers ts)
    {signature : Signature} {params : List Param} {separator : Token}
    (hp : r.point = .paramNext signature params separator) : separator ∈ ts := by
  obtain ⟨-, -, hcovers⟩ := h
  rw [hp] at hcovers
  cases hcovers
  simp

/-- **A refusal names the token that is refused or one before it.** -/
theorem Covers.mem_of_refusal {r : Reader} {ts : List Token} (h : r.Covers ts) {t u : Token}
    (hu : (r.refusal t).found = some u) : u = t ∨ u ∈ ts := by
  cases hp : r.point with
  | statement | branches =>
    simp only [refusal, hp] at hu
    split at hu
    · split at hu
      · cases hu
      · exact .inl (Option.some.inj hu).symm
    all_goals exact .inl (Option.some.inj hu).symm
  | paramNext =>
    simp only [refusal, hp] at hu
    obtain rfl := Option.some.inj hu
    exact .inr (h.separator_mem hp)
  | _ =>
    simp only [refusal, hp] at hu
    exact .inl (Option.some.inj hu).symm

/-- **What is missing at the end names a token that was read**, if it names one. -/
theorem Covers.mem_of_missing {r : Reader} {ts : List Token} (h : r.Covers ts) {u : Token}
    (hu : r.missing.found = some u) : u ∈ ts := by
  unfold missing at hu
  split at hu
  · cases hu
  · cases hu
  · obtain rfl := Option.some.inj hu
    exact h.separator_mem ‹_›
  · cases hu

theorem finish_eq_error {r : Reader} {m : Mismatch} (h : r.finish = .error m) : m = r.missing := by
  unfold finish at h
  split at h
  · cases h
  · cases h
  · exact (Except.error.inj h).symm

end Reader

namespace Program

/-- **The token that is named is one of those read.** -/
theorem found_mem {tokens : List Token} {m : Mismatch} (h : ofTokens tokens = .error m) {t : Token}
    (ht : m.found = some t) : t ∈ tokens := by
  rw [ofTokens, bind_eq_error_iff] at h
  obtain h | ⟨r, hr, hfinish⟩ := h
  · obtain ⟨before, t', after, r, rfl, hrun, -, rfl⟩ := Reader.exists_refusal h
    rcases (Reader.covers_start.feedAll hrun).mem_of_refusal ht with rfl | hmem
    · simp
    · exact List.mem_append_left _ hmem
  · have hcovers := Reader.covers_start.feedAll (Reader.foldlM_advance_eq_ok_iff.1 hr)
    rw [Reader.finish_eq_error hfinish] at ht
    exact hcovers.mem_of_missing ht

/-- **An error is on the line of a token**: the one it names, or else the last. -/
theorem exists_place {tokens : List Token} {source : String} {e : SyntaxError}
    (h : parse tokens source = .error e) :
    ∃ t ∈ tokens, e.found.or tokens.getLast? = some t ∧ e.line = t.line ∧
      e.quoted = codeLine source t.line := by
  obtain ⟨m, hm, rfl⟩ := mapError_eq_error_iff.1 h
  cases m with
  | unexpected found expected => exact ⟨found, found_mem hm rfl, rfl, rfl, rfl⟩
  | misplaced found => exact ⟨found, found_mem hm rfl, rfl, rfl, rfl⟩
  | ended expected =>
    -- no tokens at all are a program
    have hne : tokens ≠ [] := by
      rintro rfl
      cases hm
    have hlast := List.getLast?_eq_some_getLast hne
    rw [hlast]
    exact ⟨_, List.getLast_mem hne, rfl, rfl, rfl⟩

end Program

/-! ## Errors -/

theorem SyntaxError.exists_report (e : SyntaxError) :
    ∃ message, e.report = message ++ "\n" ++ e.quoted ++ "\n" ++
      (String.ofList (List.replicate e.indent ' ') ++ "^") :=
  ⟨_, rfl⟩

/-- **An error of the grammar points at the text that does not fit.**  It quotes the source line of
its number; a token that it names is one of the source, stands in the quoted line at its column, and
has the caret of the report below its first character.  Where input ends too early there is a token,
and the line quoted is that of the last one. -/
theorem parse_error_quotes {source : String} {e : SyntaxError}
    (h : Program.parse (Token.scan source) source = .error e) :
    Quotes source e.line e.quoted ∧
      (∀ t, e.found = some t → t ∈ Token.scan source ∧ e.line = t.line ∧
        e.column = some t.column ∧ t.text.toList <+: e.quoted.toList.drop (t.column - 1) ∧
        ∃ message, e.report = message ++ "\n" ++ e.quoted ++ "\n" ++
          (String.ofList (List.replicate (t.column - 1) ' ') ++ "^")) ∧
      (e.found = none → ∃ t, (Token.scan source).getLast? = some t ∧ e.line = t.line) := by
  obtain ⟨u, hmem, hplace, hline, hquoted⟩ := Program.exists_place h
  refine ⟨?_, fun t ht => ?_, fun hnone => ?_⟩
  · rw [hline, hquoted]
    exact Token.quotes_codeLine hmem
  · rw [ht, Option.some_or] at hplace
    obtain rfl := Option.some.inj hplace
    have hcolumn : e.column = some t.column := by rw [SyntaxError.column, ht, Option.map_some]
    refine ⟨hmem, hline, hcolumn, ?_, ?_⟩
    · rw [hquoted]
      exact Token.text_prefix_codeLine hmem
    · have hreport := e.exists_report
      rwa [SyntaxError.indent, hcolumn] at hreport
  · rw [hnone, Option.none_or] at hplace
    exact ⟨u, hplace, hline⟩

/-- A number behind a string with an accent, on a second line that ends in a carriage return. -/
theorem parse_error_quotes_second_line :
    let source := "enum v-a = 1,\r\nestr v-b = \"é\" 7,\r\n"
    ∃ e t, Program.parse (Token.scan source) source = .error e ∧ e.found = some t ∧
      t.text = "7" ∧ e.line = 2 ∧ t.column = 16 ∧ e.quoted = "estr v-b = \"é\" 7," ∧
      Quotes source e.line e.quoted ∧ t.text.toList <+: e.quoted.toList.drop (t.column - 1) := by
  intro source
  have hcheck : (match Program.parse (Token.scan source) source with
      | .error e => e.line == 2 && e.quoted == "estr v-b = \"é\" 7," &&
          e.found.any fun t => t.text == "7" && t.column == 16
      | .ok _ => false) = true := by decide +kernel
  split at hcheck
  · rename_i e he
    simp only [Bool.and_eq_true, beq_iff_eq, Option.any_eq_true] at hcheck
    obtain ⟨⟨hline, hquoted⟩, t, ht, htext, hcolumn⟩ := hcheck
    obtain ⟨hquotes, hfound, -⟩ := parse_error_quotes he
    obtain ⟨-, -, -, hprefix, -⟩ := hfound t ht
    exact ⟨e, t, he, ht, htext, hline, hcolumn, hquoted, hquotes, hprefix⟩
  · cases hcheck

end Enigma
