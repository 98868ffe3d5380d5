import Enigma.Proofs.Literals
import Enigma.Proofs.Seams

/-!
# Proofs/Relexing — a token is read back wherever a blank follows it

* `IsNumber.number?_append`, `IsString.string?_append` and their companions — text that looks like a
  token of a kind is one, whatever stands behind the blank or the comma that ends it;
* `TokenKind.leads` — the characters a token can start with;
* `Token.Rereads` — a token that is read back from its text, at the end or in front of a space;
* `Token.rereads_of_mem_scan` — every token of a scan but stray text is one;
* `Token.scan_joined` — so the texts of tokens with spaces between them have the same tokens.
-/

namespace Enigma

open Text

namespace Lexeme

/-! ## Texts of a table -/

theorem take_of_isPrefixOf {w : String} {s : List Char} (h : w.toList.isPrefixOf s = true) :
    s.take w.length = w.toList := by
  rw [← String.length_toList]
  exact (List.prefix_iff_eq_take.1 (List.isPrefixOf_iff_prefix.1 h)).symm

/-- One of some texts is one of them, and it is what is taken. -/
theorem oneOf?_eq_some {options : List String} {s : List Char} {n : Nat}
    (h : oneOf? options s = some n) : ∃ w ∈ options, n = w.length ∧ s.take n = w.toList := by
  obtain ⟨w, hw, rfl⟩ := Option.map_eq_some_iff.1 h
  have hb := List.find?_some hw
  exact ⟨w, List.mem_of_find?_eq_some hw, rfl, take_of_isPrefixOf (by simpa using hb)⟩

/-- A whole word is one of the options, and it is what is taken. -/
theorem word?_eq_some {options : List String} {s : List Char} {n : Nat}
    (h : word? options s = some n) : ∃ w ∈ options, n = w.length ∧ s.take n = w.toList := by
  obtain ⟨w, hw, rfl⟩ := Option.map_eq_some_iff.1 h
  have hb := List.find?_some hw
  exact ⟨w, List.mem_of_find?_eq_some hw, rfl, take_of_isPrefixOf (Bool.and_eq_true_iff.1 hb).1⟩

/-! ## Text in front of a blank -/

/-- Whether nothing comes, or a blank does. -/
def Clear (r : List Char) : Prop := ∀ c ∈ r.head?, isBlank c = true

variable {r : List Char}

/-- Whether nothing comes that a word or a number goes on with: the end, a blank or a comma. -/
def Stops (r : List Char) : Prop := ∀ c ∈ r.head?, isWord c = false ∧ c ≠ '.'

/-- What is clear stops a word. -/
theorem Clear.stops (hr : Clear r) : Stops r :=
  fun c hc => ⟨isWord_eq_false_of_isBlank (hr c hc), ne_of_isBlank (hr c hc) (by decide)⟩

namespace Stops

/-- In front of what stops a word, a word ends. -/
theorem atWordEnd (hr : Stops r) : Text.atWordEnd r = true := by
  cases r with
  | nil => rfl
  | cons c r => simp [Text.atWordEnd, (hr c rfl).1]

/-- Behind a stop there is no character of a class of word characters. -/
theorem eq_false (hr : Stops r) {p : Char → Bool} (hp : ∀ c, p c = true → isWord c = true) :
    ∀ c ∈ r.head?, p c = false := by
  intro c hc
  refine eq_false_of_ne_true fun h => ?_
  have hword := hp c h
  rw [(hr c hc).1] at hword
  cases hword

end Stops

/-- Characters of names are characters of words. -/
theorem isWord_of_isNameChar {c : Char} (h : isNameChar c = true) : isWord c = true := by
  rcases Bool.or_eq_true_iff.1 h with h | h
  · exact isWord_of_isAlphanum h
  · rw [eq_of_beq h]
    decide

/-- **A run goes as far as its class**, and no further than where that stops. -/
theorem takeWhile_append_stop {p : Char → Bool} {t : List Char} (ht : t.all p = true)
    (hr : ∀ c ∈ r.head?, p c = false) : (t ++ r).takeWhile p = t := by
  rw [List.takeWhile_append_of_pos (List.all_eq_true.1 ht)]
  cases r with
  | nil => exact List.append_nil t
  | cons c r => rw [List.takeWhile_cons_of_neg (by simp [hr c rfl]), List.append_nil]

/-- A run in front of what stops it is taken whole. -/
theorem run?_append {p : Char → Bool} {t : List Char} (hne : t ≠ []) (ht : t.all p = true)
    (hr : ∀ c ∈ r.head?, p c = false) : run? p (t ++ r) = some t.length := by
  rw [run?, takeWhile_append_stop ht hr]
  exact if_neg fun h => hne (List.length_eq_zero_iff.1 h)

end Lexeme

open Lexeme

/-- **What looks like a number is one** where it stops. -/
theorem IsNumber.number?_append {t r : List Char} (h : IsNumber t) (hr : Stops r) :
    number? (t ++ r) = some t.length := by
  have hdigit : ∀ c ∈ r.head?, isDigit c = false := hr.eq_false fun _ => isWord_of_isDigit
  cases h with
  | whole hne h =>
    have hdrop : (t ++ r).drop t.length = r := List.drop_left
    rw [number?_of_plain (run?_append hne h hdigit), hdrop, if_pos hr.atWordEnd]
    intro t' ht'
    rw [hdrop] at ht'
    exact absurd rfl (hr '.' (by rw [ht']; rfl)).2
  | @point ds es hne h hne' h' =>
    have hds : run? isDigit (ds ++ '.' :: es ++ r) = some ds.length := by
      rw [List.append_assoc]
      refine run?_append hne h fun c hc => ?_
      obtain rfl := Option.some.inj hc
      decide
    have hdrop : (ds ++ '.' :: es ++ r).drop ds.length = '.' :: (es ++ r) := by
      rw [List.append_assoc, List.drop_left]
      rfl
    rw [number?_of_point hds hdrop, run?_append hne' h' hdigit]
    dsimp only
    rw [List.drop_left, if_pos hr.atWordEnd, List.length_append, List.length_cons]
    simp only [Nat.add_assoc, Nat.add_comm 1]

/-- **What looks like a string is one**, whatever follows. -/
theorem IsString.string?_append {t : List Char} (h : IsString t) (hline : '\n' ∉ t)
    (r : List Char) : string? (t ++ r) = some t.length := by
  obtain ⟨s, hs, rfl⟩ := h
  have hinside : s.all (fun c => c != '"' && c != '\n') = true := by
    refine List.all_eq_true.2 fun c hc => ?_
    have hquote : c ≠ '"' := fun h => hs (h ▸ hc)
    have hnewline : c ≠ '\n' := fun h => hline (by simp [h ▸ hc])
    simp [hquote, hnewline]
  have hrun : (s ++ '"' :: r).takeWhile (fun c => c != '"' && c != '\n') = s :=
    takeWhile_append_stop hinside fun c hc => by simp [← Option.some.inj hc]
  rw [List.cons_append, List.append_assoc, List.singleton_append, string?, hrun, List.drop_left]
  simp

/-! ## Identifiers -/

/-- An ASCII letter, and letters, digits and underscores behind it. -/
def IsIdentifier (t : List Char) : Prop :=
  ∃ c s, t = c :: s ∧ c.isAlpha = true ∧ s.all isNameChar = true

/-- **What is taken for an identifier is one.** -/
theorem isIdentifier_of_identifier? {s : List Char} {n : Nat} (h : identifier? s = some n) :
    IsIdentifier (s.take n) := by
  cases s with
  | nil => cases h
  | cons c s =>
    simp only [identifier?, Option.ite_none_right_eq_some, Option.some.injEq,
      Bool.and_eq_true] at h
    obtain ⟨⟨hc, -⟩, rfl⟩ := h
    refine ⟨c, s.takeWhile isNameChar, ?_, hc, List.all_takeWhile⟩
    rw [List.take_succ_cons, ← List.prefix_iff_eq_take.1 (List.takeWhile_prefix isNameChar)]

/-- **An identifier is taken whole** in front of what stops a word. -/
theorem IsIdentifier.identifier?_append {t r : List Char} (h : IsIdentifier t) (hr : Stops r) :
    identifier? (t ++ r) = some t.length := by
  obtain ⟨c, s, rfl, hc, hs⟩ := h
  have hrun : (s ++ r).takeWhile isNameChar = s :=
    takeWhile_append_stop hs (hr.eq_false fun _ => isWord_of_isNameChar)
  rw [List.cons_append, identifier?, hrun, List.drop_left, hc, hr.atWordEnd]
  rfl

/-- An identifier behind `v-`. -/
def IsName (t : List Char) : Prop := ∃ s, t = 'v' :: '-' :: s ∧ IsIdentifier s

/-- What is taken for the name of a variable is one. -/
theorem isName_of_name? {s : List Char} {n : Nat} (h : name? s = some n) : IsName (s.take n) := by
  unfold name? at h
  split at h
  · rename_i s
    obtain ⟨m, hm, rfl⟩ := Option.map_eq_some_iff.1 h
    exact ⟨s.take m, rfl, isIdentifier_of_identifier? hm⟩
  · cases h

/-- The name of a variable is taken whole. -/
theorem IsName.name?_append {t r : List Char} (h : IsName t) (hr : Stops r) :
    name? (t ++ r) = some t.length := by
  obtain ⟨s, rfl, hs⟩ := h
  rw [List.cons_append, List.cons_append, name?, hs.identifier?_append hr]
  rfl

/-! ## Function heads -/

/-- The data types that a function can have. -/
def returnTypes : List String := ["none", "enum", "efl", "estr", "ebool"]

/-- `f-` and a return type, spaces or tabs, and an identifier. -/
def IsFunctionHead (t : List Char) : Prop :=
  ∃ type ∈ returnTypes, ∃ gap name, t = 'f' :: '-' :: (type.toList ++ (gap ++ name)) ∧ gap ≠ [] ∧
    gap.all (fun c => c == ' ' || c == '\t') = true ∧ IsIdentifier name

/-- What is taken for the head of a function is one. -/
theorem isFunctionHead_of_functionHead? {s : List Char} {n : Nat}
    (h : functionHead? s = some n) : IsFunctionHead (s.take n) := by
  unfold functionHead? at h
  split at h
  · rename_i t
    simp only [Option.bind_eq_bind, Option.bind_eq_some_iff, Option.some.injEq] at h
    obtain ⟨_, htype, gap, hgap, name, hname, rfl⟩ := h
    obtain ⟨type, hmem, rfl, htake⟩ := oneOf?_eq_some htype
    obtain ⟨hne, hall⟩ := take_of_run? hgap
    refine ⟨type, hmem, _, _, ?_, hne, hall, isIdentifier_of_identifier? hname⟩
    have hsplit : 2 + type.length + gap + name = type.length + (gap + name) + 1 + 1 := by omega
    rw [hsplit, List.take_succ_cons, List.take_succ_cons, List.take_add, htake, List.take_add,
      List.drop_drop]
  · cases h

/-- A head is taken if its type, its blanks and its name are. -/
theorem functionHead?_of_parts {s : List Char} {type gap name : Nat}
    (htype : oneOf? returnTypes s = some type)
    (hgap : run? (fun c => c == ' ' || c == '\t') (s.drop type) = some gap)
    (hname : identifier? (s.drop (type + gap)) = some name) :
    functionHead? ('f' :: '-' :: s) = some (2 + type + gap + name) := by
  rw [returnTypes] at htype
  simp only [functionHead?, htype, hgap, hname, Option.bind_eq_bind, Option.bind_some]

/-- The head of a function is taken whole. -/
theorem IsFunctionHead.functionHead?_append {t r : List Char} (h : IsFunctionHead t)
    (hr : Clear r) : functionHead? (t ++ r) = some t.length := by
  obtain ⟨type, hmem, gap, name, rfl, hne, hall, hname⟩ := h
  have htype : oneOf? returnTypes (type.toList ++ (gap ++ (name ++ r))) = some type.length := by
    have halone : ∀ w ∈ returnTypes, oneOf? returnTypes w.toList = some w.length := by decide
    obtain ⟨c, gap', rfl⟩ := List.exists_cons_of_ne_nil hne
    have hc : isBlank c = true := by
      have hc := List.all_eq_true.1 hall c (List.mem_cons_self ..)
      rcases Bool.or_eq_true_iff.1 hc with hc | hc <;> rw [eq_of_beq hc] <;> decide
    rw [List.cons_append, oneOf?_append_blank hc (by decide), halone type hmem]
  have hdrop (s : List Char) : (type.toList ++ s).drop type.length = s := by
    rw [← String.length_toList, List.drop_left]
  have hgap : run? (fun c => c == ' ' || c == '\t')
      ((type.toList ++ (gap ++ (name ++ r))).drop type.length) = some gap.length := by
    rw [hdrop]
    refine run?_append hne hall fun c hc => ?_
    -- the identifier starts with a letter
    obtain ⟨d, s, rfl, hd, -⟩ := hname
    obtain rfl := Option.some.inj hc
    refine eq_false_of_ne_true fun hblank => ?_
    rcases Bool.or_eq_true_iff.1 hblank with h | h <;> rw [eq_of_beq h] at hd <;>
      exact absurd hd (by decide)
  have hrest : identifier? ((type.toList ++ (gap ++ (name ++ r))).drop (type.length + gap.length))
      = some name.length := by
    rw [← List.drop_drop, hdrop, List.drop_left, hname.identifier?_append hr.stops]
  simp only [List.cons_append, List.append_assoc]
  rw [functionHead?_of_parts htype hgap hrest]
  simp only [List.length_cons, List.length_append, String.length_toList, Option.some.injEq]
  omega

/-! ## What tokens start with -/

namespace TokenKind

/-- The characters of a text as a class. -/
def ofChars (s : String) : Ranges := s.toList.map fun c => (c.toNat, c.toNat)

/-- The characters that a token of the kind can start with; stray text may start with any. -/
def leads : TokenKind → Ranges
  | comment => ofChars "/"
  | blank => blankRanges
  | dataType => ofChars "e"
  | boolean => ofChars "yn"
  | functionHead => ofChars "f"
  | iff => ofChars "i"
  | maybe => ofChars "m"
  | orelse => ofChars "o"
  | iterate => ofChars "i"
  | whilst => ofChars "w"
  | br => ofChars "b"
  | cont => ofChars "c"
  | name => ofChars "v"
  | number => (0x30, 0x39) :: digitRanges
  | string => ofChars "\""
  | operator => ofChars "+-=!<>*/"
  | assign => ofChars "="
  | terminator => ofChars ","
  | comma => ofChars ","
  | leftParen => ofChars "("
  | rightParen => ofChars ")"
  | leftCurly => ofChars "\x7b"
  | rightCurly => ofChars "\x7d"
  | error => []
  | eof => []

variable {c : Char} {s : List Char}

theorem head_of_take {n : Nat} {a : Char} {t : List Char} (h : (c :: s).take n = a :: t) :
    c = a := by
  cases n with
  | zero => cases h
  | succ n => exact (List.cons.inj h).1

/-- What starts with one of some texts starts as one of them does. -/
theorem lead_of_options {leads : Ranges} {options : List String}
    (ho : ∀ w ∈ options, w.toList.head?.any leads.contains = true) {n : Nat}
    (h : ∃ w ∈ options, n = w.length ∧ (c :: s).take n = w.toList) : leads.contains c = true := by
  obtain ⟨w, hw, -, htake⟩ := h
  have hlead := ho w hw
  cases hw : w.toList with
  | nil =>
    rw [hw] at hlead
    cases hlead
  | cons a t =>
    rw [hw] at hlead htake
    rw [head_of_take htake]
    exact hlead

theorem lead_of_run? {p : Char → Bool} {n : Nat} (h : run? p (c :: s) = some n) : p c = true := by
  obtain ⟨hne, hall⟩ := take_of_run? h
  cases n with
  | zero => exact absurd rfl hne
  | succ n => exact (Bool.and_eq_true_iff.1 hall).1

theorem lead_of_isDigit (h : isDigit c = true) : number.leads.contains c = true := by
  unfold isDigit at h
  split at h
  · have hascii := forall_ascii (p := fun c => !c.isDigit || number.leads.contains c)
      (by decide +kernel) ‹_›
    simpa [h] using hascii
  · exact Bool.or_eq_true_iff.2 (.inr h)

/-- **A token starts with one of its leads.** -/
theorem lead_of_lexeme? {k : TokenKind} (hk : k ≠ .error) {n : Nat}
    (h : k.lexeme? (c :: s) = some n) : k.leads.contains c = true := by
  cases k with
  | comment =>
    simp only [lexeme?, comment?] at h
    split at h
    · rename_i heq
      rw [(List.cons.inj heq).1]
      decide
    · cases h
  | blank => exact lead_of_run? h
  | functionHead =>
    obtain ⟨type, -, gap, name, htake, -⟩ := isFunctionHead_of_functionHead? h
    rw [head_of_take htake]
    decide
  | name =>
    obtain ⟨t, htake, -⟩ := isName_of_name? h
    rw [head_of_take htake]
    decide
  | number =>
    obtain ⟨whole, hw, -⟩ := Option.bind_eq_some_iff.1 h
    exact lead_of_isDigit (lead_of_run? hw)
  | string =>
    obtain ⟨t, -, htake⟩ := isString_of_string? h
    rw [head_of_take htake]
    decide
  | error => exact absurd rfl hk
  | eof => cases h
  | dataType | boolean | iff | maybe | orelse | iterate | whilst | br | cont =>
    exact lead_of_options (by decide) (word?_eq_some h)
  | operator | assign | terminator | comma | leftParen | rightParen | leftCurly | rightCurly =>
    exact lead_of_options (by decide) (oneOf?_eq_some h)

/-- Whether no token of another kind starts as one of this kind does. -/
def lone : TokenKind → Bool
  | functionHead | name | number | string => true
  | _ => false

/-- **What starts like a token of a lone kind** is no token of another kind. -/
theorem eq_of_lone {k k' : TokenKind} (hk : k.lone = true) (hk' : k' ≠ .error)
    (h : k.leads.contains c = true) {n : Nat} (h' : k'.lexeme? (c :: s) = some n) : k' = k := by
  have hapart : (all.filter lone).all (fun k => all.all fun k' =>
      k' == k || k.leads.apartFrom k'.leads) = true := by decide +kernel
  have hmem : k ∈ all.filter lone := List.mem_filter.2 ⟨mem_all k, hk⟩
  have hpair := List.all_eq_true.1 (List.all_eq_true.1 hapart k hmem) k' (mem_all k')
  rcases Bool.or_eq_true_iff.1 hpair with heq | hranges
  · exact eq_of_beq heq
  · have hnot := Ranges.not_contains_of_apart hranges h
    rw [lead_of_lexeme? hk' h'] at hnot
    cases hnot

end TokenKind

/-! ## The first token, told by what comes before and after in the order of trial -/

namespace Token

open TokenKind

variable {s : List Char} {k : TokenKind} {n : Nat}

/-- **Kinds that are tried earlier do not fit.** -/
theorem lexeme?_eq_none_of_first? (h : first? s = some (k, n)) {i : Nat}
    (hall : all = all.take i ++ k :: all.drop (i + 1)) (hk : k ∉ all.take i) {k' : TokenKind}
    (hk' : k' ∈ all.take i) : k'.lexeme? s = none := by
  rw [first?, hall, List.findSome?_append] at h
  cases hfront : (all.take i).findSome? fun k => (k.lexeme? s).map fun n => (k, n) with
  | none => simpa using List.findSome?_eq_none_iff.1 hfront k' hk'
  | some r =>
    rw [hfront, Option.some_or] at h
    obtain ⟨k'', hmem, hk''⟩ := List.exists_of_findSome?_eq_some hfront
    obtain ⟨m, -, rfl⟩ := Option.map_eq_some_iff.1 hk''
    obtain ⟨rfl, -⟩ := Prod.mk.inj (Option.some.inj h)
    exact absurd hmem hk

/-- **No comma is ever scanned**: terminators look the same and are tried first. -/
theorem first?_ne_comma : first? s ≠ some (.comma, n) := by
  intro h
  have hcomma := lexeme?_of_first? h
  -- terminators are tried first and look the same
  have hnone : TokenKind.terminator.lexeme? s = none :=
    lexeme?_eq_none_of_first? h (i := 18) rfl (by decide) (by decide)
  exact absurd (hcomma.symm.trans hnone) (by simp)

/-- **Text is stray only if no other kind fits.** -/
theorem lexeme?_eq_none_of_stray (h : first? s = some (.error, n)) (hk : k ≠ .error) :
    k.lexeme? s = none := by
  by_cases heof : k = .eof
  · rw [heof]
    rfl
  · refine lexeme?_eq_none_of_first? h (i := 23) rfl (by decide) ?_
    cases k with
    | error => exact absurd rfl hk
    | eof => exact absurd rfl heof
    | _ => decide

/-- **Where a lone kind fits it comes first.** -/
theorem first?_of_lone (hk : k.lone = true) (hs : s ≠ []) (h : k.lexeme? s = some n) :
    first? s = some (k, n) := by
  obtain ⟨c, s, rfl⟩ := List.exists_cons_of_ne_nil hs
  have hne : k ≠ .error := by
    rintro rfl
    cases hk
  obtain ⟨k', m, hfirst, -⟩ := first?_cons c s
  have hk' : k' ≠ .error := by
    rintro rfl
    rw [lexeme?_eq_none_of_stray hfirst hne] at h
    cases h
  have hlexeme := lexeme?_of_first? hfirst
  obtain rfl := eq_of_lone hk hk' (lead_of_lexeme? hne h) hlexeme
  rw [hfirst, ← Option.some.inj (hlexeme.symm.trans h)]

/-- **Comments are tried first.** -/
theorem first?_of_comment (h : TokenKind.comment.lexeme? s = some n) :
    first? s = some (.comment, n) := by
  simp only [first?, all, List.findSome?_cons, h, Option.map_some]

/-- **A blank behind the text does not change its first token**, if that ends in front of blanks. -/
theorem first?_append_blank (h : first? s = some (k, n)) (hk : k.spansBlanks = false)
    (hstray : k ≠ .error) {b : Char} (hb : isBlank b = true) (u : List Char) :
    first? (s ++ b :: u) = first? s := by
  cases s with
  | nil => cases h
  | cons c s =>
    have hlexeme := lexeme?_of_first? h
    have hc : isBlank c = false := by
      refine eq_false_of_ne_true fun hc => ?_
      rw [first?_of_isBlank hc] at h
      obtain ⟨rfl, -⟩ := Prod.mk.inj (Option.some.inj h)
      cases hk
    have hcomment (t : List Char) : c :: s ≠ '/' :: '/' :: t := by
      intro ht
      rw [ht, first?_of_comment rfl] at h
      obtain ⟨rfl, -⟩ := Prod.mk.inj (Option.some.inj h)
      cases hk
    have hlone {l : TokenKind} (hl : l.lone = true) (hspan : l.spansBlanks = true) (t : List Char) :
        l.lexeme? (c :: t) = none := by
      have hl' : l ≠ .error := by
        rintro rfl
        cases hl
      refine Option.eq_none_iff_forall_ne_some.2 fun m hm => ?_
      rw [← eq_of_lone hl hstray (lead_of_lexeme? hl' hm) hlexeme, hk] at hspan
      cases hspan
    refine first?_congr fun k' => ?_
    cases hspan : k'.spansBlanks with
    | false => exact lexeme?_append_blank hspan hb (List.cons_ne_nil c s) u
    | true =>
      cases k' with
      | comment =>
        change comment? _ = comment? _
        rw [comment?_of_ne hcomment, comment?_of_ne fun t ht => ?_]
        obtain ⟨t', ht'⟩ := append_blank_eq_cons_cons hb (by decide) (by decide) ht
        exact hcomment t' ht'
      | blank =>
        rw [List.cons_append, lexeme?_blank_of_not_isBlank hc, lexeme?_blank_of_not_isBlank hc]
      | functionHead | string => rw [List.cons_append, hlone rfl rfl, hlone rfl rfl]
      | _ => cases hspan

/-- **A token is read back from its text**, at the end or in front of a blank. -/
theorem first?_take_append (h : first? s = some (k, n)) (hkept : k.ignored = false)
    (hstray : k ≠ .error) {r : List Char} (hr : Clear r) :
    first? (s.take n ++ r) = some (k, n) := by
  have hlexeme := lexeme?_of_first? h
  obtain ⟨hpos, hle⟩ := lexeme?_bounds hlexeme
  have hlength : (s.take n).length = n := List.length_take_of_le hle
  have hne : s.take n ++ r ≠ [] := by
    intro hnil
    rw [List.append_eq_nil_iff] at hnil
    rw [hnil.1] at hlength
    simp only [List.length_nil] at hlength
    omega
  -- a text of a table is checked once, on its own
  have htable {options : List String} (hspan : k.spansBlanks = false)
      (halone : ∀ w ∈ options, first? w.toList = some (k, w.length))
      (hw : ∃ w ∈ options, n = w.length ∧ s.take n = w.toList) :
      first? (s.take n ++ r) = some (k, n) := by
    obtain ⟨w, hw, rfl, htake⟩ := hw
    rw [htake]
    cases r with
    | nil => rw [List.append_nil, halone w hw]
    | cons b u => rw [first?_append_blank (halone w hw) hspan hstray (hr b rfl), halone w hw]
  cases k with
  | comment | blank => cases hkept
  | error => exact absurd rfl hstray
  | eof => cases hlexeme
  | comma => exact absurd h first?_ne_comma
  | functionHead =>
    have hback := (isFunctionHead_of_functionHead? hlexeme).functionHead?_append hr
    rw [hlength] at hback
    exact first?_of_lone rfl hne hback
  | name =>
    have hback := (isName_of_name? hlexeme).name?_append hr.stops
    rw [hlength] at hback
    exact first?_of_lone rfl hne hback
  | number =>
    have hback := (isNumber_of_number? hlexeme).number?_append hr.stops
    rw [hlength] at hback
    exact first?_of_lone rfl hne hback
  | string =>
    have hline := not_mem_newline (by decide) hlexeme
    have hback := (isString_of_string? hlexeme).string?_append hline r
    rw [hlength] at hback
    exact first?_of_lone rfl hne hback
  | dataType | boolean | iff | maybe | orelse | iterate | whilst | br | cont =>
    exact htable rfl (by decide) (word?_eq_some hlexeme)
  | operator | assign | terminator | leftParen | rightParen | leftCurly | rightCurly =>
    exact htable rfl (by decide) (oneOf?_eq_some hlexeme)

/-! ## Tokens with spaces between them -/

/-- What a token is, without its place. -/
def shape (t : Token) : TokenKind × String := (t.kind, t.text)

/-- Whether a token is read back from its text, at the end or in front of a blank. -/
structure Rereads (t : Token) : Prop where
  kept : t.kind.ignored = false
  ne_nil : t.text.toList ≠ []
  first : ∀ r, Clear r → first? (t.text.toList ++ r) = some (t.kind, t.text.toList.length)

/-- **Scanned tokens are read again**, stray ones apart. -/
theorem rereads_of_mem_scan {source : String} {t : Token} (h : t ∈ scan source)
    (hstray : t.kind ≠ .error) : t.Rereads := by
  obtain ⟨s, n, hfirst, htext⟩ := first?_of_mem_scan h
  have hkept : t.kind.ignored = false := by simpa using (List.mem_filter.1 h).2
  obtain ⟨hpos, hle⟩ := lexeme?_bounds (lexeme?_of_first? hfirst)
  have hlength : t.text.toList.length = n := by rw [htext, List.length_take_of_le hle]
  refine ⟨hkept, ?_, fun r hr => ?_⟩
  · intro hnil
    rw [hnil] at hlength
    exact absurd hlength (Nat.ne_of_lt hpos)
  · rw [hlength, htext]
    exact first?_take_append hfirst hkept hstray hr

/-- A scan takes the token of the first rule and goes on behind it. -/
theorem scanFrom_of_first? {t r : List Char} (ht : t ≠ [])
    (h : first? (t ++ r) = some (k, t.length)) (hk : k.ignored = false) (p : Position) :
    scanFrom p (t ++ r) = ofChars p k t :: scanFrom (p.after t) r := by
  obtain ⟨c, t, rfl⟩ := List.exists_cons_of_ne_nil ht
  rw [List.cons_append] at h ⊢
  rw [scanFrom_cons h, List.take_left, List.drop_left]
  simp [ofChars, hk]

/-- **Tokens with spaces between them are read back**, and then what stands behind the last of them,
if that is read back in front of it. -/
theorem scanFrom_joined_append {r : List Char} (p : Position) : ∀ {ts : List Token}, ts ≠ [] →
    (∀ t ∈ ts, t.Rereads) →
    (∀ t ∈ ts.getLast?, first? (t.text.toList ++ r) = some (t.kind, t.text.toList.length)) →
    ∃ q, (scanFrom p ([' '].intercalate (ts.map (·.text.toList)) ++ r)).map shape
      = ts.map shape ++ (scanFrom q r).map shape
  | [], hne, _, _ => absurd rfl hne
  | [t], _, h, hlast => by
    have ht := h t (List.mem_singleton_self t)
    have hscan := scanFrom_of_first? ht.ne_nil (hlast t rfl) ht.kept p
    exact ⟨p.after t.text.toList, by simp [hscan, shape, ofChars]⟩
  | t :: u :: ts, _, h, hlast => by
    have ht := h t (List.mem_cons_self ..)
    obtain ⟨q, hrest⟩ := scanFrom_joined_append ((p.after t.text.toList).next ' ')
      (List.cons_ne_nil u ts) (fun t' ht' => h t' (List.mem_cons_of_mem t ht'))
      (by rwa [List.getLast?_cons_cons] at hlast)
    have hblank : isBlank ' ' = true := by decide
    have hfirst := ht.first (' ' :: ([' '].intercalate ((u :: ts).map (·.text.toList)) ++ r))
      fun c hc => Option.some.inj hc ▸ hblank
    rw [List.map_cons] at hfirst hrest
    refine ⟨q, ?_⟩
    rw [List.map_cons, List.map_cons, List.intercalate_cons_cons, List.append_assoc,
      List.append_assoc, List.singleton_append, scanFrom_of_first? ht.ne_nil hfirst ht.kept,
      scanFrom_blank hblank, List.map_cons, hrest]
    simp [shape, ofChars]

/-- **Tokens that are read again** are read again from their joined text, each of its kind and
text. -/
theorem scanFrom_joined (p : Position) {ts : List Token} (h : ∀ t ∈ ts, t.Rereads) :
    (scanFrom p ([' '].intercalate (ts.map (·.text.toList)))).map shape = ts.map shape := by
  by_cases hne : ts = []
  · rw [hne]
    simp
  · have hlast : ∀ t ∈ ts.getLast?,
        first? (t.text.toList ++ []) = some (t.kind, t.text.toList.length) := fun t ht =>
      (h t (List.mem_of_getLast? ht)).first [] fun c hc => by cases hc
    obtain ⟨q, hscan⟩ := scanFrom_joined_append p hne h hlast
    rwa [List.append_nil, scanFrom_nil, List.map_nil, List.append_nil] at hscan

/-- **There are no errors where no token is stray.** -/
theorem lexErrors_eq_nil_iff {ts : List Token} : lexErrors ts = [] ↔ ∀ t ∈ ts, t.kind ≠ .error := by
  simp [lexErrors, lexError?]

/-- The texts of tokens, with single spaces between them. -/
def joined (ts : List Token) : String := " ".intercalate (ts.map Token.text)

theorem toList_joined (ts : List Token) :
    (joined ts).toList = [' '].intercalate (ts.map (·.text.toList)) := by
  rw [joined, String.toList_intercalate, List.map_map]
  rfl

/-- **Layout does not show in the tokens**: the tokens of an error-free source, joined by single
spaces, are read back as they were and without errors. -/
theorem scan_joined {source : String} (h : lexErrors (scan source) = []) :
    (scan (joined (scan source))).map shape = (scan source).map shape ∧
      lexErrors (scan (joined (scan source))) = [] := by
  rw [lexErrors_eq_nil_iff] at h
  have hshape : (scan (joined (scan source))).map shape = (scan source).map shape := by
    rw [scan_eq, toList_joined]
    exact scanFrom_joined {} fun t ht => rereads_of_mem_scan ht (h t ht)
  refine ⟨hshape, lexErrors_eq_nil_iff.2 fun t ht => ?_⟩
  have hmem : t.shape ∈ (scan source).map shape := hshape ▸ List.mem_map_of_mem ht
  obtain ⟨u, hu, hshape⟩ := List.mem_map.1 hmem
  rw [← (Prod.mk.inj hshape).1]
  exact h u hu

end Token

end Enigma
