import Enigma.Proofs.Places
import Enigma.Proofs.Relexing

/-!
# Proofs/Patterns — tokens as patterns, and why no word is cut

Every kind of token has a pattern.  A pattern is matched by trying: of two alternatives the first
comes first, a repetition takes as many characters as it can, and where the rest of the pattern then
fails the next best choice is tried.  `Pattern.ends` lists the ends of all matches in that order, so
the match is the first of them, and the rules of the scan find it without trying.

* `Pattern.find?` — how far a pattern reaches; `TokenKind.pattern` — the patterns of the kinds;
* `Pattern.ends_seq_many` — a repetition in front of something that cannot go on with its
  characters gives none of them back;
* `TokenKind.lexeme?_eq_find?` — the rules of the scan are the patterns;
* `Pattern.not_cutsWord` — what ends at the edge of a word cuts no word, and the other patterns do
  not either (`TokenKind.not_cutsWord`);
* `pieces_keep_words` — so a text is cut into pieces at no place inside of a word.
-/

namespace Enigma

open Text Lexeme

/-! ## Patterns -/

/-- What a piece of text can look like. -/
inductive Pattern
  /-- One of the texts, the first of them first. -/
  | oneOf (options : List String)
  /-- A character of a class. -/
  | one (p : Char → Bool)
  /-- Characters of a class, as many as there are or else fewer. -/
  | many (p : Char → Bool)
  /-- One behind the other. -/
  | seq (a b : Pattern)
  /-- The first or else the second. -/
  | either (a b : Pattern)
  /-- Nothing, where a word starts or ends. -/
  | edge

namespace Pattern

/-- The lengths of the matches at the front of a text, the best first; `before` is the character in
front of the text. -/
def ends : Pattern → Option Char → List Char → List Nat
  | oneOf options, _, s => (options.filter fun w => w.toList.isPrefixOf s).map String.length
  | one p, _, s => if s.head?.any p then [1] else []
  | many p, _, s => (List.range ((s.takeWhile p).length + 1)).reverse
  | seq a b, before, s =>
    (a.ends before s).flatMap fun n =>
      (b.ends ((s.take n).getLast?.or before) (s.drop n)).map (n + ·)
  | either a b, before, s => a.ends before s ++ b.ends before s
  | edge, before, s => if before.any isWord != s.head?.any isWord then [0] else []

/-- How far the pattern reaches from the start of a text, if it matches there. -/
def find? (p : Pattern) (s : List Char) : Option Nat := (p.ends none s).head?

/-- The pattern or nothing. -/
def optional (a : Pattern) : Pattern := either a (oneOf [""])

/-- Characters of a class, at least one, and then the pattern. -/
def run (p : Char → Bool) (b : Pattern) : Pattern := seq (one p) (seq (many p) b)

/-- An ASCII letter and letters, digits and underscores, up to the edge of the word. -/
def identifier : Pattern := seq (one Char.isAlpha) (seq (many isNameChar) edge)

variable {p : Char → Bool} {a b c : Pattern} {before : Option Char} {s t : List Char}

/-! ## Matches of patterns -/

theorem getLast?_take_add (n m : Nat) :
    ((s.take (n + m)).getLast?.or before)
      = (((s.drop n).take m).getLast?.or ((s.take n).getLast?.or before)) := by
  rw [List.take_add, List.getLast?_append, Option.or_assoc]

/-- **Patterns one behind the other** can be put in parentheses either way. -/
theorem ends_seq_assoc : (seq (seq a b) c).ends before s = (seq a (seq b c)).ends before s := by
  simp only [ends, List.flatMap_assoc, List.flatMap_map, List.map_flatMap, List.map_map,
    getLast?_take_add, List.drop_drop, Function.comp_def, Nat.add_assoc]

theorem ends_seq_either : (seq (either a b) c).ends before s
    = (seq a c).ends before s ++ (seq b c).ends before s := List.flatMap_append

/-- A text that is there is taken. -/
theorem ends_seq_text {w : String} : (seq (oneOf [w]) b).ends before (w.toList ++ s)
    = (b.ends (w.toList.getLast?.or before) s).map (w.length + ·) := by
  have hstart : w.toList.isPrefixOf (w.toList ++ s) = true :=
    List.isPrefixOf_iff_prefix.2 (List.prefix_append _ _)
  have htake : (w.toList ++ s).take w.length = w.toList := take_of_isPrefixOf hstart
  have hdrop : (w.toList ++ s).drop w.length = s := by rw [← String.length_toList, List.drop_left]
  simp [ends, htake, hdrop]

theorem ends_text_of_ne {w : String} (h : ∀ t, s ≠ w.toList ++ t) :
    (oneOf [w]).ends before s = [] := by
  have hstart : w.toList.isPrefixOf s = false := by
    refine eq_false_of_ne_true fun hstart => ?_
    obtain ⟨t, ht⟩ := List.isPrefixOf_iff_prefix.1 hstart
    exact h t ht.symm
  simp [ends, hstart]

theorem ends_seq_text_of_ne {w : String} (h : ∀ t, s ≠ w.toList ++ t) :
    (seq (oneOf [w]) b).ends before s = [] := by
  rw [ends, ends_text_of_ne h, List.flatMap_nil]

theorem ends_seq_one {x : Char} : (seq (one p) b).ends before (x :: s)
    = if p x then (b.ends (some x) s).map (1 + ·) else [] := by
  cases hx : p x <;> simp [ends, hx]

/-- **Where a word is in front**, its edge is where the word ends. -/
theorem ends_edge (h : before.any isWord = true) :
    edge.ends before s = if atWordEnd s then [0] else [] := by
  rw [ends, h]
  cases s with
  | nil => rfl
  | cons x s => cases hx : isWord x <;> simp [atWordEnd, hx]

/-- **A repetition takes all it can**, if what comes behind cannot go on with its characters. -/
theorem ends_seq_many (hb : ∀ (u : List Char) (x : Char) (v : List Char), u.all p = true →
      p x = true → b.ends (u.getLast?.or before) (x :: v) = []) :
    (seq (many p) b).ends before s = (b.ends ((s.takeWhile p).getLast?.or before)
      (s.dropWhile p)).map ((s.takeWhile p).length + ·) := by
  have hall : (s.takeWhile p).all p = true := List.all_takeWhile
  have hs : s.takeWhile p ++ s.dropWhile p = s := List.takeWhile_append_dropWhile
  rw [ends, ends]
  generalize s.takeWhile p = t, s.dropWhile p = r at hall hs ⊢
  subst hs
  have hshort : ∀ n ∈ (List.range t.length).reverse,
      (b.ends (((t ++ r).take n).getLast?.or before) ((t ++ r).drop n)).map (n + ·) = [] := by
    intro n hn
    have hlt : n < t.length := List.mem_range.1 (List.mem_reverse.1 hn)
    have hne : t.drop n ≠ [] := fun hnil => absurd (List.drop_eq_nil_iff.1 hnil) (by omega)
    obtain ⟨x, v, hv⟩ := List.exists_cons_of_ne_nil hne
    have hsplit : (t.take n ++ x :: v).all p = true := by rwa [← hv, List.take_append_drop]
    rw [List.all_append, List.all_cons, Bool.and_eq_true, Bool.and_eq_true] at hsplit
    rw [List.take_append_of_le_length (Nat.le_of_lt hlt),
      List.drop_append_of_le_length (Nat.le_of_lt hlt), hv, List.cons_append,
      hb _ x _ hsplit.1 hsplit.2.1, List.map_nil]
  rw [List.range_succ, List.reverse_append, List.reverse_singleton, List.singleton_append,
    List.flatMap_cons, List.flatMap_eq_nil_iff.2 hshort, List.append_nil, List.take_left,
    List.drop_left]

/-- What is left behind a run does not start with one of its characters. -/
theorem head?_dropWhile_eq_false (p : Char → Bool) (s : List Char) :
    ∀ x ∈ (s.dropWhile p).head?, p x = false := by
  intro x hx
  have hhead := List.head?_dropWhile_not p s
  rw [hx] at hhead
  simpa using hhead

/-- A run that goes on from a character of a class ends with one. -/
theorem any_getLast?_or {q : Char → Bool} (hp : ∀ x, p x = true → q x = true)
    (ht : t.all p = true) (hbefore : before.any q = true) :
    (t.getLast?.or before).any q = true := by
  cases hlast : t.getLast? with
  | none => exact hbefore
  | some x => exact hp x (List.all_eq_true.1 ht x (List.mem_of_getLast? hlast))

/-- Between two word characters there is no edge. -/
theorem ends_edge_word {x : Char} (hbefore : before.any isWord = true) (hx : isWord x = true) :
    edge.ends before (x :: s) = [] := by
  rw [ends_edge hbefore, atWordEnd, hx]
  rfl

/-- **Word characters in front of an edge** are taken up to the end of the word. -/
theorem ends_many_edge (hp : ∀ x, p x = true → isWord x = true)
    (hbefore : before.any isWord = true) : (seq (many p) edge).ends before s
      = if atWordEnd (s.dropWhile p) then [(s.takeWhile p).length] else [] := by
  rw [ends_seq_many fun u x v hu hx => ends_edge_word (any_getLast?_or hp hu hbefore) (hp x hx),
    ends_edge (any_getLast?_or hp List.all_takeWhile hbefore)]
  split <;> rfl

/-! ## The rules by form are patterns -/

theorem find?_oneOf (options : List String) : (oneOf options).find? s = oneOf? options s := by
  rw [find?, ends, oneOf?, List.head?_map, List.head?_filter]

/-- One of the texts, or else one of the characters. -/
def choice (options : List String) (others : String) : Pattern :=
  either (oneOf options) (one (others.toList.contains ·))

theorem find?_choice {options : List String} {others : String} :
    (choice options others).find? s
      = oneOf? (options ++ others.toList.map String.singleton) s := by
  have hsplit : oneOf? (options ++ others.toList.map String.singleton) s
      = (oneOf? options s).or (oneOf? (others.toList.map String.singleton) s) := by
    simp only [oneOf?, List.find?_append, Option.map_or]
  have hclass (cs : List Char) : ((one (cs.contains ·)).ends none s).head?
      = oneOf? (cs.map String.singleton) s := by
    induction cs with
    | nil => cases s <;> rfl
    | cons c cs ih =>
      rw [oneOf?, List.map_cons, List.find?_cons]
      cases s with
      | nil =>
        have hnil : (String.singleton c).toList.isPrefixOf [] = false := by simp
        rw [hnil]
        exact ih
      | cons x s =>
        by_cases hx : x = c
        · simp [ends, hx, List.isPrefixOf]
        · have hcx : (c == x) = false := beq_false_of_ne (Ne.symm hx)
          simpa [ends, oneOf?, hx, hcx, List.isPrefixOf] using ih
  rw [hsplit, ← find?_oneOf, ← hclass]
  exact List.head?_append

/-- **Words are texts in front of an edge.** -/
theorem find?_word {options : List String}
    (ho : ∀ w ∈ options, w.toList.getLast?.any isWord = true) :
    (seq (oneOf options) edge).find? s = word? options s := by
  induction options with
  | nil => rfl
  | cons w options ih =>
    obtain ⟨hw, ho⟩ := List.forall_mem_cons.1 ho
    have ih := ih ho
    rw [find?, ends, ends, word?] at ih ⊢
    cases hstart : w.toList.isPrefixOf s with
    | false =>
      rw [List.filter_cons_of_neg (by simp [hstart]), ih,
        List.find?_cons_of_neg (by simp [hstart])]
    | true =>
      rw [List.filter_cons_of_pos (by simp [hstart]), List.map_cons, List.flatMap_cons,
        take_of_isPrefixOf hstart, Option.or_none, ends_edge hw, List.head?_append, ih]
      cases hend : atWordEnd (s.drop w.length) with
      | false => rw [List.find?_cons_of_neg (by simp [hstart, hend])]; rfl
      | true => rw [List.find?_cons_of_pos (by simp [hstart, hend])]; rfl

/-- **An identifier** goes up to the end of its word. -/
theorem ends_identifier : identifier.ends before s = (identifier? s).toList := by
  cases s with
  | nil => rfl
  | cons c s =>
    rw [identifier, ends_seq_one, identifier?]
    cases hc : c.isAlpha with
    | false => rfl
    | true =>
      have hword : (some c).any isWord = true :=
        isWord_of_isAlphanum (by rw [Char.isAlphanum, hc, Bool.true_or])
      rw [ends_many_edge (fun _ => isWord_of_isNameChar) hword, Token.drop_length_takeWhile]
      cases hend : atWordEnd (s.dropWhile isNameChar) <;> simp [Nat.add_comm]

/-- **A run is taken whole**, if what comes behind cannot go on with its characters. -/
theorem ends_run {n : Nat} (hn : run? p s = some n)
    (hb : ∀ before x v, before.any p = true → p x = true → b.ends before (x :: v) = []) :
    (run p b).ends before s = (b.ends (s.take n).getLast? (s.drop n)).map (n + ·) := by
  obtain ⟨hpos, rfl⟩ := run?_eq_some hn
  cases s with
  | nil => cases hpos
  | cons c s =>
    cases hc : p c with
    | false => simp [hc] at hpos
    | true =>
      have hrest : (seq (many p) b).ends (some c) s = (b.ends ((s.takeWhile p).getLast?.or (some c))
          (s.dropWhile p)).map ((s.takeWhile p).length + ·) := by
        refine ends_seq_many fun u x v hu hx => hb _ x v ?_ hx
        exact any_getLast?_or (fun _ hy => hy) hu hc
      have hlast : (c :: s.takeWhile p).getLast? = (s.takeWhile p).getLast?.or (some c) := by
        rw [← List.singleton_append, List.getLast?_append]
        rfl
      have htake : s.take (s.takeWhile p).length = s.takeWhile p :=
        (List.prefix_iff_eq_take.1 (List.takeWhile_prefix p)).symm
      rw [run, ends_seq_one, if_pos hc, hrest, List.takeWhile_cons_of_pos hc, List.length_cons,
        List.take_succ_cons, htake, hlast, List.drop_succ_cons, Token.drop_length_takeWhile,
        List.map_map]
      congr 1
      funext m
      simp only [Function.comp_apply]
      omega

theorem ends_run_of_none (hn : run? p s = none) : (run p b).ends before s = [] := by
  cases s with
  | nil => rfl
  | cons c s =>
    cases hc : p c with
    | false => rw [run, ends_seq_one, hc]; rfl
    | true => simp [run?, hc] at hn

theorem head?_ends_many : ((many p).ends before s).head? = some (s.takeWhile p).length := by
  rw [ends, List.range_succ, List.reverse_append]
  rfl

theorem find?_run : (seq (one p) (many p)).find? s = run? p s := by
  cases s with
  | nil => rfl
  | cons c s =>
    rw [find?, ends_seq_one]
    cases hc : p c with
    | false => simp [run?, hc]
    | true => simp [run?, hc, head?_ends_many, Nat.add_comm]

/-- A point and digits. -/
def fraction : Pattern := seq (oneOf ["."]) (seq (one isDigit) (many isDigit))

/-- Digits, and a point and more digits if the word ends behind them. -/
def number : Pattern := run isDigit (seq (optional fraction) edge)

/-- A run of word characters ends with one. -/
theorem any_getLast?_of_run? (hp : ∀ x, p x = true → isWord x = true) {n : Nat}
    (hn : run? p s = some n) : (s.take n).getLast?.any isWord = true := by
  obtain ⟨hne, hall⟩ := take_of_run? hn
  rw [List.getLast?_eq_some_getLast hne]
  exact hp _ (List.all_eq_true.1 hall _ (List.getLast_mem hne))

/-- Between two digits there is no edge. -/
theorem ends_edge_digit {x : Char} (hbefore : before.any isDigit = true) (hx : isDigit x = true) :
    edge.ends before (x :: s) = [] := by
  refine ends_edge_word ?_ (isWord_of_isDigit hx)
  cases before with
  | none => cases hbefore
  | some y => exact isWord_of_isDigit hbefore

/-- **A fraction** goes up to the end of its digits, if the word ends there too. -/
theorem ends_fraction_edge : (seq fraction edge).ends before ('.' :: t)
    = match run? isDigit t with
      | some n => if atWordEnd (t.drop n) then [1 + n] else []
      | none => [] := by
  have hrun : (seq (seq (one isDigit) (many isDigit)) edge).ends (some '.') t
      = (run isDigit edge).ends (some '.') t := ends_seq_assoc
  have htext : (seq fraction edge).ends before ('.' :: t)
      = ((run isDigit edge).ends (some '.') t).map (1 + ·) := by
    rw [fraction, ends_seq_assoc, ← hrun]
    exact ends_seq_text (w := ".")
  rw [htext]
  cases hn : run? isDigit t with
  | none => rw [ends_run_of_none hn]; rfl
  | some n =>
    rw [ends_run hn, ends_edge (any_getLast?_of_run? (fun _ => isWord_of_isDigit) hn)]
    · dsimp only
      split <;> rfl
    · exact fun before x v => ends_edge_digit

theorem ends_fraction_of_ne (h : ∀ t, s ≠ '.' :: t) : (seq fraction b).ends before s = [] := by
  rw [fraction, ends_seq_assoc, ends_seq_text_of_ne h]

/-- **A number** gives up its fraction where a word goes on behind it. -/
theorem find?_number : number.find? s = number? s := by
  have hsplit (before : Option Char) (s : List Char) : (seq (optional fraction) edge).ends before s
      = (seq fraction edge).ends before s ++ edge.ends before s := by
    have hnothing : (seq (oneOf [""]) edge).ends before s = edge.ends before s := by
      have htext : (seq (oneOf [""]) edge).ends before ("".toList ++ s)
          = (edge.ends ("".toList.getLast?.or before) s).map ("".length + ·) := ends_seq_text
      simpa using htext
    rw [optional, ends_seq_either, hnothing]
  rw [find?, number]
  cases hn : run? isDigit s with
  | none => rw [ends_run_of_none hn]; simp [number?, hn]
  | some n =>
    rw [ends_run hn, hsplit, ends_edge (any_getLast?_of_run? (fun _ => isWord_of_isDigit) hn)]
    · by_cases hpoint : ∃ t, s.drop n = '.' :: t
      · obtain ⟨t, ht⟩ := hpoint
        have hpoint : isWord '.' = false := by decide
        have hend : atWordEnd ('.' :: t) = true := by rw [atWordEnd, hpoint]; rfl
        rw [number?_of_point hn ht, ht, ends_fraction_edge, hend]
        cases run? isDigit t with
        | none => rfl
        | some m =>
          dsimp only
          cases atWordEnd (t.drop m) with
          | true => simp [Nat.add_assoc]
          | false => rfl
      · have hplain : ∀ t, s.drop n ≠ '.' :: t := fun t ht => hpoint ⟨t, ht⟩
        rw [number?_of_plain hn hplain, ends_fraction_of_ne hplain]
        split <;> rfl
    · intro before x v hbefore hx
      have hdot : ∀ t, x :: v ≠ '.' :: t := by
        intro t ht
        rw [(List.cons.inj ht).1] at hx
        exact absurd hx (by decide)
      rw [hsplit, ends_fraction_of_ne hdot, List.nil_append]
      exact ends_edge_digit hbefore hx

-- the point is given back with the digits behind it
example : number.find? "12.5x".toList = some 2 := by decide

/-! ## Function heads and names -/

/-- **Of texts that do not start with one another** only one can be there. -/
theorem ends_oneOf {options : List String}
    (ho : options.Pairwise fun v w => ¬ v.toList <+: w.toList ∧ ¬ w.toList <+: v.toList) :
    (oneOf options).ends before s = (oneOf? options s).toList := by
  have hfilter : (options.filter fun w => w.toList.isPrefixOf s)
      = (options.find? fun w => w.toList.isPrefixOf s).toList := by
    induction ho with
    | nil => rfl
    | @cons w options hw _ ih =>
      cases hstart : w.toList.isPrefixOf s with
      | false =>
        rw [List.filter_cons_of_neg (by simp [hstart]), ih,
          List.find?_cons_of_neg (by simp [hstart])]
      | true =>
        have hnone : options.filter (fun v => v.toList.isPrefixOf s) = [] := by
          refine List.filter_eq_nil_iff.2 fun v hv hv' => ?_
          have hcompare := List.prefix_or_prefix_of_prefix (List.isPrefixOf_iff_prefix.1 hstart)
            (List.isPrefixOf_iff_prefix.1 hv')
          exact hcompare.elim (hw v hv).1 (hw v hv).2
        rw [List.filter_cons_of_pos (by simp [hstart]), hnone,
          List.find?_cons_of_pos (by simp [hstart])]
        rfl
  rw [ends, oneOf?, hfilter]
  cases options.find? fun w => w.toList.isPrefixOf s <;> rfl

/-- Whether a character can stand between a return type and a name. -/
def isGap (c : Char) : Bool := c == ' ' || c == '\t'

/-- The head of a function. -/
def functionHead : Pattern := seq (oneOf ["f-"]) (seq (oneOf returnTypes) (run isGap identifier))

/-- **A function head** is never tried twice: one return type can be there, the gap is taken whole
and the name goes up to the end of its word. -/
theorem find?_functionHead : functionHead.find? s = functionHead? s := by
  by_cases hs : ∃ t, s = 'f' :: '-' :: t
  · obtain ⟨t, rfl⟩ := hs
    have hrule : functionHead? ('f' :: '-' :: t) = (oneOf? returnTypes t).bind fun type =>
        (run? isGap (t.drop type)).bind fun gap =>
          (identifier? (t.drop (type + gap))).bind fun name => some (2 + type + gap + name) := rfl
    have htext : functionHead.ends none ('f' :: '-' :: t)
        = ((seq (oneOf returnTypes) (run isGap identifier)).ends (some '-') t).map (2 + ·) :=
      ends_seq_text (w := "f-")
    have hgap {before : Option Char} {x : Char} {v : List Char} (hx : isGap x = true) :
        identifier.ends before (x :: v) = [] := by
      have halpha : x.isAlpha = false := by
        rcases Bool.or_eq_true_iff.1 hx with hx | hx <;> rw [eq_of_beq hx] <;> decide
      rw [ends_identifier, identifier?, halpha]
      rfl
    rw [find?, htext, hrule, ends, ends_oneOf (by decide)]
    cases oneOf? returnTypes t with
    | none => rfl
    | some type =>
      rw [Option.toList_some, List.flatMap_singleton, Option.bind_some]
      cases hrun : run? isGap (t.drop type) with
      | none => rw [ends_run_of_none hrun]; rfl
      | some gap =>
        rw [ends_run hrun fun _ _ _ _ hx => hgap hx, ends_identifier, List.drop_drop,
          Option.bind_some]
        cases identifier? (t.drop (type + gap)) with
        | none => rfl
        | some name => simp [Nat.add_assoc]
  · have hne : ∀ t, s ≠ 'f' :: '-' :: t := fun t ht => hs ⟨t, ht⟩
    rw [functionHead?_of_ne hne, functionHead, find?, ends_seq_text_of_ne hne]
    rfl

theorem find?_name : (seq (oneOf ["v-"]) identifier).find? s = name? s := by
  by_cases hs : ∃ t, s = 'v' :: '-' :: t
  · obtain ⟨t, rfl⟩ := hs
    have htext : (seq (oneOf ["v-"]) identifier).ends none ('v' :: '-' :: t)
        = (identifier.ends (some '-') t).map (2 + ·) := ends_seq_text (w := "v-")
    rw [find?, htext, ends_identifier, name?]
    cases identifier? t with
    | none => rfl
    | some n => simp [Nat.add_comm]
  · have hne : ∀ t, s ≠ 'v' :: '-' :: t := fun t ht => hs ⟨t, ht⟩
    rw [name?_of_ne hne, find?, ends_seq_text_of_ne hne]
    rfl

/-! ## Strings, comments and stray text -/

/-- What stands between the quotes of a string. -/
def isQuotable (c : Char) : Bool := c != '"' && c != '\n'

/-- Text between two quotes on one line. -/
def string : Pattern := seq (oneOf ["\""]) (seq (many isQuotable) (oneOf ["\""]))

theorem string?_of_closed (h : s.dropWhile isQuotable = '"' :: t) :
    string? ('"' :: s) = some ((s.takeWhile isQuotable).length + 2) := by
  rw [← Token.drop_length_takeWhile] at h
  rw [string?]
  split
  · rfl
  · rename_i hopen
    exact absurd h (hopen t)

theorem string?_of_open (h : ∀ t, s.dropWhile isQuotable ≠ '"' :: t) :
    string? ('"' :: s) = none := by
  rw [← Token.drop_length_takeWhile] at h
  rw [string?]
  split
  · rename_i t hclosed
    exact absurd hclosed (h t)
  · rfl

/-- **A string** is what stands up to the next quote, which the text between cannot hold. -/
theorem find?_string : string.find? s = string? s := by
  cases s with
  | nil => rfl
  | cons c s =>
    by_cases hc : c = '"'
    · subst hc
      have htext : string.ends none ('"' :: s)
          = ((seq (many isQuotable) (oneOf ["\""])).ends (some '"') s).map (1 + ·) :=
        ends_seq_text (w := "\"")
      rw [find?, htext, ends_seq_many]
      · by_cases hclosed : ∃ t, s.dropWhile isQuotable = '"' :: t
        · obtain ⟨t, ht⟩ := hclosed
          have hquote (before : Option Char) : (oneOf ["\""]).ends before ('"' :: t) = [1] := rfl
          rw [string?_of_closed ht, ht, hquote]
          simp only [List.map_cons, List.head?_cons, Option.some.injEq]
          omega
        · have hopen : ∀ t, s.dropWhile isQuotable ≠ '"' :: t := fun t ht => hclosed ⟨t, ht⟩
          rw [string?_of_open hopen, ends_text_of_ne hopen]
          rfl
      · intro u x v _ hx
        refine ends_text_of_ne fun t ht => ?_
        rw [(List.cons.inj ht).1] at hx
        exact absurd hx (by decide)
    · rw [string?_of_ne hc, find?, string, ends_seq_text_of_ne fun t ht => hc (List.cons.inj ht).1]
      rfl

theorem find?_comment : (seq (oneOf ["//"]) (many (· != '\n'))).find? s = comment? s := by
  by_cases hs : ∃ t, s = '/' :: '/' :: t
  · obtain ⟨t, rfl⟩ := hs
    have htext : (seq (oneOf ["//"]) (many (· != '\n'))).ends none ('/' :: '/' :: t)
        = ((many (· != '\n')).ends (some '/') t).map (2 + ·) := ends_seq_text (w := "//")
    rw [find?, htext, List.head?_map, head?_ends_many, comment?]
    simp [Nat.add_comm]
  · have hne : ∀ t, s ≠ '/' :: '/' :: t := fun t ht => hs ⟨t, ht⟩
    rw [comment?_of_ne hne, find?, ends_seq_text_of_ne hne]
    rfl

theorem find?_stray :
    (either (seq (one isWord) (many isWord)) (one (· != '\n'))).find? s = stray? s := by
  have hrun : ((seq (one isWord) (many isWord)).ends none s).head? = run? isWord s := find?_run
  rw [find?, ends, List.head?_append, hrun]
  cases s with
  | nil => rfl
  | cons c s =>
    rw [stray?]
    cases run? isWord (c :: s) with
    | some n => rfl
    | none => by_cases hc : c = '\n' <;> simp [ends, hc]

end Pattern

/-! ## The patterns of the kinds -/

namespace TokenKind

/-- The pattern of a kind; the end of input is no text and has none. -/
def pattern : TokenKind → Option Pattern
  | comment => some (.seq (.oneOf ["//"]) (.many (· != '\n')))
  | blank => some (.seq (.one isBlank) (.many isBlank))
  | dataType => some (.seq (.oneOf ["enum", "efl", "estr", "ebool"]) .edge)
  | boolean => some (.seq (.oneOf ["yup", "nah"]) .edge)
  | functionHead => some .functionHead
  | iff => some (.seq (.oneOf ["iff"]) .edge)
  | maybe => some (.seq (.oneOf ["maybe"]) .edge)
  | orelse => some (.seq (.oneOf ["orelse"]) .edge)
  | iterate => some (.seq (.oneOf ["iterate"]) .edge)
  | whilst => some (.seq (.oneOf ["whilst"]) .edge)
  | br => some (.seq (.oneOf ["br"]) .edge)
  | cont => some (.seq (.oneOf ["cont"]) .edge)
  | name => some (.seq (.oneOf ["v-"]) .identifier)
  | number => some .number
  | string => some .string
  | operator => some (.choice ["++", "--", "==", "!=", "<=", ">="] "+-*/<>!")
  | assign => some (.oneOf ["="])
  | terminator => some (.oneOf [","])
  | comma => some (.oneOf [","])
  | leftParen => some (.oneOf ["("])
  | rightParen => some (.oneOf [")"])
  | leftCurly => some (.oneOf ["\x7b"])
  | rightCurly => some (.oneOf ["\x7d"])
  | error => some (.either (.seq (.one isWord) (.many isWord)) (.one (· != '\n')))
  | eof => none

/-- **The rules of the scan are the patterns**: they reach as far as the first match does. -/
theorem lexeme?_eq_find? (k : TokenKind) (s : List Char) :
    k.lexeme? s = k.pattern.bind (·.find? s) := by
  cases k with
  | comment => exact Pattern.find?_comment.symm
  | blank => exact Pattern.find?_run.symm
  | functionHead => exact Pattern.find?_functionHead.symm
  | name => exact Pattern.find?_name.symm
  | number => exact Pattern.find?_number.symm
  | string => exact Pattern.find?_string.symm
  | error => exact Pattern.find?_stray.symm
  | eof => rfl
  | operator =>
    rw [pattern, Option.bind_some, Pattern.find?_choice]
    exact congrArg (oneOf? · s) (by decide)
  | dataType | boolean | iff | maybe | orelse | iterate | whilst | br | cont =>
    exact (Pattern.find?_word (by decide)).symm
  | assign | terminator | comma | leftParen | rightParen | leftCurly | rightCurly =>
    exact (Pattern.find?_oneOf _).symm

end TokenKind

/-! ## Words stay whole -/

namespace Text

/-- Whether a word goes on from one text into the next. -/
def cutsWord (s t : List Char) : Bool := s.getLast?.any isWord && t.head?.any isWord

theorem not_cutsWord_of_last {c : Char} {t r : List Char} (hlast : t.getLast? = some c)
    (hc : isWord c = false) : cutsWord t r = false := by
  rw [cutsWord, hlast, Option.any_some, hc, Bool.false_and]

theorem not_cutsWord_of_next {t r : List Char} (hnext : ∀ c ∈ r.head?, isWord c = false) :
    cutsWord t r = false := by
  cases r with
  | nil => exact Bool.and_false _
  | cons c r => rw [cutsWord, List.head?_cons, Option.any_some, hnext c rfl, Bool.and_false]

end Text

/-- Stray text is a whole word, or a character that is none of a word's. -/
theorem Lexeme.stray?_eq_some {s : List Char} {n : Nat} (hn : stray? s = some n) :
    run? isWord s = some n ∨ ∃ c t, s = c :: t ∧ isWord c = false ∧ n = 1 := by
  cases s with
  | nil => cases hn
  | cons c t =>
    rw [stray?] at hn
    cases hrun : run? isWord (c :: t) with
    | some m => exact .inl (by simpa [hrun] using hn)
    | none =>
      have hc : isWord c = false := by
        cases hc : isWord c with
        | false => rfl
        | true => simp [run?, hc] at hrun
      refine .inr ⟨c, t, rfl, hc, ?_⟩
      rw [hrun] at hn
      exact (Option.some.inj (Option.ite_none_left_eq_some.1 hn).2).symm

namespace Pattern

/-- Whether every match of the pattern ends at the edge of a word. -/
def endsAtEdge : Pattern → Bool
  | seq _ b => b.endsAtEdge
  | either a b => a.endsAtEdge && b.endsAtEdge
  | edge => true
  | _ => false

/-- **What ends at the edge of a word cuts no word**: a word character is on one side only. -/
theorem any_ne_any_of_endsAtEdge {p : Pattern} (hp : p.endsAtEdge = true) {before : Option Char}
    {s : List Char} {n : Nat} (hn : n ∈ p.ends before s) :
    ((s.take n).getLast?.or before).any isWord ≠ (s.drop n).head?.any isWord := by
  induction p generalizing before s n with
  | oneOf _ => cases hp
  | one _ => cases hp
  | many _ => cases hp
  | seq a b _ ihb =>
    simp only [ends, List.mem_flatMap, List.mem_map] at hn
    obtain ⟨m, -, k, hk, rfl⟩ := hn
    have hside := ihb hp hk
    rwa [← getLast?_take_add, List.drop_drop] at hside
  | either a b iha ihb =>
    obtain ⟨ha, hb⟩ := Bool.and_eq_true_iff.1 hp
    rcases List.mem_append.1 hn with hn | hn
    · exact iha ha hn
    · exact ihb hb hn
  | edge =>
    rw [ends] at hn
    split at hn
    · rename_i hside
      obtain rfl := List.mem_singleton.1 hn
      simpa using hside
    · cases hn

theorem not_cutsWord {p : Pattern} (hp : p.endsAtEdge = true) {s : List Char} {n : Nat}
    (hn : p.find? s = some n) : cutsWord (s.take n) (s.drop n) = false := by
  have hside := any_ne_any_of_endsAtEdge hp (List.mem_of_head? hn)
  rw [Option.or_none] at hside
  cases hlast : (s.take n).getLast?.any isWord with
  | false => rw [cutsWord, hlast, Bool.false_and]
  | true =>
    rw [cutsWord, eq_false_of_ne_true fun hnext => hside (hlast.trans hnext.symm), Bool.and_false]

end Pattern

namespace TokenKind

variable {s : List Char} {n : Nat}

theorem not_cutsWord_of_oneOf? {options : List String}
    (ho : ∀ w ∈ options, w.toList.getLast?.any isWord = false) (hn : oneOf? options s = some n) :
    cutsWord (s.take n) (s.drop n) = false := by
  obtain ⟨w, hw, -, htake⟩ := oneOf?_eq_some hn
  rw [cutsWord, htake, ho w hw, Bool.false_and]

/-- **No token cuts a word.** -/
theorem not_cutsWord {k : TokenKind} (hn : k.lexeme? s = some n) :
    cutsWord (s.take n) (s.drop n) = false := by
  cases k with
  | comment =>
    obtain ⟨body, rest, rfl, rfl, -, hrest⟩ := comment?_eq_some hn
    refine not_cutsWord_of_next fun c hc => ?_
    rw [List.drop_succ_cons, List.drop_succ_cons, List.drop_left] at hc
    rw [hrest c hc]
    decide
  | blank =>
    obtain ⟨hne, hall⟩ := take_of_run? hn
    exact not_cutsWord_of_last (List.getLast?_eq_some_getLast hne)
      (isWord_eq_false_of_isBlank (List.all_eq_true.1 hall _ (List.getLast_mem hne)))
  | string =>
    obtain ⟨body, -, htake⟩ := isString_of_string? hn
    refine not_cutsWord_of_last (c := '"') ?_ (by decide)
    rw [htake, ← List.cons_append, List.getLast?_concat]
  | error =>
    rcases stray?_eq_some hn with hrun | ⟨c, t, rfl, hc, rfl⟩
    · rw [(run?_eq_some hrun).2, Token.drop_length_takeWhile]
      exact not_cutsWord_of_next (Pattern.head?_dropWhile_eq_false isWord s)
    · exact not_cutsWord_of_last (c := c) rfl hc
  | eof => cases hn
  | operator | assign | terminator | comma | leftParen | rightParen | leftCurly | rightCurly =>
    exact not_cutsWord_of_oneOf? (by decide) hn
  | dataType | boolean | functionHead | iff | maybe | orelse | iterate | whilst | br | cont | name |
    number =>
    rw [lexeme?_eq_find?] at hn
    exact Pattern.not_cutsWord (by rfl) hn

end TokenKind

/-! ## The cuts of a text -/

namespace Token

/-- The text of pieces that stand one behind the other. -/
def chars (ts : List Token) : List Char := (ts.map (·.text.toList)).flatten

/-- The first kind, in the order of trial, whose pattern matches at the front of a text, and how far
it reaches. -/
def firstMatch? (s : List Char) : Option (TokenKind × Nat) :=
  TokenKind.all.findSome? fun k => (k.pattern.bind (·.find? s)).map fun n => (k, n)

theorem first?_eq_firstMatch? (s : List Char) : first? s = firstMatch? s := by
  simp only [first?, firstMatch?, TokenKind.lexeme?_eq_find?]

theorem chars_append (ps qs : List Token) : chars (ps ++ qs) = chars ps ++ chars qs := by
  rw [chars, List.map_append, List.flatten_append]
  rfl

theorem chars_cons (t : Token) (ts : List Token) :
    chars (t :: ts) = t.text.toList ++ chars ts := rfl

/-- **A piece stands where the pieces in front of it end**, and takes what the first kind that fits
takes of the text that is left there. -/
theorem piecesFrom_eq_append {t : Token} {qs : List Token} (p : Position) (s : List Char) :
    ∀ {ps : List Token}, piecesFrom p s = ps ++ t :: qs →
      t = ofChars (p.after (chars ps)) t.kind t.text.toList ∧
        first? (chars (t :: qs)) = some (t.kind, t.text.length) := by
  fun_induction piecesFrom p s
  case case1 => intro ps h; simp at h
  case case2 p c s kind n hfirst lexeme ih =>
    intro ps h
    have hlength : lexeme.length = n + 1 := by
      have hbounds := TokenKind.lexeme?_bounds (lexeme?_of_first? hfirst)
      rw [List.length_cons] at hbounds
      simp only [lexeme, List.length_cons, List.length_take]
      omega
    have htext : (ofChars p kind lexeme).text.toList = lexeme := String.toList_ofList
    cases ps with
    | nil =>
      obtain ⟨rfl, rfl⟩ := List.cons.inj h
      have hrest : chars (piecesFrom (p.after lexeme) (s.drop n)) = s.drop n :=
        flatten_piecesFrom ..
      refine ⟨by rw [htext]; rfl, ?_⟩
      rw [chars_cons, hrest, htext, ← String.length_toList, htext, hlength, List.cons_append,
        List.take_append_drop]
      exact hfirst
    | cons q ps =>
      obtain ⟨rfl, hrest⟩ := List.cons.inj h
      rw [chars_cons, htext, Position.after_append]
      exact ih hrest
  case case3 => intro ps h; simp at h

variable {source : String} {ps qs : List Token} {t : Token}

theorem toList_of_pieces (h : pieces source = ps ++ qs) : source.toList = chars ps ++ chars qs := by
  rw [← flatten_pieces, h, ← chars_append]
  rfl

/-- **Behind a piece no word goes on.** -/
theorem not_cutsWord_of_pieces (h : pieces source = ps ++ t :: qs) :
    t.text.toList ≠ [] ∧ cutsWord t.text.toList (chars qs) = false := by
  have hlexeme := lexeme?_of_first? (piecesFrom_eq_append {} source.toList h).2
  have hpos := (TokenKind.lexeme?_bounds hlexeme).1
  have hcut := TokenKind.not_cutsWord hlexeme
  rw [chars_cons, ← String.length_toList, List.take_left, List.drop_left] at hcut
  exact ⟨List.length_pos_iff.1 (String.length_toList ▸ hpos), hcut⟩

end Token

/-- **No word is cut**: wherever a text is cut into pieces, be they tokens, blanks or comments, no
word goes on from one side to the other.  Each piece is the first match of the first pattern that
has one, and where a token ends in a word character the text behind it starts with none. -/
theorem pieces_keep_words (source : String) :
    (∀ ps qs, Token.pieces source = ps ++ qs →
      source.toList = Token.chars ps ++ Token.chars qs ∧
        cutsWord (Token.chars ps) (Token.chars qs) = false) ∧
    (∀ ps t qs, Token.pieces source = ps ++ t :: qs →
      Token.firstMatch? (Token.chars (t :: qs)) = some (t.kind, t.text.length)) ∧
    ∀ t ∈ Token.scan source, ∃ before after : String,
      source = before ++ t.text ++ after ∧ t.StandsBehind before ∧
        (∀ c ∈ t.text.toList.getLast?, isWord c = true →
          ∀ d ∈ after.toList.head?, isWord d = false) := by
  refine ⟨fun ps qs h => ⟨Token.toList_of_pieces h, ?_⟩, fun ps t qs h => ?_, fun t ht => ?_⟩
  · rcases List.eq_nil_or_concat ps with rfl | ⟨ps, t, rfl⟩
    · rfl
    · rw [List.concat_eq_append] at h ⊢
      rw [List.append_assoc, List.singleton_append] at h
      obtain ⟨hne, hcut⟩ := Token.not_cutsWord_of_pieces h
      have hlast : (Token.chars (ps ++ [t])).getLast? = t.text.toList.getLast? := by
        rw [Token.chars_append, List.getLast?_append, Token.chars_cons, Token.chars, List.map_nil,
          List.flatten_nil, List.append_nil, List.getLast?_eq_some_getLast hne, Option.some_or]
      rwa [cutsWord, hlast]
  · rw [← Token.first?_eq_firstMatch?]
    exact (Token.piecesFrom_eq_append {} source.toList h).2
  · obtain ⟨ps, qs, h⟩ := List.append_of_mem (List.mem_filter.1 ht).1
    refine ⟨String.ofList (Token.chars ps), String.ofList (Token.chars qs), ?_, ?_, ?_⟩
    · apply String.toList_injective
      rw [Token.toList_of_pieces h, String.toList_append, String.toList_append,
        String.toList_ofList, String.toList_ofList, Token.chars_cons, List.append_assoc]
    · rw [(Token.piecesFrom_eq_append {} source.toList h).1]
      exact Token.standsBehind_ofChars ..
    · intro c hc hword d hd
      have hcut := (Token.not_cutsWord_of_pieces h).2
      rw [String.toList_ofList] at hd
      rw [cutsWord, hc, hd, Option.any_some, Option.any_some, hword, Bool.true_and] at hcut
      exact hcut

end Enigma
