import Enigma.Proofs.Effects
import Enigma.Proofs.Grammar
import Enigma.Proofs.Reference
import Enigma.Token.Scan

/-!
# Proofs/Literals — what the literals of a program look like

Every literal of a program is the text of one of its tokens, and a token of the scan looks as its
kind demands: a number is digits, with a point and more digits or without, and a string stands
between two quotes and has none inside.

* `Token.lexeme?_of_mem_scan` — a token of the scan is a lexeme of its kind;
* `IsNumber`, `IsString` — what numbers and strings look like;
* `Grammar.Derives.literals` — literals come from tokens;
* `LiteralKind.cell_of_ascii` — a number in ASCII digits can be read.
-/

namespace Enigma

/-! ## Tokens -/

namespace Token

/-- The rule that comes first takes what it takes by itself. -/
theorem lexeme?_of_first? {s : List Char} {kind : TokenKind} {n : Nat}
    (h : first? s = some (kind, n)) : kind.lexeme? s = some n := by
  obtain ⟨kind', -, h'⟩ := List.exists_of_findSome?_eq_some h
  obtain ⟨n', hn', heq⟩ := Option.map_eq_some_iff.1 h'
  obtain ⟨rfl, rfl⟩ := Prod.mk.inj heq
  exact hn'

/-- **A piece is the first token of what is left of the text.** -/
theorem first?_of_mem_piecesFrom {p : Position} {s : List Char} {t : Token}
    (h : t ∈ piecesFrom p s) :
    ∃ s' n, first? s' = some (t.kind, n) ∧ t.text.toList = s'.take n := by
  fun_induction piecesFrom p s with
  | case1 => cases h
  | case2 p c s kind n hfirst lexeme ih =>
    rcases List.mem_cons.1 h with rfl | h
    · exact ⟨c :: s, n + 1, hfirst, by simp [ofChars, lexeme]⟩
    · exact ih h
  | case3 => cases h

theorem first?_of_mem_scan {source : String} {t : Token} (h : t ∈ scan source) :
    ∃ s n, first? s = some (t.kind, n) ∧ t.text.toList = s.take n :=
  first?_of_mem_piecesFrom (List.mem_filter.1 h).1

/-- **A token is a lexeme of its kind.** -/
theorem lexeme?_of_mem_scan {source : String} {t : Token} (h : t ∈ scan source) :
    ∃ s n, t.kind.lexeme? s = some n ∧ t.text.toList = s.take n := by
  obtain ⟨s, n, hfirst, htext⟩ := first?_of_mem_scan h
  exact ⟨s, n, lexeme?_of_first? hfirst, htext⟩

end Token

/-! ## Numbers and strings -/

/-- Some digits, with a point and more digits or without. -/
inductive IsNumber : List Char → Prop
  | whole {ds : List Char} (hne : ds ≠ []) (h : ds.all Text.isDigit = true) : IsNumber ds
  | point {ds es : List Char} (hne : ds ≠ []) (h : ds.all Text.isDigit = true) (hne' : es ≠ [])
      (h' : es.all Text.isDigit = true) : IsNumber (ds ++ '.' :: es)

/-- Text between two quotes, with none inside. -/
def IsString (cs : List Char) : Prop := ∃ s, '"' ∉ s ∧ cs = '"' :: (s ++ ['"'])

namespace Lexeme

/-- A run is not empty, and all of it is of its class. -/
theorem take_of_run? {p : Char → Bool} {s : List Char} {n : Nat} (h : run? p s = some n) :
    s.take n ≠ [] ∧ (s.take n).all p = true := by
  obtain ⟨hpos, rfl⟩ := run?_eq_some h
  have htake : s.take (s.takeWhile p).length = s.takeWhile p :=
    List.prefix_iff_eq_take.1 (List.takeWhile_prefix p) |>.symm
  rw [htake]
  exact ⟨List.length_pos_iff.1 hpos, List.all_takeWhile⟩

/-- **A number is digits**, with a point and more digits or without. -/
theorem isNumber_of_number? {s : List Char} {n : Nat} (h : number? s = some n) :
    IsNumber (s.take n) := by
  simp only [number?, Option.bind_eq_bind, Option.bind_eq_some_iff] at h
  obtain ⟨whole, hw, h⟩ := h
  obtain ⟨hne, hall⟩ := take_of_run? hw
  split at h
  · rename_i t ht
    split at h
    · rename_i m hm
      split at h
      · obtain rfl := Option.some.inj h
        obtain ⟨hne', hall'⟩ := take_of_run? hm
        have hsplit : s.take (whole + 1 + m) = s.take whole ++ '.' :: t.take m := by
          rw [Nat.add_assoc, List.take_add, ht, Nat.add_comm 1 m, List.take_succ_cons]
        rw [hsplit]
        exact .point hne hall hne' hall'
      · obtain rfl := Option.some.inj h
        exact .whole hne hall
    · obtain rfl := Option.some.inj h
      exact .whole hne hall
  · obtain rfl := Option.some.inj (Option.ite_none_right_eq_some.1 h).2
    exact .whole hne hall

/-- **A string is text between two quotes.** -/
theorem isString_of_string? {s : List Char} {n : Nat} (h : string? s = some n) :
    IsString (s.take n) := by
  unfold string? at h
  split at h
  · rename_i t
    dsimp only at h
    split at h
    · rename_i rest hrest
      obtain rfl := Option.some.inj h
      generalize hk : (t.takeWhile fun c => c != '"' && c != '\n') = k at hrest
      have htake : t.take k.length = k := by
        rw [← hk]
        exact (List.prefix_iff_eq_take.1 (List.takeWhile_prefix _)).symm
      have hsplit : ('"' :: t).take (k.length + 2) = '"' :: (k ++ ['"']) := by
        rw [List.take_succ_cons, List.take_add, htake, hrest]
        rfl
      have hquote : '"' ∉ k := by
        intro hmem
        rw [← hk] at hmem
        simpa using List.all_eq_true.1 List.all_takeWhile _ hmem
      exact ⟨k, hquote, hsplit⟩
    · cases h
  · cases h

end Lexeme

/-! ## Where literals come from -/

/-- The literals of an expression. -/
def Expr.literals : Expr → List (LiteralKind × String)
  | literal kind text => [(kind, text)]
  | ident _ => []
  | binary left _ right => left.literals ++ right.literals
  | group inner => inner.literals

/-- The kind of token that a literal is written as. -/
def LiteralKind.tokenKind : LiteralKind → TokenKind
  | number => .number
  | string => .string
  | boolean => .boolean

/-- Whether every literal of an expression is one of the tokens. -/
def Expr.From (tokens : List Token) (e : Expr) : Prop :=
  ∀ kind text, (kind, text) ∈ e.literals → ∃ t ∈ tokens, t.kind = kind.tokenKind ∧ t.text = text

/-- Whether every literal that actions store is one of the tokens. -/
def ActionsFrom (tokens : List Token) (as : List Action) : Prop :=
  ∀ a ∈ as, ∀ name e, a.target? = some (name, e) → e.From tokens

section From

variable {ts us : List Token} {as bs : List Action}

/-- A literal comes from its token. -/
theorem Expr.From.literal {t : Token} {kind : LiteralKind} (h : t.kind = kind.tokenKind) :
    (Expr.literal kind t.text).From [t] := by
  intro kind' text hmem
  obtain ⟨rfl, rfl⟩ := Prod.mk.inj (List.mem_singleton.1 hmem)
  exact ⟨t, List.mem_singleton_self t, h, rfl⟩

theorem Expr.From.mono {e : Expr} (h : e.From ts) (hsub : ts ⊆ us) : e.From us := by
  intro kind text hmem
  obtain ⟨t, ht, heq⟩ := h kind text hmem
  exact ⟨t, hsub ht, heq⟩

theorem ActionsFrom.mono (h : ActionsFrom ts as) (hsub : ts ⊆ us) : ActionsFrom us as :=
  fun a ha name e htarget => (h a ha name e htarget).mono hsub

/-- **Literals come from tokens part by part.** -/
theorem ActionsFrom.append (h : ActionsFrom ts as) (h' : ActionsFrom us bs) :
    ActionsFrom (ts ++ us) (as ++ bs) := by
  intro a ha
  rcases List.mem_append.1 ha with ha | ha
  · exact h.mono (List.subset_append_left ts us) a ha
  · exact h'.mono (List.subset_append_right ts us) a ha

/-- An action that stores a value has the literals of the value. -/
theorem ActionsFrom.store {a : Action} {name : String} {e : Expr}
    (ha : a.target? = some (name, e)) (h : e.From ts) : ActionsFrom ts [a] := by
  intro a' ha' name' e' htarget
  obtain rfl := List.mem_singleton.1 ha'
  rw [ha] at htarget
  obtain ⟨rfl, rfl⟩ := Prod.mk.inj (Option.some.inj htarget)
  exact h

/-- Actions that store nothing have no literals. -/
theorem ActionsFrom.none (h : ∀ a ∈ as, a.target? = none) : ActionsFrom ts as := by
  intro a ha name e htarget
  rw [h a ha] at htarget
  cases htarget

theorem ActionsFrom.count (step : Step) : ActionsFrom [] [.count step] :=
  .none fun _ ha => List.mem_singleton.1 ha ▸ rfl

theorem ActionsFrom.reserve (params : List Param) : ActionsFrom [] (params.map .reserve) := by
  refine .none fun a ha => ?_
  obtain ⟨p, -, rfl⟩ := List.mem_map.1 ha
  rfl

end From

namespace Grammar

mutual

/-- **The literals of an expression are among its tokens.** -/
theorem Expression.literals : ∀ {ts : List Token} {e : Expr}, Expression ts e → e.From ts
  | _, _, .term h => h.literals
  | _, _, .binary hl _ hr => by
    intro kind text hmem
    rcases List.mem_append.1 hmem with hmem | hmem
    · obtain ⟨t, ht, heq⟩ := hl.literals kind text hmem
      exact ⟨t, List.mem_append_left _ ht, heq⟩
    · obtain ⟨t, ht, heq⟩ := hr.literals kind text hmem
      exact ⟨t, List.mem_append_right _ (List.mem_cons_of_mem _ ht), heq⟩

/-- A term has the literal that it is, or those between its parentheses. -/
theorem Term.literals : ∀ {ts : List Token} {e : Expr}, Term ts e → e.From ts
  | _, _, .number h => .literal h
  | _, _, .string h => .literal h
  | _, _, .boolean h => .literal h
  | _, _, .name _ => fun _ _ hmem => by cases hmem
  | _, _, .group _ h _ => h.literals.mono
    (List.Subset.trans (List.subset_append_left _ _) (List.subset_cons_self _ _))

end

/-- The literals of a declaration are those of its value. -/
theorem Declares.literals {ts : List Token} {d : Declaration} (h : Declares ts d) :
    d.value.From ts := by
  cases h with
  | mk _ _ _ h _ => exact h.literals.mono fun t ht => by simp [ht]

theorem branchesActions_append (bs : List Branch) (b : Branch) :
    branchesActions (bs ++ [b]) = branchesActions bs ++ b.actions := by
  induction bs with
  | nil => simp [branchesActions]
  | cons b' bs ih => rw [List.cons_append, branchesActions, ih, branchesActions, List.append_assoc]

mutual

/-- **The literals that a statement stores are among its tokens**; those of conditions are not
stored. -/
theorem Statement.literals : ∀ {inLoop : Bool} {ts : List Token} {s : Stmt},
    Statement inLoop ts s → ActionsFrom ts s.actions
  | _, _, _, .declaration h => .store rfl h.literals
  | _, _, _, .assignment _ _ h _ => .store rfl (h.literals.mono fun t ht => by simp [ht])
  | _, _, _, .conditional h => h.literals
  | _, _, _, .conditionalElse h _ hb => by
    rw [Stmt.actions, branchesActions_append]
    exact h.literals.append (hb.literals.mono (List.subset_cons_self _ _))
  | _, _, _, .iterate _ _ hi _ _ _ hb => by
    refine ((ActionsFrom.store (a := .declare _) rfl hi.literals).append
      (hb.literals.append (.count _))).mono fun t ht => ?_
    rw [List.append_nil] at ht
    rcases List.mem_append.1 ht with ht | ht <;> simp [ht]
  | _, _, _, .whilst _ _ hb => hb.literals.mono fun t ht => by simp [ht]
  | _, _, _, .function _ _ _ _ _ hb =>
    ((ActionsFrom.reserve _).append hb.literals).mono fun t ht => by
      rw [List.nil_append] at ht
      simp [ht]
  | _, _, _, .leave _ _ => .none (by simp [Stmt.actions])
  | _, _, _, .resume _ _ => .none (by simp [Stmt.actions])

theorem Branches.literals : ∀ {inLoop : Bool} {ts : List Token} {bs : List Branch},
    Branches inLoop ts bs → ActionsFrom ts (branchesActions bs)
  | _, _, _, .iff _ _ hb => by
    rw [branchesActions, branchesActions, List.append_nil]
    exact hb.literals.mono fun t ht => by simp [ht]
  | _, _, _, .maybe h _ _ hb => by
    rw [branchesActions_append]
    exact h.literals.append (hb.literals.mono fun t ht => by simp [ht])

theorem Block.literals : ∀ {inLoop : Bool} {ts : List Token} {body : List Stmt},
    Block inLoop ts body → ActionsFrom ts (blockActions body)
  | _, _, _, .mk _ h _ => h.literals.mono fun t ht => by simp [ht]

/-- Statements in a row have their literals one after the other. -/
theorem Statements.literals : ∀ {inLoop : Bool} {ts : List Token} {body : List Stmt},
    Statements inLoop ts body → ActionsFrom ts (blockActions body)
  | _, _, _, .nil => .none (by simp [blockActions])
  | _, _, _, .cons h hrest => h.literals.append hrest.literals

end

/-- **The literals of a program are among its tokens.** -/
theorem Derives.literals {tokens : List Token} {p : Program} (h : Derives tokens p) :
    ActionsFrom tokens p.actions := Statements.literals h

end Grammar

/-! ## Literals in code -/

/-- What a literal of a kind looks like. -/
def LiteralKind.Shape : LiteralKind → String → Prop
  | number, text => IsNumber text.toList
  | string, text => IsString text.toList
  | boolean, _ => True

/-- Whether the literals of an expression look as they should. -/
def Expr.Shaped (e : Expr) : Prop := ∀ kind text, (kind, text) ∈ e.literals → kind.Shape text

/-- **A literal looks as it should** if its token was scanned. -/
theorem Token.shape_of_mem_scan {source : String} {t : Token} (h : t ∈ scan source)
    {kind : LiteralKind} (hk : t.kind = kind.tokenKind) : kind.Shape t.text := by
  obtain ⟨s, n, hlexeme, htext⟩ := lexeme?_of_mem_scan h
  rw [hk] at hlexeme
  cases kind with
  | number =>
    rw [LiteralKind.Shape, htext]
    exact Lexeme.isNumber_of_number? hlexeme
  | string =>
    rw [LiteralKind.Shape, htext]
    exact Lexeme.isString_of_string? hlexeme
  | boolean => trivial

/-- The literals of an expression look as they should if it was read from scanned tokens. -/
theorem Expr.From.shaped {source : String} {e : Expr} (h : e.From (Token.scan source)) :
    e.Shaped := by
  intro kind text hmem
  obtain ⟨t, ht, hk, rfl⟩ := h kind text hmem
  exact Token.shape_of_mem_scan ht hk

/-- A number as it is scanned can stand in code. -/
theorem isNumeral_of_isNumber {s : List Char} (h : IsNumber s) : IsNumeral s := by
  have hdigit {ds : List Char} (hds : ds.all Text.isDigit = true) : ds.all isNumeralChar = true :=
    List.all_eq_true.2 fun c hc => by simp [isNumeralChar, List.all_eq_true.1 hds c hc]
  have hpoint : isNumeralChar '.' = true := by decide
  cases h with
  | whole hne h => exact ⟨hne, hdigit h⟩
  | point hne h _ h' =>
    refine ⟨by simp, ?_⟩
    simp only [List.all_append, List.all_cons, hdigit h, hdigit h', hpoint, Bool.and_self]

/-- Quotes come off the front and off the end of what holds none inside. -/
theorem dropWhile_quote {s : List Char} (h : '"' ∉ s) (rest : List Char) :
    Text.dropWhileEnd (· == '"') ((s ++ rest).dropWhile (· == '"'))
      = s ++ Text.dropWhileEnd (· == '"') (if s = [] then rest.dropWhile (· == '"') else rest) := by
  cases s with
  | nil => simp
  | cons c s =>
    have hc : c ≠ '"' := fun hc => h (by simp [hc])
    rw [List.cons_append, List.dropWhile_cons_of_neg (by simpa using hc), ← List.cons_append,
      Text.dropWhileEnd_append, if_neg (List.cons_ne_nil c s)]
    intro x hx
    have hne : x ≠ '"' := fun hxq => h (hxq ▸ List.mem_of_getLast? hx)
    simpa using hne

/-- **Quotes around a text come off.** -/
theorem unquoted_of_quoted {text : String} {s : List Char} (h : '"' ∉ s)
    (htext : text.toList = '"' :: (s ++ ['"'])) : Text.unquoted text = String.ofList s := by
  have hquote : Text.dropWhileEnd (· == '"') ['"'] = [] := by decide
  rw [Text.unquoted, htext, List.dropWhile_cons_of_pos (by decide), dropWhile_quote h]
  split
  · rw [show Text.dropWhileEnd (· == '"') (['"'].dropWhile (· == '"')) = [] by decide,
      List.append_nil]
  · rw [hquote, List.append_nil]

/-- A text without quotes stays as it is. -/
theorem unquoted_of_not_mem {text : String} (h : '"' ∉ text.toList) :
    Text.unquoted text = text := by
  have hnil : Text.dropWhileEnd (· == '"') [] = [] := rfl
  have hdrop := dropWhile_quote h []
  rw [List.append_nil, List.dropWhile_nil, ite_self, hnil, List.append_nil] at hdrop
  rw [Text.unquoted, hdrop, String.ofList_toList]

theorem IsNumeral.not_mem_quote {s : List Char} (h : IsNumeral s) : '"' ∉ s := by
  intro hmem
  exact absurd (List.all_eq_true.1 h.2 _ hmem) (by decide)

/-- Without its quotes a well-formed constant has none. -/
theorem Operand.WellFormed.not_mem_unquoted {text : String}
    (h : (Operand.immediate text).WellFormed) : '"' ∉ (Text.unquoted text).toList := by
  cases h with
  | numeral h =>
    have hquote := h.not_mem_quote
    rw [unquoted_of_not_mem hquote]
    exact hquote
  | quoted h htext =>
    rw [unquoted_of_quoted h htext, String.toList_ofList]
    exact h

namespace LiteralKind

variable {kind : LiteralKind} {text : String}

/-- A boolean is written as one of two digits. -/
theorem written_boolean (text : String) :
    boolean.written text = "1" ∨ boolean.written text = "0" := by
  by_cases h : text = "yup" <;> simp [written, h]

/-- A literal in code is a well-formed operand. -/
theorem Shape.wellFormed (h : kind.Shape text) :
    (Operand.immediate (kind.written text)).WellFormed := by
  cases kind with
  | number => exact .numeral (isNumeral_of_isNumber h)
  | string =>
    obtain ⟨s, hs, htext⟩ := h
    exact .quoted hs htext
  | boolean =>
    rcases written_boolean text with hw | hw <;> rw [hw] <;>
      exact .numeral ⟨by simp, by decide⟩

/-- **A literal in code has the literal's cell.** -/
theorem Shape.immediateCell? (h : kind.Shape text) :
    Enigma.immediateCell? (kind.written text) = (kind.cell text).toOption := by
  cases kind with
  | number =>
    have hnone : between? '"' '"' text = none := by
      cases hs : text.toList with
      | nil => simp [between?, hs]
      | cons c s =>
        refine between?_of_ne hs ?_
        rintro rfl
        exact (isNumeral_of_isNumber h).not_mem_quote (by simp [hs])
    rw [written, cell, Enigma.immediateCell?, hnone]
    cases Number.int64? text <;> cases Number.real? text <;> rfl
  | string =>
    obtain ⟨s, hs, htext⟩ := h
    rw [written, cell, Enigma.immediateCell?, between?_eq_some htext, unquoted_of_quoted hs htext]
    rfl
  | boolean =>
    by_cases hy : text = "yup"
    · subst hy
      decide
    · rw [written, cell, if_neg hy, if_neg hy]
      decide

end LiteralKind

/-! ## Numbers in ASCII digits -/

theorem takeWhile_of_all {p : Char → Bool} {ds : List Char} (h : ds.all p = true)
    (rest : List Char) :
    (ds ++ rest).takeWhile p = ds ++ rest.takeWhile p ∧
      (ds ++ rest).dropWhile p = rest.dropWhile p := by
  rw [List.all_eq_true] at h
  exact ⟨List.takeWhile_append_of_pos h, List.dropWhile_append_of_pos h⟩

/-- **A number in ASCII digits is a decimal.** -/
theorem decimal?_isSome {s : List Char} (h : IsNumber s)
    (hascii : ∀ c ∈ s, Text.isDigit c = true → c.isDigit = true) :
    (Number.decimal? s).isSome = true := by
  have hdigits {ds : List Char} (hsub : ds ⊆ s) (hds : ds.all Text.isDigit = true) :
      ds.all Char.isDigit = true :=
    List.all_eq_true.2 fun c hc => hascii c (hsub hc) (List.all_eq_true.1 hds c hc)
  cases h with
  | whole hne h =>
    obtain ⟨htake, hdrop⟩ := takeWhile_of_all (hdigits (fun _ h => h) h) []
    rw [List.append_nil] at htake hdrop
    rw [Number.decimal?, htake, hdrop]
    simp [Number.exponent?, hne]
  | @point ds es hne h hne' h' =>
    have hpoint : '.'.isDigit = false := by decide
    obtain ⟨htake, hdrop⟩ := takeWhile_of_all (hdigits (by simp) h) ('.' :: es)
    obtain ⟨htake', hdrop'⟩ := takeWhile_of_all (hdigits (by simp) h') []
    rw [List.append_nil] at htake' hdrop'
    rw [List.takeWhile_cons_of_neg (by simp [hpoint])] at htake
    rw [List.dropWhile_cons_of_neg (by simp [hpoint])] at hdrop
    rw [Number.decimal?, htake, hdrop]
    simp [htake', hdrop', Number.exponent?, hne]

/-- A number as it is scanned has no sign. -/
theorem splitSign_of_isNumber {s : List Char} (h : IsNumber s) :
    Number.splitSign s = (false, s) := by
  have hhead (c : Char) (t : List Char) (hs : s = c :: t) : Text.isDigit c = true := by
    cases h with
    | whole _ h => exact List.all_eq_true.1 h c (by simp [hs])
    | @point ds es hne h _ _ =>
      cases ds with
      | nil => exact absurd rfl hne
      | cons d ds =>
        obtain ⟨rfl, -⟩ := List.cons.inj hs
        exact List.all_eq_true.1 h d (List.mem_cons_self ..)
  unfold Number.splitSign
  split
  · exact absurd (hhead _ _ rfl) (by decide)
  · exact absurd (hhead _ _ rfl) (by decide)
  · rfl

/-- **A number in ASCII digits can be read.** -/
theorem LiteralKind.cell_of_ascii {kind : LiteralKind} {text : String} (h : kind.Shape text)
    (hascii : kind = .number → ∀ c ∈ text.toList, Text.isDigit c = true → c.isDigit = true) :
    ∃ c, kind.cell text = .ok c := by
  cases kind with
  | number =>
    obtain ⟨d, hd⟩ := Option.isSome_iff_exists.1 (decimal?_isSome h (hascii rfl))
    have hreal : Number.real? text = some d.toFloat := by
      rw [Number.real?, splitSign_of_isNumber h]
      dsimp only
      rw [Number.magnitude?, hd]
      rfl
    rw [cell, hreal]
    cases Number.int64? text with
    | none => exact ⟨_, rfl⟩
    | some n => exact ⟨_, rfl⟩
  | string => exact ⟨_, rfl⟩
  | boolean => exact ⟨_, rfl⟩

end Enigma
