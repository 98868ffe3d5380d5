import Enigma.Proofs.Lineless

/-!
# Proofs/Printing — printed expressions are read back

An expression prints as the texts of its tokens with single spaces between them.  Each of those
texts is read back in front of a space, and the last of them in front of a comma too, so an
expression that is printed into an assignment is the value of that assignment again, grouping and
association included.

* `Strewn` — stretches of a list, one behind the other, with gaps between them;
  `Derives.strewn` — where the expressions of a program stand among its tokens;
* `Expression.text_eq` — an expression prints as its tokens;
* `Token.first?_comma` — what can end an expression is read back in front of a comma;
* `parse_printed` — so a printed expression is read back.
-/

namespace Enigma

/-! ## The expressions of a program -/

mutual

/-- The values and conditions of a statement, in the order in which they are written. -/
def Stmt.exprs : Stmt → List Expr
  | .declare d => [d.value]
  | .assign _ value _ => [value]
  | .conditional branches => branchesExprs branches
  | .iterate init condition _ body _ => init.value :: condition :: blockExprs body
  | .whilst condition body _ => condition :: blockExprs body
  | .function _ _ body => blockExprs body
  | .leave _ => []
  | .resume _ => []

/-- Those of an arm. -/
def Branch.exprs : Branch → List Expr
  | .mk _ condition body _ => condition.toList ++ blockExprs body

/-- Those of statements in a row. -/
def blockExprs : List Stmt → List Expr
  | [] => []
  | s :: rest => s.exprs ++ blockExprs rest

/-- Those of arms in a row. -/
def branchesExprs : List Branch → List Expr
  | [] => []
  | b :: rest => b.exprs ++ branchesExprs rest

end

/-- The values that a program declares or assigns and its conditions, in the order in which they are
written. -/
def Program.exprs (p : Program) : List Expr := blockExprs p

/-- The first list has a stretch for each element of the second, one behind the other; what stands
between them is skipped. -/
inductive Strewn {α β : Type} (R : List α → β → Prop) : List α → List β → Prop
  | nil : Strewn R [] []
  | skip (a : α) {as : List α} {bs : List β} (h : Strewn R as bs) : Strewn R (a :: as) bs
  | piece {as as' : List α} {b : β} {bs : List β} (hb : R as b) (h : Strewn R as' bs) :
      Strewn R (as ++ as') (b :: bs)

namespace Strewn

variable {α β : Type} {R S : List α → β → Prop} {as as' : List α} {bs bs' : List β}

/-- Tokens may stand between what is looked for. -/
theorem gap (as : List α) : Strewn R as [] := by
  induction as with
  | nil => exact .nil
  | cons a as ih => exact .skip a ih

/-- **What is strewn over two parts** is strewn over both. -/
theorem append (h : Strewn R as bs) (h' : Strewn R as' bs') : Strewn R (as ++ as') (bs ++ bs') := by
  induction h with
  | nil => exact h'
  | skip a _ ih => exact .skip a ih
  | piece hb _ ih =>
    rw [List.append_assoc]
    exact .piece hb ih

/-- Each stretch is part of the list. -/
theorem imp (h : Strewn R as bs) (himp : ∀ ts b, ts ⊆ as → R ts b → S ts b) : Strewn S as bs := by
  induction h with
  | nil => exact .nil
  | skip a _ ih =>
    exact .skip a (ih fun ts b hts => himp ts b (List.Subset.trans hts (List.subset_cons_self _ _)))
  | piece hb _ ih =>
    refine .piece (himp _ _ (List.subset_append_left _ _) hb) (ih fun ts b hts => ?_)
    exact himp ts b (List.Subset.trans hts (List.subset_append_right _ _))

/-- Each element has its stretch somewhere in the list. -/
theorem exists_of_mem (h : Strewn R as bs) {b : β} (hb : b ∈ bs) : ∃ ts, ts ⊆ as ∧ R ts b := by
  induction h with
  | nil => cases hb
  | skip a _ ih =>
    obtain ⟨ts, hts, hR⟩ := ih hb
    exact ⟨ts, List.Subset.trans hts (List.subset_cons_self _ _), hR⟩
  | piece hR _ ih =>
    rcases List.mem_cons.1 hb with rfl | hb
    · exact ⟨_, List.subset_append_left _ _, hR⟩
    · obtain ⟨ts, hts, hR⟩ := ih hb
      exact ⟨ts, List.Subset.trans hts (List.subset_append_right _ _), hR⟩

end Strewn

theorem branchesExprs_append (bs : List Branch) (b : Branch) :
    branchesExprs (bs ++ [b]) = branchesExprs bs ++ b.exprs := by
  induction bs with
  | nil => simp [branchesExprs]
  | cons b' bs ih => rw [List.cons_append, branchesExprs, ih, branchesExprs, List.append_assoc]

namespace Grammar

/-- A condition has its expression between its parentheses. -/
theorem Condition.strewn {ts : List Token} {e : Expr} (h : Condition ts e) :
    Strewn Expression ts [e] := by
  cases h with
  | mk _ h _ => exact .skip _ (.piece h (.gap _))

/-- A declaration has its value behind the sign. -/
theorem Declares.strewn {ts : List Token} {d : Declaration} (h : Declares ts d) :
    Strewn Expression ts [d.value] := by
  cases h with
  | mk _ _ _ h _ => exact .skip _ (.skip _ (.skip _ (.piece h (.gap _))))

mutual

/-- **The expressions of a statement are strewn over its tokens.** -/
theorem Statement.strewn : ∀ {inLoop : Bool} {ts : List Token} {s : Stmt},
    Statement inLoop ts s → Strewn Expression ts s.exprs
  | _, _, _, .declaration h => h.strewn
  | _, _, _, .assignment _ _ h _ => .skip _ (.skip _ (.piece h (.gap _)))
  | _, _, _, .conditional h => h.strewn
  | _, _, _, .conditionalElse h _ hb => by
    rw [Stmt.exprs, branchesExprs_append]
    exact h.strewn.append (.skip _ hb.strewn)
  | _, _, _, .iterate _ _ hi hc _ _ hb =>
    .skip _ (.skip _ (hi.strewn.append (.piece hc ((Strewn.gap _).append (.skip _ hb.strewn)))))
  | _, _, _, .whilst _ hc hb => .skip _ (hc.strewn.append hb.strewn)
  | _, _, _, .function _ _ _ _ _ hb =>
    .skip _ (.skip _ ((Strewn.gap _).append (.skip _ hb.strewn)))
  | _, _, _, .leave _ _ => .gap _
  | _, _, _, .resume _ _ => .gap _

/-- The expressions of arms in a row are strewn over their tokens, conditions in front of blocks. -/
theorem Branches.strewn : ∀ {inLoop : Bool} {ts : List Token} {bs : List Branch},
    Branches inLoop ts bs → Strewn Expression ts (branchesExprs bs)
  | _, _, _, .iff _ hc hb => by
    rw [branchesExprs, branchesExprs, List.append_nil]
    exact .skip _ (hc.strewn.append hb.strewn)
  | _, _, _, .maybe h _ hc hb => by
    rw [branchesExprs_append]
    exact h.strewn.append (.skip _ (hc.strewn.append hb.strewn))

theorem Block.strewn : ∀ {inLoop : Bool} {ts : List Token} {body : List Stmt},
    Block inLoop ts body → Strewn Expression ts (blockExprs body)
  | _, _, body, .mk _ h _ => by
    rw [← List.append_nil (blockExprs body)]
    exact .skip _ (h.strewn.append (.gap _))

/-- The expressions of statements in a row are strewn over their tokens, in order. -/
theorem Statements.strewn : ∀ {inLoop : Bool} {ts : List Token} {body : List Stmt},
    Statements inLoop ts body → Strewn Expression ts (blockExprs body)
  | _, _, _, .nil => .nil
  | _, _, _, .cons h hrest => h.strewn.append hrest.strewn

end

/-- **Where the expressions of a program stand** among its tokens. -/
theorem Derives.strewn {tokens : List Token} {p : Program} (h : Derives tokens p) :
    Strewn Expression tokens p.exprs := Statements.strewn h

end Grammar

/-! ## An expression prints as its tokens -/

/-- Whether an expression can end with a token of the kind. -/
def TokenKind.endsExpression : TokenKind → Bool
  | number | string | boolean | name | rightParen => true
  | _ => false

namespace Token

theorem joined_singleton (t : Token) : joined [t] = t.text := by
  rw [← String.toList_inj, toList_joined]
  simp

/-- A token in front is joined by one blank. -/
theorem joined_cons (t : Token) {ts : List Token} (hts : ts ≠ []) :
    joined (t :: ts) = t.text ++ " " ++ joined ts := by
  obtain ⟨u, ts, rfl⟩ := List.exists_cons_of_ne_nil hts
  rw [← String.toList_inj, toList_joined, List.map_cons, List.map_cons, List.intercalate_cons_cons,
    String.toList_append, toList_joined, String.toList_append, List.map_cons]
  rfl

/-- **Parts are joined by one blank**, if none of them is empty. -/
theorem joined_append {ts us : List Token} (hts : ts ≠ []) (hus : us ≠ []) :
    joined (ts ++ us) = joined ts ++ " " ++ joined us := by
  induction ts with
  | nil => exact absurd rfl hts
  | cons t ts ih =>
    by_cases hne : ts = []
    · subst hne
      rw [List.singleton_append, joined_cons t hus, joined_singleton]
    · have hne' : ts ++ us ≠ [] := List.append_ne_nil_of_left_ne_nil hne us
      rw [List.cons_append, joined_cons t hne', ih hne, joined_cons t hne]
      simp only [String.append_assoc]

/-- Whether a token has the text of a parenthesis if it is one. -/
def Spelled (t : Token) : Prop :=
  (t.kind = .leftParen → t.text = "(") ∧ (t.kind = .rightParen → t.text = ")")

/-- Scanned tokens are spelled as their kind is. -/
theorem spelled_of_mem_scan {source : String} {t : Token} (h : t ∈ scan source) : t.Spelled := by
  obtain ⟨s, n, hlexeme, htext⟩ := lexeme?_of_mem_scan h
  have hone {w : String} (hw : Lexeme.oneOf? [w] s = some n) : t.text = w := by
    obtain ⟨w', hw', -, htake⟩ := Lexeme.oneOf?_eq_some hw
    rw [← String.toList_inj, htext, htake, List.mem_singleton.1 hw']
  constructor
  · intro hk
    rw [hk] at hlexeme
    exact hone hlexeme
  · intro hk
    rw [hk] at hlexeme
    exact hone hlexeme

end Token

namespace Grammar

open Token

/-- **What an expression ends with**: a literal, a name or a parenthesis. -/
theorem Term.exists_last {ts : List Token} {e : Expr} (h : Term ts e) :
    ∃ us t, ts = us ++ [t] ∧ t.kind.endsExpression = true := by
  cases h with
  | number h => exact ⟨[], _, rfl, by rw [h]; rfl⟩
  | string h => exact ⟨[], _, rfl, by rw [h]; rfl⟩
  | boolean h => exact ⟨[], _, rfl, by rw [h]; rfl⟩
  | name h => exact ⟨[], _, rfl, by rw [h]; rfl⟩
  | @group ts e l r _ _ hr => exact ⟨l :: ts, r, rfl, by rw [hr]; rfl⟩

/-- An expression ends with what its last term ends with. -/
theorem Expression.exists_last {ts : List Token} {e : Expr} (h : Expression ts e) :
    ∃ us t, ts = us ++ [t] ∧ t.kind.endsExpression = true := by
  cases h with
  | term h => exact h.exists_last
  | @binary ts _ _ _ op _ _ hr =>
    obtain ⟨us, t, rfl, ht⟩ := hr.exists_last
    exact ⟨ts ++ op :: us, t, by rw [List.append_assoc, List.cons_append], ht⟩

theorem Term.ne_nil {ts : List Token} {e : Expr} (h : Term ts e) : ts ≠ [] := by
  obtain ⟨us, t, rfl, -⟩ := h.exists_last
  exact List.append_ne_nil_of_right_ne_nil us (List.cons_ne_nil t [])

theorem Expression.ne_nil {ts : List Token} {e : Expr} (h : Expression ts e) : ts ≠ [] := by
  obtain ⟨us, t, rfl, -⟩ := h.exists_last
  exact List.append_ne_nil_of_right_ne_nil us (List.cons_ne_nil t [])

mutual

/-- **An expression prints as its tokens**, with single spaces between them. -/
theorem Expression.text_eq : ∀ {ts : List Token} {e : Expr}, Expression ts e →
    (∀ t ∈ ts, t.Spelled) → e.text = joined ts
  | _, _, .term h, hts => h.text_eq hts
  | _, _, .binary hl _ hr, hts => by
    obtain ⟨hts₁, hts₂⟩ := List.forall_mem_append.1 hts
    rw [Expr.text, hl.text_eq hts₁, hr.text_eq (List.forall_mem_cons.1 hts₂).2,
      joined_append hl.ne_nil (List.cons_ne_nil _ _), joined_cons _ hr.ne_nil]
    simp only [String.append_assoc]

/-- **A term is printed as its tokens joined.** -/
theorem Term.text_eq : ∀ {ts : List Token} {e : Expr}, Term ts e →
    (∀ t ∈ ts, t.Spelled) → e.text = joined ts
  | _, _, .number _, _ => (joined_singleton _).symm
  | _, _, .string _, _ => (joined_singleton _).symm
  | _, _, .boolean _, _ => (joined_singleton _).symm
  | _, _, .name _, _ => (joined_singleton _).symm
  | _, _, .group hl h hr, hts => by
    obtain ⟨htl, hts⟩ := List.forall_mem_cons.1 hts
    obtain ⟨hts, htr⟩ := List.forall_mem_append.1 hts
    rw [Expr.text, h.text_eq hts, joined_cons _ (List.append_ne_nil_of_left_ne_nil h.ne_nil _),
      joined_append h.ne_nil (List.cons_ne_nil _ _), joined_singleton, htl.1 hl,
      (List.forall_mem_singleton.1 htr).2 hr]
    simp only [String.append_assoc]
    rfl

end

end Grammar

/-! ## Reading back -/

namespace Token

open Lexeme

/-- **What can end an expression is read back in front of a comma.** -/
theorem first?_comma {source : String} {t : Token} (h : t ∈ scan source)
    (hk : t.kind.endsExpression = true) :
    first? (t.text.toList ++ [',']) = some (t.kind, t.text.toList.length) := by
  obtain ⟨s, n, hlexeme, htext⟩ := lexeme?_of_mem_scan h
  have hstops : Stops [','] := fun c hc => Option.some.inj hc ▸ (by decide)
  have hne : t.text.toList ++ [','] ≠ [] :=
    List.append_ne_nil_of_right_ne_nil _ (List.cons_ne_nil _ _)
  -- a text of a table is checked once, on its own
  have htable {options : List String}
      (halone : ∀ w ∈ options, first? (w.toList ++ [',']) = some (t.kind, w.toList.length))
      (hw : ∃ w ∈ options, n = w.length ∧ s.take n = w.toList) :
      first? (t.text.toList ++ [',']) = some (t.kind, t.text.toList.length) := by
    obtain ⟨w, hw, -, htake⟩ := hw
    rw [htext, htake]
    exact halone w hw
  cases hkind : t.kind with
  | number =>
    rw [hkind] at hlexeme
    have hnumber := isNumber_of_number? hlexeme
    rw [← htext] at hnumber
    exact first?_of_lone rfl hne (hnumber.number?_append hstops)
  | string =>
    rw [hkind] at hlexeme
    have hstring := isString_of_string? hlexeme
    have hline := TokenKind.not_mem_newline (by decide) hlexeme
    rw [← htext] at hstring hline
    exact first?_of_lone rfl hne (hstring.string?_append hline [','])
  | name =>
    rw [hkind] at hlexeme
    have hname := isName_of_name? hlexeme
    rw [← htext] at hname
    exact first?_of_lone rfl hne (hname.name?_append hstops)
  | boolean =>
    rw [hkind] at hlexeme htable
    exact htable (by decide) (word?_eq_some hlexeme)
  | rightParen =>
    rw [hkind] at hlexeme htable
    exact htable (by decide) (oneOf?_eq_some hlexeme)
  | _ =>
    rw [hkind] at hk
    cases hk

/-- A token whose characters are all taken by its own rule is read again. -/
theorem rereads_ofChars {s : List Char} {k : TokenKind} (h : first? s = some (k, s.length))
    (hne : s ≠ []) (hkept : k.ignored = false) (hstray : k ≠ .error) (p : Position) :
    (ofChars p k s).Rereads := by
  refine ⟨hkept, ?_, fun r hr => ?_⟩
  · rwa [ofChars, String.toList_ofList]
  · have hfirst := first?_take_append h hkept hstray hr
    rw [List.take_length] at hfirst
    rwa [ofChars, String.toList_ofList]

/-- The variable that a printed expression is assigned to. -/
def target : Token := ofChars {} .name "v-x".toList

/-- The sign between the two. -/
def sign : Token := ofChars {} .assign "=".toList

/-- The comma behind them. -/
def stop : Token := ofChars {} .terminator ",".toList

/-- Tokens are read back in front of a comma, and the comma behind them. -/
theorem scanFrom_joined_comma (p : Position) {us : List Token} {u : Token}
    (h : ∀ t ∈ us ++ [u], t.Rereads)
    (hu : first? (u.text.toList ++ [',']) = some (u.kind, u.text.toList.length)) :
    (scanFrom p ((joined (us ++ [u])).toList ++ [','])).map shape
      = (us ++ [u] ++ [stop]).map shape := by
  have hcomma : first? ([','] ++ []) = some (.terminator, 1) := by decide
  have hlast : ∀ t ∈ (us ++ [u]).getLast?,
      first? (t.text.toList ++ [',']) = some (t.kind, t.text.toList.length) := by
    intro t ht
    rw [List.getLast?_concat] at ht
    exact Option.some.inj ht ▸ hu
  obtain ⟨q, hscan⟩ := scanFrom_joined_append p (by simp) h hlast
  have hstop : (ofChars q .terminator [',']).shape = stop.shape := rfl
  rw [toList_joined, hscan, ← List.append_nil [','], scanFrom_of_first? (by decide) hcomma rfl,
    scanFrom_nil, List.map_singleton, hstop, ← List.map_singleton, ← List.map_append]

/-- **Tokens that are printed into an assignment** are read back, with the variable, the sign and
the comma around them. -/
theorem scan_printed {us : List Token} {u : Token} (h : ∀ t ∈ us ++ [u], t.Rereads)
    (hu : first? (u.text.toList ++ [',']) = some (u.kind, u.text.toList.length)) :
    ∃ vs, scan ("v-x = " ++ joined (us ++ [u]) ++ ",") = target :: vs ∧
      Alike vs (sign :: us ++ [u] ++ [stop]) := by
  have hblank : Text.isBlank ' ' = true := by decide
  have htarget : target.Rereads := rereads_ofChars (by decide) (by decide) rfl (by decide) {}
  have hsign : sign.Rereads := rereads_ofChars (by decide) (by decide) rfl (by decide) {}
  have htext : ("v-x = " ++ joined (us ++ [u]) ++ ",").toList
      = target.text.toList ++ ' ' :: ((joined (sign :: us ++ [u])).toList ++ [',']) := by
    rw [List.cons_append, joined_cons sign (by simp)]
    simp [target, sign, ofChars]
  have hfirst := htarget.first (' ' :: ((joined (sign :: us ++ [u])).toList ++ [',']))
    fun c hc => Option.some.inj hc ▸ hblank
  have hscan := scanFrom_of_first? htarget.ne_nil hfirst rfl {}
  rw [scanFrom_blank hblank] at hscan
  rw [scan_eq, htext, hscan]
  exact ⟨_, rfl, scanFrom_joined_comma _ (List.forall_mem_cons.2 ⟨hsign, h⟩) hu⟩

end Token

/-- Nothing stray is derived. -/
theorem Grammar.Derives.kind_ne_error {tokens : List Token} {p : Program} (h : Derives tokens p) :
    ∀ t ∈ tokens, t.kind ≠ .error := by
  intro t ht hk
  obtain ⟨r, hr, -⟩ := Reader.feedAll_of_statements h {} rfl rfl
  have hforeign := Reader.not_isForeign_of_feedAll hr ht
  rw [hk] at hforeign
  cases hforeign

/-- **An expression that is printed into an assignment** is the value of that assignment. -/
theorem Grammar.Expression.derives_printed {source : String} {ts : List Token} {e : Expr}
    (h : Expression ts e) (hts : ∀ t ∈ ts, t ∈ Token.scan source ∧ t.kind ≠ .error) :
    Derives (Token.scan ("v-x = " ++ e.text ++ ",")) [.assign "v-x" e 1] := by
  have htext := h.text_eq fun t ht => Token.spelled_of_mem_scan (hts t ht).1
  obtain ⟨us, u, rfl, hu⟩ := h.exists_last
  have hmem : u ∈ us ++ [u] := List.mem_append_right us (List.mem_singleton_self u)
  obtain ⟨vs, hscan, halike⟩ := Token.scan_printed
    (fun t ht => Token.rereads_of_mem_scan (hts t ht).1 (hts t ht).2)
    (Token.first?_comma (hts u hmem).1 hu)
  obtain ⟨sign, vs, rfl, ⟨hsign, -⟩, hvs⟩ := Token.alike_cons_iff.1 halike
  obtain ⟨ws, _, rfl, hws, hstops⟩ := Token.alike_append_iff.1 hvs
  obtain ⟨stop, rfl, hstop, -⟩ := Token.alike_singleton_iff.1 hstops
  rw [htext, hscan, ← List.append_nil (Token.target :: _)]
  exact .cons (.assignment rfl hsign (h.transfer hws) hstop) .nil

open Token in
/-- **Printed expressions are read back.**  If the tokens of a source are read as a program, its
values and conditions stand among them one behind the other, and each prints as the texts of its
tokens with single spaces between them.  What is printed can be assigned: the line is read without
an error, as the one assignment of that very expression. -/
theorem parse_printed {source : String} {p : Program}
    (hp : Program.parse (scan source) source = .ok p) :
    Strewn (fun ts e => Grammar.Expression ts e ∧ e.text = joined ts) (scan source) p.exprs ∧
      ∀ e ∈ p.exprs, lexErrors (scan ("v-x = " ++ e.text ++ ",")) = [] ∧
        Program.parse (scan ("v-x = " ++ e.text ++ ",")) ("v-x = " ++ e.text ++ ",")
          = .ok [.assign "v-x" e 1] := by
  have hderives := Program.parse_eq_ok_iff.1 hp
  have hstrewn := hderives.strewn
  refine ⟨hstrewn.imp fun ts e hts h => ⟨h, ?_⟩, fun e he => ?_⟩
  · exact h.text_eq fun t ht => spelled_of_mem_scan (hts ht)
  · obtain ⟨ts, hts, h⟩ := hstrewn.exists_of_mem he
    have hprinted := h.derives_printed fun t ht => ⟨hts ht, hderives.kind_ne_error t (hts ht)⟩
    exact ⟨lexErrors_eq_nil_iff.2 hprinted.kind_ne_error, Program.parse_eq_ok_iff.2 hprinted⟩

open Token in
/-- A value in parentheses within parentheses, behind operators without any. -/
theorem parse_printed_grouped :
    let source := "estr v-s=\"a, b\",iff(v-n<1.5){ebool v-b=v-n - 2-(yup==(v-s)),}"
    let value := Expr.binary (.binary (.ident "v-n") "-" (.literal .number "2")) "-"
      (.group (.binary (.literal .boolean "yup") "==" (.group (.ident "v-s"))))
    let printed := "v-x = v-n - 2 - ( yup == ( v-s ) ),"
    ∃ p, Program.parse (scan source) source = .ok p ∧
      p.exprs = [.literal .string "\"a, b\"",
        .binary (.ident "v-n") "<" (.literal .number "1.5"), value] ∧
      lexErrors (scan printed) = [] ∧
      Program.parse (scan printed) printed = .ok [.assign "v-x" value 1] := by
  intro source value printed
  have hcheck : ((Program.parse (scan source) source).toOption.any fun p =>
      p.exprs == [.literal .string "\"a, b\"",
        .binary (.ident "v-n") "<" (.literal .number "1.5"), value]) = true := by
    decide +kernel
  obtain ⟨p, hp, hcheck⟩ := exists_of_toOption_any hcheck
  have hexprs := eq_of_beq hcheck
  have hprinted : "v-x = " ++ value.text ++ "," = printed := by decide +kernel
  have hvalue := (parse_printed hp).2 value (by simp [hexprs])
  rw [hprinted] at hvalue
  exact ⟨p, hp, hexprs, hvalue⟩

end Enigma
