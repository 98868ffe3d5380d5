import Enigma.Program.Reader
import Enigma.Proofs.Grammar

/-!
# Proofs/Reading — the reader accepts exactly the grammar

The reader takes one token at a time and keeps a stack; the grammar derives whole trees.  They meet
in three lemmas:

* `head_iff` — what the reader takes a function head apart into is what the grammar says;
* `feedAll_of_statements` — what the grammar derives, the reader takes: from any place where a
  statement may start, the tokens of a statement lead to the reader with that statement pushed;
* `Reader.Covers.feed` — what the reader has taken, the grammar explains: each state of the reader
  says what the tokens before it are, and every token that is taken keeps this true.

A conditional ends only when the token behind it is no further arm, so the reader may stand behind
its last block without having pushed it.  `Reader.settle` closes the gap: it is the reader with the
arms read so far made a statement.
-/

namespace Enigma

open Grammar

/-! ## Function heads -/

/-- Blanks in front make no word. -/
theorem Text.filter_splitOnP_blanks {blanks : List Char} (hb : blanks.all isBlank = true)
    (s : List Char) : ((blanks ++ s).splitOnP isBlank).filter (!·.isEmpty)
      = (s.splitOnP isBlank).filter (!·.isEmpty) := by
  induction blanks with
  | nil => rfl
  | cons c blanks ih =>
    obtain ⟨hc, hb⟩ := Bool.and_eq_true_iff.1 hb
    rw [List.cons_append, List.splitOnP_cons_eq_if_modifyHead, if_pos hc, ← ih hb]
    rfl

/-- A text is a run of characters of a class and what stands behind it. -/
theorem Text.exists_run (p : Char → Bool) (s : List Char) :
    ∃ t r, s = t ++ r ∧ t.all p = true ∧ r.head?.all (!p ·) = true := by
  refine ⟨s.takeWhile p, s.dropWhile p, List.takeWhile_append_dropWhile.symm,
    List.all_takeWhile, ?_⟩
  have hhead := List.head?_dropWhile_not p s
  cases hr : (s.dropWhile p).head? with
  | none => rfl
  | some c =>
    rw [hr] at hhead
    simpa using hhead

namespace Grammar

/-- **The words of a text** are its first word, if there is one, and those behind it. -/
theorem FirstWord.words_eq {s word rest : List Char} (h : FirstWord s word rest) :
    (Text.words (String.ofList s)).head?.getD "" = String.ofList word ∧
      (Text.words (String.ofList s)).tail = Text.words (String.ofList rest) := by
  cases h with
  | none hb =>
    have hwords := Text.filter_splitOnP_blanks hb []
    rw [List.append_nil] at hwords
    rw [Text.words, String.toList_ofList, hwords]
    exact ⟨rfl, rfl⟩
  | @some blanks word rest hb hne hw hr =>
    have hkept (ws : List (List Char)) : (word :: ws).filter (!·.isEmpty)
        = word :: ws.filter (!·.isEmpty) := List.filter_cons_of_pos (by simpa using hne)
    have hw : ∀ c ∈ word, Text.isBlank c = false := by simpa using hw
    rw [Text.words, String.toList_ofList, Text.filter_splitOnP_blanks hb]
    cases rest with
    | nil =>
      rw [List.append_nil, List.splitOnP_eq_singleton hw, hkept]
      exact ⟨rfl, rfl⟩
    | cons c rest =>
      have hc : Text.isBlank c = true := hr
      have hblank : [c].all Text.isBlank = true := by rw [List.all_cons, hc]; rfl
      have hrest := Text.filter_splitOnP_blanks hblank rest
      rw [List.splitOnP_append_cons_of_forall_mem hw c hc, hkept, ← hrest]
      refine ⟨rfl, ?_⟩
      rw [Text.words, String.toList_ofList]
      rfl

/-- **Every text has a first word**, or is blank. -/
theorem exists_firstWord (s : List Char) : ∃ word rest, FirstWord s word rest := by
  obtain ⟨blanks, t, rfl, hb, ht⟩ := Text.exists_run Text.isBlank s
  obtain ⟨word, rest, rfl, hw, hr⟩ := Text.exists_run (!Text.isBlank ·) t
  simp only [Bool.not_not] at hr
  by_cases hne : word = []
  · -- a character behind the blanks would be blank and not blank
    subst hne
    cases rest with
    | nil => exact ⟨[], [], .none (by simpa using hb)⟩
    | cons c rest =>
      have hc : Text.isBlank c = true := hr
      have hnot : (!Text.isBlank c) = true := ht
      rw [hc] at hnot
      cases hnot
  · exact ⟨word, rest, .some hb hne hw hr⟩

/-- **Every word names a return type**, if only the empty one. -/
theorem exists_returnType (word : List Char) : ∃ type, ReturnType word type := by
  by_cases h : ∃ type, word = 'f' :: '-' :: type
  · obtain ⟨type, rfl⟩ := h
    exact ⟨type, .named type⟩
  · exact ⟨[], .unnamed fun type htype => h ⟨type, htype⟩⟩

/-- What the grammar says of a function head is what the reader takes from it. -/
theorem Head.ofText_eq {text : String} {signature : Signature} (h : Head text.toList signature) :
    Signature.ofText text = signature := by
  obtain ⟨hf, ht, hn⟩ := h
  obtain ⟨hfirst, hbehind⟩ := hf.words_eq
  rw [String.ofList_toList] at hfirst hbehind
  have hname := hn.words_eq.1
  rw [← hbehind, List.head?_tail] at hname
  unfold Signature.ofText
  dsimp only
  rw [hname]
  cases hparts : (Text.words text).head? with
  | none =>
    rw [hparts, Option.getD_none] at hfirst
    cases ht with
    | named type => exact absurd hfirst (by simp)
    | unnamed => rfl
  | some w =>
    rw [hparts, Option.getD_some] at hfirst
    subst hfirst
    dsimp only
    rw [String.toList_ofList]
    cases ht with
    | named type => rfl
    | unnamed h =>
      split
      · exact absurd rfl (h _)
      · rfl

/-- **The reader takes a function head apart** as the grammar says. -/
theorem head_iff {text : String} {signature : Signature} :
    Head text.toList signature ↔ Signature.ofText text = signature := by
  refine ⟨Head.ofText_eq, ?_⟩
  rintro rfl
  obtain ⟨first, behind, hf⟩ := exists_firstWord text.toList
  obtain ⟨type, ht⟩ := exists_returnType first
  obtain ⟨name, rest, hn⟩ := exists_firstWord behind
  have h := Head.mk hf ht hn
  exact h.ofText_eq ▸ h

end Grammar

/-! ## Runs of the two readers -/

/-- The reader of an expression behind several tokens. -/
def ExprReader.feedAll (r : ExprReader) (ts : List Token) : Option ExprReader := ts.foldlM feed r

/-- The reader of a program behind several tokens. -/
def Reader.feedAll (r : Reader) (ts : List Token) : Option Reader := ts.foldlM feed r

namespace ExprReader

@[simp] theorem feedAll_nil (r : ExprReader) : r.feedAll [] = some r := rfl

@[simp] theorem feedAll_cons (r : ExprReader) (t : Token) (ts : List Token) :
    r.feedAll (t :: ts) = (r.feed t).bind (·.feedAll ts) := by
  simp only [feedAll, List.foldlM_cons]
  rfl

@[simp] theorem feedAll_append (r : ExprReader) (ts us : List Token) :
    r.feedAll (ts ++ us) = (r.feedAll ts).bind (·.feedAll us) := by
  simp only [feedAll, List.foldlM_append]
  rfl

end ExprReader

namespace Reader

@[simp] theorem feedAll_nil (r : Reader) : r.feedAll [] = some r := rfl

@[simp] theorem feedAll_cons (r : Reader) (t : Token) (ts : List Token) :
    r.feedAll (t :: ts) = (r.feed t).bind (·.feedAll ts) := by
  simp only [feedAll, List.foldlM_cons]
  rfl

@[simp] theorem feedAll_append (r : Reader) (ts us : List Token) :
    r.feedAll (ts ++ us) = (r.feedAll ts).bind (·.feedAll us) := by
  simp only [feedAll, List.foldlM_append]
  rfl

theorem feedAll_singleton (r : Reader) (t : Token) : r.feedAll [t] = r.feed t := by
  simp

/-- Reading with reasons for refusal gives a reader exactly when reading without them does. -/
theorem foldlM_advance_eq_ok_iff {r r' : Reader} {ts : List Token} :
    ts.foldlM advance r = .ok r' ↔ r.feedAll ts = some r' := by
  induction ts generalizing r with
  | nil => simp [pure, Except.pure]
  | cons t ts ih =>
    rw [List.foldlM_cons, feedAll_cons, advance]
    cases r.feed t with
    | none => simp [bind, Except.bind]
    | some r₁ => simpa [bind, Except.bind] using ih

end Reader

/-! ## Expressions: what the grammar derives, the reader takes -/

mutual

/-- **A derived expression is taken**, from the start of an expression inside any groups. -/
theorem ExprReader.feedAll_of_expression {ts : List Token} {e : Expr} :
    Expression ts e → ∀ groups, feedAll ⟨.operand none, groups⟩ ts = some ⟨.operator e, groups⟩
  | .term h => fun groups => ExprReader.feedAll_of_term h none groups
  | @Expression.binary _ _ left _ op hl hop hr => fun groups => by
    have hright := ExprReader.feedAll_of_term hr (some (left, op.text)) groups
    rw [feedAll_append, ExprReader.feedAll_of_expression hl groups, Option.bind_some, feedAll_cons]
    simpa [feed, hop, Pending.complete] using hright

/-- **A derived term is taken** wherever an operand may stand; what waited for it is completed. -/
theorem ExprReader.feedAll_of_term {ts : List Token} {e : Expr} :
    Term ts e → ∀ (pending : Pending) (groups : List Pending),
      feedAll ⟨.operand pending, groups⟩ ts = some ⟨.operator (pending.complete e), groups⟩
  | .number h => fun pending groups => by simp [feed, atom?, h]
  | .string h => fun pending groups => by simp [feed, atom?, h]
  | .boolean h => fun pending groups => by simp [feed, atom?, h]
  | .name h => fun pending groups => by simp [feed, atom?, h]
  | .group (l := l) hl h hr => fun pending groups => by
    have hinner := ExprReader.feedAll_of_expression h (pending :: groups)
    have hopen : feed ⟨.operand pending, groups⟩ l = some ⟨.operand none, pending :: groups⟩ := by
      simp [feed, atom?, hl]
    rw [feedAll_cons, hopen, Option.bind_some, feedAll_append, hinner]
    simp [feed, hr]

end

/-! ## Statements: what the grammar derives, the reader takes -/

namespace Reader

@[simp] theorem point_goTo (r : Reader) (p : Point) : (r.goTo p).point = p := rfl

@[simp] theorem blocks_goTo (r : Reader) (p : Point) : (r.goTo p).blocks = r.blocks := rfl

@[simp] theorem statements_goTo (r : Reader) (p : Point) :
    (r.goTo p).statements = r.statements := rfl

@[simp] theorem goTo_goTo (r : Reader) (p q : Point) : (r.goTo p).goTo q = r.goTo q := rfl

@[simp] theorem push_goTo (r : Reader) (p : Point) (s : Stmt) : (r.goTo p).push s = r.push s := rfl

/-- The reader with the arms read so far made a statement. -/
def settle (r : Reader) : Reader :=
  match r.point with
  | .branches arms => r.push (.conditional arms)
  | _ => r

/-- The reader stands where a statement may start. -/
def Ready (r : Reader) : Prop := r.settle.point = .statement

@[simp] theorem settle_goTo_branches (r : Reader) (arms : List Branch) :
    (r.goTo (.branches arms)).settle = r.push (.conditional arms) := rfl

@[simp] theorem settle_push (r : Reader) (s : Stmt) : (r.push s).settle = r.push s := rfl

@[simp] theorem blocks_settle (r : Reader) : r.settle.blocks = r.blocks := by
  unfold settle
  split <;> rfl

/-- **Only a further arm depends on whether the reader has settled.** -/
theorem feed_eq_start {r : Reader} (hr : r.Ready) {t : Token} (hm : t.kind ≠ .maybe)
    (ho : t.kind ≠ .orelse) : r.feed t = r.settle.start t := by
  obtain ⟨blocks, statements, point⟩ := r
  cases point with
  | statement => rfl
  | branches arms => simp only [feed, settle]
  | _ => cases hr

/-- A token that continues an expression moves only the reader of that expression. -/
theorem feedAll_value (more : ExprReader → Reader) {close : TokenKind}
    (next : Token → Expr → Reader)
    (h : ∀ e t, (more e).feed t = value e t more close (next t)) {e e' : ExprReader}
    {ts : List Token} (he : e.feedAll ts = some e') : (more e).feedAll ts = some (more e') := by
  induction ts generalizing e with
  | nil =>
    obtain rfl : e = e' := by simpa using he
    rfl
  | cons t ts ih =>
    rw [ExprReader.feedAll_cons] at he
    obtain ⟨e₁, h₁, h₂⟩ := Option.bind_eq_some_iff.1 he
    rw [feedAll_cons, h, value, h₁]
    exact ih h₂

/-- **An expression and the token that closes it**, read from the start of the expression. -/
theorem feedAll_expression (more : ExprReader → Reader) {close : TokenKind}
    (next : Token → Expr → Reader)
    (h : ∀ e t, (more e).feed t = value e t more close (next t)) (hclose : close ≠ .operator)
    {ts : List Token} {x : Expr} (hx : Expression ts x) {t : Token} (ht : t.kind = close) :
    (more {}).feedAll (ts ++ [t]) = some (next t x) := by
  have hread := feedAll_value more next h (ExprReader.feedAll_of_expression hx [])
  have hstop : ExprReader.feed ⟨.operator x, []⟩ t = none := by
    simp [ExprReader.feed, ht, hclose]
  rw [feedAll_append, hread, Option.bind_some, feedAll_cons, h, value, hstop]
  simp [ExprReader.result?, take, ht]

/-- **A declaration** behind its data type. -/
theorem feedAll_declares {ts : List Token} {d : Declaration} (h : Declares ts d) :
    ∃ type rest, ts = type :: rest ∧ type.kind = .dataType ∧ ∀ (r : Reader) use,
      (r.goTo (.declarationName use type)).feedAll rest = some (r.declared use d) := by
  obtain ⟨htype, hname, hassign, hx, hstop⟩ := h
  refine ⟨_, _, rfl, htype, fun r use => ?_⟩
  simp only [feedAll_cons, feed, goTo, take, hname, hassign, if_true, Option.bind_some]
  exact feedAll_expression (fun e => r.goTo (.declarationValue use _ _ e))
    (fun _ x => r.declared use ⟨_, _, x, _⟩) (fun _ _ => rfl) (by decide) hx hstop

/-- **A condition** leads to the block behind it. -/
theorem feedAll_condition {ts : List Token} {x : Expr} (h : Condition ts x) (r : Reader)
    (use : ConditionUse) (line : Nat) :
    (r.goTo (.conditionOpen use line)).feedAll ts
      = some (r.goTo (.blockOpen (use.block x line))) := by
  obtain ⟨hl, hx, hr⟩ := h
  simp only [feedAll_cons, feed, goTo, take, hl, if_true, Option.bind_some]
  exact feedAll_expression (fun e => r.goTo (.condition use line e))
    (fun _ x => r.goTo (.blockOpen (use.block x line))) (fun _ _ => rfl) (by decide) hx hr

/-- **Parameters** lead to the end of their list. -/
theorem feedAll_parameters {ts : List Token} {params : List Param} (h : Parameters ts params)
    (r : Reader) (signature : Signature) :
    (r.goTo (.paramsStart signature)).feedAll ts = some (r.goTo (.paramEnd signature params)) := by
  induction h with
  | one htype hname => simp [feed, goTo, htype, take, hname]
  | more h hseparator htype hname ih =>
    rw [feedAll_append, ih]
    rcases hseparator with hs | hs <;> simp [feed, goTo, hs, htype, take, hname]

theorem feedAll_parameterList {ts : List Token} {params : List Param} (h : ParameterList ts params)
    {close : Token} (hclose : close.kind = .rightParen) (r : Reader) (signature : Signature) :
    (r.goTo (.paramsStart signature)).feedAll (ts ++ [close])
      = some (r.goTo (.blockOpen (.function signature params))) := by
  cases h with
  | none => simp [feed, goTo, hclose]
  | some h =>
    rw [feedAll_append, feedAll_parameters h]
    simp [feed, goTo, hclose]

/-- **The condition and the step of an `iterate`**: the variable of the step closes the
condition. -/
theorem feedAll_steps {ts us : List Token} {x : Expr} {step : Step} (hx : Expression ts x)
    (hs : Steps us step) (r : Reader) (line : Nat) (init : Declaration) :
    (r.goTo (.iterateCondition line init {})).feedAll (ts ++ us)
      = some (r.goTo (.iterateClose line init x step)) := by
  obtain ⟨hname, hop, htext, hstop⟩ := hs
  have hread := feedAll_expression (fun e => r.goTo (.iterateCondition line init e))
    (fun t x => r.goTo (.stepOperator line init x t)) (fun _ _ => rfl) (by decide) hx hname
  rw [List.append_cons, feedAll_append, hread]
  simp [feed, goTo, htext, hop, hstop, take]

/-- **A block opens** with no statement in it. -/
theorem feed_blockOpen {t : Token} (ht : t.kind = .leftCurly) (r : Reader) (use : BlockUse) :
    (r.goTo (.blockOpen use)).feed t = some { blocks := ⟨use, r.statements⟩ :: r.blocks } := by
  simp [feed, take, ht]

end Reader

mutual

/-- **A derived statement is taken**: the reader settles with the statement pushed. -/
theorem Reader.feedAll_of_statement {flag : Bool} {ts : List Token} {s : Stmt} :
    Statement flag ts s → ∀ r : Reader, r.Ready → inLoop r.blocks = flag →
      ∃ r', r.feedAll ts = some r' ∧ r'.settle = r.settle.push s
  | .declaration h, r, hr, _ => by
    obtain ⟨type, rest, rfl, htype, hrest⟩ := feedAll_declares h
    refine ⟨_, ?_, settle_push _ _⟩
    rw [feedAll_cons, feed_eq_start hr (by simp [htype]) (by simp [htype]), start, htype]
    exact hrest r.settle .statement
  | .assignment hname hassign hx hstop, r, hr, _ => by
    refine ⟨_, ?_, settle_push _ _⟩
    rw [feedAll_cons, feed_eq_start hr (by simp [hname]) (by simp [hname]), start, hname]
    simp only [Option.bind_some, feedAll_cons, feed, point_goTo, goTo_goTo, take, hassign, if_true]
    exact feedAll_expression (fun e => r.settle.goTo (.assignmentValue _ e))
      (fun _ x => r.settle.push (.assign _ x _)) (fun _ _ => rfl) (by decide) hx hstop
  | .conditional h, r, hr, hflag =>
    ⟨_, Reader.feedAll_of_branches h r hr hflag, settle_goTo_branches _ _⟩
  | .conditionalElse h hk hb, r, hr, hflag => by
    refine ⟨_, ?_, settle_push _ _⟩
    rw [feedAll_append, Reader.feedAll_of_branches h r hr hflag, Option.bind_some, feedAll_cons]
    simp only [feed, point_goTo, goTo_goTo, hk, Option.bind_some]
    rw [Reader.feedAll_of_block hb r.settle _ (by simpa [inLoop] using hflag)]
    rfl
  | .iterate hk hl hi hc hs hr hb, r, hready, _ => by
    obtain ⟨type, rest, rfl, htype, hrest⟩ := feedAll_declares hi
    refine ⟨_, ?_, settle_push _ _⟩
    rw [feedAll_cons, feed_eq_start hready (by simp [hk]) (by simp [hk]), start, hk]
    simp only [Option.bind_some, feedAll_cons, feed, point_goTo, goTo_goTo, take, hl, htype,
      if_true, List.cons_append]
    rw [feedAll_append, hrest, Option.bind_some, declared, ← List.append_assoc, feedAll_append,
      feedAll_steps hc hs, Option.bind_some]
    simp only [feedAll_cons, feed, point_goTo, goTo_goTo, take, hr, if_true, Option.bind_some]
    rw [Reader.feedAll_of_block hb r.settle _ rfl]
    rfl
  | .whilst hk hc hb, r, hr, _ => by
    refine ⟨_, ?_, settle_push _ _⟩
    rw [feedAll_cons, feed_eq_start hr (by simp [hk]) (by simp [hk]), start, hk, Option.bind_some,
      feedAll_append, feedAll_condition hc, Option.bind_some]
    rw [Reader.feedAll_of_block hb r.settle _ rfl]
    rfl
  | .function hk hs hl hp hr hb, r, hready, _ => by
    obtain rfl := head_iff.1 hs
    refine ⟨_, ?_, settle_push _ _⟩
    rw [feedAll_cons, feed_eq_start hready (by simp [hk]) (by simp [hk]), start, hk]
    simp only [Option.bind_some, feedAll_cons, feed, point_goTo, goTo_goTo, take, hl, if_true]
    rw [List.append_cons, feedAll_append, feedAll_parameterList hp hr, Option.bind_some]
    rw [Reader.feedAll_of_block hb r.settle _ rfl]
    rfl
  | .leave hk hstop, r, hr, hflag => by
    refine ⟨_, ?_, settle_push _ _⟩
    rw [feedAll_cons, feed_eq_start hr (by simp [hk]) (by simp [hk]), start, hk]
    simp [hflag, feed, take, hk, hstop]
  | .resume hk hstop, r, hr, hflag => by
    refine ⟨_, ?_, settle_push _ _⟩
    rw [feedAll_cons, feed_eq_start hr (by simp [hk]) (by simp [hk]), start, hk]
    simp [hflag, feed, take, hk, hstop]

/-- **Derived arms are taken**: the reader waits behind them for another. -/
theorem Reader.feedAll_of_branches {flag : Bool} {ts : List Token} {branches : List Branch} :
    Branches flag ts branches → ∀ r : Reader, r.Ready → inLoop r.blocks = flag →
      r.feedAll ts = some (r.settle.goTo (.branches branches))
  | .iff hk hc hb, r, hr, hflag => by
    rw [feedAll_cons, feed_eq_start hr (by simp [hk]) (by simp [hk]), start, hk, Option.bind_some,
      feedAll_append, feedAll_condition hc, Option.bind_some]
    rw [Reader.feedAll_of_block hb r.settle _ (by simpa [inLoop, ConditionUse.block] using hflag)]
    rfl
  | .maybe h hk hc hb, r, hr, hflag => by
    rw [feedAll_append, Reader.feedAll_of_branches h r hr hflag, Option.bind_some, feedAll_cons]
    simp only [feed, point_goTo, goTo_goTo, hk, Option.bind_some]
    rw [feedAll_append, feedAll_condition hc, Option.bind_some]
    rw [Reader.feedAll_of_block hb r.settle _ (by simpa [inLoop, ConditionUse.block] using hflag)]
    rfl

/-- **A derived block is taken**: it ends with the block closed. -/
theorem Reader.feedAll_of_block {flag : Bool} {ts : List Token} {body : List Stmt} :
    Block flag ts body → ∀ (r : Reader) use, inLoop (⟨use, r.statements⟩ :: r.blocks) = flag →
      (r.goTo (.blockOpen use)).feedAll ts
        = close { blocks := ⟨use, r.statements⟩ :: r.blocks, statements := body }
  | .mk (r := stop) hl h hr, r, use, hflag => by
    obtain ⟨r', hbody, hsettle⟩ := Reader.feedAll_of_statements h
      { blocks := ⟨use, r.statements⟩ :: r.blocks } rfl hflag
    have hready : r'.Ready := by rw [Ready, hsettle]; rfl
    rw [feedAll_cons, feed_blockOpen hl, Option.bind_some, feedAll_append, hbody, Option.bind_some,
      feedAll_singleton, feed_eq_start hready (by simp [hr]) (by simp [hr]), start, hr, hsettle]
    rfl

/-- **Derived statements are taken**, one behind the other. -/
theorem Reader.feedAll_of_statements {flag : Bool} {ts : List Token} {body : List Stmt} :
    Statements flag ts body → ∀ r : Reader, r.Ready → inLoop r.blocks = flag →
      ∃ r', r.feedAll ts = some r' ∧
        r'.settle = { r.settle with statements := r.settle.statements ++ body }
  | .nil, r, hr, hflag => ⟨r, rfl, by rw [List.append_nil]⟩
  | .cons h hrest, r, hr, hflag => by
    obtain ⟨r₁, h₁, hsettle₁⟩ := Reader.feedAll_of_statement h r hr hflag
    have hready : r₁.Ready := by rw [Ready, hsettle₁]; rfl
    have hblocks : r₁.blocks = r.blocks := by
      rw [← blocks_settle, hsettle₁, ← blocks_settle r]; rfl
    obtain ⟨r₂, h₂, hsettle₂⟩ :=
      Reader.feedAll_of_statements hrest r₁ hready (hblocks ▸ hflag)
    refine ⟨r₂, by rw [feedAll_append, h₁, Option.bind_some, h₂], ?_⟩
    rw [hsettle₂, hsettle₁]
    simp [push, show r.settle.point = .statement from hr]

end

end Enigma
