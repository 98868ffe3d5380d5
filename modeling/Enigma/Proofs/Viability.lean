import Enigma.Proofs.Quoting

/-!
# Proofs/Viability — reading fails at the first token that does not fit

A list of tokens is **extendable** if some continuation makes a program of it.  The reader takes a
token only if it can still end: whatever its state, an operand and closing parentheses finish the
expression, a few more tokens finish the statement, and closing braces finish the blocks.  So the
lists that the reader takes are exactly the extendable ones, and the token that it refuses is the
first that no program goes on with.

One token is named too early.  A separator is taken for one only when a parameter follows, so a
separator that none follows is itself what does not fit, although a parameter could have come.

* `ExprReader.exists_feedAll` — every expression that is begun can be finished;
* `Reader.completable` — every program that is begun can be finished;
* `Program.extendable_iff` — a list is extendable exactly if the reader takes it;
* `Program.parse_error_at_first_misfit` — where reading fails.
-/

namespace Enigma

open Grammar

/-- Some token of a kind.  Only the operator of a step is judged by its text, so every sample has a
text that would do there. -/
def Token.sample (kind : TokenKind) : Token := ⟨kind, "++", 0, 0, none⟩

/-! ## Expressions that are begun can be finished -/

namespace ExprReader

/-- Behind an operand, a parenthesis for each open group is enough. -/
theorem exists_feedAll_of_operator (groups : List Pending) (e : Expr) :
    ∃ ts x, feedAll ⟨.operator e, groups⟩ ts = some ⟨.operator x, []⟩ := by
  induction groups generalizing e with
  | nil => exact ⟨[], e, rfl⟩
  | cons pending groups ih =>
    obtain ⟨ts, x, hts⟩ := ih (pending.complete (.group e))
    refine ⟨.sample .rightParen :: ts, x, ?_⟩
    rw [feedAll_cons]
    exact hts

/-- **Every expression that is begun can be finished.** -/
theorem exists_feedAll (r : ExprReader) : ∃ ts x, r.feedAll ts = some ⟨.operator x, []⟩ := by
  obtain ⟨point, groups⟩ := r
  match point with
  | .operator e => exact exists_feedAll_of_operator groups e
  | .operand pending =>
    obtain ⟨ts, x, hts⟩ :=
      exists_feedAll_of_operator groups (pending.complete (.literal .number "++"))
    refine ⟨.sample .number :: ts, x, ?_⟩
    rw [feedAll_cons]
    exact hts

end ExprReader

/-! ## Programs that are begun can be finished -/

namespace Reader

/-- Some tokens lead to where the program may end. -/
def Completable (r : Reader) : Prop :=
  ∃ ts r' p, r.feedAll ts = some r' ∧ r'.finish = .ok p

namespace Completable

variable {r r' : Reader}

theorem of_feedAll (ts : List Token) (h : r.feedAll ts = some r') (h' : r'.Completable) :
    r.Completable := by
  obtain ⟨us, r'', p, hus, hp⟩ := h'
  exact ⟨ts ++ us, r'', p, by rw [feedAll_append, h, Option.bind_some, hus], hp⟩

theorem of_feed (t : Token) (h : r.feed t = some r') (h' : r'.Completable) : r.Completable :=
  of_feedAll [t] (by rw [feedAll_singleton, h]) h'

/-- **A place where an expression is read** can be left: the expression is finished, and the token
that closes it leads on. -/
theorem value (more : ExprReader → Reader) (close : TokenKind) (next : Token → Expr → Reader)
    (h : ∀ e t, (more e).feed t = Reader.value e t more close (next t)) (hclose : close ≠ .operator)
    (hnext : ∀ t x, (next t x).Completable) (e : ExprReader) : (more e).Completable := by
  obtain ⟨ts, x, hts⟩ := e.exists_feedAll
  have hstop : ExprReader.feed ⟨.operator x, []⟩ (.sample close) = none := by
    simp [ExprReader.feed, Token.sample, hclose]
  have hleave : (more ⟨.operator x, []⟩).feed (.sample close) = some (next (.sample close) x) := by
    rw [h, Reader.value, hstop]
    simp [ExprReader.result?, take, Token.sample]
  exact of_feedAll ts (feedAll_value more next h hts) (of_feed _ hleave (hnext _ x))

end Completable

/-- **Closing a block** leads to where a statement may start in the block around it. -/
theorem exists_close (b : OpenBlock) (blocks : List OpenBlock) (statements : List Stmt)
    (point : Point) : ∃ r', close ⟨b :: blocks, statements, point⟩ = some r' ∧ r'.Ready ∧
      r'.blocks = blocks := by
  obtain ⟨use, earlier⟩ := b
  match use with
  | .branch _ .iff _ _ => exact ⟨_, rfl, rfl, rfl⟩
  | .branch _ .maybe _ _ => exact ⟨_, rfl, rfl, rfl⟩
  | .branch _ .orelse _ _ => exact ⟨_, rfl, rfl, rfl⟩
  | .iterate .. => exact ⟨_, rfl, rfl, rfl⟩
  | .whilst .. => exact ⟨_, rfl, rfl, rfl⟩
  | .function .. => exact ⟨_, rfl, rfl, rfl⟩

/-- **Between statements** a brace for each open block is enough. -/
theorem Ready.completable {r : Reader} (hr : r.Ready) : r.Completable := by
  -- the induction is on the open blocks, each of which is closed in the one around it
  suffices h : ∀ (blocks : List OpenBlock) (r : Reader), r.Ready → r.blocks = blocks →
      r.Completable from h _ r hr rfl
  intro blocks
  induction blocks with
  | nil =>
    intro r hr hblocks
    refine ⟨[], r, r.settle.statements, rfl, finish_of_settle ?_⟩
    have hsettle : r.settle.blocks = [] := by rw [blocks_settle, hblocks]
    have hpoint : r.settle.point = .statement := hr
    rw [← hsettle, ← hpoint]
  | cons b blocks ih =>
    intro r hr hblocks
    obtain ⟨r', hclose, hr', hrest⟩ := exists_close b blocks r.settle.statements r.settle.point
    refine .of_feed (.sample .rightCurly) ?_ (ih r' hr' hrest)
    rw [feed_eq_start hr (by simp [Token.sample]) (by simp [Token.sample]), ← hclose, ← hblocks,
      ← blocks_settle r]
    rfl

theorem completable_push (r : Reader) (s : Stmt) : (r.push s).Completable :=
  Ready.completable (by rfl)

/-- **In front of a block** a brace opens it. -/
theorem completable_blockOpen (r : Reader) (use : BlockUse) :
    (r.goTo (.blockOpen use)).Completable :=
  .of_feed (.sample .leftCurly) (feed_blockOpen rfl r use) (Ready.completable (by rfl))

/-! Each head of a statement leads to its block, from the last place in it to the first. -/

theorem completable_condition (r : Reader) (use : ConditionUse) (line : Nat) (e : ExprReader) :
    (r.goTo (.condition use line e)).Completable :=
  .value (fun e => r.goTo (.condition use line e)) .rightParen
    (fun _ x => r.goTo (.blockOpen (use.block x line))) (fun _ _ => rfl) (by decide)
    (fun _ _ => r.completable_blockOpen _) e

theorem completable_stepOperator (r : Reader) (line : Nat) (init : Declaration) (condition : Expr)
    (name : Token) : (r.goTo (.stepOperator line init condition name)).Completable := by
  refine .of_feedAll [.sample .operator, .sample .terminator, .sample .rightParen] ?_
    (r.completable_blockOpen (.iterate init condition ⟨name.text, "++", name.line⟩ line))
  simp [feed, take, Token.sample]

theorem completable_iterateCondition (r : Reader) (line : Nat) (init : Declaration)
    (e : ExprReader) : (r.goTo (.iterateCondition line init e)).Completable :=
  .value (fun e => r.goTo (.iterateCondition line init e)) .name
    (fun t x => r.goTo (.stepOperator line init x t)) (fun _ _ => rfl) (by decide)
    (fun t x => r.completable_stepOperator line init x t) e

theorem completable_declared (r : Reader) (use : DeclarationUse) (d : Declaration) :
    (r.declared use d).Completable :=
  match use with
  | .statement => r.completable_push _
  | .iterate line => r.completable_iterateCondition line d {}

theorem completable_declarationValue (r : Reader) (use : DeclarationUse) (dataType name : Token)
    (e : ExprReader) : (r.goTo (.declarationValue use dataType name e)).Completable :=
  .value (fun e => r.goTo (.declarationValue use dataType name e)) .terminator
    (fun _ x => r.declared use ⟨dataType.text, name.text, x, dataType.line⟩) (fun _ _ => rfl)
    (by decide) (fun _ _ => r.completable_declared use _) e

theorem completable_declarationName (r : Reader) (use : DeclarationUse) (dataType : Token) :
    (r.goTo (.declarationName use dataType)).Completable :=
  .of_feedAll [.sample .name, .sample .assign] rfl
    (r.completable_declarationValue use dataType (.sample .name) {})

theorem completable_assignmentValue (r : Reader) (name : Token) (e : ExprReader) :
    (r.goTo (.assignmentValue name e)).Completable :=
  .value (fun e => r.goTo (.assignmentValue name e)) .terminator
    (fun _ x => r.push (.assign name.text x name.line)) (fun _ _ => rfl) (by decide)
    (fun _ _ => r.completable_push _) e

theorem completable_paramName (r : Reader) (signature : Signature) (params : List Param)
    (dataType : Token) : (r.goTo (.paramName signature params dataType)).Completable :=
  .of_feedAll [.sample .name, .sample .rightParen] rfl (r.completable_blockOpen _)

/-- **Every program that is begun can be finished.** -/
theorem completable (r : Reader) : r.Completable := by
  have hgoTo : r = r.goTo r.point := rfl
  rw [hgoTo]
  match r.point with
  | .statement => exact Ready.completable (by rfl)
  | .branches arms => exact Ready.completable (by rfl)
  | .declarationStart line =>
    exact .of_feed (.sample .dataType) rfl (r.completable_declarationName (.iterate line) _)
  | .declarationName use dataType => exact r.completable_declarationName use dataType
  | .declarationAssign use dataType name =>
    exact .of_feed (.sample .assign) rfl (r.completable_declarationValue use dataType name {})
  | .declarationValue use dataType name e =>
    exact r.completable_declarationValue use dataType name e
  | .assignmentAssign name =>
    exact .of_feed (.sample .assign) rfl (r.completable_assignmentValue name {})
  | .assignmentValue name e => exact r.completable_assignmentValue name e
  | .controlEnd keyword => exact .of_feed (.sample .terminator) rfl (r.completable_push _)
  | .conditionOpen use line =>
    exact .of_feed (.sample .leftParen) rfl (r.completable_condition use line {})
  | .condition use line e => exact r.completable_condition use line e
  | .iterateOpen line =>
    exact .of_feedAll [.sample .leftParen, .sample .dataType] rfl
      (r.completable_declarationName (.iterate line) _)
  | .iterateCondition line init e => exact r.completable_iterateCondition line init e
  | .stepOperator line init condition name =>
    exact r.completable_stepOperator line init condition name
  | .stepEnd line init condition step =>
    exact .of_feedAll [.sample .terminator, .sample .rightParen] rfl
      (r.completable_blockOpen _)
  | .iterateClose line init condition step =>
    exact .of_feed (.sample .rightParen) rfl (r.completable_blockOpen _)
  | .paramsOpen signature =>
    exact .of_feedAll [.sample .leftParen, .sample .rightParen] rfl
      (r.completable_blockOpen _)
  | .paramsStart signature =>
    exact .of_feed (.sample .rightParen) rfl (r.completable_blockOpen _)
  | .paramName signature params dataType => exact r.completable_paramName signature params dataType
  | .paramEnd signature params =>
    exact .of_feed (.sample .rightParen) rfl (r.completable_blockOpen _)
  | .paramNext signature params separator =>
    exact .of_feed (.sample .dataType) rfl (r.completable_paramName signature params _)
  | .blockOpen use => exact r.completable_blockOpen use

end Reader

/-! ## What the reader takes is extendable -/

namespace Program

/-- Some continuation makes a program of the tokens. -/
def Extendable (source : String) (tokens : List Token) : Prop :=
  ∃ rest p, parse (tokens ++ rest) source = .ok p

/-- **A list is extendable exactly if the reader takes it.** -/
theorem extendable_iff {source : String} {tokens : List Token} :
    Extendable source tokens ↔ ∃ r, Reader.feedAll {} tokens = some r := by
  constructor
  · rintro ⟨rest, p, hp⟩
    obtain ⟨r, hr, -⟩ := Reader.feedAll_of_statements (parse_eq_ok_iff.1 hp) {} rfl rfl
    rw [Reader.feedAll_append] at hr
    obtain ⟨r₁, h₁, -⟩ := Option.bind_eq_some_iff.1 hr
    exact ⟨r₁, h₁⟩
  · rintro ⟨r, hr⟩
    obtain ⟨rest, r', p, hrest, hp⟩ := r.completable
    have hall : Reader.feedAll {} (tokens ++ rest) = some r' := by
      rw [Reader.feedAll_append, hr, Option.bind_some, hrest]
    have hderives := Reader.derives_of_finish (Reader.covers_start.feedAll hall) hp
    exact ⟨rest, p, parse_eq_ok_iff.2 hderives⟩

end Program

/-! ## Separators without a parameter -/

/-- The tokens end with a parameter: the head of a function, a parenthesis, and then parameters. -/
def BehindParameter (tokens : List Token) : Prop :=
  ∃ before head l ts params, tokens = before ++ head :: l :: ts ∧ head.kind = .functionHead ∧
    l.kind = .leftParen ∧ Parameters ts params

/-- At the index there is a separator behind a parameter, and no parameter behind it. -/
structure StraySeparator (tokens : List Token) (i : Nat) : Prop where
  separator : ∃ t, tokens[i]? = some t ∧ (t.kind = .comma ∨ t.kind = .terminator)
  behind : BehindParameter (tokens.take i)
  stray : ∀ t, tokens[i + 1]? = some t → t.kind ≠ .dataType

namespace Reader

/-- **The head of a function** is taken only where its parameters come next. -/
theorem exists_paramsOpen {r r' : Reader} {t : Token} (ht : t.kind = .functionHead)
    (h : r.feed t = some r') : ∃ (r₀ : Reader) (signature : Signature),
      r' = r₀.goTo (.paramsOpen signature) := by
  have hexpr : ∀ e : ExprReader, e.feed t = none := by
    rintro ⟨point, groups⟩
    cases point <;> cases groups <;> simp [ExprReader.feed, ExprReader.atom?, ht]
  have hstart (r₀ : Reader) :
      r₀.start t = some (r₀.goTo (.paramsOpen (Signature.ofText t.text))) := by
    simp [start, ht]
  obtain ⟨blocks, statements, point⟩ := r
  cases point with
  | statement => exact ⟨_, _, Option.some.inj ((hstart _).symm.trans h).symm⟩
  | branches arms =>
    simp only [feed, ht, hstart] at h
    exact ⟨_, _, (Option.some.inj h).symm⟩
  | _ => simp [feed, value, take, hexpr, ht] at h

/-- **Behind a parameter** the reader is where the list of them may end. -/
theorem exists_paramEnd {tokens : List Token} {r : Reader} (h : BehindParameter tokens)
    (hr : feedAll {} tokens = some r) : ∃ (r₀ : Reader) (signature : Signature)
      (params : List Param), r = r₀.goTo (.paramEnd signature params) := by
  obtain ⟨before, head, l, ts, params, rfl, hhead, hl, hparams⟩ := h
  rw [feedAll_append] at hr
  obtain ⟨r₁, -, hr⟩ := Option.bind_eq_some_iff.1 hr
  rw [feedAll_cons] at hr
  obtain ⟨r₂, hopen, hr⟩ := Option.bind_eq_some_iff.1 hr
  obtain ⟨r₀, signature, rfl⟩ := exists_paramsOpen hhead hopen
  have hparen :
      (r₀.goTo (.paramsOpen signature)).feed l = some (r₀.goTo (.paramsStart signature)) := by
    simp [feed, take, hl]
  rw [feedAll_cons, hparen, Option.bind_some, feedAll_parameters hparams] at hr
  exact ⟨_, _, _, (Option.some.inj hr).symm⟩

/-- **Behind a parameter a separator is taken.** -/
theorem exists_feed_separator {tokens : List Token} {r : Reader} {t : Token}
    (h : BehindParameter tokens) (hr : feedAll {} tokens = some r)
    (ht : t.kind = .comma ∨ t.kind = .terminator) : ∃ r', r.feed t = some r' := by
  obtain ⟨r₀, signature, params, rfl⟩ := exists_paramEnd h hr
  rcases ht with ht | ht <;> exact ⟨_, by simp only [feed, point_goTo, ht]; rfl⟩

/-- **A separator that waits for a parameter** is the last token read, behind a parameter. -/
theorem Covers.exists_separator {r : Reader} {ts : List Token} (h : r.Covers ts)
    {signature : Signature} {params : List Param} {separator : Token}
    (hp : r.point = .paramNext signature params separator) :
    ∃ us, ts = us ++ [separator] ∧ BehindParameter us ∧
      (separator.kind = .comma ∨ separator.kind = .terminator) := by
  cases h with
  | @mk ts us vs _ _ hcovers =>
    rw [hp] at hcovers
    cases hcovers with
    | @paramNext k l _ ws _ hk hl hparams hs =>
      refine ⟨ts ++ (us ++ k :: l :: ws), by simp, ?_, hs⟩
      exact ⟨ts ++ us, k, l, ws, params, by simp, hk, hl, hparams⟩

/-- **A refusal names the token that is refused**, or the separator in front of it. -/
theorem found_refusal (r : Reader) {t : Token} (ht : t.kind ≠ .eof) :
    (r.refusal t).found = some t ∨ ∃ signature params separator,
      r.point = .paramNext signature params separator ∧ (r.refusal t).found = some separator := by
  cases hp : r.point with
  | statement | branches =>
    left
    simp only [refusal, hp]
    split
    · exact absurd ‹_› ht
    all_goals rfl
  | paramNext signature params separator =>
    exact .inr ⟨signature, params, separator, rfl, by simp only [refusal, hp]; rfl⟩
  | _ =>
    left
    simp only [refusal, hp]
    rfl

/-- **What is missing at the end names no token**, or the separator that is last. -/
theorem found_missing (r : Reader) :
    r.missing.found = none ∨ ∃ signature params separator,
      r.point = .paramNext signature params separator ∧ r.missing.found = some separator := by
  cases hp : r.point with
  | paramNext signature params separator =>
    exact .inr ⟨signature, params, separator, rfl, by simp only [missing, hp]; rfl⟩
  | _ =>
    left
    simp only [missing, hp]
    rfl

end Reader

/-! ## Where reading fails -/

namespace Program

/-- The token found is the first that no program goes on with: those before it are extendable, and
with it they no longer are, unless it is a stray separator. -/
def FirstMisfit (source : String) (tokens : List Token) (found : Token) : Prop :=
  ∃ i, tokens[i]? = some found ∧ Extendable source (tokens.take i) ∧
    (Extendable source (tokens.take (i + 1)) ↔ StraySeparator tokens i)

theorem straySeparator_iff {before after : List Token} {t : Token} :
    StraySeparator (before ++ t :: after) before.length ↔
      (t.kind = .comma ∨ t.kind = .terminator) ∧ BehindParameter before ∧
        ∀ u ∈ after.head?, u.kind ≠ .dataType := by
  have hat : (before ++ t :: after)[before.length]? = some t := by simp
  have hnext : (before ++ t :: after)[before.length + 1]? = after.head? := by
    rw [List.getElem?_append_right (Nat.le_add_right _ 1), Nat.add_sub_cancel_left,
      List.getElem?_cons_succ, List.head?_eq_getElem?]
  constructor
  · rintro ⟨⟨u, hu, hkind⟩, hbehind, hstray⟩
    obtain rfl := Option.some.inj (hat.symm.trans hu)
    rw [hnext] at hstray
    exact ⟨hkind, by simpa using hbehind, hstray⟩
  · rintro ⟨hkind, hbehind, hstray⟩
    exact ⟨⟨t, hat, hkind⟩, by simpa using hbehind, by rwa [hnext]⟩

/-- **The index of a misfit** is the number of tokens before it. -/
theorem misfit_of_split {source : String} {before after : List Token} {t : Token}
    (h : Extendable source before)
    (ht : Extendable source (before ++ [t]) ↔ StraySeparator (before ++ t :: after) before.length) :
    (before ++ t :: after)[before.length]? = some t ∧
      Extendable source ((before ++ t :: after).take before.length) ∧
      (Extendable source ((before ++ t :: after).take (before.length + 1)) ↔
        StraySeparator (before ++ t :: after) before.length) := by
  refine ⟨by simp, by simpa using h, ?_⟩
  rwa [List.take_length_add_append, List.take_succ_cons, List.take_zero]

theorem firstMisfit_of_split {source : String} {before after : List Token} {t : Token}
    (h : Extendable source before)
    (ht : Extendable source (before ++ [t]) ↔ StraySeparator (before ++ t :: after) before.length) :
    FirstMisfit source (before ++ t :: after) t :=
  ⟨before.length, misfit_of_split h ht⟩

/-- **No program goes on with a token that is refused**, and it is no stray separator, for that
would have been taken. -/
theorem extendable_refused_iff (source : String) {before : List Token} {t : Token} {r : Reader}
    (after : List Token) (hr : Reader.feedAll {} before = some r) (ht : r.feed t = none) :
    Extendable source (before ++ [t]) ↔ StraySeparator (before ++ t :: after) before.length := by
  refine iff_of_false ?_ ?_
  · rw [extendable_iff, Reader.feedAll_append, hr, Option.bind_some, Reader.feedAll_singleton, ht]
    simp
  · intro hstray
    obtain ⟨hkind, hbehind, -⟩ := straySeparator_iff.1 hstray
    obtain ⟨r', hr'⟩ := Reader.exists_feed_separator hbehind hr hkind
    rw [ht] at hr'
    cases hr'

/-- **A token that is refused is the first misfit.** -/
theorem firstMisfit_of_feed_eq_none (source : String) {before : List Token} {t : Token}
    {r : Reader} (after : List Token) (hr : Reader.feedAll {} before = some r)
    (ht : r.feed t = none) : FirstMisfit source (before ++ t :: after) t :=
  firstMisfit_of_split (extendable_iff.2 ⟨r, hr⟩) (extendable_refused_iff source after hr ht)

/-- **A separator that waits in vain is stray**: what follows it, if anything does, is no
parameter. -/
theorem exists_straySeparator {before after : List Token} {r : Reader}
    {signature : Signature} {params : List Param} {separator : Token}
    (hr : Reader.feedAll {} before = some r)
    (hp : r.point = .paramNext signature params separator)
    (hafter : ∀ t ∈ after.head?, r.feed t = none) :
    ∃ us r₁, before = us ++ [separator] ∧ Reader.feedAll {} us = some r₁ ∧ BehindParameter us ∧
      StraySeparator (us ++ separator :: after) us.length := by
  obtain ⟨us, rfl, hbehind, hkind⟩ := (Reader.covers_start.feedAll hr).exists_separator hp
  have hus := hr
  rw [Reader.feedAll_append] at hus
  obtain ⟨r₁, hr₁, -⟩ := Option.bind_eq_some_iff.1 hus
  refine ⟨us, r₁, rfl, hr₁, hbehind, straySeparator_iff.2 ⟨hkind, hbehind, fun t ht hdata => ?_⟩⟩
  have hnone := hafter t ht
  rw [Reader.feed, hp] at hnone
  simp [Reader.take, hdata] at hnone

/-- **A separator that waits in vain** is the first misfit. -/
theorem firstMisfit_of_paramNext (source : String) {before after : List Token} {r : Reader}
    {signature : Signature} {params : List Param} {separator : Token}
    (hr : Reader.feedAll {} before = some r)
    (hp : r.point = .paramNext signature params separator)
    (hafter : ∀ t ∈ after.head?, r.feed t = none) :
    FirstMisfit source (before ++ after) separator := by
  obtain ⟨us, r₁, rfl, hr₁, -, hstray⟩ := exists_straySeparator hr hp hafter
  rw [List.append_assoc, List.singleton_append]
  exact firstMisfit_of_split (extendable_iff.2 ⟨r₁, hr₁⟩)
    (iff_of_true (extendable_iff.2 ⟨r, hr⟩) hstray)

/-- **Reading fails at the first token that does not fit**, or at an end behind which the program
could still have gone on. -/
theorem firstMisfit_of_ofTokens {tokens : List Token} {m : Mismatch} (source : String)
    (h : ofTokens tokens = .error m) (heof : ∀ t ∈ tokens, t.kind ≠ .eof) :
    match m.found with
    | some t => FirstMisfit source tokens t
    | none => Extendable source tokens := by
  rw [ofTokens, bind_eq_error_iff] at h
  obtain h | ⟨r, hr, hfinish⟩ := h
  · obtain ⟨before, t, after, r, rfl, hr, hrefused, rfl⟩ := Reader.exists_refusal h
    have ht : t.kind ≠ .eof := heof t (by simp)
    obtain hfound | ⟨signature, params, separator, hp, hfound⟩ := r.found_refusal ht
    · rw [hfound]
      exact firstMisfit_of_feed_eq_none source after hr hrefused
    · rw [hfound]
      refine firstMisfit_of_paramNext source hr hp fun u hu => ?_
      obtain rfl := Option.some.inj hu
      exact hrefused
  · have hrun := Reader.foldlM_advance_eq_ok_iff.1 hr
    obtain rfl := Reader.finish_eq_error hfinish
    obtain hfound | ⟨signature, params, separator, hp, hfound⟩ := r.found_missing
    · rw [hfound]
      exact extendable_iff.2 ⟨r, hrun⟩
    · rw [hfound, ← List.append_nil tokens]
      exact firstMisfit_of_paramNext source hrun hp fun u hu => by cases hu

/-- **An error of the grammar is at the first token that does not fit.**  For tokens without one for
the end of input: the tokens before the one that is named can be continued to a program, and with it
they cannot, unless it is a separator behind a parameter that no further parameter follows.  Where
input ends too early, the whole of it can be continued. -/
theorem parse_error_at_first_misfit {tokens : List Token} {source : String} {e : SyntaxError}
    (h : parse tokens source = .error e) (heof : ∀ t ∈ tokens, t.kind ≠ .eof) :
    match e with
    | .unexpectedToken found _ _ => FirstMisfit source tokens found
    | .misplacedLoopControl found _ => FirstMisfit source tokens found
    | .unexpectedEnd _ _ _ => Extendable source tokens := by
  obtain ⟨m, hm, rfl⟩ := mapError_eq_error_iff.1 h
  have hmisfit := firstMisfit_of_ofTokens source hm heof
  match m with
  | .unexpected _ _ => exact hmisfit
  | .misplaced _ => exact hmisfit
  | .ended _ => exact hmisfit

/-- A number where a parameter should follow: the separator in front of it is named. -/
theorem parse_error_at_first_misfit_separator :
    let source := "whilst (yup) { f-enum sum(enum v-a, 7) { } }"
    ∃ found expected line, parse (Token.scan source) source
        = .error (.unexpectedToken found expected line) ∧ found.text = "," ∧
      (∀ t ∈ Token.scan source, t.kind ≠ .eof) ∧ FirstMisfit source (Token.scan source) found := by
  intro source
  have hcheck : (match parse (Token.scan source) source with
      | .error (.unexpectedToken found _ _) => found.text == ","
      | _ => false) = true := by decide +kernel
  have heof : ∀ t ∈ Token.scan source, t.kind ≠ .eof := by decide +kernel
  split at hcheck
  · rename_i found expected line h
    exact ⟨found, expected, line, h, by simpa using hcheck, heof,
      parse_error_at_first_misfit h heof⟩
  · cases hcheck

end Program

end Enigma
