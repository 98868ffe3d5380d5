import Enigma.Proofs.Viability

/-!
# Proofs/Expectation — the kinds that an error asks for are the kinds that fit

An error of the grammar lists kinds of token.  Each of them would have done: some token of that
kind, where the one that is named stands, can be continued to a program.  The exceptions are `br`
and `cont`, which are on the list wherever a statement may start but fit only inside a loop of the
same function.

* `Nesting` — which blocks are open behind tokens, told by keywords and braces alone;
  `Reader.Nests.feedAll` — the reader has the same blocks open;
* `Reader.takes_iff` — of the kinds asked for at a place, those that are taken there;
* `Program.parse_error_offers` — what follows for the kinds that an error lists.
-/

namespace Enigma

/-! ## Blocks, told by keywords and braces -/

/-- The keywords whose blocks are open, innermost first, and the last keyword that a block may
follow. -/
structure Nesting where
  heads : List TokenKind := []
  last : Option TokenKind := none

namespace Nesting

/-- The kinds that a block follows, behind a condition or the like. -/
def headKinds : List TokenKind := [.iff, .maybe, .orelse, .iterate, .whilst, .functionHead]

/-- The nesting behind one more token. -/
def step (n : Nesting) (t : Token) : Nesting :=
  if t.kind ∈ headKinds then { n with last := some t.kind }
  else if t.kind = .leftCurly then { n with heads := n.last.toList ++ n.heads }
  else if t.kind = .rightCurly then { n with heads := n.heads.tail }
  else n

/-- The nesting behind tokens. -/
def behind (tokens : List Token) : Nesting := tokens.foldl step {}

/-- Whether a loop is among the open blocks, with no function open inside it. -/
def insideLoop : List TokenKind → Bool
  | [] => false
  | head :: rest =>
    if head = .iterate ∨ head = .whilst then true
    else if head = .functionHead then false
    else insideLoop rest

/-- The kinds that neither announce a block nor open or close one. -/
def isQuiet (k : TokenKind) : Bool :=
  !(headKinds.contains k || k == .leftCurly || k == .rightCurly)

/-- **A quiet token** leaves the nesting as it is. -/
theorem step_of_isQuiet {t : Token} (h : isQuiet t.kind = true) (n : Nesting) : n.step t = n := by
  simp only [isQuiet, Bool.not_eq_true', Bool.or_eq_false_iff, List.contains_eq_mem,
    decide_eq_false_iff_not, beq_eq_false_iff_ne] at h
  obtain ⟨⟨hhead, hopen⟩, hclose⟩ := h
  rw [step, if_neg hhead, if_neg hopen, if_neg hclose]

/-- **Expressions are quiet**: no token that an expression takes announces a block or opens one. -/
theorem isQuiet_of_feed {e e' : ExprReader} {t : Token} (h : e.feed t = some e') :
    isQuiet t.kind = true := by
  obtain ⟨point, groups⟩ := e
  cases hk : t.kind with
  | functionHead | iff | maybe | orelse | iterate | whilst | leftCurly | rightCurly =>
    cases point <;> cases groups <;> simp [ExprReader.feed, ExprReader.atom?, hk] at h
  | _ => rfl

end Nesting

/-- The keyword of an arm. -/
def BranchKind.head : BranchKind → TokenKind
  | iff => .iff
  | maybe => .maybe
  | orelse => .orelse

/-- The keyword in front of a condition. -/
def ConditionUse.head : ConditionUse → TokenKind
  | branch _ kind => kind.head
  | whilst => .whilst

/-- The keyword in front of a block. -/
def BlockUse.head : BlockUse → TokenKind
  | branch _ kind _ _ => kind.head
  | iterate .. => .iterate
  | whilst .. => .whilst
  | function .. => .functionHead

/-- A block has the keyword in front of its condition. -/
theorem ConditionUse.head_block (use : ConditionUse) (condition : Expr) (line : Nat) :
    (use.block condition line).head = use.head := by
  cases use <;> rfl

/-- The keyword of the statement that is being read, if a block will follow. -/
def Point.head? : Point → Option TokenKind
  | declarationStart _ => some .iterate
  | declarationName (.iterate _) _ => some .iterate
  | declarationAssign (.iterate _) _ _ => some .iterate
  | declarationValue (.iterate _) _ _ _ => some .iterate
  | conditionOpen use _ => some use.head
  | condition use _ _ => some use.head
  | iterateOpen _ => some .iterate
  | iterateCondition .. => some .iterate
  | stepOperator .. => some .iterate
  | stepEnd .. => some .iterate
  | iterateClose .. => some .iterate
  | paramsOpen _ => some .functionHead
  | paramsStart _ => some .functionHead
  | paramName .. => some .functionHead
  | paramEnd .. => some .functionHead
  | paramNext .. => some .functionHead
  | blockOpen use => some use.head
  | _ => none

/-- The separator that waits for a parameter. -/
def Point.separator? : Point → Option Token
  | paramNext _ _ separator => some separator
  | _ => none

/-- **The keywords tell** whether a reader is in a loop. -/
theorem insideLoop_heads (blocks : List OpenBlock) :
    Nesting.insideLoop (blocks.map (·.use.head)) = inLoop blocks := by
  induction blocks with
  | nil => rfl
  | cons b rest ih =>
    obtain ⟨use, earlier⟩ := b
    cases use with
    | branch earlier kind condition line =>
      rw [inLoop, ← ih]
      cases kind <;> rfl
    | iterate => rfl
    | whilst => rfl
    | function => rfl

namespace Reader

/-- The same blocks are open, and if a block will follow, it is that of the same keyword. -/
def Stays (r r' : Reader) : Prop :=
  r'.blocks = r.blocks ∧ (r'.point.head? = none ∨ r'.point.head? = r.point.head?)

/-- What a token does to the blocks: nothing, or it starts a statement that will have a block, or it
opens a block or closes one. -/
inductive Moves (r : Reader) (t : Token) (r' : Reader) : Prop
  | within (ht : Nesting.isQuiet t.kind = true) (hstays : r.Stays r')
  | head (ht : t.kind ∈ Nesting.headKinds) (hblocks : r'.blocks = r.blocks)
      (hpoint : r'.point.head? = some t.kind)
  | opens (use : BlockUse) (ht : t.kind = .leftCurly) (huse : r.point.head? = some use.head)
      (hblocks : r'.blocks = ⟨use, r.statements⟩ :: r.blocks) (hpoint : r'.point.head? = none)
  | closes (ht : t.kind = .rightCurly) (hblocks : r'.blocks = r.blocks.tail)
      (hpoint : r'.point.head? = none)

/-- Between statements no block will follow. -/
theorem Ready.head?_point {r : Reader} (h : r.Ready) : r.point.head? = none := by
  unfold Ready settle at h
  split at h
  · rename_i hp
    rw [hp]
    rfl
  · rw [h]
    rfl

section Moves

variable {r r' : Reader} {t : Token}

/-- Closing a block takes the innermost one away. -/
theorem blocks_of_close (h : r.close = some r') :
    r'.blocks = r.blocks.tail ∧ r'.point.head? = none := by
  obtain ⟨blocks, statements, point⟩ := r
  cases blocks with
  | nil => cases h
  | cons b blocks =>
    obtain ⟨r₁, hclose, hready, hblocks⟩ := exists_close b blocks statements point
    obtain rfl := Option.some.inj (hclose.symm.trans h)
    exact ⟨hblocks, hready.head?_point⟩

/-- **The first token of a statement** announces a block, closes one or does neither. -/
theorem moves_of_start (h : r.settle.start t = some r') : r.Moves t r' := by
  have hblocks (p : Point) : (r.settle.goTo p).blocks = r.blocks := r.blocks_settle
  unfold start at h
  split at h <;> rename_i hk
  case h_1 | h_2 =>
    obtain rfl := Option.some.inj h
    exact .within (by rw [hk]; rfl) ⟨hblocks _, .inl rfl⟩
  case h_3 | h_4 | h_5 | h_6 =>
    obtain rfl := Option.some.inj h
    exact .head (by simp [Nesting.headKinds, hk]) (hblocks _) (by rw [hk]; rfl)
  case h_7 | h_8 =>
    simp only [Option.ite_none_right_eq_some, Option.some.injEq] at h
    obtain ⟨-, rfl⟩ := h
    exact .within (by rw [hk]; rfl) ⟨hblocks _, .inl rfl⟩
  case h_9 =>
    obtain ⟨hclosed, hpoint⟩ := blocks_of_close h
    exact .closes hk (by rw [hclosed, blocks_settle]) hpoint
  case h_10 => cases h

/-- A quiet token that is asked for moves a reader within its blocks. -/
theorem moves_of_take {kind : TokenKind} {next : Reader} (h : take kind t next = some r')
    (hkind : Nesting.isQuiet kind = true) (hnext : r.Stays next) : r.Moves t r' := by
  obtain ⟨ht, rfl⟩ := take_eq_some h
  exact .within (by rw [ht, hkind]) hnext

/-- A token of an expression, or the one that ends it, moves a reader within its blocks. -/
theorem moves_of_value {e : ExprReader} {more : ExprReader → Reader} {close : TokenKind}
    {next : Expr → Reader} (h : value e t more close next = some r')
    (hclose : Nesting.isQuiet close = true) (hmore : ∀ e, r.Stays (more e))
    (hnext : ∀ x, r.Stays (next x)) : r.Moves t r' := by
  obtain ⟨e', he, rfl⟩ | ⟨x, -, ht, rfl⟩ := value_eq_some h
  · exact .within (Nesting.isQuiet_of_feed he) (hmore e')
  · exact .within (by rw [ht, hclose]) (hnext x)

/-- **What a token that is taken does to the blocks.** -/
theorem moves_of_feed (h : r.feed t = some r') : r.Moves t r' := by
  obtain ⟨blocks, statements, point⟩ := r
  cases point with
  | statement => exact moves_of_start h
  | branches arms =>
    simp only [feed] at h
    split at h <;> rename_i hk
    · obtain rfl := Option.some.inj h
      exact .head (by simp [Nesting.headKinds, hk]) rfl (by rw [hk]; rfl)
    · obtain rfl := Option.some.inj h
      exact .head (by simp [Nesting.headKinds, hk]) rfl (by rw [hk]; rfl)
    · exact moves_of_start h
  | declarationStart | assignmentAssign | controlEnd | conditionOpen | iterateOpen | stepEnd
  | iterateClose | paramsOpen | paramName | paramNext =>
    exact moves_of_take h rfl ⟨rfl, .inr rfl⟩
  | declarationName use | declarationAssign use =>
    cases use <;> exact moves_of_take h rfl ⟨rfl, .inr rfl⟩
  | declarationValue use =>
    cases use <;> exact moves_of_value h rfl (fun _ => ⟨rfl, .inr rfl⟩) fun _ => ⟨rfl, .inr rfl⟩
  | assignmentValue | iterateCondition =>
    exact moves_of_value h rfl (fun _ => ⟨rfl, .inr rfl⟩) fun _ => ⟨rfl, .inr rfl⟩
  | condition use line e =>
    refine moves_of_value h rfl (fun _ => ⟨rfl, .inr rfl⟩) fun x => ⟨rfl, .inr ?_⟩
    exact congrArg some (use.head_block x line)
  | stepOperator =>
    simp only [feed] at h
    split at h
    · exact moves_of_take h rfl ⟨rfl, .inr rfl⟩
    · cases h
  | paramsStart | paramEnd =>
    simp only [feed] at h
    split at h <;> cases h <;> rename_i hk <;> exact .within (by rw [hk]; rfl) ⟨rfl, .inr rfl⟩
  | blockOpen use =>
    obtain ⟨ht, rfl⟩ := take_eq_some h
    exact .opens use ht rfl rfl rfl

end Moves

/-- The reader has the blocks open that a nesting tells, and its statement is that of the last
keyword, if a block will follow. -/
structure Nests (r : Reader) (n : Nesting) : Prop where
  heads : n.heads = r.blocks.map (·.use.head)
  last : ∀ k, r.point.head? = some k → n.last = some k

theorem nests_start : Nests {} {} := ⟨rfl, fun _ h => by cases h⟩

/-- **The blocks are those that keywords and braces tell.** -/
theorem Nests.feed {r r' : Reader} {n : Nesting} {t : Token} (h : r.Nests n)
    (hf : r.feed t = some r') : r'.Nests (n.step t) := by
  cases moves_of_feed hf with
  | within ht hstays =>
    rw [Nesting.step_of_isQuiet ht]
    refine ⟨by rw [hstays.1, h.heads], fun k hk => ?_⟩
    rcases hstays.2 with hnone | hsame
    · rw [hnone] at hk
      cases hk
    · exact h.last k (hsame ▸ hk)
  | head ht hblocks hpoint =>
    rw [Nesting.step, if_pos ht]
    exact ⟨by rw [hblocks, ← h.heads], fun k hk => hpoint.symm.trans hk⟩
  | opens use ht huse hblocks hpoint =>
    have hstep : n.step t = ⟨use.head :: n.heads, n.last⟩ := by
      simp [Nesting.step, Nesting.headKinds, ht, h.last _ huse]
    rw [hstep]
    exact ⟨by rw [hblocks, List.map_cons, ← h.heads], fun k hk => by rw [hpoint] at hk; cases hk⟩
  | closes ht hblocks hpoint =>
    have hstep : n.step t = ⟨n.heads.tail, n.last⟩ := by
      simp [Nesting.step, Nesting.headKinds, ht]
    rw [hstep]
    exact ⟨by rw [hblocks, List.map_tail, ← h.heads], fun k hk => by rw [hpoint] at hk; cases hk⟩

/-- **A reader follows the nesting** over all that it takes. -/
theorem Nests.feedAll {r r' : Reader} {n : Nesting} {ts : List Token} (h : r.Nests n)
    (hf : r.feedAll ts = some r') : r'.Nests (ts.foldl Nesting.step n) := by
  induction ts generalizing r n with
  | nil =>
    obtain rfl := Option.some.inj hf
    exact h
  | cons t ts ih =>
    rw [feedAll_cons] at hf
    obtain ⟨r₁, hr₁, hf⟩ := Option.bind_eq_some_iff.1 hf
    exact ih (h.feed hr₁) hf

end Reader

/-- The tokens end inside a loop of the innermost function that is open. -/
def InsideLoop (tokens : List Token) : Prop :=
  Nesting.insideLoop (Nesting.behind tokens).heads = true

/-- Tokens lead into a loop if the reader behind them is in one. -/
theorem Reader.insideLoop_iff {tokens : List Token} {r : Reader}
    (h : feedAll {} tokens = some r) : InsideLoop tokens ↔ inLoop r.blocks = true := by
  rw [InsideLoop, Nesting.behind, (nests_start.feedAll h).heads, insideLoop_heads]

/-! ## Kinds that are taken -/

/-- In an expression an operand is expected, a parenthesis or what ends it. -/
theorem ExprReader.mem_of_mem_expectedBefore {e : ExprReader} {close k : TokenKind}
    (h : k ∈ e.expectedBefore close) : k ∈ close :: .rightParen :: operandStart := by
  unfold expectedBefore expected at h
  split at h
  · exact List.mem_cons.2 (.inl (List.mem_singleton.1 h))
  · split at h
    · exact List.mem_cons_of_mem _ (List.mem_cons_of_mem _ h)
    · exact List.mem_cons_of_mem _ (List.mem_cons.2 (.inl (List.mem_singleton.1 h)))

namespace Reader

/-- Some token of the kind is taken. -/
def Takes (r : Reader) (k : TokenKind) : Prop := ∃ t, t.kind = k ∧ ∃ r', r.feed t = some r'

/-- Whether a kind that is asked for may come: `br` and `cont` need a loop. -/
def Allows (r : Reader) (k : TokenKind) : Prop := k = .br ∨ k = .cont → inLoop r.blocks = true

/-- **A kind that is asked for in an expression or behind it is taken.** -/
theorem exists_value {e : ExprReader} {more : ExprReader → Reader} {close k : TokenKind}
    {next : Expr → Reader} (hclose : close ≠ .operator) (hk : k ∈ e.expectedBefore close) :
    ∃ r', value e (.sample k) more close next = some r' := by
  obtain ⟨point, groups⟩ := e
  cases point with
  | operand pending =>
    have hstart : k ∈ ExprReader.operandStart := hk
    simp only [ExprReader.operandStart, List.mem_cons, List.not_mem_nil, or_false] at hstart
    rcases hstart with rfl | rfl | rfl | rfl | rfl <;> exact ⟨_, rfl⟩
  | operator x =>
    cases groups with
    | nil =>
      obtain rfl : k = close := List.mem_singleton.1 hk
      have hstop : ExprReader.feed ⟨.operator x, []⟩ (.sample k) = none := by
        simp [ExprReader.feed, Token.sample, hclose]
      rw [value, hstop]
      exact ⟨_, if_pos rfl⟩
    | cons pending groups =>
      obtain rfl : k = .rightParen := List.mem_singleton.1 hk
      exact ⟨_, rfl⟩

/-- **A kind that a statement starts with is taken** where one may start, unless it is out of its
loop. -/
theorem Ready.takes_iff {r : Reader} (hr : r.Ready) {k : TokenKind} (hk : k ∈ statementStart) :
    r.Takes k ↔ r.Allows k := by
  have hfeed {t : Token} (ht : t.kind = k) : r.feed t = r.settle.start t := by
    refine feed_eq_start hr ?_ ?_ <;> rintro hkind <;> rw [← ht, hkind] at hk <;>
      exact absurd hk (by decide)
  constructor
  · rintro ⟨t, rfl, r', hr'⟩ hcontrol
    rw [hfeed rfl] at hr'
    rcases hcontrol with hc | hc <;>
      · simp only [start, hc, Option.ite_none_right_eq_some] at hr'
        rw [← r.blocks_settle]
        exact hr'.1
  · intro hallows
    refine ⟨.sample k, rfl, ?_⟩
    rw [hfeed rfl]
    simp only [statementStart, List.mem_cons, List.not_mem_nil, or_false] at hk
    rcases hk with rfl | rfl | rfl | rfl | rfl | rfl | rfl | rfl
    case inr.inr.inr.inr.inr.inr.inl | inr.inr.inr.inr.inr.inr.inr =>
      have hloop : inLoop r.settle.blocks = true := by
        rw [blocks_settle]
        exact hallows (by simp)
      exact ⟨_, if_pos hloop⟩
    all_goals exact ⟨_, rfl⟩

/-- **Of the kinds asked for at a place**, those are taken that need no loop or are inside one.
Only a separator asks for what would have come in its stead. -/
theorem takes_iff {r : Reader} {k : TokenKind} (hk : k ∈ r.point.expected)
    (hp : r.point.separator? = none) : r.Takes k ↔ r.Allows k := by
  obtain ⟨blocks, statements, point⟩ := r
  -- but for the start of a statement, neither `br` nor `cont` is asked for
  have htaken (hfeed : ∃ r', feed ⟨blocks, statements, point⟩ (.sample k) = some r')
      (hbr : k ≠ .br) (hcont : k ≠ .cont) :
      Takes ⟨blocks, statements, point⟩ k ↔ Allows ⟨blocks, statements, point⟩ k :=
    iff_of_true ⟨.sample k, rfl, hfeed⟩ fun hcontrol => absurd hcontrol (by simp [hbr, hcont])
  cases point with
  | statement | branches => exact Ready.takes_iff (by rfl) hk
  | paramNext => cases hp
  | declarationValue | assignmentValue | condition | iterateCondition =>
    refine htaken (exists_value (by decide) hk) ?_ ?_ <;> rintro rfl <;>
      exact absurd (ExprReader.mem_of_mem_expectedBefore hk) (by decide)
  | _ =>
    obtain rfl := List.mem_singleton.1 hk
    exact htaken ⟨_, rfl⟩ (by decide) (by decide)

/-! ## What is asked for when reading fails -/

/-- **What leaves a loop is refused** only where there is none to leave. -/
theorem Ready.inLoop_of_refused {r : Reader} (hr : r.Ready) {t : Token}
    (ht : t.kind = .br ∨ t.kind = .cont) (h : r.feed t = none) : inLoop r.blocks = false := by
  rcases ht with ht | ht <;>
    · rw [feed_eq_start hr (by simp [ht]) (by simp [ht])] at h
      simpa [start, ht] using h

/-- **A refusal asks for what the place asks for**, in the stead of the token refused or of the
separator in front of it; a `br` or a `cont` out of its loop is told as such. -/
theorem refusal_cases {r : Reader} {t : Token} (ht : t.kind ≠ .eof) (h : r.feed t = none) :
    (∃ signature params separator, r.point = .paramNext signature params separator ∧
      r.refusal t = .unexpected separator [.rightParen]) ∨
    (r.point.separator? = none ∧ r.refusal t = .unexpected t r.point.expected) ∨
    (r.refusal t = .misplaced t ∧ (t.kind = .br ∨ t.kind = .cont) ∧ inLoop r.blocks = false) := by
  obtain ⟨blocks, statements, point⟩ := r
  cases point with
  | statement | branches =>
    simp only [refusal]
    split
    · exact absurd ‹_› ht
    · exact .inr (.inr ⟨rfl, .inl ‹_›, Ready.inLoop_of_refused (by rfl) (.inl ‹_›) h⟩)
    · exact .inr (.inr ⟨rfl, .inr ‹_›, Ready.inLoop_of_refused (by rfl) (.inr ‹_›) h⟩)
    · exact .inr (.inl ⟨rfl, rfl⟩)
  | paramNext signature params separator => exact .inl ⟨signature, params, separator, rfl, rfl⟩
  | _ => exact .inr (.inl ⟨rfl, rfl⟩)

/-- **What is missing at the end**: the brace of an open block, or what the place asks for. -/
theorem missing_cases {r : Reader} {m : Mismatch} (h : r.finish = .error m) :
    (∃ signature params separator, r.point = .paramNext signature params separator ∧
      m = .unexpected separator [.rightParen]) ∨
    (r.Ready ∧ r.blocks ≠ [] ∧ m = .ended [.rightCurly]) ∨
    (r.point.separator? = none ∧ m = .ended r.point.expected) := by
  obtain rfl := finish_eq_error h
  obtain ⟨blocks, statements, point⟩ := r
  cases point with
  | statement | branches =>
    refine .inr (.inl ⟨rfl, ?_, rfl⟩)
    rintro rfl
    cases h
  | paramNext signature params separator => exact .inl ⟨signature, params, separator, rfl, rfl⟩
  | _ => exact .inr (.inr ⟨rfl, rfl⟩)

/-- **Where a block is open it may be closed.** -/
theorem Ready.takes_rightCurly {r : Reader} (hr : r.Ready) (hblocks : r.blocks ≠ []) :
    r.Takes .rightCurly := by
  obtain ⟨b, blocks, hb⟩ := List.exists_cons_of_ne_nil hblocks
  obtain ⟨r', hclose, -⟩ := exists_close b blocks r.settle.statements r.settle.point
  refine ⟨.sample .rightCurly, rfl, r', ?_⟩
  rw [feed_eq_start hr (by simp [Token.sample]) (by simp [Token.sample]), ← hclose, ← hb,
    ← blocks_settle r]
  rfl

end Reader

/-- In an expression something is always expected. -/
theorem ExprReader.expectedBefore_ne_nil (e : ExprReader) (close : TokenKind) :
    e.expectedBefore close ≠ [] := by
  unfold expectedBefore expected
  split
  · exact List.cons_ne_nil _ _
  · split <;> exact List.cons_ne_nil _ _

/-- At every point something is expected. -/
theorem Point.expected_ne_nil (p : Point) : p.expected ≠ [] := by
  cases p with
  | declarationValue | assignmentValue | condition | iterateCondition =>
    exact ExprReader.expectedBefore_ne_nil _ _
  | _ => exact List.cons_ne_nil _ _

namespace Program

/-- Behind the tokens, kinds are offered: there are some, and each of them fits, that is, some token
of that kind can be continued to a program; only `br` and `cont` do not where no loop is open in the
function. -/
structure Offers (source : String) (before : List Token) (expected : List TokenKind) : Prop where
  nonempty : expected ≠ []
  fits : ∀ k ∈ expected, (∃ t, t.kind = k ∧ Extendable source (before ++ [t])) ↔
    (k = .br ∨ k = .cont → InsideLoop before)

/-- The kinds are offered in the stead of the token found, which is the first misfit. -/
def OffersInstead (source : String) (tokens : List Token) (found : Token)
    (expected : List TokenKind) : Prop :=
  ∃ i, tokens[i]? = some found ∧ Extendable source (tokens.take i) ∧
    (Extendable source (tokens.take (i + 1)) ↔ StraySeparator tokens i) ∧
    Offers source (tokens.take i) expected

/-- What is expected is offered if the reader takes each kind exactly where it may stand. -/
theorem offers_of_takes (source : String) {before : List Token} {r : Reader}
    {expected : List TokenKind} (hr : Reader.feedAll {} before = some r) (hne : expected ≠ [])
    (h : ∀ k ∈ expected, r.Takes k ↔ r.Allows k) : Offers source before expected := by
  refine ⟨hne, fun k hk => ?_⟩
  rw [Reader.insideLoop_iff hr]
  refine Iff.trans (exists_congr fun t => and_congr_right fun _ => ?_) (h k hk)
  rw [extendable_iff, Reader.feedAll_append, hr, Option.bind_some, Reader.feedAll_singleton]

theorem offers_of_takes_single (source : String) {before : List Token} {r : Reader} {k : TokenKind}
    (hr : Reader.feedAll {} before = some r) (h : r.Takes k) (hk : k ≠ .br ∧ k ≠ .cont) :
    Offers source before [k] := by
  refine offers_of_takes source hr (List.cons_ne_nil _ _) fun k' hk' => ?_
  obtain rfl := List.mem_singleton.1 hk'
  exact iff_of_true h fun hcontrol => absurd hcontrol (by simp [hk])

/-- What is offered behind the tokens before a refused one is offered in its place. -/
theorem offersInstead_of_split {source : String} {before after : List Token} {t : Token}
    {expected : List TokenKind} (h : Extendable source before)
    (ht : Extendable source (before ++ [t]) ↔ StraySeparator (before ++ t :: after) before.length)
    (ho : Offers source before expected) :
    OffersInstead source (before ++ t :: after) t expected := by
  obtain ⟨hat, hbefore, hmisfit⟩ := misfit_of_split h ht
  exact ⟨before.length, hat, hbefore, hmisfit, by rwa [List.take_left]⟩

/-- **In the stead of a stray separator** the list of parameters may end. -/
theorem offersInstead_of_paramNext (source : String) {before after : List Token} {r : Reader}
    {signature : Signature} {params : List Param} {separator : Token}
    (hr : Reader.feedAll {} before = some r)
    (hp : r.point = .paramNext signature params separator)
    (hafter : ∀ t ∈ after.head?, r.feed t = none) :
    OffersInstead source (before ++ after) separator [.rightParen] := by
  obtain ⟨us, r₁, rfl, hr₁, hbehind, hstray⟩ := exists_straySeparator hr hp hafter
  rw [List.append_assoc, List.singleton_append]
  refine offersInstead_of_split (extendable_iff.2 ⟨r₁, hr₁⟩)
    (iff_of_true (extendable_iff.2 ⟨r, hr⟩) hstray)
    (offers_of_takes_single source hr₁ ?_ (by decide))
  obtain ⟨r₀, signature, params, rfl⟩ := Reader.exists_paramEnd hbehind hr₁
  exact ⟨.sample .rightParen, rfl, _, rfl⟩

/-- What an error offers, and why a `br` or a `cont` is misplaced. -/
def OfferedBy (source : String) (tokens : List Token) : Mismatch → Prop
  | .unexpected found expected => OffersInstead source tokens found expected
  | .ended expected => Offers source tokens expected
  | .misplaced found => ∃ i, tokens[i]? = some found ∧ (found.kind = .br ∨ found.kind = .cont) ∧
    ¬ InsideLoop (tokens.take i)

theorem offeredBy_of_ofTokens {tokens : List Token} {m : Mismatch} (source : String)
    (h : ofTokens tokens = .error m) (heof : ∀ t ∈ tokens, t.kind ≠ .eof) :
    OfferedBy source tokens m := by
  rw [ofTokens, bind_eq_error_iff] at h
  obtain h | ⟨r, hr, hfinish⟩ := h
  · obtain ⟨before, t, after, r, rfl, hr, hrefused, rfl⟩ := Reader.exists_refusal h
    obtain ⟨signature, params, separator, hp, hm⟩ | ⟨hp, hm⟩ | ⟨hm, hkind, hloop⟩ :=
      Reader.refusal_cases (heof t (by simp)) hrefused
    · rw [hm]
      refine offersInstead_of_paramNext source hr hp fun u hu => ?_
      obtain rfl := Option.some.inj hu
      exact hrefused
    · rw [hm]
      exact offersInstead_of_split (extendable_iff.2 ⟨r, hr⟩)
        (extendable_refused_iff source after hr hrefused)
        (offers_of_takes source hr r.point.expected_ne_nil fun k hk => Reader.takes_iff hk hp)
    · rw [hm]
      refine ⟨before.length, by simp, hkind, ?_⟩
      rw [List.take_left, Reader.insideLoop_iff hr, hloop]
      exact Bool.false_ne_true
  · have hrun := Reader.foldlM_advance_eq_ok_iff.1 hr
    obtain ⟨signature, params, separator, hp, rfl⟩ | ⟨hready, hblocks, rfl⟩ | ⟨hp, rfl⟩ :=
      Reader.missing_cases hfinish
    · rw [← List.append_nil tokens]
      exact offersInstead_of_paramNext source hrun hp fun u hu => by cases hu
    · exact offers_of_takes_single source hrun (hready.takes_rightCurly hblocks) (by decide)
    · exact offers_of_takes source hrun r.point.expected_ne_nil fun k hk => Reader.takes_iff hk hp

/-- **The kinds that an error asks for fit.**  For tokens without one for the end of input: an error
that names a token, or the end, lists some kinds, and for each of them there is a token of that kind
that can stand there and be continued to a program.  Only `br` and `cont` are listed even where no
loop of the function is open, and there they do not fit: they have an error of their own. -/
theorem parse_error_offers {tokens : List Token} {source : String} {e : SyntaxError}
    (h : parse tokens source = .error e) (heof : ∀ t ∈ tokens, t.kind ≠ .eof) :
    match e with
    | .unexpectedToken found expected _ => OffersInstead source tokens found expected
    | .unexpectedEnd expected _ _ => Offers source tokens expected
    | .misplacedLoopControl found _ => ∃ i, tokens[i]? = some found ∧
      (found.kind = .br ∨ found.kind = .cont) ∧ ¬ InsideLoop (tokens.take i) := by
  obtain ⟨m, hm, rfl⟩ := mapError_eq_error_iff.1 h
  have hoffered := offeredBy_of_ofTokens source hm heof
  match m with
  | .unexpected _ _ => exact hoffered
  | .misplaced _ => exact hoffered
  | .ended _ => exact hoffered

/-- A number where a statement should start, in a function inside a loop: `br` is on the list. -/
theorem parse_error_offers_statement :
    let source := "whilst (yup) { f-enum sum() { 7 } }"
    ∃ found expected line, parse (Token.scan source) source
        = .error (.unexpectedToken found expected line) ∧ found.text = "7" ∧ .br ∈ expected ∧
      (∀ t ∈ Token.scan source, t.kind ≠ .eof) ∧
      OffersInstead source (Token.scan source) found expected := by
  intro source
  have hcheck : (match parse (Token.scan source) source with
      | .error (.unexpectedToken found expected _) => found.text == "7" && expected.contains .br
      | _ => false) = true := by decide +kernel
  have heof : ∀ t ∈ Token.scan source, t.kind ≠ .eof := by decide +kernel
  split at hcheck
  · rename_i found expected line h
    rw [Bool.and_eq_true] at hcheck
    exact ⟨found, expected, line, h, by simpa using hcheck.1, by simpa using hcheck.2, heof,
      parse_error_offers h heof⟩
  · cases hcheck

end Program

end Enigma
