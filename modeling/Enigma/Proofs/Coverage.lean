import Enigma.Proofs.Reading

/-!
# Proofs/Coverage — the grammar explains every token the reader has taken

Each state of the reader is the memory of the tokens before it.  `ExprReader.Covers` and
`Reader.Covers` spell out that memory: the open groups, the open blocks and the point within the
innermost statement each stand for a stretch of tokens, and a stretch that is finished is derived by
the grammar.  A token that is taken keeps the memory true (`ExprReader.Covers.feed`,
`Reader.Covers.feed`), so a reader that may end here has read a program (`derives_of_finish`).

Together with `Reader.feedAll_of_statements` this gives the main statement,
`Program.ofTokens_eq_ok_iff`: a token list is read as a program exactly if it derives it.
-/

namespace Enigma

open Grammar

/-! ## Expressions -/

/-- The tokens of what waits for an operand. -/
inductive Pending.Covers : Pending → List Token → Prop
  | none : Covers none []
  | some {ts : List Token} {left : Expr} {op : Token} (h : Expression ts left)
      (hop : op.kind = .operator) : Covers (some (left, op.text)) (ts ++ [op])

/-- The tokens up to the innermost open parenthesis. -/
inductive GroupsCover : List Pending → List Token → Prop
  | nil : GroupsCover [] []
  | cons {ts us : List Token} {pending : Pending} {groups : List Pending} {l : Token}
      (hg : GroupsCover groups ts) (hp : pending.Covers us) (hl : l.kind = .leftParen) :
      GroupsCover (pending :: groups) (ts ++ (us ++ [l]))

/-- The tokens behind which the reader of an expression stands. -/
inductive ExprReader.Covers : ExprReader → List Token → Prop
  | operand {ts us : List Token} {pending : Pending} {groups : List Pending}
      (hg : GroupsCover groups ts) (hp : pending.Covers us) :
      Covers ⟨.operand pending, groups⟩ (ts ++ us)
  | operator {ts us : List Token} {e : Expr} {groups : List Pending}
      (hg : GroupsCover groups ts) (he : Expression us e) :
      Covers ⟨.operator e, groups⟩ (ts ++ us)

/-- **An operand completes what waited for it.** -/
theorem Pending.Covers.complete {pending : Pending} {ts us : List Token} {e : Expr}
    (h : pending.Covers ts) (he : Term us e) : Expression (ts ++ us) (pending.complete e) := by
  cases h with
  | none => exact .term he
  | some hl hop =>
    rw [List.append_assoc]
    exact .binary hl hop he

namespace ExprReader

theorem covers_start : Covers {} [] := @Covers.operand [] [] none [] .nil .none

/-- A token that is an expression by itself is a term. -/
theorem term_of_atom? {t : Token} {e : Expr} (h : atom? t = some e) : Term [t] e := by
  unfold atom? at h
  split at h <;> simp only [Option.some.injEq, reduceCtorEq] at h <;> subst h
  · exact .number ‹_›
  · exact .string ‹_›
  · exact .boolean ‹_›
  · exact .name ‹_›

/-- **Every token taken is explained**, in an expression. -/
theorem Covers.feed {r r' : ExprReader} {ts : List Token} {t : Token} (h : r.Covers ts)
    (hf : r.feed t = some r') : r'.Covers (ts ++ [t]) := by
  cases h with
  | operand hg hp =>
    simp only [ExprReader.feed] at hf
    split at hf
    · rename_i e hatom
      obtain rfl := Option.some.inj hf
      rw [List.append_assoc]
      exact .operator hg (hp.complete (term_of_atom? hatom))
    · split at hf
      · rename_i hl
        obtain rfl := Option.some.inj hf
        rw [List.append_assoc, ← List.append_nil (_ ++ _)]
        exact .operand (.cons hg hp hl) .none
      · cases hf
  | operator hg he =>
    simp only [ExprReader.feed] at hf
    split at hf
    · rename_i hop
      obtain rfl := Option.some.inj hf
      rw [List.append_assoc]
      exact .operand hg (.some he hop)
    · cases hg with
      | nil => cases hf
      | cons hg hp hl =>
        simp only [Option.ite_none_right_eq_some, Option.some.injEq] at hf
        obtain ⟨hr, rfl⟩ := hf
        have hterm := Term.group hl he hr
        have hall := Covers.operator hg (hp.complete hterm)
        simpa only [List.append_assoc, List.cons_append, List.nil_append] using hall

/-- **A finished reader has read an expression.** -/
theorem Covers.expression {r : ExprReader} {ts : List Token} {e : Expr} (h : r.Covers ts)
    (he : r.result? = some e) : Expression ts e := by
  cases h with
  | operand hg hp => cases he
  | operator hg hx =>
    cases hg with
    | nil =>
      obtain rfl := Option.some.inj he
      exact hx
    | cons => cases he

end ExprReader

/-! ## Points within a statement

The flag is the grammar's: whether the statement stands in a loop. -/

/-- The tokens in front of a condition, and the line they start on. -/
inductive ConditionUse.Covers (flag : Bool) : ConditionUse → Nat → List Token → Prop
  | iff {k : Token} (hk : k.kind = .iff) : Covers flag (.branch [] .iff) k.line [k]
  | maybe {k : Token} {ts : List Token} {arms : List Branch} (h : Branches flag ts arms)
      (hk : k.kind = .maybe) : Covers flag (.branch arms .maybe) k.line (ts ++ [k])
  | whilst {k : Token} (hk : k.kind = .whilst) : Covers flag .whilst k.line [k]

/-- The tokens in front of a block. -/
inductive BlockUse.Covers (flag : Bool) : BlockUse → List Token → Prop
  | condition {use : ConditionUse} {line : Nat} {ts us : List Token} {e : Expr}
      (hu : use.Covers flag line ts) (hc : Condition us e) :
      Covers flag (use.block e line) (ts ++ us)
  | orelse {k : Token} {ts : List Token} {arms : List Branch} (h : Branches flag ts arms)
      (hk : k.kind = .orelse) : Covers flag (.branch arms .orelse none k.line) (ts ++ [k])
  | iterate {k l r : Token} {ts us vs : List Token} {init : Declaration} {e : Expr} {step : Step}
      (hk : k.kind = .iterate) (hl : l.kind = .leftParen) (hi : Declares ts init)
      (hc : Expression us e) (hs : Steps vs step) (hr : r.kind = .rightParen) :
      Covers flag (.iterate init e step k.line) (k :: l :: (ts ++ (us ++ (vs ++ [r]))))
  | function {k l r : Token} {ts : List Token} {params : List Param}
      (hk : k.kind = .functionHead) (hl : l.kind = .leftParen) (hp : ParameterList ts params)
      (hr : r.kind = .rightParen) :
      Covers flag (.function (Signature.ofText k.text) params) (k :: l :: (ts ++ [r]))

/-- The tokens in front of a declaration. -/
inductive DeclarationUse.Covers : DeclarationUse → List Token → Prop
  | statement : Covers .statement []
  | iterate {k l : Token} (hk : k.kind = .iterate) (hl : l.kind = .leftParen) :
      Covers (.iterate k.line) [k, l]

/-- The tokens between the parenthesis and a parameter, and the parameters among them. -/
inductive ParamsCover : List Param → List Token → Prop
  | first : ParamsCover [] []
  | next {ts : List Token} {params : List Param} {separator : Token} (h : Parameters ts params)
      (hs : separator.kind = .comma ∨ separator.kind = .terminator) :
      ParamsCover params (ts ++ [separator])

/-- The tokens of the innermost statement, up to a point within it. -/
inductive Point.Covers (flag : Bool) : Point → List Token → Prop
  | statement : Covers flag .statement []
  | branches {ts : List Token} {arms : List Branch} (h : Branches flag ts arms) :
      Covers flag (.branches arms) ts
  | declarationStart {k l : Token} (hk : k.kind = .iterate) (hl : l.kind = .leftParen) :
      Covers flag (.declarationStart k.line) [k, l]
  | declarationName {use : DeclarationUse} {ts : List Token} {type : Token} (hu : use.Covers ts)
      (ht : type.kind = .dataType) : Covers flag (.declarationName use type) (ts ++ [type])
  | declarationAssign {use : DeclarationUse} {ts : List Token} {type name : Token}
      (hu : use.Covers ts) (ht : type.kind = .dataType) (hn : name.kind = .name) :
      Covers flag (.declarationAssign use type name) (ts ++ [type, name])
  | declarationValue {use : DeclarationUse} {ts us : List Token} {type name assign : Token}
      {e : ExprReader} (hu : use.Covers ts) (ht : type.kind = .dataType) (hn : name.kind = .name)
      (ha : assign.kind = .assign) (he : e.Covers us) :
      Covers flag (.declarationValue use type name e) (ts ++ type :: name :: assign :: us)
  | assignmentAssign {name : Token} (hn : name.kind = .name) :
      Covers flag (.assignmentAssign name) [name]
  | assignmentValue {us : List Token} {name assign : Token} {e : ExprReader}
      (hn : name.kind = .name) (ha : assign.kind = .assign) (he : e.Covers us) :
      Covers flag (.assignmentValue name e) (name :: assign :: us)
  | controlEnd {k : Token} (hk : k.kind = .br ∨ k.kind = .cont) (hflag : flag = true) :
      Covers flag (.controlEnd k) [k]
  | conditionOpen {use : ConditionUse} {line : Nat} {ts : List Token}
      (hu : use.Covers flag line ts) : Covers flag (.conditionOpen use line) ts
  | condition {use : ConditionUse} {line : Nat} {ts us : List Token} {l : Token} {e : ExprReader}
      (hu : use.Covers flag line ts) (hl : l.kind = .leftParen) (he : e.Covers us) :
      Covers flag (.condition use line e) (ts ++ l :: us)
  | iterateOpen {k : Token} (hk : k.kind = .iterate) : Covers flag (.iterateOpen k.line) [k]
  | iterateCondition {k l : Token} {ts us : List Token} {init : Declaration} {e : ExprReader}
      (hk : k.kind = .iterate) (hl : l.kind = .leftParen) (hi : Declares ts init)
      (he : e.Covers us) : Covers flag (.iterateCondition k.line init e) (k :: l :: (ts ++ us))
  | stepOperator {k l name : Token} {ts us : List Token} {init : Declaration} {e : Expr}
      (hk : k.kind = .iterate) (hl : l.kind = .leftParen) (hi : Declares ts init)
      (hc : Expression us e) (hn : name.kind = .name) :
      Covers flag (.stepOperator k.line init e name) (k :: l :: (ts ++ (us ++ [name])))
  | stepEnd {k l name op : Token} {ts us : List Token} {init : Declaration} {e : Expr}
      (hk : k.kind = .iterate) (hl : l.kind = .leftParen) (hi : Declares ts init)
      (hc : Expression us e) (hn : name.kind = .name) (hop : op.kind = .operator)
      (ht : op.text = "++" ∨ op.text = "--") :
      Covers flag (.stepEnd k.line init e ⟨name.text, op.text, name.line⟩)
        (k :: l :: (ts ++ (us ++ [name, op])))
  | iterateClose {k l : Token} {ts us vs : List Token} {init : Declaration} {e : Expr} {step : Step}
      (hk : k.kind = .iterate) (hl : l.kind = .leftParen) (hi : Declares ts init)
      (hc : Expression us e) (hs : Steps vs step) :
      Covers flag (.iterateClose k.line init e step) (k :: l :: (ts ++ (us ++ vs)))
  | paramsOpen {k : Token} (hk : k.kind = .functionHead) :
      Covers flag (.paramsOpen (Signature.ofText k.text)) [k]
  | paramsStart {k l : Token} (hk : k.kind = .functionHead) (hl : l.kind = .leftParen) :
      Covers flag (.paramsStart (Signature.ofText k.text)) [k, l]
  | paramName {k l type : Token} {ts : List Token} {params : List Param}
      (hk : k.kind = .functionHead) (hl : l.kind = .leftParen) (hp : ParamsCover params ts)
      (ht : type.kind = .dataType) :
      Covers flag (.paramName (Signature.ofText k.text) params type) (k :: l :: (ts ++ [type]))
  | paramEnd {k l : Token} {ts : List Token} {params : List Param} (hk : k.kind = .functionHead)
      (hl : l.kind = .leftParen) (hp : Parameters ts params) :
      Covers flag (.paramEnd (Signature.ofText k.text) params) (k :: l :: ts)
  | paramNext {k l separator : Token} {ts : List Token} {params : List Param}
      (hk : k.kind = .functionHead) (hl : l.kind = .leftParen) (hp : Parameters ts params)
      (hs : separator.kind = .comma ∨ separator.kind = .terminator) :
      Covers flag (.paramNext (Signature.ofText k.text) params separator)
        (k :: l :: (ts ++ [separator]))
  | blockOpen {use : BlockUse} {ts : List Token} (hu : use.Covers flag ts) :
      Covers flag (.blockOpen use) ts

/-- The tokens up to the innermost open block. -/
inductive BlocksCover : List OpenBlock → List Token → Prop
  | nil : BlocksCover [] []
  | cons {use : BlockUse} {earlier : List Stmt} {blocks : List OpenBlock} {ts us vs : List Token}
      {l : Token} (hb : BlocksCover blocks ts) (hs : Statements (inLoop blocks) us earlier)
      (hu : use.Covers (inLoop blocks) vs) (hl : l.kind = .leftCurly) :
      BlocksCover (⟨use, earlier⟩ :: blocks) (ts ++ (us ++ (vs ++ [l])))

/-- The tokens behind which the reader stands. -/
inductive Reader.Covers : Reader → List Token → Prop
  | mk {r : Reader} {ts us vs : List Token} (hb : BlocksCover r.blocks ts)
      (hs : Statements (inLoop r.blocks) us r.statements)
      (hp : r.point.Covers (inLoop r.blocks) vs) : Covers r (ts ++ (us ++ vs))

/-! ## Every token taken is explained -/

namespace Reader

theorem take_eq_some {kind : TokenKind} {t : Token} {next r' : Reader}
    (h : take kind t next = some r') : t.kind = kind ∧ r' = next := by
  simpa [take, eq_comm] using h

/-- A token behind an expression either continues it or closes it. -/
theorem value_eq_some {e : ExprReader} {t : Token} {more : ExprReader → Reader} {close : TokenKind}
    {next : Expr → Reader} {r' : Reader} (h : value e t more close next = some r') :
    (∃ e', e.feed t = some e' ∧ r' = more e') ∨
      ∃ x, e.result? = some x ∧ t.kind = close ∧ r' = next x := by
  unfold value at h
  split at h
  · rename_i e' he
    exact .inl ⟨e', he, (Option.some.inj h).symm⟩
  · obtain ⟨x, hx, ht⟩ := Option.bind_eq_some_iff.1 h
    exact .inr ⟨x, hx, take_eq_some ht⟩

/-- The reader has moved on within its block: to another point of the same statement, or behind a
statement that is finished. -/
inductive Extends (r : Reader) (ts : List Token) : Reader → Prop
  | goTo {p : Point} (h : p.Covers (inLoop r.blocks) ts) : Extends r ts (r.goTo p)
  | push {s : Stmt} (h : Statement (inLoop r.blocks) ts s) : Extends r ts (r.push s)

theorem Extends.covers {r r' : Reader} {ts us vs : List Token} (h : r.Extends vs r')
    (hb : BlocksCover r.blocks ts) (hs : Statements (inLoop r.blocks) us r.statements) :
    r'.Covers (ts ++ (us ++ vs)) := by
  cases h with
  | goTo hp => exact .mk (r := r.goTo _) hb hs hp
  | push hp =>
    have hall := Covers.mk (r := r.push _) hb (hs.concat hp) .statement
    rwa [List.append_nil] at hall

/-- **Within a statement, every token taken is explained.** -/
theorem extends_of_feed {r r' : Reader} {ts : List Token} {t : Token}
    (hp : r.point.Covers (inLoop r.blocks) ts) (hstart : r.point ≠ .statement)
    (hbranches : ∀ arms, r.point ≠ .branches arms) (hopen : ∀ use, r.point ≠ .blockOpen use)
    (h : r.feed t = some r') : r.Extends (ts ++ [t]) r' := by
  obtain ⟨blocks, statements, point⟩ := r
  cases hp with
  | statement => exact absurd rfl hstart
  | branches => exact absurd rfl (hbranches _)
  | blockOpen => exact absurd rfl (hopen _)
  | declarationStart hk hl =>
    obtain ⟨ht, rfl⟩ := take_eq_some h
    exact .goTo (.declarationName (.iterate hk hl) ht)
  | declarationName hu htype =>
    obtain ⟨ht, rfl⟩ := take_eq_some h
    rw [List.append_assoc]
    exact .goTo (.declarationAssign hu htype ht)
  | declarationAssign hu htype hn =>
    obtain ⟨ht, rfl⟩ := take_eq_some h
    rw [List.append_assoc]
    exact .goTo (.declarationValue hu htype hn ht ExprReader.covers_start)
  | declarationValue hu htype hn ha he =>
    rcases value_eq_some h with ⟨e', he', rfl⟩ | ⟨x, hx, ht, rfl⟩
    · rw [List.append_assoc]
      exact .goTo (.declarationValue hu htype hn ha (he.feed he'))
    · have hd := Declares.mk htype hn ha (he.expression hx) ht
      cases hu with
      | statement => exact .push (.declaration hd)
      | iterate hk hl =>
        have hall := @Point.Covers.iterateCondition (inLoop blocks) _ _ _ _ _ _ hk hl hd
          ExprReader.covers_start
        rw [List.append_nil] at hall
        exact .goTo hall
  | assignmentAssign hn =>
    obtain ⟨ht, rfl⟩ := take_eq_some h
    exact .goTo (.assignmentValue hn ht ExprReader.covers_start)
  | assignmentValue hn ha he =>
    rcases value_eq_some h with ⟨e', he', rfl⟩ | ⟨x, hx, ht, rfl⟩
    · exact .goTo (.assignmentValue hn ha (he.feed he'))
    · exact .push (.assignment hn ha (he.expression hx) ht)
  | controlEnd hk hflag =>
    obtain ⟨ht, rfl⟩ := take_eq_some h
    refine .push ?_
    rw [hflag]
    rcases hk with hk | hk
    · rw [if_pos hk]
      exact .leave hk ht
    · rw [if_neg (by simp [hk])]
      exact .resume hk ht
  | conditionOpen hu =>
    obtain ⟨ht, rfl⟩ := take_eq_some h
    exact .goTo (.condition hu ht ExprReader.covers_start)
  | condition hu hl he =>
    rcases value_eq_some h with ⟨e', he', rfl⟩ | ⟨x, hx, ht, rfl⟩
    · rw [List.append_assoc]
      exact .goTo (.condition hu hl (he.feed he'))
    · rw [List.append_assoc]
      exact .goTo (.blockOpen (.condition hu (.mk hl (he.expression hx) ht)))
  | iterateOpen hk =>
    obtain ⟨ht, rfl⟩ := take_eq_some h
    exact .goTo (.declarationStart hk ht)
  | iterateCondition hk hl hi he =>
    rcases value_eq_some h with ⟨e', he', rfl⟩ | ⟨x, hx, ht, rfl⟩
    · rw [List.cons_append, List.cons_append, List.append_assoc]
      exact .goTo (.iterateCondition hk hl hi (he.feed he'))
    · rw [List.cons_append, List.cons_append, List.append_assoc]
      exact .goTo (.stepOperator hk hl hi (he.expression hx) ht)
  | stepOperator hk hl hi hc hn =>
    simp only [feed, Option.ite_none_right_eq_some] at h
    obtain ⟨htext, h⟩ := h
    obtain ⟨ht, rfl⟩ := take_eq_some h
    rw [List.cons_append, List.cons_append, List.append_assoc, List.append_assoc]
    exact .goTo (.stepEnd hk hl hi hc hn ht htext)
  | stepEnd hk hl hi hc hn hop htext =>
    obtain ⟨ht, rfl⟩ := take_eq_some h
    rw [List.cons_append, List.cons_append, List.append_assoc, List.append_assoc]
    exact .goTo (.iterateClose hk hl hi hc (.mk hn hop htext ht))
  | iterateClose hk hl hi hc hs =>
    obtain ⟨ht, rfl⟩ := take_eq_some h
    rw [List.cons_append, List.cons_append, List.append_assoc, List.append_assoc]
    exact .goTo (.blockOpen (.iterate hk hl hi hc hs ht))
  | paramsOpen hk =>
    obtain ⟨ht, rfl⟩ := take_eq_some h
    exact .goTo (.paramsStart hk ht)
  | paramsStart hk hl =>
    simp only [feed] at h
    split at h
    · obtain rfl := Option.some.inj h
      exact .goTo (.paramName hk hl (.first : ParamsCover [] []) ‹_›)
    · obtain rfl := Option.some.inj h
      exact .goTo (.blockOpen (.function hk hl (.none : ParameterList [] []) ‹_›))
    · cases h
  | paramName hk hl hlead htype =>
    obtain ⟨ht, rfl⟩ := take_eq_some h
    rw [List.cons_append, List.cons_append, List.append_assoc]
    cases hlead with
    | first => exact .goTo (.paramEnd hk hl (.one htype ht))
    | next hparams hs =>
      rw [List.append_assoc]
      exact .goTo (.paramEnd hk hl (.more hparams hs htype ht))
  | paramEnd hk hl hparams =>
    simp only [feed] at h
    split at h
    · obtain rfl := Option.some.inj h
      exact .goTo (.paramNext hk hl hparams (.inl ‹_›))
    · obtain rfl := Option.some.inj h
      exact .goTo (.paramNext hk hl hparams (.inr ‹_›))
    · obtain rfl := Option.some.inj h
      exact .goTo (.blockOpen (.function hk hl (.some hparams) ‹_›))
    · cases h
  | paramNext hk hl hparams hs =>
    obtain ⟨ht, rfl⟩ := take_eq_some h
    exact .goTo (.paramName hk hl (.next hparams hs) ht)

/-- **A closed block is explained**: what it belongs to is a statement, or an arm that another may
follow. -/
theorem covers_of_close {r r' : Reader} {ts us : List Token} {t : Token}
    (hb : BlocksCover r.blocks ts) (hs : Statements (inLoop r.blocks) us r.statements)
    (ht : t.kind = .rightCurly) (h : r.close = some r') : r'.Covers (ts ++ (us ++ [t])) := by
  obtain ⟨blocks, statements, point⟩ := r
  cases hb with
  | nil => cases h
  | @cons use earlier blocks ts vs ws l hb hearlier hu hl =>
    -- the block itself is the same in every case; only its flag depends on what it belongs to
    have hblock : Block (inLoop (⟨use, earlier⟩ :: blocks)) (l :: (us ++ [t])) statements :=
      .mk hl hs ht
    have houter {r' : Reader}
        (hx : Extends ⟨blocks, earlier, .statement⟩ (ws ++ (l :: (us ++ [t]))) r') :
        r'.Covers (ts ++ (vs ++ (ws ++ [l])) ++ (us ++ [t])) := by
      have hall := hx.covers hb hearlier
      simpa only [List.append_assoc, List.cons_append, List.nil_append] using hall
    cases hu with
    | condition hu hc =>
      cases hu with
      | iff hk =>
        obtain rfl := Option.some.inj h
        exact houter (.goTo (.branches (.iff hk hc hblock)))
      | maybe harms hk =>
        obtain rfl := Option.some.inj h
        refine houter (.goTo (.branches ?_))
        rw [List.append_assoc, List.append_assoc, List.singleton_append]
        exact .maybe harms hk hc hblock
      | whilst hk =>
        obtain rfl := Option.some.inj h
        exact houter (.push (.whilst hk hc hblock))
    | orelse harms hk =>
      obtain rfl := Option.some.inj h
      refine houter (.push ?_)
      rw [List.append_assoc]
      exact .conditionalElse harms hk hblock
    | iterate hk hl hi hc hstep hr =>
      obtain rfl := Option.some.inj h
      have hstmt := @Statement.iterate (inLoop blocks) _ _ _ _ _ _ _ _ _ _ _ hk hl hi hc hstep hr
        hblock
      refine houter (.push ?_)
      simpa only [List.append_assoc, List.cons_append, List.nil_append] using hstmt
    | function hk hl hp hr =>
      obtain rfl := Option.some.inj h
      have hstmt := @Statement.function (inLoop blocks) _ _ _ _ _ _ _ _ hk (head_iff.2 rfl) hl hp hr
        hblock
      refine houter (.push ?_)
      simpa only [List.append_assoc, List.cons_append, List.nil_append] using hstmt

/-- **The first token of a statement is explained.** -/
theorem covers_of_start {r r' : Reader} {ts us : List Token} {t : Token}
    (hb : BlocksCover r.blocks ts) (hs : Statements (inLoop r.blocks) us r.statements)
    (h : r.start t = some r') : r'.Covers (ts ++ (us ++ [t])) := by
  have hmove {p : Point} (hp : p.Covers (inLoop r.blocks) [t]) :
      (r.goTo p).Covers (ts ++ (us ++ [t])) := (Extends.goTo hp).covers hb hs
  unfold start at h
  split at h
  · obtain rfl := Option.some.inj h
    exact hmove (.declarationName .statement ‹_›)
  · obtain rfl := Option.some.inj h
    exact hmove (.assignmentAssign ‹_›)
  · obtain rfl := Option.some.inj h
    exact hmove (.conditionOpen (.iff ‹_›))
  · obtain rfl := Option.some.inj h
    exact hmove (.iterateOpen ‹_›)
  · obtain rfl := Option.some.inj h
    exact hmove (.conditionOpen (.whilst ‹_›))
  · obtain rfl := Option.some.inj h
    exact hmove (.paramsOpen ‹_›)
  · simp only [Option.ite_none_right_eq_some, Option.some.injEq] at h
    obtain ⟨hflag, rfl⟩ := h
    exact hmove (.controlEnd (.inl ‹_›) hflag)
  · simp only [Option.ite_none_right_eq_some, Option.some.injEq] at h
    obtain ⟨hflag, rfl⟩ := h
    exact hmove (.controlEnd (.inr ‹_›) hflag)
  · exact covers_of_close hb hs ‹_› h
  · cases h

/-- **Every token taken is explained.** -/
theorem Covers.feed {r r' : Reader} {ts : List Token} {t : Token} (h : r.Covers ts)
    (hf : r.feed t = some r') : r'.Covers (ts ++ [t]) := by
  cases h with
  | @mk ts us vs hb hs hp =>
    obtain ⟨blocks, statements, point⟩ := r
    rw [List.append_assoc, List.append_assoc]
    cases point with
    | statement =>
      cases hp
      exact covers_of_start hb hs hf
    | branches arms =>
      cases hp with
      | branches harms =>
        simp only [Reader.feed] at hf
        split at hf
        · obtain rfl := Option.some.inj hf
          exact (Extends.goTo (r := ⟨blocks, statements, _⟩)
            (.conditionOpen (.maybe harms ‹_›))).covers hb hs
        · obtain rfl := Option.some.inj hf
          exact (Extends.goTo (r := ⟨blocks, statements, _⟩)
            (.blockOpen (.orelse harms ‹_›))).covers hb hs
        · -- no arm follows, so the conditional is a statement and `t` starts the next one
          have hpushed := hs.concat (Statement.conditional harms)
          rw [← List.append_assoc us]
          exact covers_of_start (r := push ⟨blocks, statements, .branches arms⟩ _) hb hpushed hf
    | blockOpen use =>
      cases hp with
      | blockOpen hu =>
        obtain ⟨ht, rfl⟩ := take_eq_some hf
        have hall := Covers.mk (r := ⟨⟨use, statements⟩ :: blocks, [], .statement⟩)
          (.cons hb hs hu ht) .nil .statement
        simpa only [List.append_nil, List.append_assoc] using hall
    | _ => exact (extends_of_feed hp (by simp) (by simp) (by simp) hf).covers hb hs

theorem covers_start : Covers {} [] :=
  @Covers.mk {} [] [] [] .nil .nil .statement

theorem Covers.feedAll {r r' : Reader} {ts us : List Token} (h : r.Covers ts)
    (hf : r.feedAll us = some r') : r'.Covers (ts ++ us) := by
  induction us generalizing r ts with
  | nil =>
    obtain rfl := Option.some.inj hf
    rwa [List.append_nil]
  | cons t us ih =>
    rw [feedAll_cons] at hf
    obtain ⟨r₁, h₁, h₂⟩ := Option.bind_eq_some_iff.1 hf
    have hall := ih (h.feed h₁) h₂
    rwa [List.append_assoc] at hall

/-- **A reader that may end here has read a program.** -/
theorem derives_of_finish {r : Reader} {ts : List Token} {p : Program} (h : r.Covers ts)
    (hf : r.finish = .ok p) : Derives ts p := by
  obtain ⟨hb, hs, hp⟩ := h
  obtain ⟨blocks, statements, point⟩ := r
  unfold finish at hf
  split at hf
  · obtain rfl := Except.ok.inj hf
    simp_all only
    cases hb
    cases hp
    rw [List.append_nil]
    exact hs
  · obtain rfl := Except.ok.inj hf
    simp_all only
    cases hb
    cases hp with
    | branches harms => exact hs.concat (.conditional harms)
  · cases hf

/-- A settled reader with no block open ends with its statements. -/
theorem finish_of_settle {r : Reader} {p : Program} (h : r.settle = ⟨[], p, .statement⟩) :
    r.finish = .ok p := by
  obtain ⟨blocks, statements, point⟩ := r
  cases point <;> simp_all [settle, push, finish]

end Reader

/-! ## The reader accepts exactly the grammar -/

/-- **A token list is read as a program exactly if it derives it.** -/
theorem Program.ofTokens_eq_ok_iff {tokens : List Token} {p : Program} :
    ofTokens tokens = .ok p ↔ Derives tokens p := by
  have hrun : ofTokens tokens = .ok p ↔
      ∃ r : Reader, Reader.feedAll {} tokens = some r ∧ r.finish = .ok p := by
    unfold ofTokens
    cases hf : tokens.foldlM Reader.advance {} with
    | error m =>
      have hnone : ∀ r, Reader.feedAll {} tokens ≠ some r := fun r hr => by
        rw [Reader.foldlM_advance_eq_ok_iff.2 hr] at hf
        cases hf
      simp [bind, Except.bind, hnone]
    | ok r =>
      have hr := Reader.foldlM_advance_eq_ok_iff.1 hf
      simp [bind, Except.bind, hr]
  rw [hrun]
  constructor
  · rintro ⟨r, hr, hf⟩
    exact Reader.derives_of_finish (Reader.covers_start.feedAll hr) hf
  · intro h
    obtain ⟨r, hr, hsettle⟩ := Reader.feedAll_of_statements h {} rfl rfl
    exact ⟨r, hr, Reader.finish_of_settle hsettle⟩

/-- The kinds that no place of a program takes. -/
def TokenKind.isForeign (k : TokenKind) : Bool :=
  k == .error || k == .comment || k == .blank || k == .eof

namespace Reader

/-- **A foreign token is taken nowhere.** -/
theorem feed_of_isForeign {t : Token} (ht : t.kind.isForeign = true) (r : Reader) :
    r.feed t = none := by
  have hexpr : ∀ e : ExprReader, e.feed t = none := by
    rintro ⟨point, groups⟩
    cases point <;> cases groups <;> cases hk : t.kind <;>
      simp_all [ExprReader.feed, ExprReader.atom?, TokenKind.isForeign]
  have hstart : ∀ r : Reader, r.start t = none := by
    intro r
    cases hk : t.kind <;> simp_all [start, TokenKind.isForeign]
  have htake : ∀ kind next, kind.isForeign = false → take kind t next = none := by
    intro kind next hkind
    have hne : t.kind ≠ kind := fun h => by simp [h, hkind] at ht
    simp [take, hne]
  have hvalue : ∀ e more kind next, kind.isForeign = false → value e t more kind next = none := by
    intro e more kind next hkind
    simp [value, hexpr, htake _ _ hkind]
  have hkinds : t.kind = .error ∨ t.kind = .comment ∨ t.kind = .blank ∨ t.kind = .eof := by
    simpa [TokenKind.isForeign, or_assoc] using ht
  obtain ⟨blocks, statements, point⟩ := r
  cases point with
  | statement => exact hstart _
  | branches => rcases hkinds with hk | hk | hk | hk <;> simp [feed, hk, hstart]
  | paramsStart => rcases hkinds with hk | hk | hk | hk <;> simp [feed, hk]
  | paramEnd => rcases hkinds with hk | hk | hk | hk <;> simp [feed, hk]
  | stepOperator => simp [feed, htake .operator _ rfl]
  | declarationValue | assignmentValue | condition | iterateCondition => exact hvalue _ _ _ _ rfl
  | _ => exact htake _ _ rfl

/-- **A list that is read to its end holds no foreign token.** -/
theorem not_isForeign_of_feedAll {r r' : Reader} {ts : List Token} (h : r.feedAll ts = some r')
    {t : Token} (ht : t ∈ ts) : t.kind.isForeign = false := by
  obtain ⟨us, vs, rfl⟩ := List.append_of_mem ht
  rw [feedAll_append] at h
  obtain ⟨r₁, -, h₁⟩ := Option.bind_eq_some_iff.1 h
  cases hk : t.kind.isForeign with
  | false => rfl
  | true =>
    rw [feedAll_cons, feed_of_isForeign hk] at h₁
    cases h₁

end Reader

theorem mapError_eq_ok_iff {ε δ α : Type} {x : Except ε α} {f : ε → δ} {a : α} :
    x.mapError f = .ok a ↔ x = .ok a := by
  cases x with
  | error e => constructor <;> intro h <;> cases h
  | ok a' => constructor <;> intro h <;> exact congrArg Except.ok (Except.ok.inj h)

namespace Program

theorem parse_eq_ok_iff {tokens : List Token} {source : String} {p : Program} :
    parse tokens source = .ok p ↔ Derives tokens p := by
  rw [← ofTokens_eq_ok_iff, parse]
  exact mapError_eq_ok_iff

/-- **Parsing accepts exactly the grammar and builds the derivation's tree.**  A list of tokens has
at most one derivation, and none if a stretch of text that is no token, a comment or a blank stands
in it. -/
theorem parse_iff_derives (tokens : List Token) (source : String) :
    (∀ p, parse tokens source = .ok p ↔ Derives tokens p) ∧
      (∀ p q, Derives tokens p → Derives tokens q → p = q) ∧
      ∀ t ∈ tokens, t.kind = .error ∨ t.kind = .comment ∨ t.kind = .blank →
        ∀ p, parse tokens source ≠ .ok p := by
  refine ⟨fun p => parse_eq_ok_iff, fun p q hp hq => ?_, fun t ht hk p hp => ?_⟩
  · have hsame := (ofTokens_eq_ok_iff.2 hp).symm.trans (ofTokens_eq_ok_iff.2 hq)
    exact Except.ok.inj hsame
  · obtain ⟨r, hr, -⟩ := Reader.feedAll_of_statements (parse_eq_ok_iff.1 hp) {} rfl rfl
    have hforeign := Reader.not_isForeign_of_feedAll hr ht
    rcases hk with hk | hk | hk <;> simp [hk, TokenKind.isForeign] at hforeign

/-- A function with a tab in its head and a parameter, and one whose head names neither a return
type nor the function: the grammar derives both, so both are parsed. -/
theorem parse_iff_derives_function :
    let token (kind : TokenKind) (text : String) (line : Nat) : Token := ⟨kind, text, line, 1, none⟩
    parse [token .functionHead "f-efl\t area" 1, token .leftParen "(" 1, token .dataType "enum" 2,
        token .name "v-a" 3, token .rightParen ")" 3, token .leftCurly "\x7b" 3,
        token .rightCurly "\x7d" 4, token .functionHead " area" 5, token .leftParen "(" 5,
        token .rightParen ")" 5, token .leftCurly "\x7b" 5, token .rightCurly "\x7d" 5] ""
      = .ok [.function ⟨"efl", "area"⟩ [⟨"enum", "v-a", 2⟩] [], .function ⟨"", ""⟩ [] []] := by
  intro token
  have hfirst : FirstWord "f-efl\t area".toList "f-efl".toList "\t area".toList :=
    @FirstWord.some [] "f-efl".toList "\t area".toList rfl (by decide) (by decide) (by decide)
  have hsecond : FirstWord "\t area".toList "area".toList [] :=
    @FirstWord.some ['\t', ' '] "area".toList [] (by decide) (by decide) (by decide) rfl
  have honly : FirstWord " area".toList "area".toList [] :=
    @FirstWord.some [' '] "area".toList [] (by decide) (by decide) (by decide) rfl
  have hnamed : Statement false _ (.function ⟨"efl", "area"⟩ [⟨"enum", "v-a", 2⟩] []) :=
    @Statement.function false [token .dataType "enum" 2, token .name "v-a" 3]
      [token .leftCurly "\x7b" 3, token .rightCurly "\x7d" 4] (token .functionHead "f-efl\t area" 1)
      (token .leftParen "(" 1) (token .rightParen ")" 3) _ _ _ rfl
      (.mk hfirst (.named ['e', 'f', 'l']) hsecond) rfl (.some (.one rfl rfl)) rfl
      (@Block.mk false [] _ _ _ rfl .nil rfl)
  have hunnamed : Statement false _ (.function ⟨"", ""⟩ [] []) :=
    @Statement.function false [] [token .leftCurly "\x7b" 5, token .rightCurly "\x7d" 5]
      (token .functionHead " area" 5) (token .leftParen "(" 5) (token .rightParen ")" 5) _ _ _ rfl
      (.mk honly (.unnamed (by simp)) (.none (by simp))) rfl .none rfl
      (@Block.mk false [] _ _ _ rfl .nil rfl)
  exact ((parse_iff_derives _ _).1 _).2 (.cons hnamed (.cons hunnamed .nil))

end Program

end Enigma
