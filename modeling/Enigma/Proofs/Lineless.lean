import Enigma.Proofs.Relexing
import Enigma.Proofs.Totality

/-!
# Proofs/Lineless — where a program stands does not show in what it compiles to

A program keeps the lines of its statements for error messages alone.  Erasing them commutes with
the bindings of a program and is not seen by code generation, and tokens that differ in their places
only derive programs that differ in their lines only.

* `Stmt.lineless`, `Program.lineless` — a program without its lines;
* `Token.Alike` — tokens with the same kinds and texts in the same order;
* `Grammar.Derives.transfer` — what alike tokens derive, up to lines;
* `compile_of_alike` — what alike sources compile to;
* `compile_joined` — so layout does not matter.
-/

namespace Enigma

/-! ## Programs without lines -/

/-- The declaration without its line. -/
def Declaration.lineless (d : Declaration) : Declaration := { d with line := 0 }

/-- The parameter without its line. -/
def Param.lineless (p : Param) : Param := { p with line := 0 }

/-- The step without its line. -/
def Step.lineless (s : Step) : Step := { s with line := 0 }

mutual

/-- The statement without its lines. -/
def Stmt.lineless : Stmt → Stmt
  | .declare d => .declare d.lineless
  | .assign name value _ => .assign name value 0
  | .conditional branches => .conditional (linelessBranches branches)
  | .iterate init condition step body _ =>
    .iterate init.lineless condition step.lineless (linelessBlock body) 0
  | .whilst condition body _ => .whilst condition (linelessBlock body) 0
  | .function signature params body =>
    .function signature (params.map Param.lineless) (linelessBlock body)
  | .leave _ => .leave 0
  | .resume _ => .resume 0

/-- The arm without its lines. -/
def Branch.lineless : Branch → Branch
  | .mk kind condition body _ => .mk kind condition (linelessBlock body) 0

/-- Statements in a row without their lines. -/
def linelessBlock : List Stmt → List Stmt
  | [] => []
  | s :: rest => s.lineless :: linelessBlock rest

/-- Arms in a row without their lines. -/
def linelessBranches : List Branch → List Branch
  | [] => []
  | b :: rest => b.lineless :: linelessBranches rest

end

/-- The program without its lines. -/
def Program.lineless (p : Program) : Program := linelessBlock p

/-- A branch at the end loses its line like the others. -/
theorem linelessBranches_append (bs : List Branch) (b : Branch) :
    linelessBranches (bs ++ [b]) = linelessBranches bs ++ [b.lineless] := by
  induction bs with
  | nil => simp [linelessBranches]
  | cons b' bs ih => simp [linelessBranches, ih]

/-! ## Lines and the table -/

/-- The binding without its line. -/
def Binding.lineless : Binding → Binding
  | declare dataType name value _ => declare dataType name value 0
  | assign name value _ => assign name value 0
  | read name _ => read name 0

/-- An expression without a line binds what it binds on any line, less the line. -/
theorem Expr.bindings_zero (e : Expr) (line : Nat) :
    e.bindings 0 = (e.bindings line).map Binding.lineless := by
  simp [Expr.bindings, Binding.lineless, Function.comp_def]

/-- A declaration without its line binds the same. -/
theorem Declaration.bindings_lineless (d : Declaration) :
    d.lineless.bindings = d.bindings.map Binding.lineless := by
  simp [Declaration.bindings, Declaration.lineless, Binding.lineless, d.value.bindings_zero d.line]

/-- A step without its line binds the same. -/
theorem Step.bindings_lineless (s : Step) :
    s.lineless.bindings = s.bindings.map Binding.lineless := rfl

/-- Parameters without their lines bind the same. -/
theorem Param.bindings_lineless (params : List Param) :
    (params.map Param.lineless).map Param.binding
      = (params.map Param.binding).map Binding.lineless := by
  simp [Param.binding, Param.lineless, Binding.lineless, Function.comp_def]

mutual

/-- **The bindings of a statement without its lines.** -/
theorem Stmt.bindings_lineless : ∀ s : Stmt, s.lineless.bindings = s.bindings.map Binding.lineless
  | .declare d => d.bindings_lineless
  | .assign name value line => by
    simp [Stmt.lineless, Stmt.bindings, value.bindings_zero line, Binding.lineless]
  | .conditional branches => branches_bindings_lineless branches
  | .iterate init condition step body line => by
    simp [Stmt.lineless, Stmt.bindings, init.bindings_lineless, condition.bindings_zero line,
      step.bindings_lineless, block_bindings_lineless body]
  | .whilst condition body line => by
    simp [Stmt.lineless, Stmt.bindings, condition.bindings_zero line, block_bindings_lineless body]
  | .function _ params body => by
    rw [Stmt.lineless, Stmt.bindings, Stmt.bindings, Param.bindings_lineless,
      block_bindings_lineless body, List.map_append]
  | .leave _ => rfl
  | .resume _ => rfl

/-- A branch binds the same without lines. -/
theorem Branch.bindings_lineless : ∀ b : Branch,
    b.lineless.bindings = b.bindings.map Binding.lineless
  | .mk _ (some condition) body line => by
    simp [Branch.lineless, Branch.bindings, condition.bindings_zero line,
      block_bindings_lineless body]
  | .mk _ none body _ => block_bindings_lineless body

/-- A block binds the same without lines, statement by statement. -/
theorem block_bindings_lineless : ∀ body : List Stmt,
    blockBindings (linelessBlock body) = (blockBindings body).map Binding.lineless
  | [] => rfl
  | s :: rest => by
    rw [linelessBlock, blockBindings, blockBindings, s.bindings_lineless,
      block_bindings_lineless rest, List.map_append]

/-- Branches in a row bind the same without lines. -/
theorem branches_bindings_lineless : ∀ branches : List Branch,
    branchesBindings (linelessBranches branches) = (branchesBindings branches).map Binding.lineless
  | [] => rfl
  | b :: rest => by
    rw [linelessBranches, branchesBindings, branchesBindings, b.bindings_lineless,
      branches_bindings_lineless rest, List.map_append]

end

namespace SymbolTable

/-- **A line does not decide whether a binding is taken.** -/
theorem bind_lineless_eq_ok_iff {t t' : SymbolTable} (b : Binding) :
    t.bind b.lineless = .ok t' ↔ t.bind b = .ok t' := by
  cases b with
  | declare dataType name value line =>
    rw [Binding.lineless, bind_declare_eq_ok_iff, bind_declare_eq_ok_iff]
  | assign name value line => rw [Binding.lineless, bind_assign_eq_ok_iff, bind_assign_eq_ok_iff]
  | read name line => rw [Binding.lineless, bind_read_eq_ok_iff, bind_read_eq_ok_iff]

/-- **A table takes bindings with lines or without**: lines are read only where one is refused. -/
theorem bindAll_lineless_eq_iff {t t' : SymbolTable} (bs : List Binding) :
    t.bindAll (bs.map Binding.lineless) = (t', none) ↔ t.bindAll bs = (t', none) := by
  induction bs generalizing t with
  | nil => rfl
  | cons b bs ih =>
    simp only [List.map_cons, bindAll_cons_eq_iff, bind_lineless_eq_ok_iff, ih]

end SymbolTable

/-- **Lines do not show in the table of a program.** -/
theorem Program.analyze_lineless_eq_ok_iff {p : Program} {t : SymbolTable} :
    p.lineless.analyze = .ok t ↔ p.analyze = .ok t := by
  have hbindings : p.lineless.bindings = p.bindings.map Binding.lineless :=
    block_bindings_lineless p
  rw [analyze_eq_ok_iff, analyze_eq_ok_iff, hbindings, SymbolTable.bindAll_lineless_eq_iff]

/-! ## Lines and code -/

/-- A declaration's code does not depend on its line. -/
theorem Declaration.generate_lineless (t : SymbolTable) (d : Declaration) :
    d.lineless.generate t = d.generate t := rfl

/-- A step's code does not depend on its line. -/
theorem Step.generate_lineless (t : SymbolTable) (s : Step) :
    s.lineless.generate t = s.generate t := rfl

/-- What parameters reserve does not depend on their lines. -/
theorem Param.reserve_lineless (t : SymbolTable) (params : List Param) :
    ((params.map Param.lineless).forM fun p => discard (Gen.variableCell t p.name))
      = params.forM fun p => discard (Gen.variableCell t p.name) := by
  induction params with
  | nil => rfl
  | cons p params ih => exact congrArg (discard (Gen.variableCell t p.name) >>= fun _ => ·) ih

mutual

/-- **Lines do not show in the code of a statement.** -/
theorem Stmt.generate_lineless (t : SymbolTable) :
    ∀ (loop : Option LoopLabels) (s : Stmt), s.lineless.generate t loop = s.generate t loop
  | _, .declare d => d.generate_lineless t
  | _, .assign _ _ _ => rfl
  | loop, .conditional branches => branches_generate_lineless t loop branches
  | loop, .iterate init condition step body _ => by
    simp only [Stmt.lineless, Stmt.generate, init.generate_lineless, step.generate_lineless,
      block_generate_lineless t _ body]
  | loop, .whilst condition body _ => by
    simp only [Stmt.lineless, Stmt.generate, block_generate_lineless t _ body]
  | loop, .function signature params body => by
    simp only [Stmt.lineless, Stmt.generate, Param.reserve_lineless,
      block_generate_lineless t _ body]
  | _, .leave _ => rfl
  | _, .resume _ => rfl

/-- A branch has the same code without lines. -/
theorem Branch.generate_lineless (t : SymbolTable) :
    ∀ (loop : Option LoopLabels) (b : Branch), b.lineless.generate t loop = b.generate t loop
  | loop, .mk kind condition body _ => by
    simp only [Branch.lineless, Branch.generate, block_generate_lineless t _ body]

/-- A block has the same code without lines, in a loop or out of one. -/
theorem block_generate_lineless (t : SymbolTable) :
    ∀ (loop : Option LoopLabels) (body : List Stmt),
      generateBlock t loop (linelessBlock body) = generateBlock t loop body
  | _, [] => rfl
  | loop, s :: rest => by
    simp only [linelessBlock, generateBlock, s.generate_lineless t loop,
      block_generate_lineless t loop rest]

/-- Branches in a row have the same code without lines. -/
theorem branches_generate_lineless (t : SymbolTable) :
    ∀ (loop : Option LoopLabels) (branches : List Branch),
      generateBranches t loop (linelessBranches branches) = generateBranches t loop branches
  | _, [] => rfl
  | loop, b :: rest => by
    simp only [linelessBranches, generateBranches, b.generate_lineless t loop,
      branches_generate_lineless t loop rest]

end

/-- **Lines do not show in the code of a program.** -/
theorem Program.generate_lineless (t : SymbolTable) (p : Program) :
    p.lineless.generate t = p.generate t := by
  rw [Program.generate, Program.lineless, block_generate_lineless]
  rfl

/-! ## Tokens that differ in their places -/

/-- Whether tokens have the same kinds and texts in the same order. -/
def Token.Alike (us ts : List Token) : Prop := us.map shape = ts.map shape

namespace Token

/-- Only no tokens are like none. -/
theorem alike_nil_iff {us : List Token} : Alike us [] ↔ us = [] := by
  simp [Alike]

/-- Tokens like a row are one like its first and others like its rest. -/
theorem alike_cons_iff {us ts : List Token} {t : Token} :
    Alike us (t :: ts) ↔
      ∃ u us', us = u :: us' ∧ (u.kind = t.kind ∧ u.text = t.text) ∧ Alike us' ts := by
  simp only [Alike, List.map_cons, List.map_eq_cons_iff, shape, Prod.mk.injEq]

/-- Tokens like a single one are a single one of its kind and text. -/
theorem alike_singleton_iff {us : List Token} {t : Token} :
    Alike us [t] ↔ ∃ u, us = [u] ∧ u.kind = t.kind ∧ u.text = t.text := by
  simp [alike_cons_iff, alike_nil_iff, and_comm]

/-- **Likeness is cut where the row is**: tokens like two rows are two rows like them. -/
theorem alike_append_iff {us ts ts' : List Token} :
    Alike us (ts ++ ts') ↔ ∃ us₁ us₂, us = us₁ ++ us₂ ∧ Alike us₁ ts ∧ Alike us₂ ts' := by
  simp only [Alike, List.map_append, List.map_eq_append_iff]

end Token

namespace Grammar

open Token

mutual

/-- **Expressions hold no lines**, so like tokens derive the same expression. -/
theorem Expression.transfer : ∀ {ts : List Token} {e : Expr}, Expression ts e →
    ∀ {us : List Token}, Alike us ts → Expression us e
  | _, _, .term h, _, hs => .term (h.transfer hs)
  | _, _, .binary hl hop hr, _, hs => by
    simp only [alike_append_iff, alike_cons_iff] at hs
    obtain ⟨us₁, _, rfl, hs₁, op, us₂, rfl, ⟨hkind, htext⟩, hs₂⟩ := hs
    rw [← htext]
    exact .binary (hl.transfer hs₁) (hkind.trans hop) (hr.transfer hs₂)

/-- **Terms hold no lines** either, so like tokens derive the same term. -/
theorem Term.transfer : ∀ {ts : List Token} {e : Expr}, Term ts e →
    ∀ {us : List Token}, Alike us ts → Term us e
  | _, _, .number h, _, hs => by
    obtain ⟨u, rfl, hkind, htext⟩ := alike_singleton_iff.1 hs
    exact htext ▸ .number (hkind.trans h)
  | _, _, .string h, _, hs => by
    obtain ⟨u, rfl, hkind, htext⟩ := alike_singleton_iff.1 hs
    exact htext ▸ .string (hkind.trans h)
  | _, _, .boolean h, _, hs => by
    obtain ⟨u, rfl, hkind, htext⟩ := alike_singleton_iff.1 hs
    exact htext ▸ .boolean (hkind.trans h)
  | _, _, .name h, _, hs => by
    obtain ⟨u, rfl, hkind, htext⟩ := alike_singleton_iff.1 hs
    exact htext ▸ .name (hkind.trans h)
  | _, _, .group hl h hr, _, hs => by
    simp only [alike_cons_iff, alike_append_iff, alike_nil_iff] at hs
    obtain ⟨l, _, rfl, ⟨hkl, -⟩, us, _, rfl, hs, r, _, rfl, ⟨hkr, -⟩, rfl⟩ := hs
    exact .group (hkl.trans hl) (h.transfer hs) (hkr.trans hr)

end

/-- A condition is an expression or nothing, and like tokens derive the same one. -/
theorem Condition.transfer {ts us : List Token} {e : Expr} (h : Condition ts e)
    (hs : Alike us ts) : Condition us e := by
  cases h with
  | mk hl h hr =>
    simp only [alike_cons_iff, alike_append_iff, alike_nil_iff] at hs
    obtain ⟨l, _, rfl, ⟨hkl, -⟩, us, _, rfl, hs, r, _, rfl, ⟨hkr, -⟩, rfl⟩ := hs
    exact .mk (hkl.trans hl) (h.transfer hs) (hkr.trans hr)

/-- Like tokens derive a declaration that differs in its line at most. -/
theorem Declares.transfer {ts us : List Token} {d : Declaration} (h : Declares ts d)
    (hs : Alike us ts) : ∃ d', Declares us d' ∧ d'.lineless = d.lineless := by
  cases h with
  | mk htype hname hassign h hstop =>
    simp only [alike_cons_iff, alike_append_iff, alike_nil_iff] at hs
    obtain ⟨type, _, rfl, ⟨hktype, httype⟩, name, _, rfl, ⟨hkname, htname⟩, assign, _, rfl,
      ⟨hkassign, -⟩, us, _, rfl, hs, stop, _, rfl, ⟨hkstop, -⟩, rfl⟩ := hs
    refine ⟨_, .mk (hktype.trans htype) (hkname.trans hname) (hkassign.trans hassign)
      (h.transfer hs) (hkstop.trans hstop), ?_⟩
    simp [Declaration.lineless, httype, htname]

/-- Like tokens derive a step that differs in its line at most. -/
theorem Steps.transfer {ts us : List Token} {s : Step} (h : Steps ts s) (hs : Alike us ts) :
    ∃ s', Steps us s' ∧ s'.lineless = s.lineless := by
  cases h with
  | mk hname hop htext hstop =>
    simp only [alike_cons_iff, alike_nil_iff] at hs
    obtain ⟨name, _, rfl, ⟨hkname, htname⟩, op, _, rfl, ⟨hkop, htop⟩, stop, _, rfl,
      ⟨hkstop, -⟩, rfl⟩ := hs
    refine ⟨_, .mk (hkname.trans hname) (hkop.trans hop) (htop ▸ htext) (hkstop.trans hstop), ?_⟩
    simp [Step.lineless, htname, htop]

/-- Like tokens derive parameters that differ in their lines at most, one by one between commas. -/
theorem Parameters.transfer {ts us : List Token} {params : List Param} (h : Parameters ts params)
    (hs : Alike us ts) :
    ∃ params', Parameters us params' ∧ params'.map Param.lineless = params.map Param.lineless := by
  induction h generalizing us with
  | one htype hname =>
    simp only [alike_cons_iff, alike_nil_iff] at hs
    obtain ⟨type, _, rfl, ⟨hktype, httype⟩, name, _, rfl, ⟨hkname, htname⟩, rfl⟩ := hs
    refine ⟨_, .one (hktype.trans htype) (hkname.trans hname), ?_⟩
    simp [Param.lineless, httype, htname]
  | more _ hseparator htype hname ih =>
    simp only [alike_append_iff, alike_cons_iff, alike_nil_iff] at hs
    obtain ⟨us₁, _, rfl, hs₁, separator, _, rfl, ⟨hkseparator, -⟩, type, _, rfl,
      ⟨hktype, httype⟩, name, _, rfl, ⟨hkname, htname⟩, rfl⟩ := hs
    obtain ⟨params', h', hparams⟩ := ih hs₁
    refine ⟨_, .more h' (hkseparator ▸ hseparator) (hktype.trans htype) (hkname.trans hname), ?_⟩
    simp [hparams, Param.lineless, httype, htname]

/-- A list of parameters transfers with its parentheses, and so does an empty one. -/
theorem ParameterList.transfer {ts us : List Token} {params : List Param}
    (h : ParameterList ts params) (hs : Alike us ts) :
    ∃ params', ParameterList us params' ∧
      params'.map Param.lineless = params.map Param.lineless := by
  cases h with
  | none =>
    obtain rfl := alike_nil_iff.1 hs
    exact ⟨[], .none, rfl⟩
  | some h =>
    obtain ⟨params', h', hparams⟩ := h.transfer hs
    exact ⟨params', .some h', hparams⟩

mutual

/-- **What alike tokens derive**, for a statement. -/
theorem Statement.transfer : ∀ {inLoop : Bool} {ts : List Token} {s : Stmt},
    Statement inLoop ts s → ∀ {us : List Token}, Alike us ts →
      ∃ s', Statement inLoop us s' ∧ s'.lineless = s.lineless
  | _, _, _, .declaration h, _, hs => by
    obtain ⟨d, h', hd⟩ := h.transfer hs
    exact ⟨_, .declaration h', congrArg Stmt.declare hd⟩
  | _, _, _, .assignment hname hassign h hstop, _, hs => by
    simp only [alike_cons_iff, alike_append_iff, alike_nil_iff] at hs
    obtain ⟨name, _, rfl, ⟨hkname, htname⟩, assign, _, rfl, ⟨hkassign, -⟩, us, _, rfl, hs, stop,
      _, rfl, ⟨hkstop, -⟩, rfl⟩ := hs
    refine ⟨_, .assignment (hkname.trans hname) (hkassign.trans hassign) (h.transfer hs)
      (hkstop.trans hstop), ?_⟩
    simp [Stmt.lineless, htname]
  | _, _, _, .conditional h, _, hs => by
    obtain ⟨bs, h', hbs⟩ := h.transfer hs
    exact ⟨_, .conditional h', congrArg Stmt.conditional hbs⟩
  | _, _, _, .conditionalElse h hk hb, _, hs => by
    simp only [alike_append_iff, alike_cons_iff] at hs
    obtain ⟨us₁, _, rfl, hs₁, keyword, us₂, rfl, ⟨hkind, -⟩, hs₂⟩ := hs
    obtain ⟨bs, h', hbs⟩ := h.transfer hs₁
    obtain ⟨body, hb', hbody⟩ := hb.transfer hs₂
    refine ⟨_, .conditionalElse h' (hkind.trans hk) hb', ?_⟩
    simp [Stmt.lineless, linelessBranches_append, Branch.lineless, hbs, hbody]
  | _, _, _, .iterate hk hl hi hc hstep hr hb, _, hs => by
    simp only [alike_cons_iff, alike_append_iff] at hs
    obtain ⟨keyword, _, rfl, ⟨hkind, -⟩, l, _, rfl, ⟨hkl, -⟩, us₁, _, rfl, hs₁, us₂, _, rfl, hs₂,
      us₃, _, rfl, hs₃, r, us₄, rfl, ⟨hkr, -⟩, hs₄⟩ := hs
    obtain ⟨init, hi', hinit⟩ := hi.transfer hs₁
    obtain ⟨step, hstep', hstep⟩ := hstep.transfer hs₃
    obtain ⟨body, hb', hbody⟩ := hb.transfer hs₄
    refine ⟨_, .iterate (hkind.trans hk) (hkl.trans hl) hi' (hc.transfer hs₂) hstep'
      (hkr.trans hr) hb', ?_⟩
    simp [Stmt.lineless, hinit, hstep, hbody]
  | _, _, _, .whilst hk hc hb, _, hs => by
    simp only [alike_cons_iff, alike_append_iff] at hs
    obtain ⟨keyword, _, rfl, ⟨hkind, -⟩, us₁, us₂, rfl, hs₁, hs₂⟩ := hs
    obtain ⟨body, hb', hbody⟩ := hb.transfer hs₂
    refine ⟨_, .whilst (hkind.trans hk) (hc.transfer hs₁) hb', ?_⟩
    simp [Stmt.lineless, hbody]
  | _, _, _, .function hk hhead hl hp hr hb, _, hs => by
    simp only [alike_cons_iff, alike_append_iff] at hs
    obtain ⟨head, _, rfl, ⟨hkind, htext⟩, l, _, rfl, ⟨hkl, -⟩, us₁, _, rfl, hs₁, r, us₂, rfl,
      ⟨hkr, -⟩, hs₂⟩ := hs
    obtain ⟨params, hp', hparams⟩ := hp.transfer hs₁
    obtain ⟨body, hb', hbody⟩ := hb.transfer hs₂
    refine ⟨_, .function (hkind.trans hk) (htext ▸ hhead) (hkl.trans hl) hp' (hkr.trans hr) hb', ?_⟩
    simp [Stmt.lineless, hparams, hbody]
  | _, _, _, .leave hk hstop, _, hs => by
    simp only [alike_cons_iff, alike_nil_iff] at hs
    obtain ⟨keyword, _, rfl, ⟨hkind, -⟩, stop, _, rfl, ⟨hkstop, -⟩, rfl⟩ := hs
    exact ⟨_, .leave (hkind.trans hk) (hkstop.trans hstop), rfl⟩
  | _, _, _, .resume hk hstop, _, hs => by
    simp only [alike_cons_iff, alike_nil_iff] at hs
    obtain ⟨keyword, _, rfl, ⟨hkind, -⟩, stop, _, rfl, ⟨hkstop, -⟩, rfl⟩ := hs
    exact ⟨_, .resume (hkind.trans hk) (hkstop.trans hstop), rfl⟩

/-- **Branches** transfer from the first to the last, each with its condition and its block. -/
theorem Branches.transfer : ∀ {inLoop : Bool} {ts : List Token} {bs : List Branch},
    Branches inLoop ts bs → ∀ {us : List Token}, Alike us ts →
      ∃ bs', Branches inLoop us bs' ∧ linelessBranches bs' = linelessBranches bs
  | _, _, _, .iff hk hc hb, _, hs => by
    simp only [alike_cons_iff, alike_append_iff] at hs
    obtain ⟨keyword, _, rfl, ⟨hkind, -⟩, us₁, us₂, rfl, hs₁, hs₂⟩ := hs
    obtain ⟨body, hb', hbody⟩ := hb.transfer hs₂
    refine ⟨_, .iff (hkind.trans hk) (hc.transfer hs₁) hb', ?_⟩
    simp [linelessBranches, Branch.lineless, hbody]
  | _, _, _, .maybe h hk hc hb, _, hs => by
    simp only [alike_append_iff, alike_cons_iff] at hs
    obtain ⟨us₁, _, rfl, hs₁, keyword, _, rfl, ⟨hkind, -⟩, us₂, us₃, rfl, hs₂, hs₃⟩ := hs
    obtain ⟨bs, h', hbs⟩ := h.transfer hs₁
    obtain ⟨body, hb', hbody⟩ := hb.transfer hs₃
    refine ⟨_, .maybe h' (hkind.trans hk) (hc.transfer hs₂) hb', ?_⟩
    simp [linelessBranches_append, Branch.lineless, hbs, hbody]

/-- **A block** transfers with the brackets around it. -/
theorem Block.transfer : ∀ {inLoop : Bool} {ts : List Token} {body : List Stmt},
    Block inLoop ts body → ∀ {us : List Token}, Alike us ts →
      ∃ body', Block inLoop us body' ∧ linelessBlock body' = linelessBlock body
  | _, _, _, .mk hl h hr, _, hs => by
    simp only [alike_cons_iff, alike_append_iff, alike_nil_iff] at hs
    obtain ⟨l, _, rfl, ⟨hkl, -⟩, us, _, rfl, hs, r, _, rfl, ⟨hkr, -⟩, rfl⟩ := hs
    obtain ⟨body, h', hbody⟩ := h.transfer hs
    exact ⟨body, .mk (hkl.trans hl) h' (hkr.trans hr), hbody⟩

/-- **Statements in a row** transfer one by one, up to their lines. -/
theorem Statements.transfer : ∀ {inLoop : Bool} {ts : List Token} {body : List Stmt},
    Statements inLoop ts body → ∀ {us : List Token}, Alike us ts →
      ∃ body', Statements inLoop us body' ∧ linelessBlock body' = linelessBlock body
  | _, _, _, .nil, _, hs => by
    obtain rfl := alike_nil_iff.1 hs
    exact ⟨[], .nil, rfl⟩
  | _, _, _, .cons h hrest, _, hs => by
    obtain ⟨us₁, us₂, rfl, hs₁, hs₂⟩ := alike_append_iff.1 hs
    obtain ⟨s, h', hs⟩ := h.transfer hs₁
    obtain ⟨rest, hrest', hrest⟩ := hrest.transfer hs₂
    refine ⟨s :: rest, .cons h' hrest', ?_⟩
    rw [linelessBlock, linelessBlock, hs, hrest]

end

/-- **What alike tokens derive**: the same program, but for its lines. -/
theorem Derives.transfer {ts us : List Token} {p : Program} (h : Derives ts p)
    (hs : Alike us ts) : ∃ q, Derives us q ∧ q.lineless = p.lineless := Statements.transfer h hs

end Grammar

/-! ## Layout -/

/-- **What an alike source compiles to**: it compiles where the other does, to the same table, code
and lines. -/
theorem compile_of_alike {source source' : String} {optimize : Bool} {c : Compilation}
    (hs : Token.Alike (Token.scan source') (Token.scan source))
    (hlex : Token.lexErrors (Token.scan source') = []) (h : compile source optimize = .ok c) :
    ∃ c', compile source' optimize = .ok c' ∧ c'.table = c.table ∧ c'.code = c.code ∧
      c'.optimized = c.optimized ∧ c'.folded = c.folded := by
  obtain ⟨hread, htable, hcode, hoptimized⟩ := compile_eq_ok_iff.1 h
  obtain ⟨-, hscan, hparse⟩ := readSource_eq_ok_iff.1 hread
  rw [← hscan, Program.parse_eq_ok_iff] at hparse
  obtain ⟨q, hq, hlineless⟩ := hparse.transfer hs
  have hread' : readSource source' = .ok (Token.scan source', q) :=
    readSource_eq_ok_iff.2 ⟨hlex, rfl, Program.parse_eq_ok_iff.2 hq⟩
  have htable' : q.analyze = .ok c.table := by
    rwa [← Program.analyze_lineless_eq_ok_iff, hlineless, Program.analyze_lineless_eq_ok_iff]
  have hcode' : q.generate c.table = .ok ⟨c.code, c.folded⟩ := by
    rwa [← Program.generate_lineless, hlineless, Program.generate_lineless]
  exact ⟨{ c with tokens := Token.scan source', program := q },
    compile_eq_ok_iff.2 ⟨hread', htable', hcode', hoptimized⟩, rfl, rfl, rfl, rfl⟩

/-- **Layout does not matter**: the tokens of an error-free source, joined by single spaces, are
read back without errors as they were, and the source with this layout compiles exactly if the
source itself does, to the same table, the same instructions and lines and the same last sum. -/
theorem compile_joined (source : String) (h : Token.lexErrors (Token.scan source) = []) :
    let joined := Token.joined (Token.scan source)
    Token.lexErrors (Token.scan joined) = [] ∧
      (Token.scan joined).map (fun t => (t.kind, t.text))
        = (Token.scan source).map (fun t => (t.kind, t.text)) ∧
      ∀ optimize : Bool,
        ((∃ c', compile joined optimize = .ok c') ↔ ∃ c, compile source optimize = .ok c) ∧
          ∀ c c', compile source optimize = .ok c → compile joined optimize = .ok c' →
            c'.table = c.table ∧ c'.code = c.code ∧ c'.lines = c.lines ∧
              c'.optimized = c.optimized ∧ c'.folded = c.folded := by
  intro joined
  obtain ⟨hshape, hlex⟩ := Token.scan_joined h
  refine ⟨hlex, hshape, fun optimize => ⟨⟨?_, ?_⟩, ?_⟩⟩
  · rintro ⟨c', hc'⟩
    obtain ⟨c, hc, -⟩ := compile_of_alike hshape.symm h hc'
    exact ⟨c, hc⟩
  · rintro ⟨c, hc⟩
    obtain ⟨c', hc', -⟩ := compile_of_alike hshape hlex hc
    exact ⟨c', hc'⟩
  · intro c c' hc hc'
    obtain ⟨c'', hc'', htable, hcode, hoptimized, hfolded⟩ := compile_of_alike hshape hlex hc
    obtain rfl := Except.ok.inj (hc''.symm.trans hc')
    exact ⟨htable, hcode, congrArg (List.map Instruction.text) hcode, hoptimized, hfolded⟩

/-- A function head with a tab, tokens that touch, a comment and a line break: the source compiles,
and so does it with spaces between its tokens. -/
theorem compile_joined_dense :
    let source := "f-enum\tsum(enum v-a){v-a=12.5+3,}// note\nestr v-s=\"a b\","
    Token.lexErrors (Token.scan source) = [] ∧
      Token.joined (Token.scan source)
        = "f-enum\tsum ( enum v-a ) { v-a = 12.5 + 3 , } estr v-s = \"a b\" ," ∧
      ∃ c c', compile source true = .ok c ∧
        compile (Token.joined (Token.scan source)) true = .ok c' ∧ c'.optimized = c.optimized := by
  intro source
  have h : Token.lexErrors (Token.scan source) = [] := by decide +kernel
  have hjoined := (compile_joined source h).2.2 true
  have hcompiles : ((compile source true).toOption.any fun _ => true) = true := by decide +kernel
  obtain ⟨c, hc, -⟩ := exists_of_toOption_any hcompiles
  obtain ⟨c', hc'⟩ := hjoined.1.2 ⟨c, hc⟩
  exact ⟨h, by decide +kernel, c, c', hc, hc', (hjoined.2 c c' hc hc').2.2.2.1⟩

end Enigma
