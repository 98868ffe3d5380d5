import Enigma.Proofs.Totality

/-!
# Proofs/Declarations — two other ways to the table of a checked program

The checker makes its table while it walks the bindings of a program and refuses some of them.  The
same table is found without checking, by passing over what would be refused, and it can be read off
the tokens alone: a variable is declared where a data type stands in front of it.

* `SymbolTable.sketch_of_bind` — a binding that is taken is sketched alike, so a program that checks
  has the table of its outline (`Program.outline_of_analyze`);
* `Introduced` — variables in a row, each new where it has a data type and known where it has none;
* `Mirrors` — variables as tokens have them against bindings: a declaration is written in front of
  its value and bound behind it, and that is all that differs;
* `Grammar.Derives.tells` — the tokens of a program mirror its bindings, so the table lists the
  variables that a data type stands in front of (`symbols_eq_introductions`).
-/

namespace Enigma

/-! ## The table that is made without checking -/

namespace SymbolTable

/-- **A binding that is taken is sketched alike.** -/
theorem sketch_of_bind {t t' : SymbolTable} {b : Binding} (h : t.bind b = .ok t') :
    t.sketch b = .ok t' := by
  cases b with
  | declare dataType name value line =>
    obtain ⟨-, type, htype, address, hdeclare⟩ := bind_declare_eq_ok_iff.1 h
    simp only [sketch, htype, hdeclare]
  | assign name value line =>
    obtain ⟨hknown, rfl⟩ := bind_assign_eq_ok_iff.1 h
    cases value with
    | none => rfl
    | some e => exact if_pos hknown
  | read name line =>
    obtain ⟨-, rfl⟩ := bind_read_eq_ok_iff.1 h
    rfl

/-- **Bindings in a row that are taken are sketched alike.** -/
theorem foldlM_sketch_of_bindAll {t t' : SymbolTable} {bs : List Binding}
    (h : t.bindAll bs = (t', none)) : bs.foldlM sketch t = .ok t' := by
  induction bs generalizing t with
  | nil =>
    obtain ⟨rfl, -⟩ := Prod.mk.inj h
    rfl
  | cons b bs ih =>
    obtain ⟨t₁, hb, hbs⟩ := bindAll_cons_eq_iff.1 h
    rw [List.foldlM_cons, sketch_of_bind hb]
    exact ih hbs

end SymbolTable

/-- **A program that checks has the table of its outline**: the same variables in the same order
with the same types, values, scopes and addresses, found under the same names, and the same address
next. -/
theorem Program.outline_of_analyze {p : Program} {t : SymbolTable} (h : p.analyze = .ok t) :
    p.outline = .ok t :=
  SymbolTable.foldlM_sketch_of_bindAll (analyze_eq_ok_iff.1 h)

/-- A function in a loop, where the value of a variable follows from those assigned before it. -/
theorem Program.outline_of_analyze_nested :
    let p : Program := [.declare ⟨"enum", "v-a", .literal .number "1", 1⟩,
      .whilst (.ident "v-a") [.function ⟨"none", "f"⟩ [⟨"estr", "v-s", 2⟩]
        [.assign "v-a" (.binary (.ident "v-a") "+" (.literal .number "2")) 3,
          .declare ⟨"enum", "v-b", .group (.ident "v-a"), 4⟩]] 2]
    ∃ t, p.analyze = .ok t ∧ t.names = ["v-a", "v-s", "v-b"] ∧
      (t.symbols.map fun s => s.value.map Value.text) = [some "3", none, some "3"] ∧
      p.outline = .ok t := by
  intro p
  have hcheck : (p.analyze.toOption.any fun t => decide (t.names = ["v-a", "v-s", "v-b"]) &&
      decide ((t.symbols.map fun s => s.value.map Value.text) = [some "3", none, some "3"]))
      = true := by
    decide +kernel
  obtain ⟨t, ht, hcheck⟩ := exists_of_toOption_any hcheck
  obtain ⟨hnames, hvalues⟩ := Bool.and_eq_true_iff.1 hcheck
  exact ⟨t, ht, of_decide_eq_true hnames, of_decide_eq_true hvalues, outline_of_analyze ht⟩

/-! ## Variables in a row -/

/-- A variable where it stands, with the data type in front of it if there is one. -/
structure Mention where
  dataType : Option String
  name : String

namespace Mention

/-- A variable with no data type in front of it. -/
def use (name : String) : Mention := ⟨none, name⟩

/-- The variable that is new, and its data type. -/
def head? (m : Mention) : Option (String × String) := m.dataType.map (m.name, ·)

@[simp] theorem filterMap_head?_use (names : List String) :
    (names.map use).filterMap head? = [] := by
  simp [Function.comp_def, use, head?]

end Mention

/-- The variables that have a data type, in order. -/
def introduced (ms : List Mention) : List String := (ms.filterMap Mention.head?).map Prod.fst

/-- What is new in two parts is new in one and then in the other. -/
theorem introduced_append (ms ns : List Mention) :
    introduced (ms ++ ns) = introduced ms ++ introduced ns := by
  simp [introduced]

theorem append_introduced_cons (known : List String) (m : Mention) (ms : List Mention) :
    known ++ introduced (m :: ms) = known ++ introduced [m] ++ introduced ms := by
  rw [List.append_assoc, ← introduced_append, List.singleton_append]

/-- Each variable is new where it has a data type, and known where it has none. -/
def Introduced (known : List String) : List Mention → Prop
  | [] => True
  | m :: ms =>
    (m.dataType.isSome = true ↔ m.name ∉ known) ∧ Introduced (known ++ introduced [m]) ms

namespace Introduced

variable {known : List String} {ms ns : List Mention}

/-- **Variables in two parts**: what the first introduces is known in the second. -/
theorem append_iff :
    Introduced known (ms ++ ns) ↔ Introduced known ms ∧ Introduced (known ++ introduced ms) ns := by
  induction ms generalizing known with
  | nil => simp [Introduced, introduced]
  | cons m ms ih =>
    rw [List.cons_append, Introduced, Introduced, ih, append_introduced_cons known m ms, and_assoc]

/-- Variables without a data type are those that are known. -/
theorem use_iff {names : List String} :
    Introduced known (names.map Mention.use) ↔ names ⊆ known := by
  induction names with
  | nil => simp [Introduced]
  | cons name names ih =>
    have hstep : known ++ introduced [Mention.use name] = known := List.append_nil known
    rw [List.map_cons, Introduced, hstep, ih, List.cons_subset]
    simp [Mention.use]

/-- **What is introduced is what is mentioned.** -/
theorem mem_iff (h : Introduced known ms) (x : String) :
    x ∈ known ++ introduced ms ↔ x ∈ known ∨ x ∈ ms.map Mention.name := by
  induction ms generalizing known with
  | nil => simp [introduced]
  | cons m ms ih =>
    obtain ⟨hm, hms⟩ := h
    have hone : x ∈ known ++ introduced [m] ↔ x ∈ known ∨ x = m.name := by
      obtain ⟨dataType, name⟩ := m
      cases dataType with
      | none =>
        have hknown : name ∈ known := by simpa using hm
        have hfound : x = name → x ∈ known := fun hx => hx ▸ hknown
        simpa [introduced, Mention.head?] using hfound
      | some type => simp [introduced, Mention.head?]
    rw [append_introduced_cons, ih hms, hone, List.map_cons, List.mem_cons, or_assoc]

end Introduced

/-! ## Variables of bindings -/

namespace Binding

/-- The variable of a binding, with the data type that it declares it with. -/
def mention : Binding → Mention
  | declare dataType name _ _ => ⟨some dataType, name⟩
  | assign name _ _ => .use name
  | read name _ => .use name

theorem head?_mention (b : Binding) : b.mention.head? = b.head? := by cases b <;> rfl

/-- What bindings declare is what their variables have data types for. -/
theorem filterMap_head?_mention (bs : List Binding) :
    (bs.map mention).filterMap Mention.head? = bs.filterMap head? := by
  rw [List.filterMap_map]
  exact congrArg (bs.filterMap ·) (funext head?_mention)

end Binding

/-- **A binding that is taken** is of a variable that is new or known, as it has to be. -/
theorem SymbolTable.introduced_bind {t t' : SymbolTable} {b : Binding} (h : t.bind b = .ok t') :
    b.mention.dataType.isSome = true ↔ b.mention.name ∉ t.names := by
  cases b with
  | declare dataType name value line =>
    obtain ⟨-, type, -, address, hdeclare⟩ := bind_declare_eq_ok_iff.1 h
    have hnew := (declare_eq_ok hdeclare).1
    rw [← Bool.not_eq_true, contains_iff_mem_names] at hnew
    exact iff_of_true rfl hnew
  | assign name value line =>
    have hknown := contains_iff_mem_names.1 (bind_assign_eq_ok_iff.1 h).1
    exact iff_of_false Bool.false_ne_true (not_not_intro hknown)
  | read name line =>
    have hknown := contains_iff_mem_names.1 (bind_read_eq_ok_iff.1 h).1
    exact iff_of_false Bool.false_ne_true (not_not_intro hknown)

/-- **Bindings in a row that are taken** introduce their variables. -/
theorem SymbolTable.Valid.introduced_bindAll {t t' : SymbolTable} {bs : List Binding} (ht : t.Valid)
    (h : t.bindAll bs = (t', none)) : Introduced t.names (bs.map Binding.mention) := by
  induction bs generalizing t with
  | nil => trivial
  | cons b bs ih =>
    obtain ⟨t₁, hb, hbs⟩ := bindAll_cons_eq_iff.1 h
    obtain ⟨ht₁, hheads, -⟩ := ht.bind hb
    have hnames : t₁.names = t.names ++ introduced [b.mention] := by
      rw [names_eq, hheads, List.map_append, ← names_eq, introduced]
      cases b <;> rfl
    have htail := ih ht₁ hbs
    rw [hnames] at htail
    exact ⟨introduced_bind hb, htail⟩

/-- Variables as they are written against bindings: the same are new, in the same order, and what is
known where the bindings need it is known where it is written. -/
structure Mirrors (ms : List Mention) (bs : List Binding) : Prop where
  heads : ms.filterMap Mention.head? = bs.filterMap Binding.head?
  introduced : ∀ known, Introduced known (bs.map Binding.mention) → Introduced known ms

namespace Mirrors

theorem nil : Mirrors [] [] := ⟨rfl, fun _ h => h⟩

/-- **Variables mirror bindings part by part**, since both make the same variables known. -/
theorem append {ms ns : List Mention} {bs cs : List Binding} (h : Mirrors ms bs)
    (h' : Mirrors ns cs) : Mirrors (ms ++ ns) (bs ++ cs) := by
  refine ⟨by rw [List.filterMap_append, h.heads, h'.heads, List.filterMap_append], ?_⟩
  intro known hknown
  have hsame : Enigma.introduced ms = Enigma.introduced (bs.map Binding.mention) := by
    rw [Enigma.introduced, h.heads, ← Binding.filterMap_head?_mention]
    rfl
  rw [List.map_append, Introduced.append_iff] at hknown
  rw [Introduced.append_iff, hsame]
  exact ⟨h.introduced known hknown.1, h'.introduced _ hknown.2⟩

/-- Uses may be written in any order, and only once. -/
theorem uses (names used : List String) {bs : List Binding}
    (h : bs.map Binding.mention = used.map Mention.use) (hsub : names ⊆ used) :
    Mirrors (names.map Mention.use) bs := by
  constructor
  · rw [← Binding.filterMap_head?_mention, h, Mention.filterMap_head?_use,
      Mention.filterMap_head?_use]
  · intro known hknown
    rw [h, Introduced.use_iff] at hknown
    exact Introduced.use_iff.2 (List.Subset.trans hsub hknown)

end Mirrors

/-- The bindings of an expression are uses of what it reads. -/
theorem Expr.map_mention_bindings (e : Expr) (line : Nat) :
    (e.bindings line).map Binding.mention = e.reads.map Mention.use := by
  rw [Expr.bindings, List.map_map]
  rfl

/-- The variables of an expression mirror its bindings. -/
theorem Expr.mirrors (e : Expr) (line : Nat) : Mirrors (e.reads.map .use) (e.bindings line) :=
  .uses e.reads e.reads (e.map_mention_bindings line) (List.Subset.refl _)

/-- **A declaration** is written in front of its value and bound behind it: what the value reads is
known either way. -/
theorem Declaration.mirrors (d : Declaration) :
    Mirrors (⟨some d.dataType, d.name⟩ :: d.value.reads.map .use) d.bindings := by
  have hreads := d.value.map_mention_bindings d.line
  constructor
  · rw [← Binding.filterMap_head?_mention, Declaration.bindings, List.map_append, hreads,
      List.filterMap_append, Mention.filterMap_head?_use, ← List.singleton_append,
      List.filterMap_append, Mention.filterMap_head?_use]
    rfl
  · intro known hknown
    rw [Declaration.bindings, List.map_append, hreads, Introduced.append_iff,
      Introduced.use_iff] at hknown
    obtain ⟨hvalue, hname, -⟩ := hknown
    have hnone : Enigma.introduced (d.value.reads.map Mention.use) = [] := by
      rw [Enigma.introduced, Mention.filterMap_head?_use]
      rfl
    rw [hnone, List.append_nil] at hname
    exact ⟨hname, Introduced.use_iff.2 (List.subset_append_of_subset_left _ hvalue)⟩

/-- A parameter is written as it is declared. -/
theorem Param.mirrors (p : Param) : Mirrors [⟨some p.dataType, p.name⟩] [p.binding] :=
  ⟨rfl, fun _ h => h⟩

theorem Step.mirrors (s : Step) : Mirrors [.use s.name] s.bindings :=
  .uses [s.name] [s.name, s.name] rfl (by simp)

/-! ## Variables of tokens -/

/-- Whether a token of the kind is neither a variable nor a data type. -/
def TokenKind.isSilent : TokenKind → Bool
  | name | dataType => false
  | _ => true

namespace Token

/-- The data type that a token is. -/
def typed? (t : Token) : Option String := if t.kind = .dataType then some t.text else none

/-- The variables among tokens, if the token in front of them is of the given data type. -/
def mentions (type : Option String) : List Token → List Mention
  | [] => []
  | t :: ts => (if t.kind = .name then [⟨type, t.text⟩] else []) ++ mentions t.typed? ts

/-- The tokens that are a data type, each with the variable behind it. -/
def introductions (ts : List Token) : List (Token × Token) :=
  (ts.zip ts.tail).filter fun pair => pair.1.kind = .dataType && pair.2.kind = .name

/-- **Only the last token of a part** matters for the variables behind it. -/
theorem mentions_append (type : Option String) (ts us : List Token) :
    mentions type (ts ++ us) =
      mentions type ts ++ mentions ((ts.getLast?.map typed?).getD type) us := by
  induction ts generalizing type with
  | nil => rfl
  | cons t ts ih =>
    have hlast : ((t :: ts).getLast?.map typed?).getD type
        = (ts.getLast?.map typed?).getD t.typed? := by
      cases ts with
      | nil => rfl
      | cons u ts => simp [List.getLast?_eq_some_getLast]
    rw [List.cons_append, mentions, mentions, ih, hlast, List.append_assoc]

/-- The variables among tokens are the texts of those that are names. -/
theorem mem_map_name_mentions {type : Option String} {ts : List Token} {x : String} :
    x ∈ (mentions type ts).map Mention.name ↔ ∃ t ∈ ts, t.kind = .name ∧ t.text = x := by
  induction ts generalizing type with
  | nil => simp [mentions]
  | cons t ts ih =>
    by_cases hk : t.kind = .name <;> simp [mentions, hk, ih, eq_comm (a := x)]

/-- **What is new among tokens** is the variables behind a data type. -/
theorem filterMap_head?_mentions (ts : List Token) :
    (mentions none ts).filterMap Mention.head? =
      (introductions ts).map fun pair => (pair.2.text, pair.1.text) := by
  -- behind a first token only the data type that it may be counts
  have hbehind (t : Token) (ts : List Token) : (mentions t.typed? ts).filterMap Mention.head? =
      (introductions (t :: ts)).map fun pair => (pair.2.text, pair.1.text) := by
    induction ts generalizing t with
    | nil => rfl
    | cons u ts ih =>
      rw [mentions, List.filterMap_append, ih]
      by_cases ht : t.kind = .dataType <;> by_cases hu : u.kind = .name <;>
        simp [introductions, typed?, Mention.head?, ht, hu]
  cases ts with
  | nil => rfl
  | cons t ts =>
    rw [mentions, List.filterMap_append, hbehind]
    split <;> rfl

/-- Whether tokens list the given variables, whatever stands behind them. -/
def Lists (ts : List Token) (ms : List Mention) : Prop :=
  ∀ us, mentions none (ts ++ us) = ms ++ mentions none us

/-- Whether tokens list variables that mirror the bindings. -/
def Tells (ts : List Token) (bs : List Binding) : Prop := ∃ ms, Lists ts ms ∧ Mirrors ms bs

namespace Lists

variable {t : Token} {k : TokenKind} {ts us : List Token} {ms ns : List Mention}

theorem nil : Lists [] [] := fun _ => rfl

/-- Tokens list their variables part by part. -/
theorem append (h : Lists ts ms) (h' : Lists us ns) : Lists (ts ++ us) (ms ++ ns) := by
  intro vs
  rw [List.append_assoc, h, h', List.append_assoc]

/-- A token that is neither a name nor a data type lists nothing in front. -/
theorem cons (ht : t.kind = k) (hk : k.isSilent = true) (h : Lists ts ms) : Lists (t :: ts) ms := by
  intro us
  have hname : t.kind ≠ .name := by rintro hn; rw [← ht, hn] at hk; cases hk
  have htype : t.kind ≠ .dataType := by rintro hn; rw [← ht, hn] at hk; cases hk
  rw [List.cons_append, mentions, if_neg hname, List.nil_append, typed?, if_neg htype, h]

/-- A name with no data type in front of it is a use. -/
theorem name (ht : t.kind = .name) (h : Lists ts ms) : Lists (t :: ts) (.use t.text :: ms) := by
  intro us
  have htype : t.typed? = none := if_neg (by simp [ht])
  rw [List.cons_append, mentions, if_pos ht, htype, h]
  rfl

/-- A data type and a name list a new variable. -/
theorem typed {type name : Token} (htype : type.kind = .dataType) (hname : name.kind = .name)
    (h : Lists ts ms) : Lists (type :: name :: ts) (⟨some type.text, name.text⟩ :: ms) := by
  intro us
  have hnone : name.typed? = none := if_neg (by simp [hname])
  have hsome : type.typed? = some type.text := if_pos htype
  rw [List.cons_append, List.cons_append, mentions, if_neg (by simp [htype]), hsome, mentions,
    if_pos hname, hnone, h]
  rfl

/-- A token that is neither a name nor a data type lists nothing at the end. -/
theorem concat (ht : t.kind = k) (hk : k.isSilent = true) (h : Lists ts ms) :
    Lists (ts ++ [t]) ms := by
  have hall := h.append (cons ht hk nil)
  rwa [List.append_nil] at hall

theorem tells {bs : List Binding} (h : Lists ts ms) (hm : Mirrors ms bs) : Tells ts bs :=
  ⟨ms, h, hm⟩

end Lists

namespace Tells

variable {t : Token} {k : TokenKind} {ts us : List Token} {bs cs : List Binding}

theorem nil : Tells [] [] := Lists.nil.tells .nil

/-- **Tokens tell bindings part by part.** -/
theorem append (h : Tells ts bs) (h' : Tells us cs) : Tells (ts ++ us) (bs ++ cs) := by
  obtain ⟨ms, hms, hbs⟩ := h
  obtain ⟨ns, hns, hcs⟩ := h'
  exact (hms.append hns).tells (hbs.append hcs)

theorem cons (ht : t.kind = k) (hk : k.isSilent = true) (h : Tells ts bs) : Tells (t :: ts) bs := by
  obtain ⟨ms, hms, hbs⟩ := h
  exact (hms.cons ht hk).tells hbs

theorem concat (ht : t.kind = k) (hk : k.isSilent = true) (h : Tells ts bs) :
    Tells (ts ++ [t]) bs := by
  obtain ⟨ms, hms, hbs⟩ := h
  exact (hms.concat ht hk).tells hbs

end Tells

end Token

/-! ## The tokens of a program -/

namespace Grammar

open Token

mutual

/-- **An expression lists what it reads**, from left to right. -/
theorem Expression.lists : ∀ {ts : List Token} {e : Expr},
    Expression ts e → Lists ts (e.reads.map .use)
  | _, _, .term h => h.lists
  | _, _, .binary hl hop hr => by
    rw [Expr.reads, List.map_append]
    exact hl.lists.append (hr.lists.cons hop rfl)

/-- A term lists its variable, those between its parentheses, or none. -/
theorem Term.lists : ∀ {ts : List Token} {e : Expr}, Term ts e → Lists ts (e.reads.map .use)
  | _, _, .number h => Lists.nil.cons h rfl
  | _, _, .string h => Lists.nil.cons h rfl
  | _, _, .boolean h => Lists.nil.cons h rfl
  | _, _, .name h => Lists.nil.name h
  | _, _, .group hl h hr =>
    (h.lists.concat hr rfl).cons hl rfl

end

theorem Expression.tells {ts : List Token} {e : Expr} (h : Expression ts e) (line : Nat) :
    Tells ts (e.bindings line) := h.lists.tells (e.mirrors line)

theorem Condition.tells {ts : List Token} {e : Expr} (h : Condition ts e) (line : Nat) :
    Tells ts (e.bindings line) := by
  obtain ⟨hl, h, hr⟩ := h
  exact ((h.tells line).concat hr rfl).cons hl rfl

/-- A declaration tells its bindings, though it names the variable in front of the value. -/
theorem Declares.tells {ts : List Token} {d : Declaration} (h : Declares ts d) :
    Tells ts d.bindings := by
  obtain ⟨htype, hname, hassign, h, hstop⟩ := h
  have hvalue := (h.lists.concat hstop rfl).cons hassign rfl
  exact (hvalue.typed htype hname).tells (Declaration.mirrors ⟨_, _, _, _⟩)

/-- A step tells the one variable that it changes. -/
theorem Steps.tells {ts : List Token} {s : Step} (h : Steps ts s) : Tells ts s.bindings := by
  obtain ⟨hname, hop, -, hstop⟩ := h
  have hrest := (Lists.nil.cons hstop rfl).cons hop rfl
  exact (hrest.name hname).tells (Step.mirrors ⟨_, _, _⟩)

/-- Parameters tell their bindings, and the commas between them nothing. -/
theorem Parameters.tells {ts : List Token} {params : List Param} (h : Parameters ts params) :
    Tells ts (params.map Param.binding) := by
  induction h with
  | one htype hname => exact (Lists.nil.typed htype hname).tells (Param.mirrors ⟨_, _, _⟩)
  | @more _ _ _ type name h hseparator htype hname ih =>
    rw [List.map_append]
    have hparam := (Lists.nil.typed htype hname).tells
      (Param.mirrors ⟨type.text, name.text, type.line⟩)
    rcases hseparator with hs | hs <;> exact ih.append (hparam.cons hs rfl)

theorem ParameterList.tells {ts : List Token} {params : List Param} (h : ParameterList ts params) :
    Tells ts (params.map Param.binding) := by
  cases h with
  | none => exact .nil
  | some h => exact h.tells

theorem branchesBindings_append (bs : List Branch) (b : Branch) :
    branchesBindings (bs ++ [b]) = branchesBindings bs ++ b.bindings := by
  induction bs with
  | nil => simp [branchesBindings]
  | cons b' bs ih =>
    rw [List.cons_append, branchesBindings, ih, branchesBindings, List.append_assoc]

mutual

/-- **The tokens of a statement mirror its bindings.** -/
theorem Statement.tells : ∀ {inLoop : Bool} {ts : List Token} {s : Stmt},
    Statement inLoop ts s → Tells ts s.bindings
  | _, _, _, .declaration h => h.tells
  | _, _, _, @Statement.assignment _ _ e name _ _ hname hassign h hstop => by
    have hvalue := (h.lists.concat hstop rfl).cons hassign rfl
    -- the variable is written in front of the value and bound behind it
    refine (hvalue.name hname).tells
      (.uses (name.text :: e.reads) (e.reads ++ [name.text]) ?_ (by simp))
    rw [Stmt.bindings, List.map_append, Expr.map_mention_bindings, List.map_append]
    rfl
  | _, _, _, .conditional h => h.tells
  | _, _, _, .conditionalElse h hk hb => by
    rw [Stmt.bindings, branchesBindings_append]
    exact h.tells.append (hb.tells.cons hk rfl)
  | _, _, _, .iterate hk hl hi hc hs hr hb => by
    rw [Stmt.bindings, List.append_assoc, List.append_assoc]
    have hrest := hs.tells.append (hb.tells.cons hr rfl)
    exact ((hi.tells.append ((hc.tells _).append hrest)).cons hl rfl).cons hk rfl
  | _, _, _, .whilst hk hc hb =>
    ((hc.tells _).append hb.tells).cons hk rfl
  | _, _, _, .function hk _ hl hp hr hb =>
    ((hp.tells.append (hb.tells.cons hr rfl)).cons hl rfl).cons hk rfl
  | _, _, _, .leave hk hstop =>
    (Tells.nil.cons hstop rfl).cons hk rfl
  | _, _, _, .resume hk hstop =>
    (Tells.nil.cons hstop rfl).cons hk rfl

/-- Arms in a row tell their bindings, arm by arm. -/
theorem Branches.tells : ∀ {inLoop : Bool} {ts : List Token} {bs : List Branch},
    Branches inLoop ts bs → Tells ts (branchesBindings bs)
  | _, _, _, .iff hk hc hb => by
    rw [branchesBindings, branchesBindings, List.append_nil]
    exact ((hc.tells _).append hb.tells).cons hk rfl
  | _, _, _, .maybe h hk hc hb => by
    rw [branchesBindings_append]
    exact h.tells.append (((hc.tells _).append hb.tells).cons hk rfl)

/-- A block tells what its statements tell. -/
theorem Block.tells : ∀ {inLoop : Bool} {ts : List Token} {body : List Stmt},
    Block inLoop ts body → Tells ts (blockBindings body)
  | _, _, _, .mk hl h hr =>
    (h.tells.concat hr rfl).cons hl rfl

/-- **Statements in a row tell their bindings**, one by one. -/
theorem Statements.tells : ∀ {inLoop : Bool} {ts : List Token} {body : List Stmt},
    Statements inLoop ts body → Tells ts (blockBindings body)
  | _, _, _, .nil => .nil
  | _, _, _, .cons h hrest => h.tells.append hrest.tells

end

/-- **The tokens of a program mirror its bindings.** -/
theorem Derives.tells {tokens : List Token} {p : Program} (h : Derives tokens p) :
    Mirrors (mentions none tokens) p.bindings := by
  obtain ⟨ms, hms, hmirrors⟩ := Statements.tells h
  have hall := hms []
  rw [List.append_nil, mentions, List.append_nil] at hall
  exact hall ▸ hmirrors

end Grammar

/-! ## The table and the tokens -/

section Checked

variable {tokens : List Token} {p : Program} {t : SymbolTable} (hp : Grammar.Derives tokens p)
  (ht : p.analyze = .ok t)

include hp ht

/-- **A checked program introduces its variables** where a data type stands in front of them. -/
theorem introduced_of_analyze : Introduced [] (Token.mentions none tokens) :=
  hp.tells.introduced []
    (SymbolTable.valid_empty.introduced_bindAll (Program.analyze_eq_ok_iff.1 ht))

/-- **The table lists the variables that a data type stands in front of.** -/
theorem heads_eq_introductions :
    t.heads = (Token.introductions tokens).map fun pair => (pair.2.text, pair.1.text) := by
  have hheads := (SymbolTable.valid_empty.bindAll (Program.analyze_eq_ok_iff.1 ht)).2.1
  rw [hheads, ← Token.filterMap_head?_mentions, hp.tells.heads]
  rfl

end Checked

/-- **A variable is introduced once, where it first stands**: it has a data type in front of it
exactly if it does not stand further in front. -/
theorem Introduced.first {before after : List Token} {v : Token}
    (h : Introduced [] (Token.mentions none (before ++ v :: after))) (hv : v.kind = .name) :
    (∃ type, before.getLast? = some type ∧ type.kind = .dataType) ↔
      ∀ u ∈ before, u.kind = .name → u.text ≠ v.text := by
  rw [Token.mentions_append, Token.mentions, if_pos hv, Introduced.append_iff] at h
  obtain ⟨hbefore, hv, -⟩ := h
  have hknown := hbefore.mem_iff v.text
  rw [Token.mem_map_name_mentions, or_iff_right List.not_mem_nil] at hknown
  have htyped : (((before.getLast?.map Token.typed?).getD none).isSome = true) ↔
      ∃ type, before.getLast? = some type ∧ type.kind = .dataType := by
    cases before.getLast? with
    | none => simp
    | some type => by_cases hk : type.kind = .dataType <;> simp [Token.typed?, hk]
  rw [← htyped, hv, hknown]
  simp

/-- **The table mirrors the tokens.**  The variables of a checked source are, in order, those that a
data type stands in front of, with that type and one word apart from the first address on; and a
data type stands in front of a variable exactly where it is first mentioned. -/
theorem symbols_eq_introductions {source : String} {tokens : List Token} {p : Program}
    {t : SymbolTable} (hread : readSource source = .ok (tokens, p)) (ht : p.analyze = .ok t) :
    (t.symbols.map fun s => (s.dataType.name, s.name, s.location)) =
        (Token.introductions tokens).mapIdx
          (fun k pair => (pair.1.text, pair.2.text, 1000 + 4 * k)) ∧
      ∀ before v after, tokens = before ++ v :: after → v.kind = .name →
        ((∃ type, before.getLast? = some type ∧ type.kind = .dataType) ↔
          ∀ u ∈ before, u.kind = .name → u.text ≠ v.text) := by
  have hp := Program.parse_eq_ok_iff.1 (readSource_eq_ok_iff.1 hread).2.2
  have hvalid := Program.valid_of_analyze ht
  constructor
  · refine List.ext_getElem? fun k => ?_
    have hheads := congrArg (·[k]?) (heads_eq_introductions hp ht)
    simp only [SymbolTable.heads, List.getElem?_map] at hheads
    rw [List.getElem?_map, List.getElem?_mapIdx]
    cases hs : t.symbols[k]? with
    | none =>
      rw [hs, Option.map_none, eq_comm, Option.map_eq_none_iff] at hheads
      rw [hheads]
      rfl
    | some s =>
      rw [hs, Option.map_some, eq_comm, Option.map_eq_some_iff] at hheads
      obtain ⟨pair, hpair, heq⟩ := hheads
      obtain ⟨hname, htype⟩ := Prod.mk.inj heq
      rw [hpair, Option.map_some, Option.map_some, hvalid.location k s hs, hname, htype]
      rfl
  · rintro before v after rfl hv
    exact (introduced_of_analyze hp ht).first hv

/-- A parameter, the variable of a loop, and one whose value reads both. -/
theorem symbols_eq_introductions_nested :
    let source :=
      "f-none g(enum v-a) { iterate (enum v-i = v-a, v-i < 2 v-i++,) { estr v-s = v-a + v-i, } }"
    ∃ tokens p t, readSource source = .ok (tokens, p) ∧ p.analyze = .ok t ∧
      (t.symbols.map fun s => (s.dataType.name, s.name, s.location)) =
        [("enum", "v-a", 1000), ("enum", "v-i", 1004), ("estr", "v-s", 1008)] ∧
      ∀ before v after, tokens = before ++ v :: after → v.kind = .name →
        ((∃ type, before.getLast? = some type ∧ type.kind = .dataType) ↔
          ∀ u ∈ before, u.kind = .name → u.text ≠ v.text) := by
  intro source
  have hcheck : ((readSource source).toOption.any fun r =>
      decide ((Token.introductions r.1).mapIdx
          (fun k pair => (pair.1.text, pair.2.text, 1000 + 4 * k)) =
        [("enum", "v-a", 1000), ("enum", "v-i", 1004), ("estr", "v-s", 1008)]) &&
      r.2.analyze.toOption.any fun _ => true) = true := by
    decide +kernel
  obtain ⟨⟨tokens, p⟩, hread, hcheck⟩ := exists_of_toOption_any hcheck
  obtain ⟨hpairs, hcheck⟩ := Bool.and_eq_true_iff.1 hcheck
  obtain ⟨t, ht, -⟩ := exists_of_toOption_any hcheck
  obtain ⟨hsymbols, hfirst⟩ := symbols_eq_introductions hread ht
  exact ⟨tokens, p, t, hread, ht, hsymbols.trans (of_decide_eq_true hpairs), hfirst⟩

end Enigma
