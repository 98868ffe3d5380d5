import Enigma.Proofs.Checking
import Enigma.Proofs.Declarations
import Enigma.Proofs.Relexing

/-!
# Proofs/Vocabulary — names and types mean the same to every phase

The words of the language are told three times: the scan knows what data types, variables and
function heads look like, the reader takes a function head apart, and the checker has a rule for
names and a list of types.  What the reader keeps is the text of tokens, so all of it looks as the
scan demands:

* `Program.signatures` — the functions of a program; `Derives.signatures_eq` — they are its function
  heads, in order;
* `Derives.exists_declared` — a declared variable and its data type are tokens;
* `IsFunctionHead.ofText` — a function head is taken apart into its return type and its name, which
  written with one space are a function head again (`IsIdentifier.scan_head`);
* `parse_vocabulary` — so the checker never refuses a data type, and a name only for an underscore.
-/

namespace Enigma

open Grammar

/-! ## The functions of a program -/

mutual

/-- The functions of a statement, in the order in which their heads are written. -/
def Stmt.signatures : Stmt → List Signature
  | .declare _ => []
  | .assign _ _ _ => []
  | .conditional branches => branchesSignatures branches
  | .iterate _ _ _ body _ => blockSignatures body
  | .whilst _ body _ => blockSignatures body
  | .function signature _ body => signature :: blockSignatures body
  | .leave _ => []
  | .resume _ => []

/-- Those of an arm. -/
def Branch.signatures : Branch → List Signature
  | .mk _ _ body _ => blockSignatures body

/-- Those of statements in a row. -/
def blockSignatures : List Stmt → List Signature
  | [] => []
  | s :: rest => s.signatures ++ blockSignatures rest

/-- Those of arms in a row. -/
def branchesSignatures : List Branch → List Signature
  | [] => []
  | b :: rest => b.signatures ++ branchesSignatures rest

end

/-- The functions of a program, in the order in which their heads are written. -/
def Program.signatures (p : Program) : List Signature := blockSignatures p

theorem branchesSignatures_append (bs : List Branch) (b : Branch) :
    branchesSignatures (bs ++ [b]) = branchesSignatures bs ++ b.signatures := by
  induction bs with
  | nil => simp [branchesSignatures]
  | cons b' bs ih =>
    rw [List.cons_append, branchesSignatures, ih, branchesSignatures, List.append_assoc]

namespace Token

/-- The function whose head a token is. -/
def signature? (t : Token) : Option Signature :=
  if t.kind = .functionHead then some (Signature.ofText t.text) else none

/-- The functions whose heads are among tokens. -/
def signatures (ts : List Token) : List Signature := ts.filterMap signature?

@[simp] theorem signatures_nil : signatures [] = [] := rfl

@[simp] theorem signatures_append (ts us : List Token) :
    signatures (ts ++ us) = signatures ts ++ signatures us := List.filterMap_append

/-- A token of another kind is passed over. -/
theorem signatures_cons {t : Token} {k : TokenKind} (ht : t.kind = k) (hk : k ≠ .functionHead)
    (ts : List Token) : signatures (t :: ts) = signatures ts :=
  List.filterMap_cons_none (if_neg (ht ▸ hk))

/-- A head in front is one more signature. -/
theorem signatures_head {t : Token} (ht : t.kind = .functionHead) (ts : List Token) :
    signatures (t :: ts) = Signature.ofText t.text :: signatures ts :=
  List.filterMap_cons_some (if_pos ht)

end Token

namespace Grammar

open Token

mutual

/-- No function starts inside an expression. -/
theorem Expression.signatures_eq : ∀ {ts : List Token} {e : Expr},
    Expression ts e → signatures ts = []
  | _, _, .term h => h.signatures_eq
  | _, _, .binary hl hop hr => by
    rw [signatures_append, hl.signatures_eq, signatures_cons hop (by decide), hr.signatures_eq]
    rfl

/-- No term holds a head. -/
theorem Term.signatures_eq : ∀ {ts : List Token} {e : Expr}, Term ts e → signatures ts = []
  | _, _, .number h => signatures_cons h (by decide) []
  | _, _, .string h => signatures_cons h (by decide) []
  | _, _, .boolean h => signatures_cons h (by decide) []
  | _, _, .name h => signatures_cons h (by decide) []
  | _, _, .group hl h hr => by
    rw [signatures_cons hl (by decide), signatures_append, h.signatures_eq,
      signatures_cons hr (by decide)]
    rfl

end

theorem Condition.signatures_eq {ts : List Token} {e : Expr} (h : Condition ts e) :
    signatures ts = [] := by
  obtain ⟨hl, h, hr⟩ := h
  exact (Term.group hl h hr).signatures_eq

/-- No declaration holds a head. -/
theorem Declares.signatures_eq {ts : List Token} {d : Declaration} (h : Declares ts d) :
    signatures ts = [] := by
  obtain ⟨htype, hname, hassign, h, hstop⟩ := h
  rw [signatures_cons htype (by decide), signatures_cons hname (by decide),
    signatures_cons hassign (by decide), signatures_append, h.signatures_eq,
    signatures_cons hstop (by decide)]
  rfl

theorem Steps.signatures_eq {ts : List Token} {s : Step} (h : Steps ts s) : signatures ts = [] := by
  obtain ⟨hname, hop, -, hstop⟩ := h
  rw [signatures_cons hname (by decide), signatures_cons hop (by decide),
    signatures_cons hstop (by decide)]
  rfl

/-- Parameters hold no head, for a function starts in front of them. -/
theorem Parameters.signatures_eq {ts : List Token} {params : List Param}
    (h : Parameters ts params) : signatures ts = [] := by
  have hparam {type name : Token} (htype : type.kind = .dataType) (hname : name.kind = .name) :
      signatures [type, name] = [] := by
    rw [signatures_cons htype (by decide), signatures_cons hname (by decide)]
    rfl
  induction h with
  | one htype hname => exact hparam htype hname
  | more _ hseparator htype hname ih =>
    rcases hseparator with hs | hs <;>
      rw [signatures_append, ih, signatures_cons hs (by decide), hparam htype hname] <;> rfl

theorem ParameterList.signatures_eq {ts : List Token} {params : List Param}
    (h : ParameterList ts params) : signatures ts = [] := by
  cases h with
  | none => rfl
  | some h => exact h.signatures_eq

mutual

/-- **The functions of a statement are its function heads**, in order. -/
theorem Statement.signatures_eq : ∀ {inLoop : Bool} {ts : List Token} {s : Stmt},
    Statement inLoop ts s → s.signatures = signatures ts
  | _, _, _, .declaration h => h.signatures_eq.symm
  | _, _, _, .assignment hname hassign h hstop => by
    rw [signatures_cons hname (by decide), signatures_cons hassign (by decide), signatures_append,
      h.signatures_eq, signatures_cons hstop (by decide)]
    rfl
  | _, _, _, .conditional h => h.signatures_eq
  | _, _, _, .conditionalElse h hk hb => by
    rw [Stmt.signatures, branchesSignatures_append, h.signatures_eq, signatures_append,
      signatures_cons hk (by decide), ← hb.signatures_eq]
    rfl
  | _, _, _, .iterate hk hl hi hc hs hr hb => by
    rw [Stmt.signatures, hb.signatures_eq, signatures_cons hk (by decide),
      signatures_cons hl (by decide), signatures_append, hi.signatures_eq, signatures_append,
      hc.signatures_eq, signatures_append, hs.signatures_eq, signatures_cons hr (by decide)]
    rfl
  | _, _, _, .whilst hk hc hb => by
    rw [Stmt.signatures, hb.signatures_eq, signatures_cons hk (by decide), signatures_append,
      hc.signatures_eq]
    rfl
  | _, _, _, .function hk hs hl hp hr hb => by
    obtain rfl := head_iff.1 hs
    rw [Stmt.signatures, hb.signatures_eq, signatures_head hk, signatures_cons hl (by decide),
      signatures_append, hp.signatures_eq, signatures_cons hr (by decide)]
    rfl
  | _, _, _, .leave hk hstop => by
    rw [signatures_cons hk (by decide), signatures_cons hstop (by decide)]
    rfl
  | _, _, _, .resume hk hstop => by
    rw [signatures_cons hk (by decide), signatures_cons hstop (by decide)]
    rfl

/-- Arms in a row have the functions of their heads, in order. -/
theorem Branches.signatures_eq : ∀ {inLoop : Bool} {ts : List Token} {bs : List Branch},
    Branches inLoop ts bs → branchesSignatures bs = signatures ts
  | _, _, _, .iff hk hc hb => by
    rw [branchesSignatures, branchesSignatures, List.append_nil, Branch.signatures,
      hb.signatures_eq, signatures_cons hk (by decide), signatures_append, hc.signatures_eq]
    rfl
  | _, _, _, .maybe h hk hc hb => by
    rw [branchesSignatures_append, h.signatures_eq, Branch.signatures, hb.signatures_eq,
      signatures_append, signatures_cons hk (by decide), signatures_append, hc.signatures_eq]
    rfl

/-- A block has the functions of the heads in it. -/
theorem Block.signatures_eq : ∀ {inLoop : Bool} {ts : List Token} {body : List Stmt},
    Block inLoop ts body → blockSignatures body = signatures ts
  | _, _, _, .mk hl h hr => by
    rw [h.signatures_eq, signatures_cons hl (by decide), signatures_append,
      signatures_cons hr (by decide), signatures_nil, List.append_nil]

/-- **Statements in a row have the functions of their heads**, in order. -/
theorem Statements.signatures_eq : ∀ {inLoop : Bool} {ts : List Token} {body : List Stmt},
    Statements inLoop ts body → blockSignatures body = signatures ts
  | _, _, _, .nil => rfl
  | _, _, _, .cons h hrest => by
    rw [blockSignatures, h.signatures_eq, hrest.signatures_eq, signatures_append]

end

/-- **The functions of a program are its function heads**, in order. -/
theorem Derives.signatures_eq {tokens : List Token} {p : Program} (h : Derives tokens p) :
    p.signatures = signatures tokens := Statements.signatures_eq h

/-- **A declared variable and its data type are tokens.** -/
theorem Derives.exists_declared {tokens : List Token} {p : Program} (h : Derives tokens p)
    {dataType name : String} {value : Option Expr} {line : Nat}
    (hb : .declare dataType name value line ∈ p.bindings) :
    (∃ t ∈ tokens, t.kind = .dataType ∧ t.text = dataType) ∧
      ∃ t ∈ tokens, t.kind = .name ∧ t.text = name := by
  have hhead : (name, dataType) ∈ p.bindings.filterMap Binding.head? :=
    List.mem_filterMap.2 ⟨_, hb, rfl⟩
  rw [← h.tells.heads, filterMap_head?_mentions] at hhead
  obtain ⟨⟨t, v⟩, hpair, heq⟩ := List.mem_map.1 hhead
  obtain ⟨hname, htype⟩ := Prod.mk.inj heq
  obtain ⟨hzip, hkinds⟩ := List.mem_filter.1 hpair
  obtain ⟨ht, hv⟩ := List.of_mem_zip hzip
  simp only [Bool.and_eq_true, decide_eq_true_eq] at hkinds
  exact ⟨⟨t, ht, hkinds.1, htype⟩, v, List.mem_of_mem_tail hv, hkinds.2, hname⟩

end Grammar

/-! ## What tokens look like -/

namespace Token

variable {source : String} {t : Token}

/-- **A data type is one of the four.** -/
theorem mem_dataTypeNames_of_mem_scan (h : t ∈ scan source) (hk : t.kind = .dataType) :
    t.text ∈ dataTypeNames := by
  obtain ⟨s, n, hlexeme, htext⟩ := lexeme?_of_mem_scan h
  rw [hk] at hlexeme
  obtain ⟨w, hw, -, htake⟩ := Lexeme.word?_eq_some hlexeme
  have hword : t.text = w := by rw [← String.toList_inj, htext, htake]
  rw [hword]
  exact hw

/-- A variable that was scanned is spelled as one. -/
theorem isName_of_mem_scan (h : t ∈ scan source) (hk : t.kind = .name) : IsName t.text.toList := by
  obtain ⟨s, n, hlexeme, htext⟩ := lexeme?_of_mem_scan h
  rw [hk] at hlexeme
  rw [htext]
  exact isName_of_name? hlexeme

/-- A head that was scanned is spelled as one. -/
theorem isFunctionHead_of_mem_scan (h : t ∈ scan source) (hk : t.kind = .functionHead) :
    IsFunctionHead t.text.toList := by
  obtain ⟨s, n, hlexeme, htext⟩ := lexeme?_of_mem_scan h
  rw [hk] at hlexeme
  rw [htext]
  exact isFunctionHead_of_functionHead? hlexeme

end Token

/-- **A variable without an underscore** has a name that the checker takes. -/
theorem IsName.isVariableName {name : String} (h : IsName name.toList) (hline : '_' ∉ name.toList) :
    IsVariableName name := by
  obtain ⟨_, hname, c, rest, rfl, hc, hrest⟩ := h
  refine ⟨c, rest, ?_, hc, List.all_eq_true.2 fun d hd => ?_⟩
  · rw [← String.toList_inj, hname]
    simp
  · have hne : d ≠ '_' := by
      rintro rfl
      exact hline (by simp [hname, hd])
    simpa [Lexeme.isNameChar, hne] using List.all_eq_true.1 hrest d hd

/-! ## Function heads -/

theorem IsIdentifier.ne_nil {t : List Char} (h : IsIdentifier t) : t ≠ [] := by
  obtain ⟨c, s, rfl, -⟩ := h
  exact List.cons_ne_nil c s

/-- Identifiers hold no blanks. -/
theorem IsIdentifier.isBlank_eq_false {t : List Char} (h : IsIdentifier t) :
    ∀ c ∈ t, Text.isBlank c = false := by
  obtain ⟨c, s, rfl, hc, hs⟩ := h
  have hword : ∀ d ∈ c :: s, Text.isWord d = true := by
    refine List.forall_mem_cons.2 ⟨Text.isWord_of_isAlphanum ?_, fun d hd => ?_⟩
    · rw [Char.isAlphanum, hc, Bool.true_or]
    · exact Lexeme.isWord_of_isNameChar (List.all_eq_true.1 hs d hd)
  intro d hd
  refine eq_false_of_ne_true fun hblank => ?_
  have hnot := Text.isWord_eq_false_of_isBlank hblank
  rw [hword d hd] at hnot
  cases hnot

/-- **A function head is taken apart** into its return type and its name. -/
theorem IsFunctionHead.ofText {text : String} (h : IsFunctionHead text.toList) :
    ∃ type ∈ returnTypes, ∃ gap name, text.toList = 'f' :: '-' :: (type.toList ++ (gap ++ name)) ∧
      IsIdentifier name ∧ Signature.ofText text = ⟨type, String.ofList name⟩ := by
  obtain ⟨type, hmem, gap, name, htext, hne, hall, hname⟩ := h
  have htypes : (returnTypes.all fun w => ('f' :: '-' :: w.toList).all (!Text.isBlank ·)) = true :=
    by decide
  have hgap : gap.all Text.isBlank = true := by
    refine List.all_eq_true.2 fun c hc => ?_
    rcases Bool.or_eq_true_iff.1 (List.all_eq_true.1 hall c hc) with hc | hc <;>
      rw [eq_of_beq hc] <;> decide
  have hfirst : FirstWord text.toList ('f' :: '-' :: type.toList) (gap ++ name) := by
    obtain ⟨b, gap, rfl⟩ := List.exists_cons_of_ne_nil hne
    rw [htext]
    exact @FirstWord.some [] _ _ rfl (List.cons_ne_nil _ _) (List.all_eq_true.1 htypes type hmem)
      (Bool.and_eq_true_iff.1 hgap).1
  have hsecond : FirstWord (gap ++ name) name [] := by
    have hword : name.all (!Text.isBlank ·) = true :=
      List.all_eq_true.2 fun c hc => by rw [hname.isBlank_eq_false c hc]; rfl
    have hsome := @FirstWord.some gap name [] hgap hname.ne_nil hword rfl
    rwa [List.append_nil] at hsome
  have hhead := Head.mk hfirst (.named type.toList) hsecond
  rw [String.ofList_toList] at hhead
  exact ⟨type, hmem, gap, name, htext, hname, head_iff.1 hhead⟩

/-- **A return type and an identifier with a space between them** are one token. -/
theorem IsIdentifier.scan_head {type name : String} (htype : type ∈ returnTypes)
    (hname : IsIdentifier name.toList) :
    Token.scan ("f-" ++ type ++ " " ++ name) = [⟨.functionHead, "f-" ++ type ++ " " ++ name, 1, 1,
      some ⟨0, ("f-" ++ type ++ " " ++ name).utf8ByteSize⟩⟩] := by
  generalize hhead : "f-" ++ type ++ " " ++ name = head
  have htext : head.toList = 'f' :: '-' :: (type.toList ++ ([' '] ++ name.toList)) := by
    rw [← hhead]
    simp
  have hne : head.toList ≠ [] := by
    rw [htext]
    exact List.cons_ne_nil _ _
  have his : IsFunctionHead head.toList :=
    ⟨type, htype, [' '], name.toList, htext, by simp, by decide, hname⟩
  have hlexeme : TokenKind.functionHead.lexeme? head.toList = some head.toList.length := by
    have hback := his.functionHead?_append (r := []) fun c hc => by cases hc
    rwa [List.append_nil] at hback
  have hfirst := Token.first?_of_lone rfl hne hlexeme
  have hscan := Token.scanFrom_of_first? (r := []) hne (by rwa [List.append_nil]) rfl {}
  rw [List.append_nil, Token.scanFrom_nil] at hscan
  rw [Token.scan_eq, hscan, Token.ofChars, String.ofList_toList, Position.offset_after,
    String.ofList_toList]
  simp

/-! ## What the checker can refuse -/

namespace Program

theorem analyze_eq_error_iff {p : Program} {stop : Stop SemanticError} :
    p.analyze = .error stop ↔ (analyzeIn {} p).2 = some stop := by
  rw [analyze]
  rcases analyzeIn {} p with ⟨t, _ | stop'⟩ <;> simp

/-- **A program is refused for one of its bindings.** -/
theorem exists_violation_of_analyze {p : Program} {e : SemanticError}
    (h : p.analyze = .error (.refused e)) : ∃ b ∈ p.bindings, ∃ known, Violates known b e := by
  have hstop : analyzeIn {} p = ((analyzeIn {} p).1, some (.refused e)) :=
    Prod.ext rfl (analyze_eq_error_iff.1 h)
  obtain ⟨before, b, after, hbs, -, hb⟩ := SymbolTable.exists_violation hstop
  refine ⟨b, ?_, _, hb⟩
  rw [hbs]
  exact List.mem_append_right before (List.mem_cons_self ..)

end Program

/-- **Names and types mean the same to every phase.**  If the tokens of a source are read as a
program, the checker never refuses a data type, and it refuses a name only where a declaration has
an underscore in it; and every function of the program has one of the return types and an identifier
for a name, which are the one token of a function head when they are written with a space between
them. -/
theorem parse_vocabulary {source : String} {p : Program}
    (hp : Program.parse (Token.scan source) source = .ok p) :
    (∀ dataType name line,
      p.analyze ≠ .error (.refused (.invalidDataType dataType name line))) ∧
    (∀ name line, p.analyze = .error (.refused (.invalidName name line)) →
      '_' ∈ name.toList ∧ ∃ dataType value, .declare dataType name value line ∈ p.bindings) ∧
    ∀ s ∈ p.signatures, s.returnType ∈ ["none", "enum", "efl", "estr", "ebool"] ∧
      IsIdentifier s.name.toList ∧
      Token.scan ("f-" ++ s.returnType ++ " " ++ s.name) =
        [⟨.functionHead, "f-" ++ s.returnType ++ " " ++ s.name, 1, 1,
          some ⟨0, ("f-" ++ s.returnType ++ " " ++ s.name).utf8ByteSize⟩⟩] := by
  have hderives := Program.parse_eq_ok_iff.1 hp
  refine ⟨fun dataType name line h => ?_, fun name line h => ?_, fun s hs => ?_⟩
  · obtain ⟨b, hb, known, hviolates⟩ := Program.exists_violation_of_analyze h
    cases hviolates with
    | dataType _ htype =>
      obtain ⟨⟨t, ht, hk, rfl⟩, -⟩ := hderives.exists_declared hb
      exact htype (Token.mem_dataTypeNames_of_mem_scan ht hk)
  · obtain ⟨b, hb, known, hviolates⟩ := Program.exists_violation_of_analyze h
    cases hviolates with
    | name hname =>
      refine ⟨Classical.byContradiction fun hline => ?_, _, _, hb⟩
      obtain ⟨-, t, ht, hk, rfl⟩ := hderives.exists_declared hb
      exact hname ((Token.isName_of_mem_scan ht hk).isVariableName hline)
  · rw [hderives.signatures_eq] at hs
    obtain ⟨t, ht, hsome⟩ := List.mem_filterMap.1 hs
    obtain ⟨hk, hsome⟩ := Option.ite_none_right_eq_some.1 hsome
    obtain rfl := Option.some.inj hsome
    obtain ⟨type, htype, gap, name, -, hname, hsignature⟩ :=
      (Token.isFunctionHead_of_mem_scan ht hk).ofText
    rw [← String.toList_ofList (l := name)] at hname
    rw [hsignature]
    exact ⟨htype, hname, hname.scan_head htype⟩

/-- A function in a loop, a tab in its head, and a parameter that the checker refuses. -/
theorem parse_vocabulary_underscore :
    let source := "whilst (yup) \x7b f-efl\t g_1(enum v-a_b) \x7b \x7d \x7d"
    ∃ p, Program.parse (Token.scan source) source = .ok p ∧
      p.analyze = .error (.refused (.invalidName "v-a_b" 1)) ∧
      (∃ dataType value, .declare dataType "v-a_b" value 1 ∈ p.bindings) ∧
      p.signatures = [⟨"efl", "g_1"⟩] ∧
      Token.scan "f-efl g_1" = [⟨.functionHead, "f-efl g_1", 1, 1, some ⟨0, 9⟩⟩] := by
  intro source
  have hcheck : ((Program.parse (Token.scan source) source).toOption.any fun p =>
      decide ((Program.analyzeIn {} p).2 = some (.refused (.invalidName "v-a_b" 1))) &&
        decide (p.signatures = [⟨"efl", "g_1"⟩])) = true := by
    decide +kernel
  obtain ⟨p, hp, hcheck⟩ := exists_of_toOption_any hcheck
  obtain ⟨hanalyze, hsignatures⟩ := Bool.and_eq_true_iff.1 hcheck
  have hanalyze := Program.analyze_eq_error_iff.2 (of_decide_eq_true hanalyze)
  have hsignatures := of_decide_eq_true hsignatures
  obtain ⟨-, hname, hfunctions⟩ := parse_vocabulary hp
  have hfunction := hfunctions ⟨"efl", "g_1"⟩ (by simp [hsignatures])
  exact ⟨p, hp, hanalyze, (hname _ _ hanalyze).2, hsignatures, hfunction.2.2⟩

end Enigma
