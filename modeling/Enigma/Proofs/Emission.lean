import Enigma.Proofs.Literals
import Enigma.Proofs.Totality

/-!
# Proofs/Emission — the shape of generated code

Code is generated by threading counters.  What comes out has a plain shape: it is the code of the
program's actions in order, with marks between them — comments, labels, tests and jumps, on which
the machine does nothing.  Of the counters only the next free cell is left to speak of.

* `Computes` — the code of an expression, from one free cell to the next, and the operand it leaves;
* `Emits` — the code of actions in order; `Emits.append` puts two stretches together;
* `Expr.computes`, `Stmt.emits`, `Program.emits_of_generate` — what is generated has this shape;
* `wellFormed_of_compile`, `execute_lines_of_compile` — so the lines of a compiled source run as its
  instructions do.
-/

namespace Enigma

/-- The instructions that count the variable at an address up or down. -/
def Step.code (s : Step) (address : Nat) : List Instruction :=
  [.load (.memory address) "r1",
    .add (.immediate (if s.operator = "--" then "-1" else "1")) "r1" "r2",
    .store "r2" address]

/-- The code of an expression when cells are free from `n` on: what it leaves free, and the operand
that holds its value. -/
inductive Computes (t : SymbolTable) : Expr → Nat → List Instruction → Operand → Nat → Prop
  | literal (kind : LiteralKind) (text : String) (n : Nat) :
      Computes t (.literal kind text) n [] (.immediate (kind.written text)) n
  | ident {name : String} {s : Symbol} (hs : t.get? name = some s) (n : Nat) :
      Computes t (.ident name) n [] (.memory s.location) n
  | group {inner : Expr} {code : List Instruction} {o : Operand} {n n' : Nat}
      (h : Computes t inner n code o n') : Computes t (.group inner) n code o n'
  | sum {left right : Expr} {lcode rcode : List Instruction} {a b : Operand} {n n₁ n₂ : Nat}
      (hl : Computes t left n lcode a n₁) (hr : Computes t right n₁ rcode b n₂) (numerals : Bool)
      (hn : n₂ + wordSize < Number.addressLimit) :
      Computes t (.binary left "+" right) n (lcode ++ (rcode ++ sumCode numerals a b n₂))
        (.memory n₂) (n₂ + wordSize)
  | other {left right : Expr} {lcode rcode : List Instruction} {a b : Operand} {n n₁ n₂ : Nat}
      {operator : String} (hop : operator ≠ "+") (hl : Computes t left n lcode a n₁)
      (hr : Computes t right n₁ rcode b n₂) (text : String) :
      Computes t (.binary left operator right) n (lcode ++ (rcode ++ [.comment text])) a n₂

/-- An expression gives no cell back. -/
theorem Computes.le {t : SymbolTable} {e : Expr} {code : List Instruction} {o : Operand}
    {n n' : Nat} (h : Computes t e n code o n') : n ≤ n' := by
  induction h with
  | literal => exact Nat.le_refl _
  | ident => exact Nat.le_refl _
  | group _ ih => exact ih
  | sum _ _ _ _ ihl ihr => omega
  | other _ _ _ _ ihl ihr => omega

/-- The code of actions in order, with marks between them, when cells are free from `n` on. -/
inductive Emits (t : SymbolTable) : List Action → Nat → List Instruction → Nat → Prop
  | nil (n : Nat) : Emits t [] n [] n
  | mark {as : List Action} {i : Instruction} {code : List Instruction} {n n' : Nat}
      (hi : i.isMark = true) (hw : i.WellFormed) (h : Emits t as n code n') :
      Emits t as n (i :: code) n'
  | store {a : Action} {as : List Action} {name : String} {e : Expr} {s : Symbol}
      {code rest : List Instruction} {o : Operand} {n n₁ n₂ : Nat}
      (ha : a.target? = some (name, e)) (hs : t.get? name = some s) (he : Computes t e n code o n₁)
      (h : Emits t as n₁ rest n₂) :
      Emits t (a :: as) n (code ++ (s.dataType.storeCode o s.location ++ rest)) n₂
  | reserve {as : List Action} {code : List Instruction} {n n' : Nat} (p : Param)
      (h : Emits t as n code n') : Emits t (.reserve p :: as) n code n'
  | count {as : List Action} {step : Step} {s : Symbol} {code : List Instruction} {n n' : Nat}
      (hs : t.get? step.name = some s) (h : Emits t as n code n') :
      Emits t (.count step :: as) n (step.code s.location ++ code) n'

namespace Emits

variable {t : SymbolTable} {as bs : List Action} {code code' : List Instruction} {n n' n'' : Nat}

/-- **Stretches of code are put one behind the other.** -/
theorem append (h : Emits t as n code n') (h' : Emits t bs n' code' n'') :
    Emits t (as ++ bs) n (code ++ code') n'' := by
  induction h with
  | nil => exact h'
  | mark hi hw _ ih => exact .mark hi hw (ih h')
  | store ha hs he _ ih =>
    rw [List.append_assoc, List.append_assoc]
    exact .store ha hs he (ih h')
  | reserve p _ ih => exact .reserve p (ih h')
  | count hs _ ih =>
    rw [List.append_assoc]
    exact .count hs (ih h')

/-- Marks compute nothing and are emitted for no action. -/
theorem marks {is : List Instruction} (h : ∀ i ∈ is, i.isMark = true ∧ i.WellFormed) (n : Nat) :
    Emits t [] n is n := by
  induction is with
  | nil => exact .nil n
  | cons i is ih =>
    obtain ⟨⟨hi, hw⟩, his⟩ := List.forall_mem_cons.1 h
    exact .mark hi hw (ih his)

theorem reserves (params : List Param) (n : Nat) : Emits t (params.map .reserve) n [] n := by
  induction params with
  | nil => exact .nil n
  | cons p rest ih => exact .reserve p ih

end Emits

/-! ## What is generated has this shape -/

theorem Expr.generate_literal (t : SymbolTable) (kind : LiteralKind) (text : String) :
    (Expr.literal kind text).generate t = pure ([], .immediate (kind.written text)) := by
  cases kind <;> rfl

/-- **The code of an expression**, as it is generated. -/
theorem Expr.computes {t : SymbolTable} {e : Expr} {c c' : Counters} {code : List Instruction}
    {o : Operand} (h : e.generate t c = .ok ((code, o), c')) :
    Computes t e c.temporaries.next code o c'.temporaries.next := by
  induction e generalizing c c' code o with
  | literal kind text =>
    rw [generate_literal, Gen.pure_eq_ok] at h
    obtain ⟨hr, rfl⟩ := h
    obtain ⟨rfl, rfl⟩ := Prod.mk.inj hr
    exact .literal kind text _
  | ident name =>
    simp only [generate, Gen.bind_eq_ok, Gen.symbol_eq_ok, Gen.pure_eq_ok, Prod.mk.injEq] at h
    obtain ⟨s, _, ⟨hs, rfl⟩, ⟨rfl, rfl⟩, rfl⟩ := h
    exact .ident hs _
  | group inner ih => exact .group (ih h)
  | binary left operator right ihl ihr =>
    simp only [generate, Gen.bind_eq_ok] at h
    obtain ⟨⟨lcode, a⟩, c₁, hl, ⟨rcode, b⟩, c₂, hr, h⟩ := h
    have hl' := ihl hl
    have hr' := ihr hr
    by_cases hop : operator = "+"
    · subst hop
      simp only [if_true, Gen.bind_eq_ok, Gen.temporary_eq_ok] at h
      obtain ⟨cell, _, ⟨hn, rfl, rfl⟩, h⟩ := h
      -- the two forms of a sum differ in one flag
      have hsum : ∃ numerals, code = lcode ++ rcode ++ sumCode numerals a b c₂.temporaries.next ∧
          o = .memory c₂.temporaries.next ∧
          c'.temporaries.next = c₂.temporaries.next + wordSize := by
        cases hx : left.numeral? <;> cases hy : right.numeral? <;>
          simp only [hx, hy, Gen.bind_eq_ok, Gen.fold_eq_ok, Gen.pure_eq_ok, Prod.mk.injEq] at h
        case some.some =>
          obtain ⟨_, _, rfl, ⟨rfl, rfl⟩, rfl⟩ := h
          exact ⟨true, rfl, rfl, rfl⟩
        all_goals
          obtain ⟨⟨rfl, rfl⟩, rfl⟩ := h
          exact ⟨false, rfl, rfl, rfl⟩
      obtain ⟨numerals, rfl, rfl, hc'⟩ := hsum
      rw [hc', List.append_assoc]
      exact .sum hl' hr' numerals hn
    · simp only [if_neg hop, Gen.pure_eq_ok, Prod.mk.injEq] at h
      obtain ⟨⟨rfl, rfl⟩, rfl⟩ := h
      rw [List.append_assoc]
      exact .other hop hl' hr' _

/-- One action that stores a value. -/
theorem Emits.single {t : SymbolTable} {a : Action} {name : String} {e : Expr} {s : Symbol}
    {code : List Instruction} {o : Operand} {n n' : Nat} (ha : a.target? = some (name, e))
    (hs : t.get? name = some s) (he : Computes t e n code o n') :
    Emits t [a] n (code ++ s.dataType.storeCode o s.location) n' := by
  have h := Emits.store ha hs he (.nil n')
  rwa [List.append_nil] at h

/-- **A declaration emits** its value and the store behind it. -/
theorem Declaration.emits {t : SymbolTable} {d : Declaration} {c c' : Counters}
    {code : List Instruction} (h : d.generate t c = .ok (code, c')) :
    Emits t [.declare d] c.temporaries.next code c'.temporaries.next := by
  simp only [Declaration.generate, Gen.bind_eq_ok, Gen.variableCell_eq_ok, Gen.symbol_eq_ok,
    Gen.pure_eq_ok] at h
  obtain ⟨cell, _, ⟨-, hcell, rfl, rfl⟩, s, _, ⟨hs, rfl⟩, ⟨vcode, o⟩, _, hv, rfl, rfl⟩ := h
  have hlocation : s.location = c.memory.next := by
    rw [SymbolTable.location?, hs] at hcell
    exact Option.some.inj hcell
  have hcomputes := Expr.computes hv
  rw [← hlocation]
  exact .single rfl hs hcomputes

/-- **A step emits** its sum and no expression. -/
theorem Step.emits {t : SymbolTable} {step : Step} {c c' : Counters} {code : List Instruction}
    (h : step.generate t c = .ok (code, c')) :
    Emits t [.count step] c.temporaries.next code c'.temporaries.next := by
  simp only [Step.generate, Gen.bind_eq_ok, Gen.symbol_eq_ok, Gen.pure_eq_ok] at h
  obtain ⟨s, _, ⟨hs, rfl⟩, rfl, rfl⟩ := h
  exact .count hs (.nil _)

/-- Parameters take no cells for sums. -/
theorem Gen.reserve_eq_ok {t : SymbolTable} {params : List Param} {c c' : Counters} {u : Unit}
    (h : (params.forM fun p => discard (Gen.variableCell t p.name)) c = .ok (u, c')) :
    c'.temporaries = c.temporaries := by
  induction params generalizing c with
  | nil =>
    obtain ⟨-, rfl⟩ := Gen.pure_eq_ok.1 h
    rfl
  | cons p rest ih =>
    obtain ⟨u₁, c₁, hp, hrest⟩ := Gen.bind_eq_ok.1 h
    change (Gen.variableCell t p.name >>= fun _ => pure ()) c = .ok (u₁, c₁) at hp
    obtain ⟨_, _, hcell, hpure⟩ := Gen.bind_eq_ok.1 hp
    obtain ⟨-, rfl⟩ := Gen.pure_eq_ok.1 hpure
    obtain ⟨-, -, -, rfl⟩ := Gen.variableCell_eq_ok.1 hcell
    have htail := ih hrest
    exact htail

/-- Labels that are numbered are words. -/
theorem wellFormed_label (n : Nat) : (Instruction.label ("L" ++ toString n)).WellFormed := by
  have hsolid := (isNumeral_toString n).all_isSolid
  rw [List.all_eq_true] at hsolid
  rw [Instruction.WellFormed, String.toList_append, List.all_append, Bool.and_eq_true_iff]
  refine ⟨by decide, List.all_eq_true.2 fun c hc => ?_⟩
  rw [(Line.isSolid_iff.1 (hsolid c hc)).1]
  rfl

theorem BranchKind.isMark_header (kind : BranchKind) (condition : Option Expr) :
    ∀ i ∈ kind.header condition, i.isMark = true ∧ i.WellFormed := by
  cases condition <;> simp [header, Instruction.isMark, Instruction.WellFormed]

mutual

/-- **The code of a statement**, as it is generated. -/
theorem Stmt.emits {t : SymbolTable} {loop : Option LoopLabels} :
    ∀ {s : Stmt} {c c' : Counters} {code : List Instruction}, s.generate t loop c = .ok (code, c') →
      Emits t s.actions c.temporaries.next code c'.temporaries.next
  | .declare _, _, _, _, h => Declaration.emits h
  | .assign name value _, c, c', code, h => by
    simp only [Stmt.generate, Gen.bind_eq_ok, Gen.symbol_eq_ok, Gen.pure_eq_ok] at h
    obtain ⟨s, _, ⟨hs, rfl⟩, ⟨vcode, o⟩, _, hv, rfl, rfl⟩ := h
    exact .single rfl hs (Expr.computes hv)
  | .conditional _, _, _, _, h => branches_emit h
  | .iterate init _ step body _, c, c', code, h => by
    simp only [Stmt.generate, Gen.bind_eq_ok, Gen.label_eq_ok, Gen.pure_eq_ok] at h
    obtain ⟨icode, _, hinit, _, _, ⟨-, rfl, rfl⟩, _, _, ⟨-, rfl, rfl⟩, _, _, ⟨-, rfl, rfl⟩, bcode,
      _, hbody, scode, _, hstep, rfl, rfl⟩ := h
    have hi := Declaration.emits hinit
    have hb := block_emits hbody
    have hs := Step.emits hstep
    simp only [List.append_assoc]
    exact .mark rfl trivial (hi.append (.mark rfl (wellFormed_label _) (.mark rfl trivial
      (.mark rfl trivial (hb.append (.mark rfl (wellFormed_label _) (hs.append (.mark rfl trivial
        (.mark rfl (wellFormed_label _) (.mark rfl trivial (.nil _)))))))))))
  | .whilst _ body _, c, c', code, h => by
    simp only [Stmt.generate, Gen.bind_eq_ok, Gen.label_eq_ok, Gen.pure_eq_ok] at h
    obtain ⟨_, _, ⟨-, rfl, rfl⟩, _, _, ⟨-, rfl, rfl⟩, bcode, _, hbody, rfl, rfl⟩ := h
    have hb := block_emits hbody
    rw [Stmt.actions, List.append_assoc, ← List.append_nil (blockActions body)]
    exact .mark rfl trivial (.mark rfl (wellFormed_label _) (.mark rfl trivial (.mark rfl trivial
      (hb.append (.mark rfl trivial (.mark rfl (wellFormed_label _) (.mark rfl trivial
        (.nil _))))))))
  | .function _ params body, c, c', code, h => by
    simp only [Stmt.generate, Gen.bind_eq_ok, Gen.pure_eq_ok] at h
    obtain ⟨_, c₁, hparams, bcode, _, hbody, rfl, rfl⟩ := h
    have hp : Emits t (params.map .reserve) c.temporaries.next [] c₁.temporaries.next := by
      rw [Gen.reserve_eq_ok hparams]
      exact .reserves params _
    have hb := block_emits hbody
    rw [Stmt.actions, List.append_assoc, ← List.append_nil (blockActions body)]
    exact .mark rfl trivial (hp.append (hb.append (.mark rfl trivial (.nil _))))
  | .leave _, c, c', code, h => by
    cases loop with
    | none => simp [Stmt.generate] at h
    | some labels =>
      obtain ⟨rfl, rfl⟩ := Gen.pure_eq_ok.1 h
      exact .mark rfl trivial (.nil _)
  | .resume _, c, c', code, h => by
    cases loop with
    | none => simp [Stmt.generate] at h
    | some labels =>
      obtain ⟨rfl, rfl⟩ := Gen.pure_eq_ok.1 h
      exact .mark rfl trivial (.nil _)

/-- An arm emits its block between marks. -/
theorem Branch.emits {t : SymbolTable} {loop : Option LoopLabels} :
    ∀ {b : Branch} {c c' : Counters} {code : List Instruction},
      b.generate t loop c = .ok (code, c') →
      Emits t b.actions c.temporaries.next code c'.temporaries.next
  | .mk kind condition body _, c, c', code, h => by
    simp only [Branch.generate, Gen.bind_eq_ok, Gen.pure_eq_ok] at h
    obtain ⟨bcode, _, hbody, rfl, rfl⟩ := h
    exact (Emits.marks (kind.isMark_header condition) _).append (block_emits hbody)

/-- **The code of statements in a row**, as it is generated. -/
theorem block_emits {t : SymbolTable} {loop : Option LoopLabels} :
    ∀ {body : List Stmt} {c c' : Counters} {code : List Instruction},
      generateBlock t loop body c = .ok (code, c') →
      Emits t (blockActions body) c.temporaries.next code c'.temporaries.next
  | [], _, _, _, h => by
    obtain ⟨rfl, rfl⟩ := Gen.pure_eq_ok.1 h
    exact .nil _
  | s :: rest, c, c', code, h => by
    simp only [generateBlock, Gen.bind_eq_ok, Gen.pure_eq_ok] at h
    obtain ⟨scode, _, hs, rcode, _, hrest, rfl, rfl⟩ := h
    exact (Stmt.emits hs).append (block_emits hrest)

/-- Arms in a row emit one after the other. -/
theorem branches_emit {t : SymbolTable} {loop : Option LoopLabels} :
    ∀ {branches : List Branch} {c c' : Counters} {code : List Instruction},
      generateBranches t loop branches c = .ok (code, c') →
      Emits t (branchesActions branches) c.temporaries.next code c'.temporaries.next
  | [], _, _, _, h => by
    obtain ⟨rfl, rfl⟩ := Gen.pure_eq_ok.1 h
    exact .nil _
  | b :: rest, c, c', code, h => by
    simp only [generateBranches, Gen.bind_eq_ok, Gen.pure_eq_ok] at h
    obtain ⟨bcode, _, hb, rcode, _, hrest, rfl, rfl⟩ := h
    exact (Branch.emits hb).append (branches_emit hrest)

end

/-- **The code of a program** is the code of its actions, with cells free behind its variables. -/
theorem Program.emits_of_generate {t : SymbolTable} {p : Program} {g : Generated}
    (h : p.generate t = .ok g) : ∃ n, Emits t p.actions t.nextLocation g.instructions n := by
  obtain ⟨c, -, hblock⟩ := Program.generate_eq_ok_iff.1 h
  exact ⟨_, block_emits hblock⟩

/-! ## Generated code is well-formed -/

theorem SymbolTable.Valid.location_lt_limit {t : SymbolTable} (ht : t.Valid) {name : String}
    {s : Symbol} (hs : t.get? name = some s) : s.location < Number.addressLimit := by
  exact Nat.lt_trans (ht.location_lt (SymbolTable.mem_of_get? hs).1) ht.bound

/-- The code of a sum is well-formed if its operands are. -/
theorem wellFormed_sumCode {a b : Operand} {cell : Nat} (numerals : Bool) (ha : a.WellFormed)
    (hb : b.WellFormed) (hcell : cell < Number.addressLimit) :
    ∀ i ∈ sumCode numerals a b cell, i.WellFormed := by
  have hr1 : isRegister "r1" = true := by decide
  have hr2 : isRegister "r2" = true := by decide
  have hr3 : isRegister "r3" = true := by decide
  have hreg : (Operand.register "r2").WellFormed := .register hr2
  cases numerals <;>
    simp [sumCode, Instruction.WellFormed, ha, hb, hr1, hr2, hr3, hcell, hreg]

/-- **The code of an expression is well-formed**, and so is the operand it leaves. -/
theorem Computes.wellFormed {t : SymbolTable} {e : Expr} {code : List Instruction} {o : Operand}
    {n n' : Nat} (h : Computes t e n code o n') (ht : t.Valid) (he : e.Shaped) :
    (∀ i ∈ code, i.WellFormed) ∧ o.WellFormed := by
  induction h with
  | literal kind text n =>
    exact ⟨by simp, (he kind text (List.mem_singleton_self _)).wellFormed⟩
  | ident hs n => exact ⟨by simp, .memory (ht.location_lt_limit hs)⟩
  | group _ ih => exact ih he
  | sum hl hr numerals hn ihl ihr =>
    obtain ⟨hlcode, ha⟩ := ihl fun kind text hmem => he kind text (List.mem_append_left _ hmem)
    obtain ⟨hrcode, hb⟩ := ihr fun kind text hmem => he kind text (List.mem_append_right _ hmem)
    have hcell : _ < Number.addressLimit := Nat.lt_of_le_of_lt (Nat.le_add_right _ _) hn
    refine ⟨List.forall_mem_append.2 ⟨hlcode, List.forall_mem_append.2 ⟨hrcode, ?_⟩⟩, .memory hcell⟩
    exact wellFormed_sumCode numerals ha hb hcell
  | other _ hl hr text ihl ihr =>
    obtain ⟨hlcode, ha⟩ := ihl fun kind text hmem => he kind text (List.mem_append_left _ hmem)
    obtain ⟨hrcode, -⟩ := ihr fun kind text hmem => he kind text (List.mem_append_right _ hmem)
    refine ⟨List.forall_mem_append.2 ⟨hlcode, List.forall_mem_append.2 ⟨hrcode, ?_⟩⟩, ha⟩
    exact List.forall_mem_singleton.2 trivial

/-- The code of a store is well-formed if its operand is, whatever the data type. -/
theorem wellFormed_storeCode (type : DataType) {o : Operand} {address : Nat} (ho : o.WellFormed)
    (ha : address < Number.addressLimit) : ∀ i ∈ type.storeCode o address, i.WellFormed := by
  have hr1 : isRegister "r1" = true := by decide
  have hfr1 : isRegister "fr1" = true := by decide
  cases type with
  | integer => simp [DataType.storeCode, Instruction.WellFormed, ho, hr1, ha]
  | real => simp [DataType.storeCode, Instruction.WellFormed, ho, hfr1, ha]
  | boolean =>
    have hboolean : o.toBoolean.WellFormed := by
      cases o with
      | immediate text =>
        rw [Operand.toBoolean]
        split <;> exact .numeral ⟨by simp, by decide⟩
      | memory _ => exact ho
      | register _ => exact ho
    simp [DataType.storeCode, Instruction.WellFormed, hboolean, hr1, ha]
  | string =>
    cases o with
    | immediate text => simp [DataType.storeCode, Instruction.WellFormed, ho.not_mem_unquoted, ha]
    | memory _ => simp [DataType.storeCode, Instruction.WellFormed, ho, ha]
    | register _ => simp [DataType.storeCode, Instruction.WellFormed, ho, ha]

theorem Step.wellFormed_code (step : Step) {address : Nat} (ha : address < Number.addressLimit) :
    ∀ i ∈ step.code address, i.WellFormed := by
  have hdelta : (Operand.immediate (if step.operator = "--" then "-1" else "1")).WellFormed := by
    split <;> exact .numeral ⟨by simp, by decide⟩
  -- a step is the sum of a cell and a numeral, left in the same cell
  exact wellFormed_sumCode true (.memory ha) hdelta ha

/-- **The code of actions is well-formed** if their literals look as they should. -/
theorem Emits.wellFormed {t : SymbolTable} {as : List Action} {code : List Instruction} {n n' : Nat}
    (h : Emits t as n code n') (ht : t.Valid)
    (has : ∀ a ∈ as, ∀ name e, a.target? = some (name, e) → e.Shaped) :
    ∀ i ∈ code, i.WellFormed := by
  induction h with
  | nil => simp
  | mark _ hw _ ih => exact List.forall_mem_cons.2 ⟨hw, ih has⟩
  | @store a _ name e s _ _ _ _ _ _ ha hs he _ ih =>
    obtain ⟨hcode, ho⟩ := he.wellFormed ht (has a (List.mem_cons_self ..) name e ha)
    refine List.forall_mem_append.2 ⟨hcode, List.forall_mem_append.2 ⟨?_, ?_⟩⟩
    · exact wellFormed_storeCode s.dataType ho (ht.location_lt_limit hs)
    · exact ih fun a' ha' => has a' (List.mem_cons_of_mem _ ha')
  | reserve p _ ih => exact ih fun a' ha' => has a' (List.mem_cons_of_mem _ ha')
  | @count _ step s _ _ _ hs _ ih =>
    refine List.forall_mem_append.2 ⟨step.wellFormed_code (ht.location_lt_limit hs), ?_⟩
    exact ih fun a' ha' => has a' (List.mem_cons_of_mem _ ha')

/-! ## Compiled sources -/

section Compiled

variable {source : String} {optimize : Bool} {c : Compilation}
  (hc : compile source optimize = .ok c)

include hc

/-- **The code of a program emits its actions.** -/
theorem emits_of_compile : ∃ n, Emits c.table c.program.actions c.table.nextLocation c.code n :=
  Program.emits_of_generate (compile_eq_ok_iff.1 hc).2.2.1

/-- **The literals of a compiled program** are tokens of its source. -/
theorem literals_of_compile :
    Token.scan source = c.tokens ∧ ActionsFrom c.tokens c.program.actions := by
  obtain ⟨-, hscan, hparse⟩ := readSource_eq_ok_iff.1 (compile_eq_ok_iff.1 hc).1
  exact ⟨hscan, (Program.parse_eq_ok_iff.1 hparse).literals⟩

theorem shaped_of_compile :
    ∀ a ∈ c.program.actions, ∀ name e, a.target? = some (name, e) → e.Shaped := by
  obtain ⟨hscan, hliterals⟩ := literals_of_compile hc
  intro a ha name e htarget
  have hfrom := hliterals a ha name e htarget
  rw [← hscan] at hfrom
  exact hfrom.shaped

/-- **Compiled code is well-formed.** -/
theorem wellFormed_of_compile : ∀ i ∈ c.code, i.WellFormed := by
  obtain ⟨n, hemits⟩ := emits_of_compile hc
  have hvalid := Program.valid_of_analyze (compile_eq_ok_iff.1 hc).2.1
  exact hemits.wellFormed hvalid (shaped_of_compile hc)

/-- **The lines of a compiled source run as its instructions do.** -/
theorem execute_lines_of_compile :
    execute c.lines = (Machine.exec {} c.code).map Machine.memory := by
  rw [Compilation.lines, execute, Machine.run_text (wellFormed_of_compile hc)]

end Compiled

end Enigma
