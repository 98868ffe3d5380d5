import Enigma.Proofs.Lifetimes

/-!
# Proofs/Folding — the sum that is known beforehand is the sum that is computed

While code is generated, the sum of two numerals is worked out at once and the last one is kept.
The code is generated all the same, and it leaves that sum in the cell of the addition.

A numeral need not have a value, for there are digits that no number is read from.  Such an addition
is passed over, and an older sum stays; but its code cannot be run.

* `Expr.additions`, `Program.additions` — the additions of a program in the order of their cells;
* `Folds` — what becomes of the sum that is kept; `block_folds`, `Program.folded_of_generate`;
* `SumsAt` — code that has each addition at its cell; `Computes.sumsAt`, `Emits.sumsAt`;
* `exists_last_of_foldl` — whose sum is kept, if any is;
* `compile_folded_computed` — what is left in that cell when the code is run.
-/

namespace Enigma

/-! ## Additions in order -/

/-- The operands of the additions in an expression, in the order in which they are computed. -/
def Expr.additions : Expr → List (Expr × Expr)
  | .literal _ _ => []
  | .ident _ => []
  | .binary left operator right =>
    left.additions ++ (right.additions ++ if operator = "+" then [(left, right)] else [])
  | .group inner => inner.additions

/-- The operands of the additions in the value that is computed. -/
def Action.additions (a : Action) : List (Expr × Expr) :=
  (a.target?.map fun target => target.2.additions).getD []

/-- The operands of the additions in the values that a program declares or assigns. -/
def Program.additions (p : Program) : List (Expr × Expr) := p.actions.flatMap Action.additions

/-- An expression has as many additions as sums are counted in it. -/
theorem Expr.length_additions (e : Expr) : e.additions.length = e.sums := by
  induction e with
  | literal | ident => rfl
  | group inner ih => exact ih
  | binary left operator right ihl ihr =>
    rw [additions, sums, List.length_append, List.length_append, ihl, ihr, Nat.add_assoc]
    split <;> rfl

/-- Actions have as many additions as sums are counted in them. -/
theorem length_additions_of_actions (as : List Action) :
    (as.flatMap Action.additions).length = sumsOf as := by
  induction as with
  | nil => rfl
  | cons a as ih =>
    have ha : a.additions.length = a.sums := by
      unfold Action.additions Action.sums
      cases a.target? with
      | none => rfl
      | some target => exact target.2.length_additions
    rw [List.flatMap_cons, List.length_append, ha, ih, sumsOf]

/-- Both operands are numerals, as they are written. -/
def IsNumeralSum (sum : Expr × Expr) : Prop :=
  ∃ x y, sum = (.literal .number x, .literal .number y)

/-! ## The sum that is kept -/

/-- The sum that is kept behind an addition: that of its operands if they are numerals with values,
and the one from before otherwise. -/
def refold (kept : Option Value) (sum : Expr × Expr) : Option Value :=
  match sum.1.numeral?, sum.2.numeral? with
  | some x, some y => x.add? y
  | _, _ => kept

/-- Generating something with these additions leaves the sum that they leave. -/
def Folds {α : Type} (sums : List (Expr × Expr)) (x : Gen α) : Prop :=
  ∀ c a c', x c = .ok (a, c') → c'.folded = sums.foldl refold c.folded

namespace Folds

variable {α β : Type} {l k : List (Expr × Expr)} {t : SymbolTable}

/-- What generates nothing leaves the sum that was kept. -/
theorem pure (a : α) : Folds [] (pure a) := by
  intro c b c' h
  obtain ⟨-, rfl⟩ := Gen.pure_eq_ok.1 h
  rfl

/-- **Parts fold one after the other**, from the sum that the first leaves. -/
theorem bind {x : Gen α} {f : α → Gen β} (hx : Folds l x) (hf : ∀ a, Folds k (f a)) :
    Folds (l ++ k) (x >>= f) := by
  intro c b c' h
  obtain ⟨a, c₁, hxc, hfc⟩ := Gen.bind_eq_ok.1 h
  rw [hf a c₁ b c' hfc, hx c a c₁ hxc, List.foldl_append]

theorem of_eq {x : Gen α} (h : Folds l x) (heq : l = k) : Folds k x := heq ▸ h

/-- What fails leaves no sum to speak of. -/
theorem fail (fault : Fault) : Folds l (Gen.fail fault : Gen α) := by
  intro c a c' h
  exact absurd h (by simp)

theorem label : Folds [] Gen.label := by
  intro c name c' h
  obtain ⟨-, -, rfl⟩ := Gen.label_eq_ok.1 h
  rfl

theorem temporary : Folds [] Gen.temporary := by
  intro c cell c' h
  obtain ⟨-, -, rfl⟩ := Gen.temporary_eq_ok.1 h
  rfl

theorem variableCell (name : String) : Folds [] (Gen.variableCell t name) := by
  intro c cell c' h
  obtain ⟨-, -, -, rfl⟩ := Gen.variableCell_eq_ok.1 h
  rfl

theorem symbol (name : String) : Folds [] (Gen.symbol t name) := by
  intro c s c' h
  obtain ⟨-, rfl⟩ := Gen.symbol_eq_ok.1 h
  rfl

/-- An addition without two numerals keeps the sum there was. -/
theorem skip {x : Gen α} {sum : Expr × Expr} (hx : Folds [] x)
    (h : ∀ kept, refold kept sum = kept) : Folds [sum] x := by
  intro c a c' hc
  rw [hx c a c' hc, List.foldl_cons, h]

/-- Parameters have cells and no additions. -/
theorem reserve (params : List Param) :
    Folds [] (params.forM fun p => discard (Gen.variableCell t p.name)) := by
  induction params with
  | nil => exact pure ()
  | cons p rest ih =>
    have hcell : Folds [] (discard (Gen.variableCell t p.name)) :=
      (variableCell p.name).bind (k := []) fun _ => pure ()
    exact hcell.bind (k := []) fun _ => ih

end Folds

/-! What is generated folds its additions, part by part. -/

/-- An operand that is no numeral, or one without a value, keeps the sum from before. -/
theorem refold_eq_kept {left right : Expr}
    (h : ∀ x y, left.numeral? = some x → right.numeral? = some y → False) (kept : Option Value) :
    refold kept (left, right) = kept := by
  unfold refold
  split
  · exact (h _ _ ‹_› ‹_›).elim
  · rfl

/-- **An expression folds its additions.** -/
theorem Expr.folds (t : SymbolTable) (e : Expr) : Folds e.additions (e.generate t) := by
  induction e with
  | literal kind text => cases kind <;> exact .pure _
  | ident name => exact (Folds.symbol name).bind fun _ => .pure _
  | group inner ih => exact ih
  | binary left operator right ihl ihr =>
    refine ihl.bind fun l => ihr.bind fun r => ?_
    by_cases hop : operator = "+"
    · simp only [if_pos hop]
      refine Folds.temporary.bind fun cell => ?_
      split
      · rename_i x y hx hy
        refine Folds.of_eq (l := [(left, right)] ++ []) (Folds.bind ?_ fun _ => .pure _) rfl
        intro c u c' h
        obtain rfl := Gen.fold_eq_ok.1 h
        simp only [List.foldl_cons, List.foldl_nil, refold, hx, hy]
      · rename_i hnone
        exact (Folds.pure _).skip (refold_eq_kept hnone)
    · simp only [if_neg hop]
      exact .pure _

/-- A declaration folds the additions of its value. -/
theorem Declaration.folds (t : SymbolTable) (d : Declaration) :
    Folds (Action.declare d).additions (d.generate t) :=
  ((Folds.variableCell d.name).bind fun _ => (Folds.symbol d.name).bind fun _ =>
    (d.value.folds t).bind fun _ => .pure _).of_eq (List.append_nil _)

/-- **A step folds nothing**, though its code adds. -/
theorem Step.folds (t : SymbolTable) (s : Step) : Folds [] (s.generate t) :=
  (Folds.symbol s.name).bind fun _ => .pure _

theorem additions_reserve (params : List Param) :
    (params.map Action.reserve).flatMap Action.additions = [] := by
  simp [Action.additions, Action.target?]

mutual

/-- **A statement folds its additions.** -/
theorem Stmt.folds (t : SymbolTable) (loop : Option LoopLabels) :
    ∀ s : Stmt, Folds (s.actions.flatMap Action.additions) (s.generate t loop)
  | .declare d => (d.folds t).of_eq (by simp [Stmt.actions])
  | .assign name value _ => ((Folds.symbol name).bind fun _ =>
      (value.folds t).bind fun _ => .pure _).of_eq
    (by simp [Stmt.actions, Action.additions, Action.target?])
  | .conditional branches => branches_fold t loop branches
  | .iterate init _ step body _ => ((init.folds t).bind fun _ => Folds.label.bind fun _ =>
      Folds.label.bind fun _ => Folds.label.bind fun _ =>
      (block_folds t (some _) body).bind fun _ => (step.folds t).bind fun _ => .pure _).of_eq
    (by simp [Stmt.actions, Action.additions, Action.target?])
  | .whilst _ body _ => (Folds.label.bind fun _ => Folds.label.bind fun _ =>
      (block_folds t (some _) body).bind fun _ => .pure _).of_eq (by simp [Stmt.actions])
  | .function _ params body => ((Folds.reserve params).bind fun _ =>
      (block_folds t loop body).bind fun _ => .pure _).of_eq
    (by simp [Stmt.actions, additions_reserve])
  | .leave _ => by
    cases loop with
    | none => exact .fail _
    | some labels => exact .pure _
  | .resume _ => by
    cases loop with
    | none => exact .fail _
    | some labels => exact .pure _

/-- An arm folds the additions of its block and not those of its condition. -/
theorem Branch.folds (t : SymbolTable) (loop : Option LoopLabels) :
    ∀ b : Branch, Folds (b.actions.flatMap Action.additions) (b.generate t loop)
  | .mk _ _ body _ => ((block_folds t loop body).bind fun _ => .pure _).of_eq
    (by simp [Branch.actions])

/-- **Statements in a row fold their additions.** -/
theorem block_folds (t : SymbolTable) (loop : Option LoopLabels) :
    ∀ body : List Stmt, Folds ((blockActions body).flatMap Action.additions)
      (generateBlock t loop body)
  | [] => .pure _
  | s :: rest => ((s.folds t loop).bind fun _ => (block_folds t loop rest).bind fun _ =>
      .pure _).of_eq (by simp [blockActions])

/-- Arms in a row fold their additions, arm by arm. -/
theorem branches_fold (t : SymbolTable) (loop : Option LoopLabels) :
    ∀ branches : List Branch, Folds ((branchesActions branches).flatMap Action.additions)
      (generateBranches t loop branches)
  | [] => .pure _
  | b :: rest => ((b.folds t loop).bind fun _ => (branches_fold t loop rest).bind fun _ =>
      .pure _).of_eq (by simp [branchesActions])

end

/-- **What is kept behind a program** is what its additions leave. -/
theorem Program.folded_of_generate {t : SymbolTable} {p : Program} {g : Generated}
    (h : p.generate t = .ok g) : g.folded = p.additions.foldl refold none := by
  obtain ⟨c, hfolded, hblock⟩ := Program.generate_eq_ok_iff.1 h
  rw [hfolded]
  exact block_folds t none p _ _ _ hblock

/-- Only a number that stands alone is a numeral. -/
theorem Expr.eq_of_numeral? {e : Expr} {v : Value} (h : e.numeral? = some v) :
    ∃ text, e = .literal .number text := by
  unfold numeral? at h
  split at h
  · exact ⟨_, rfl⟩
  · cases h

/-- **The sum that is kept** is that of the last two numerals, unless one of those has no value. -/
theorem exists_last_of_foldl {sums : List (Expr × Expr)} {kept : Option Value} {v : Value}
    (h : sums.foldl refold kept = some v) :
    (kept = some v ∧ ∀ sum ∈ sums, ¬ IsNumeralSum sum) ∨
    ∃ i x y, sums[i]? = some (.literal .number x, .literal .number y) ∧
      (∀ sum ∈ sums.drop (i + 1), ¬ IsNumeralSum sum) ∧
      ∀ a b, Value.ofLiteral? .number x = some a → Value.ofLiteral? .number y = some b →
        a.add? b = some v := by
  induction sums generalizing kept with
  | nil => exact .inl ⟨h, by simp⟩
  | cons sum sums ih =>
    rcases ih h with ⟨hkept, hnone⟩ | ⟨i, x, y, hi, hlater, hsum⟩
    · by_cases hnumerals : IsNumeralSum sum
      · obtain ⟨x, y, rfl⟩ := hnumerals
        refine .inr ⟨0, x, y, rfl, hnone, fun a b ha hb => ?_⟩
        simpa only [refold, Expr.numeral?, ha, hb] using hkept
      · refine .inl ⟨?_, List.forall_mem_cons.2 ⟨hnumerals, hnone⟩⟩
        rw [refold_eq_kept fun a b ha hb => ?_] at hkept
        · exact hkept
        · obtain ⟨x, hx⟩ := Expr.eq_of_numeral? ha
          obtain ⟨y, hy⟩ := Expr.eq_of_numeral? hb
          exact hnumerals ⟨x, y, Prod.ext hx hy⟩
    · exact .inr ⟨i + 1, x, y, hi, hlater, hsum⟩

/-! ## The code of additions -/

/-- The code adds the operands of this addition into the cell. -/
def SumAt (t : SymbolTable) (code : List Instruction) (sum : Expr × Expr) (cell : Nat) : Prop :=
  ∃ before after numerals a b, code = before ++ (sumCode numerals a b cell ++ after) ∧
    (∃ n lcode n', Computes t sum.1 n lcode a n') ∧ ∃ n rcode n', Computes t sum.2 n rcode b n'

/-- The code makes these additions, each into a cell of its own from `n` on. -/
def SumsAt (t : SymbolTable) (code : List Instruction) (sums : List (Expr × Expr)) (n : Nat) :
    Prop :=
  ∀ k sum, sums[k]? = some sum → SumAt t code sum (n + wordSize * k)

namespace SumsAt

variable {t : SymbolTable} {code : List Instruction} {xs ys : List (Expr × Expr)} {n : Nat}

theorem nil : SumsAt t code [] n := by
  intro k sum hk
  simp at hk

/-- **Additions in two parts** have cells in one row. -/
theorem append (hxs : SumsAt t code xs n) (hys : SumsAt t code ys (n + wordSize * xs.length)) :
    SumsAt t code (xs ++ ys) n := by
  intro k sum hk
  rcases Nat.lt_or_ge k xs.length with hlt | hge
  · rw [List.getElem?_append_left hlt] at hk
    exact hxs k sum hk
  · rw [List.getElem?_append_right hge] at hk
    have hcell : n + wordSize * xs.length + wordSize * (k - xs.length) = n + wordSize * k := by
      simp only [wordSize]
      omega
    have hsum := hys _ sum hk
    rwa [hcell] at hsum

/-- Additions stay where they are inside more code. -/
theorem within (h : SumsAt t code xs n) (before after : List Instruction) :
    SumsAt t (before ++ (code ++ after)) xs n := by
  intro k sum hk
  obtain ⟨before', after', numerals, a, b, rfl, ha, hb⟩ := h k sum hk
  exact ⟨before ++ before', after' ++ after, numerals, a, b, by simp only [List.append_assoc],
    ha, hb⟩

end SumsAt

/-- An expression takes one cell for each of its additions. -/
theorem Computes.next_eq {t : SymbolTable} {e : Expr} {code : List Instruction} {o : Operand}
    {n n' : Nat} (h : Computes t e n code o n') : n' = n + wordSize * e.additions.length := by
  rw [e.length_additions]
  exact h.filledCells_eq.2

/-- **An expression makes its additions in order.** -/
theorem Computes.sumsAt {t : SymbolTable} {e : Expr} {code : List Instruction} {o : Operand}
    {n n' : Nat} (h : Computes t e n code o n') : SumsAt t code e.additions n := by
  induction h with
  | literal | ident => exact .nil
  | group _ ih => exact ih
  | @sum left right lcode rcode a b n n₁ n₂ hl hr numerals hn ihl ihr =>
    -- the addition itself is behind those of its operands, and so is its cell
    have hlast : SumsAt t (lcode ++ (rcode ++ sumCode numerals a b n₂)) [(left, right)] n₂ := by
      intro k sum hk
      obtain ⟨hk0, rfl⟩ := List.getElem?_eq_some_iff.1 hk
      obtain rfl : k = 0 := by simpa using hk0
      exact ⟨lcode ++ rcode, [], numerals, a, b, by simp, ⟨_, _, _, hl⟩, _, _, _, hr⟩
    have hleft := ihl.within [] (rcode ++ sumCode numerals a b n₂)
    have hright := ihr.within lcode (sumCode numerals a b n₂)
    obtain rfl := hr.next_eq
    obtain rfl := hl.next_eq
    rw [Expr.additions, if_pos rfl]
    exact hleft.append (hright.append hlast)
  | @other left right lcode rcode a b n n₁ n₂ operator hop hl hr text ihl ihr =>
    have hleft := ihl.within [] (rcode ++ [.comment text])
    have hright := ihr.within lcode [.comment text]
    obtain rfl := hl.next_eq
    rw [Expr.additions, if_neg hop]
    exact hleft.append (hright.append .nil)

/-- **The code of actions makes their additions in order.** -/
theorem Emits.sumsAt {t : SymbolTable} {as : List Action} {code : List Instruction} {n n' : Nat}
    (h : Emits t as n code n') : SumsAt t code (as.flatMap Action.additions) n := by
  induction h with
  | nil => exact .nil
  | @mark as i code n n' _ _ _ ih =>
    have hmore := ih.within [i] []
    rwa [List.append_nil] at hmore
  | @store a as name e s code rest o n n₁ n₂ ha hs he _ ih =>
    have hadditions : a.additions = e.additions := by rw [Action.additions, ha]; rfl
    have hhere := he.sumsAt.within [] (s.dataType.storeCode o s.location ++ rest)
    have hlater := ih.within (code ++ s.dataType.storeCode o s.location) []
    obtain rfl := he.next_eq
    rw [List.append_nil, List.append_assoc] at hlater
    rw [List.flatMap_cons, hadditions]
    exact hhere.append hlater
  | reserve p _ ih => exact ih
  | @count as step s code n n' hs _ ih =>
    have hmore := ih.within (step.code s.location) []
    rwa [List.append_nil] at hmore

/-! ## Running the code of an addition -/

/-- **Numerals that code has added are numbers**: otherwise the code would have stopped at them. -/
theorem immediateCell?_of_exec_sumCode {numerals : Bool} {x y : String} {cell : Nat}
    {m m' : Machine}
    (h : m.exec (sumCode numerals (.immediate x) (.immediate y) cell) = .ok m') :
    ∃ v w, immediateCell? x = some v ∧ immediateCell? y = some w := by
  cases hx : immediateCell? x with
  | none =>
    cases numerals <;>
      simp [sumCode, Machine.exec_cons, Instruction.effect, Operand.cell?, hx, bind,
        Except.bind] at h
  | some v =>
    cases hy : immediateCell? y with
    | none =>
      cases numerals <;>
        simp [sumCode, Machine.exec_cons, Instruction.effect, Operand.cell?, hx, hy, bind,
          Except.bind] at h
    | some w => exact ⟨v, w, rfl, rfl⟩

/-- **A numeral that can be run has a value**, and the cell is that of the value. -/
theorem LiteralKind.exists_ofLiteral? {text : String} {c : Cell} (hshape : number.Shape text)
    (h : immediateCell? text = some c) :
    ∃ v, Value.ofLiteral? .number text = some v ∧ c = v.cell := by
  have hcell := hshape.immediateCell?
  rw [written, h] at hcell
  cases hv : Value.ofLiteral? .number text with
  | some v =>
    rw [cell_of_ofLiteral? hv] at hcell
    exact ⟨v, rfl, Option.some.inj hcell⟩
  | none =>
    unfold Value.ofLiteral? at hv
    unfold cell at hcell
    cases hint : Number.int64? text <;> cases hreal : Number.real? text <;>
      simp [hint, hreal, Except.toOption] at hv hcell

/-- **Code that adds two numerals leaves their sum**, if nothing behind it fills the cell. -/
theorem exec_numeralSum {before after : List Instruction} {numerals : Bool} {x y : String}
    {cell : Nat} {m m' : Machine} (hx : LiteralKind.number.Shape x)
    (hy : LiteralKind.number.Shape y) (hafter : cell ∉ filledCells after)
    (h : m.exec (before ++ (sumCode numerals (.immediate x) (.immediate y) cell ++ after))
      = .ok m') :
    ∃ a b c, Value.ofLiteral? .number x = some a ∧ Value.ofLiteral? .number y = some b ∧
      a.cell.add? b.cell = some c ∧ m'.memory[cell]? = some c := by
  simp only [Machine.exec_append, bind_eq_ok_iff] at h
  obtain ⟨m₁, -, m₂, hsum, hrest⟩ := h
  obtain ⟨v, w, hv, hw⟩ := immediateCell?_of_exec_sumCode hsum
  obtain ⟨a, ha, rfl⟩ := LiteralKind.exists_ofLiteral? hx hv
  obtain ⟨b, hb, rfl⟩ := LiteralKind.exists_ofLiteral? hy hw
  have hfilled := exec_sumCode (m := m₁) (n := 0) (a := .immediate x) (b := .immediate y) numerals
    hv hw trivial cell
  rw [hsum, Cell.plus] at hfilled
  cases hadd : a.cell.add? b.cell with
  | none =>
    rw [hadd] at hfilled
    cases hfilled
  | some c =>
    rw [hadd] at hfilled
    cases hfilled with
    | ok hm₂ =>
      refine ⟨a, b, c, ha, hb, hadd, ?_⟩
      rw [Machine.getElem?_of_exec hrest hafter, hm₂, Memory.getElem?_write, if_pos rfl]

/-! ## Compiled sources -/

/-- The literals in an addition look as they should if all of the expression's do. -/
theorem Expr.Shaped.of_mem_additions {e : Expr} (h : e.Shaped) {sum : Expr × Expr}
    (hsum : sum ∈ e.additions) : sum.1.Shaped ∧ sum.2.Shaped := by
  induction e with
  | literal | ident => cases hsum
  | group inner ih => exact ih h hsum
  | binary left operator right ihl ihr =>
    have hleft : left.Shaped := fun kind text hmem => h kind text (List.mem_append_left _ hmem)
    have hright : right.Shaped := fun kind text hmem => h kind text (List.mem_append_right _ hmem)
    rw [additions, List.mem_append, List.mem_append] at hsum
    rcases hsum with hsum | hsum | hsum
    · exact ihl hleft hsum
    · exact ihr hright hsum
    · split at hsum
      · obtain rfl := List.mem_singleton.1 hsum
        exact ⟨hleft, hright⟩
      · cases hsum

section Compiled

variable {source : String} {optimize : Bool} {c : Compilation}
  (hc : compile source optimize = .ok c)

include hc

/-- The literals in the additions of a program that compiles look as they should. -/
theorem shaped_additions_of_compile {sum : Expr × Expr} (hsum : sum ∈ c.program.additions) :
    sum.1.Shaped ∧ sum.2.Shaped := by
  obtain ⟨a, ha, hsum⟩ := List.mem_flatMap.1 hsum
  unfold Action.additions at hsum
  cases htarget : a.target? with
  | none =>
    rw [htarget] at hsum
    cases hsum
  | some target =>
    rw [htarget] at hsum
    exact (shaped_of_compile hc a ha target.1 target.2 htarget).of_mem_additions hsum

/-- **The code of an addition of numerals** is in compiled code, and fills its cell for good. -/
theorem exists_numeralSum_of_compile {i : Nat} {x y : String}
    (hi : c.program.additions[i]? = some (.literal .number x, .literal .number y)) :
    ∃ before after numerals, c.code = before ++ (sumCode numerals (.immediate x) (.immediate y)
        (c.table.nextLocation + wordSize * i) ++ after) ∧
      c.table.nextLocation + wordSize * i ∉ filledCells after := by
  obtain ⟨n, hemits⟩ := emits_of_compile hc
  have hvalid := Program.valid_of_analyze (compile_eq_ok_iff.1 hc).2.1
  obtain ⟨before, after, numerals, a, b, hcode, ⟨_, _, _, ha⟩, _, _, _, hb⟩ := hemits.sumsAt i _ hi
  cases ha
  cases hb
  refine ⟨before, after, numerals, hcode, ?_⟩
  have hlt : i < sumsOf c.program.actions := by
    rw [← length_additions_of_actions]
    exact (List.getElem?_eq_some_iff.1 hi).1
  have hcount := hemits.count_filledCells hvalid (Nat.le_refl _) hlt
  rw [hcode, filledCells_append, filledCells_append, filledCells_sumCode, List.count_append,
    List.count_append, List.count_singleton_self] at hcount
  exact List.count_eq_zero.1 (by omega)

end Compiled

/-- **The sum that is kept is the sum that is computed.**  If compiling a source keeps a sum, then
its values have an addition of two numerals; and if the code is run without an error, the sum is in
the cell that the last such addition is made into. -/
theorem compile_folded_computed {source : String} {optimize : Bool} {c : Compilation} {v : Value}
    (hc : compile source optimize = .ok c) (hv : c.folded = some v) :
    ∃ i x y, c.program.additions[i]? = some (.literal .number x, .literal .number y) ∧
      (∀ sum ∈ c.program.additions.drop (i + 1), ¬ IsNumeralSum sum) ∧
      (∃ numerals, sumCode numerals (.immediate x) (.immediate y) (c.table.nextLocation + 4 * i)
        <:+: c.code) ∧
      ∀ memory, execute c.lines = .ok memory →
        memory[c.table.nextLocation + 4 * i]? = some v.cell := by
  have hfolded := Program.folded_of_generate (compile_eq_ok_iff.1 hc).2.2.1
  rw [hv] at hfolded
  obtain ⟨hnone, -⟩ | ⟨i, x, y, hi, hlater, hsum⟩ := exists_last_of_foldl hfolded.symm
  · cases hnone
  obtain ⟨before, after, numerals, hcode, hafter⟩ := exists_numeralSum_of_compile hc hi
  have hshaped := shaped_additions_of_compile hc (List.mem_of_getElem? hi)
  refine ⟨i, x, y, hi, hlater, ⟨numerals, before, after, ?_⟩, fun memory hrun => ?_⟩
  · rw [hcode, List.append_assoc]
    rfl
  · rw [execute_lines_of_compile hc] at hrun
    cases hexec : Machine.exec {} c.code with
    | error stop => rw [hexec] at hrun; cases hrun
    | ok m =>
      rw [hexec] at hrun
      obtain rfl : m.memory = memory := Except.ok.inj hrun
      rw [hcode] at hexec
      obtain ⟨a, b, cell, ha, hb, hadd, hcell⟩ :=
        exec_numeralSum (hshaped.1 _ _ (List.mem_singleton_self _))
          (hshaped.2 _ _ (List.mem_singleton_self _)) hafter hexec
      rw [Value.add?_cell (hsum a b ha hb)] at hadd
      obtain rfl := Option.some.inj hadd
      exact hcell

/-- Four additions, the second of which is the last of two numerals. -/
theorem compile_folded_computed_seven :
    let source := "enum v-a = 1 + 1, enum v-b = v-a + (3 + 4) + 5,"
    ∃ c memory, compile source true = .ok c ∧ c.folded = some (.int 7) ∧
      execute c.lines = .ok memory ∧ c.program.additions.length = 4 ∧
      ∃ i x y, c.program.additions[i]? = some (.literal .number x, .literal .number y) ∧
        memory[c.table.nextLocation + 4 * i]? = some (.int 7) := by
  intro source
  have hcheck : ((compile source true).toOption.any fun c => c.folded = some (.int 7) &&
      ((execute c.lines).toOption.any fun _ => true) &&
        c.program.additions.length == 4) = true := by
    decide +kernel
  obtain ⟨c, hc, hcheck⟩ := exists_of_toOption_any hcheck
  simp only [Bool.and_eq_true, decide_eq_true_eq, beq_iff_eq] at hcheck
  obtain ⟨⟨hseven, hrun⟩, hlength⟩ := hcheck
  obtain ⟨memory, hrun, -⟩ := exists_of_toOption_any hrun
  obtain ⟨i, x, y, hi, -, -, hcell⟩ := compile_folded_computed hc hseven
  exact ⟨c, memory, hc, hseven, hrun, hlength, i, x, y, hi, hcell memory hrun⟩

end Enigma
