import Enigma.Proofs.Simulation

/-!
# Proofs/Constants — what the table knows of a variable is in memory

Two evaluations run over a program.  While it is checked, the table follows the values it can know;
when its code runs, the machine fills cells.  Both take the same writes in the same order, so that a
value that is known stands in the variable's cell, and what the machine does beyond that (sums that
wrap, strings put one behind the other, booleans that are added) is not known to the table.

* `Known` — the values that are known; `SymbolTable.known_bindAll` — what bindings teach;
* `Stmt.writes`, `block_writes` — actions and bindings write the same;
* `Machine.getElem?_of_exec` — code leaves the cells alone that it does not fill;
* `Knows` — the known values stand in memory; `Computes.knows`, `Emits.knows` — code keeps that;
* `execute_known` — the values in the table of a compiled source are what its run leaves.
-/

namespace Enigma

/-! ## Known values -/

/-- The values of variables, as far as they are known. -/
abbrev Known := String → Option Value

namespace Known

/-- The value of an expression, as far as it is known. -/
def constant? (k : Known) : Expr → Option Value
  | .literal kind text => Value.ofLiteral? kind text
  | .ident name => k name
  | .group inner => k.constant? inner
  | .binary left operator right =>
    if operator = "+" then
      match k.constant? left, k.constant? right with
      | some a, some b => a.add? b
      | _, _ => none
    else none

/-- The values with another one for a variable, or with none. -/
def set (k : Known) (name : String) (value : Option Value) : Known :=
  fun x => if x = name then value else k x

/-- What is known behind a write: the variable has the value of the expression, if there is one. -/
def learn (k : Known) (write : String × Option Expr) : Known :=
  k.set write.1 (write.2.bind k.constant?)

/-- A sum is known if both of its sides are and their sum has a value. -/
theorem constant?_sum {k : Known} {left right : Expr} {v : Value}
    (h : k.constant? (.binary left "+" right) = some v) :
    ∃ a b, k.constant? left = some a ∧ k.constant? right = some b ∧ a.add? b = some v := by
  rw [constant?, if_pos rfl] at h
  split at h
  · exact ⟨_, _, ‹_›, ‹_›, h⟩
  · cases h

theorem constant?_other {k : Known} {left right : Expr} {operator : String} (h : operator ≠ "+") :
    k.constant? (.binary left operator right) = none := if_neg h

end Known

namespace SymbolTable

/-- The values that a table knows. -/
def known (t : SymbolTable) : Known := fun name => (t.get? name).bind Symbol.value

/-- **What a table knows of an expression** it knows from the values of its variables. -/
theorem constant?_eq (t : SymbolTable) (e : Expr) : t.constant? e = t.known.constant? e := by
  induction e with
  | literal => rfl
  | ident => rfl
  | group inner ih => exact ih
  | binary left operator right ihl ihr =>
    cases hl : t.known.constant? left <;> cases hr : t.known.constant? right <;>
      simp [constant?, Known.constant?, ihl, ihr, hl, hr]

/-- A declaration makes the value of its variable known, or unknown. -/
theorem known_declare {t t' : SymbolTable} {name : String} {type : DataType} {value : Option Value}
    {address : Nat} (h : t.declare name type value = .ok (address, t')) :
    t'.known = t.known.set name value := by
  obtain ⟨hnew, -, hsymbols, -⟩ := declare_eq_ok h
  have hget : t.get? name = none := by simpa [contains] using hnew
  funext x
  rw [known, Known.set, get?, hsymbols, List.find?_append]
  by_cases hx : x = name
  · subst hx
    rw [get?] at hget
    simp [hget]
  · have hne : (name == x) = false := by simpa using Ne.symm hx
    simp [hne, hx, known, get?]

/-- An assignment makes the value of its variable known, or unknown. -/
theorem known_setValue {t : SymbolTable} {name : String} (h : t.contains name = true)
    (value : Option Value) : (t.setValue name value).known = t.known.set name value := by
  obtain ⟨s, hs⟩ := Option.isSome_iff_exists.1 h
  have hsame (s : Symbol) : (if s.name == name then { s with value } else s).name = s.name := by
    split <;> rfl
  funext x
  rw [known, Known.set, get?, setValue, List.find?_map]
  simp only [Function.comp_def, hsame]
  by_cases hx : x = name
  · subst hx
    rw [get?] at hs
    have hname : s.name = x := by simpa using List.find?_some hs
    simp [hs, hname]
  · rw [if_neg hx, known, get?]
    cases hfind : t.symbols.find? (·.name == x) with
    | none => rfl
    | some s' =>
      have hname : s'.name = x := by simpa using List.find?_some hfind
      simp [hname, hx]

end SymbolTable

/-! ## Writes -/

/-- The variable that a binding writes, and the expression it is written from; an `iterate` counts
without one and the table takes no notice. -/
def Binding.write? : Binding → Option (String × Option Expr)
  | declare _ name value _ => some (name, value)
  | assign name (some e) _ => some (name, some e)
  | assign _ none _ => none
  | read _ _ => none

/-- The variable that an action writes, and the expression it is written from. -/
def Action.write? : Action → Option (String × Option Expr)
  | declare d => some (d.name, some d.value)
  | reserve p => some (p.name, none)
  | assign name value => some (name, some value)
  | count _ => none

namespace SymbolTable

/-- **What a binding teaches.** -/
theorem known_bind {t t' : SymbolTable} {b : Binding} (h : t.bind b = .ok t') :
    t'.known = b.write?.toList.foldl Known.learn t.known := by
  cases b with
  | declare dataType name value line =>
    obtain ⟨-, type, -, address, hd⟩ := bind_declare_eq_ok_iff.1 h
    have hvalue : value.bind t.constant? = value.bind t.known.constant? := by
      cases value with
      | none => rfl
      | some e => exact t.constant?_eq e
    rw [known_declare hd, hvalue]
    rfl
  | assign name value line =>
    obtain ⟨hknown, rfl⟩ := bind_assign_eq_ok_iff.1 h
    cases value with
    | none => rfl
    | some e =>
      change (t.setValue name (t.constant? e)).known = _
      rw [known_setValue hknown, t.constant?_eq]
      rfl
  | read name line =>
    obtain ⟨-, rfl⟩ := bind_read_eq_ok_iff.1 h
    rfl

/-- **What bindings in a row teach.** -/
theorem known_bindAll {t t' : SymbolTable} {bs : List Binding} (h : t.bindAll bs = (t', none)) :
    t'.known = (bs.filterMap Binding.write?).foldl Known.learn t.known := by
  induction bs generalizing t with
  | nil =>
    obtain ⟨rfl, -⟩ := Prod.mk.inj h
    rfl
  | cons b bs ih =>
    obtain ⟨t₁, hb, hbs⟩ := bindAll_cons_eq_iff.1 h
    rw [ih hbs, known_bind hb, List.filterMap_cons]
    cases b.write? <;> rfl

end SymbolTable

theorem Expr.filterMap_write?_bindings (e : Expr) (line : Nat) :
    (e.bindings line).filterMap Binding.write? = [] := by
  simp [Expr.bindings, Binding.write?, Function.comp_def]

theorem Declaration.writes (d : Declaration) :
    d.bindings.filterMap Binding.write? = [(d.name, some d.value)] := by
  rw [Declaration.bindings, List.filterMap_append, Expr.filterMap_write?_bindings]
  rfl

theorem Param.writes (params : List Param) :
    (params.map Action.reserve).filterMap Action.write?
      = (params.map Param.binding).filterMap Binding.write? := by
  simp [List.filterMap_map, Function.comp_def, Action.write?, Param.binding, Binding.write?]

mutual

/-- **Actions and bindings write the same**, for a statement. -/
theorem Stmt.writes : ∀ s : Stmt,
    s.actions.filterMap Action.write? = s.bindings.filterMap Binding.write?
  | .declare d => d.writes.symm
  | .assign _ value line => by
    rw [Stmt.bindings, List.filterMap_append, value.filterMap_write?_bindings]
    rfl
  | .conditional branches => branches_writes branches
  | .iterate init condition step body line => by
    -- the step is behind the body on one side and in front of it on the other, and writes nothing
    have hcount : [Action.count step].filterMap Action.write? = [] := rfl
    have hstep : step.bindings.filterMap Binding.write? = [] := rfl
    rw [Stmt.actions, Stmt.bindings, ← List.singleton_append]
    simp only [List.filterMap_append, init.writes, condition.filterMap_write?_bindings, hcount,
      hstep, List.append_nil, block_writes body]
    rfl
  | .whilst condition body line => by
    rw [Stmt.actions, Stmt.bindings, List.filterMap_append, condition.filterMap_write?_bindings,
      block_writes body, List.nil_append]
  | .function _ params body => by
    rw [Stmt.actions, Stmt.bindings, List.filterMap_append, List.filterMap_append, Param.writes,
      block_writes body]
  | .leave _ => rfl
  | .resume _ => rfl

/-- An arm writes what its bindings write. -/
theorem Branch.writes : ∀ b : Branch,
    b.actions.filterMap Action.write? = b.bindings.filterMap Binding.write?
  | .mk _ (some condition) body line => by
    rw [Branch.actions, Branch.bindings, List.filterMap_append,
      condition.filterMap_write?_bindings, block_writes body, List.nil_append]
  | .mk _ none body _ => block_writes body

/-- **Actions and bindings write the same**, for statements in a row. -/
theorem block_writes : ∀ body : List Stmt,
    (blockActions body).filterMap Action.write? = (blockBindings body).filterMap Binding.write?
  | [] => rfl
  | s :: rest => by
    rw [blockActions, blockBindings, List.filterMap_append, List.filterMap_append, s.writes,
      block_writes rest]

/-- Arms in a row write what their bindings write, in order. -/
theorem branches_writes : ∀ branches : List Branch,
    (branchesActions branches).filterMap Action.write?
      = (branchesBindings branches).filterMap Binding.write?
  | [] => rfl
  | b :: rest => by
    rw [branchesActions, branchesBindings, List.filterMap_append, List.filterMap_append, b.writes,
      branches_writes rest]

end

/-- **What the table of a checked program knows**: what its actions teach, one after the other. -/
theorem Program.known_of_analyze {p : Program} {t : SymbolTable} (h : p.analyze = .ok t) :
    t.known = (p.actions.filterMap Action.write?).foldl Known.learn fun _ => none := by
  rw [SymbolTable.known_bindAll (analyze_eq_ok_iff.1 h)]
  exact congrArg (List.foldl Known.learn _) (block_writes p).symm

/-! ## Values and cells -/

/-- The cell of a value: a boolean is one or zero. -/
def Value.cell : Value → Cell
  | int n => .int n
  | real x => .real x
  | str s => .str s
  | bool b => .int (if b then 1 else 0)

/-- **A literal with a value has the value's cell.** -/
theorem LiteralKind.cell_of_ofLiteral? {kind : LiteralKind} {text : String} {v : Value}
    (h : Value.ofLiteral? kind text = some v) : kind.cell text = .ok v.cell := by
  cases kind with
  | number =>
    rw [Value.ofLiteral?] at h
    rw [LiteralKind.cell]
    cases hint : Number.int64? text with
    | some n =>
      rw [hint] at h
      obtain rfl := Option.some.inj h
      rfl
    | none =>
      rw [hint] at h
      obtain ⟨x, hreal, rfl⟩ := Option.map_eq_some_iff.1 h
      rw [hreal]
      rfl
  | string =>
    obtain rfl := Option.some.inj h
    rfl
  | boolean =>
    obtain rfl := Option.some.inj h
    by_cases hy : text = "yup" <;> simp [LiteralKind.cell, Value.cell, hy]

theorem Number.addChecked?_eq_some {a b n : Int64} (h : addChecked? a b = some n) : a + b = n := by
  unfold addChecked? toInt64? at h
  split at h
  · rw [← Option.some.inj h, Int64.ofInt_add, Int64.ofInt_toInt, Int64.ofInt_toInt]
  · cases h

/-- **A sum with a value has the value's cell**: what fits does not wrap. -/
theorem Value.add?_cell : ∀ {a b v : Value}, a.add? b = some v → a.cell.add? b.cell = some v.cell
  | .int a, .int b, _, h => by
    obtain ⟨n, hn, rfl⟩ := Option.map_eq_some_iff.1 h
    rw [cell, cell, Cell.add?, Number.addChecked?_eq_some hn, cell]
  | .int _, .real _, _, h | .real _, .int _, _, h | .real _, .real _, _, h => by
    obtain rfl := Option.some.inj h
    rfl

/-! ## What code leaves alone -/

/-- The cell that an instruction fills. -/
def Instruction.cell? : Instruction → Option Nat
  | store _ address | storeReal _ address | str _ address | move _ address => some address
  | load _ _ | loadReal _ _ | add _ _ _ | jump _ | test _ | label _ | comment _ => none

/-- **An instruction leaves every other cell alone.** -/
theorem Instruction.getElem?_of_effect {i : Instruction} {m m' : Machine} {a : Nat}
    (h : i.effect m = .ok m') (ha : i.cell? ≠ some a) : m'.memory[a]? = m.memory[a]? := by
  have hwrite {x : Nat} {c : Cell} (hx : i.cell? = some x) :
      (m.memory.write x c)[a]? = m.memory[a]? := by
    rw [Memory.getElem?_write, if_neg]
    rintro rfl
    exact ha hx
  cases i with
  | load source dest | loadReal source dest =>
    cases hc : source.cell? m with
    | none => simp [effect, hc] at h
    | some c =>
      simp only [effect, hc] at h
      obtain rfl := Except.ok.inj h
      rfl
  | store source address | storeReal source address | str text address =>
    obtain rfl := Except.ok.inj h
    exact hwrite rfl
  | add operand source dest =>
    cases hc : operand.cell? m with
    | none => simp [effect, hc] at h
    | some c =>
      cases hsum : (m.registers source).add? c with
      | none => simp [effect, hc, hsum] at h
      | some sum =>
        simp only [effect, hc, hsum] at h
        obtain rfl := Except.ok.inj h
        rfl
  | move source address =>
    cases hc : source.cell? m with
    | none => simp [effect, hc] at h
    | some c =>
      simp only [effect, hc] at h
      obtain rfl := Except.ok.inj h
      exact hwrite rfl
  | jump | test | label | comment =>
    obtain rfl := Except.ok.inj h
    rfl

/-- The cells that code fills, in order. -/
def filledCells (code : List Instruction) : List Nat := code.filterMap Instruction.cell?

@[simp] theorem filledCells_append (code code' : List Instruction) :
    filledCells (code ++ code') = filledCells code ++ filledCells code' := List.filterMap_append

theorem filledCells_cons (i : Instruction) (code : List Instruction) :
    filledCells (i :: code) = i.cell?.toList ++ filledCells code := by
  rw [filledCells, List.filterMap_cons]
  cases i.cell? <;> rfl

/-- **Code leaves the cells alone that it does not fill.** -/
theorem Machine.getElem?_of_exec {code : List Instruction} {m m' : Machine} {a : Nat}
    (h : m.exec code = .ok m') (ha : a ∉ filledCells code) : m'.memory[a]? = m.memory[a]? := by
  induction code generalizing m with
  | nil =>
    obtain rfl := Except.ok.inj h
    rfl
  | cons i code ih =>
    rw [exec_cons, bind_eq_ok_iff] at h
    obtain ⟨m₁, hi, hrest⟩ := h
    rw [filledCells_cons, List.mem_append, not_or] at ha
    have hai : i.cell? ≠ some a := fun heq => ha.1 (by simp [heq])
    rw [ih hrest ha.2, Instruction.getElem?_of_effect hi hai]

theorem filledCells_sumCode (numerals : Bool) (a b : Operand) (cell : Nat) :
    filledCells (sumCode numerals a b cell) = [cell] := by
  cases numerals <;> rfl

theorem filledCells_storeCode (type : DataType) (o : Operand) (address : Nat) :
    filledCells (type.storeCode o address) = [address] := by
  cases type <;> cases o <;> rfl

/-- **An expression fills a cell for each sum**, one behind the other. -/
theorem Computes.filledCells_eq {t : SymbolTable} {e : Expr} {code : List Instruction} {o : Operand}
    {n n' : Nat} (h : Computes t e n code o n') :
    filledCells code = List.range' n e.sums wordSize ∧ n' = n + wordSize * e.sums := by
  induction h with
  | literal | ident => exact ⟨rfl, rfl⟩
  | group _ ih => exact ih
  | @sum left right lcode rcode a b n n₁ n₂ _ _ numerals _ ihl ihr =>
    obtain ⟨hl, rfl⟩ := ihl
    obtain ⟨hr, rfl⟩ := ihr
    have hsums : (Expr.binary left "+" right).sums = left.sums + (right.sums + 1) := by
      rw [Expr.sums, if_pos rfl, Nat.add_assoc]
    constructor
    · rw [filledCells_append, filledCells_append, filledCells_sumCode, hl, hr, hsums,
        ← List.range'_append, ← List.range'_append]
      rfl
    · rw [hsums, Nat.mul_add, Nat.mul_add, Nat.mul_one]
      omega
  | @other left right _ _ _ _ _ _ _ operator hop _ _ text ihl ihr =>
    obtain ⟨hl, rfl⟩ := ihl
    obtain ⟨hr, rfl⟩ := ihr
    have hsums : (Expr.binary left operator right).sums = left.sums + right.sums := by
      rw [Expr.sums, if_neg hop, Nat.add_zero]
    constructor
    · rw [filledCells_append, filledCells_append, hl, hr, hsums, ← List.range'_append]
      exact congrArg _ (List.append_nil _)
    · rw [hsums, Nat.mul_add]
      omega

/-- **An expression is computed in free cells.** -/
theorem Computes.filledCells_ge {t : SymbolTable} {e : Expr} {code : List Instruction} {o : Operand}
    {n n' : Nat} (h : Computes t e n code o n') : ∀ a ∈ filledCells code, n ≤ a := by
  intro a ha
  rw [h.filledCells_eq.1] at ha
  obtain ⟨k, -, rfl⟩ := List.mem_range'.1 ha
  exact Nat.le_add_right _ _

/-- **Computing an expression leaves the cells below alone.** -/
theorem Computes.getElem?_of_exec {t : SymbolTable} {e : Expr} {code : List Instruction}
    {o : Operand} {n n' : Nat} (h : Computes t e n code o n') {m m' : Machine}
    (hexec : m.exec code = .ok m') : ∀ a < n, m'.memory[a]? = m.memory[a]? := by
  intro a ha
  refine Machine.getElem?_of_exec hexec fun hmem => ?_
  exact Nat.not_le_of_lt ha (h.filledCells_ge a hmem)

/-! ## Known values in memory -/

/-- The values that are known stand in the cells of their variables. -/
def Knows (t : SymbolTable) (k : Known) (memory : Memory) : Prop :=
  ∀ s ∈ t.symbols, ∀ v, k s.name = some v → memory[s.location]? = some v.cell

namespace Knows

variable {t : SymbolTable} {k : Known} {memory memory' : Memory}

/-- What happens above the variables does not touch what is known of them. -/
theorem of_eq (h : Knows t k memory) (ht : t.Valid)
    (heq : ∀ a < t.nextLocation, memory'[a]? = memory[a]?) : Knows t k memory' := by
  intro s hs v hv
  rw [heq _ (ht.location_lt hs)]
  exact h s hs v hv

/-- Of less that is known, all is still so. -/
theorem forget (h : Knows t k memory) (name : String) : Knows t (k.set name none) memory := by
  intro s hs v hv
  unfold Known.set at hv
  split at hv
  · cases hv
  · exact h s hs v hv

/-- **A write to one variable**: the others keep their cells, and if the new value is known it is
what was written. -/
theorem set (h : Knows t k memory) (ht : t.Valid) {name : String} {s : Symbol}
    (hs : t.get? name = some s) {value : Option Value}
    (hothers : ∀ s' ∈ t.symbols, s'.location ≠ s.location →
      memory'[s'.location]? = memory[s'.location]?)
    (hvalue : ∀ v, value = some v → memory'[s.location]? = some v.cell) :
    Knows t (k.set name value) memory' := by
  obtain ⟨hmem, rfl⟩ := SymbolTable.mem_of_get? hs
  intro s' hs' v hv
  unfold Known.set at hv
  split at hv
  · rename_i hname
    have hget := SymbolTable.get?_of_mem ht.nodup hs'
    rw [hname, hs] at hget
    rw [← Option.some.inj hget]
    exact hvalue v hv
  · rename_i hname
    have hlocation : s'.location ≠ s.location := fun heq =>
      hname (congrArg Symbol.name (ht.eq_of_location hs' hmem heq))
    rw [hothers s' hs' hlocation]
    exact h s' hs' v hv

end Knows

/-- **An expression whose value is known is computed to it.** -/
theorem Computes.knows {t : SymbolTable} {e : Expr} {code : List Instruction} {o : Operand}
    {n n' : Nat} (h : Computes t e n code o n') (ht : t.Valid) (hn : t.nextLocation ≤ n)
    (he : e.Shaped) {k : Known} {m m' : Machine} (hk : Knows t k m.memory)
    (hexec : m.exec code = .ok m') {v : Value} (hv : k.constant? e = some v) :
    o.cell? m' = some v.cell := by
  induction h generalizing m m' v with
  | literal kind text n =>
    have hshape := he kind text (List.mem_singleton_self _)
    rw [Operand.cell?, hshape.immediateCell?, LiteralKind.cell_of_ofLiteral? hv]
    rfl
  | ident hs n =>
    obtain rfl := Except.ok.inj hexec
    obtain ⟨hmem, rfl⟩ := SymbolTable.mem_of_get? hs
    rw [Operand.cell?, Memory.read, hk _ hmem v hv]
    rfl
  | group _ ih => exact ih hn he hk hexec hv
  | @sum left right lcode rcode a b n n₁ n₂ hl hr numerals hbound ihl ihr =>
    obtain ⟨x, y, hx, hy, hadd⟩ := Known.constant?_sum hv
    simp only [Machine.exec_append, bind_eq_ok_iff] at hexec
    obtain ⟨m₁, hexec₁, m₂, hexec₂, hexec₃⟩ := hexec
    have hn₁ : t.nextLocation ≤ n₁ := Nat.le_trans hn hl.le
    have hm₁ := hl.getElem?_of_exec hexec₁
    have hm₂ := hr.getElem?_of_exec hexec₂
    have hk₁ := hk.of_eq ht fun a ha => hm₁ a (Nat.lt_of_lt_of_le ha hn)
    have hcx := ihl hn (fun kind text hmem => he kind text (List.mem_append_left _ hmem)) hk
      hexec₁ hx
    have hcy := ihr hn₁ (fun kind text hmem => he kind text (List.mem_append_right _ hmem)) hk₁
      hexec₂ hy
    rw [← (hl.operand_below ht hn).cell? hm₂] at hcx
    -- the sum cannot stop, and what it leaves is the sum of the two cells
    have hsum := exec_sumCode numerals hcx hcy (hr.operand_below ht hn₁) n₂
    rw [hexec₃, Cell.plus, Value.add?_cell hadd] at hsum
    cases hsum with
    | ok hm₃ => rw [Operand.cell?, hm₃, Memory.read_write, if_pos rfl]
  | other hop => rw [Known.constant?_other hop] at hv; cases hv

/-! ## Literals that fit their variables -/

/-- The kind of the literal that an expression is, in parentheses or not. -/
def Expr.bareKind? : Expr → Option LiteralKind
  | literal kind _ => some kind
  | group inner => inner.bareKind?
  | ident _ => none
  | binary _ _ _ => none

/-- Whether a literal of a kind is stored in a variable of a type as the value that it has: text and
booleans are not made from other literals. -/
def DataType.takes : DataType → LiteralKind → Bool
  | string, kind => kind = .string
  | boolean, kind => kind = .boolean
  | integer, _ => true
  | real, _ => true

/-- Whether the action does not give a string or boolean variable a bare literal of another kind. -/
def Action.literalFits (types : String → Option DataType) (a : Action) : Bool :=
  match a.target? with
  | some (name, e) =>
    match types name, e.bareKind? with
    | some type, some kind => type.takes kind
    | _, _ => true
  | none => true

/-- Whether no string or boolean variable is declared with or assigned a bare literal of another
kind. -/
def Program.literalsFit (p : Program) : Bool := p.actions.all (Action.literalFits p.typeOf?)

/-- An expression with a value that yields a literal is that literal. -/
theorem Expr.bareKind?_of_literal? {e : Expr} {k : Known} {v : Value} {kind : LiteralKind}
    {text : String} (hv : k.constant? e = some v) (h : e.literal? = some (kind, text)) :
    e.bareKind? = some kind ∧ Value.ofLiteral? kind text = some v := by
  induction e with
  | literal kind' text' =>
    obtain ⟨rfl, rfl⟩ := Prod.mk.inj (Option.some.inj h)
    exact ⟨rfl, hv⟩
  | ident name => cases h
  | group inner ih => exact ih hv h
  | binary left operator right =>
    by_cases hop : operator = "+"
    · rw [Expr.literal?, if_pos hop] at h
      cases h
    · rw [Known.constant?_other hop] at hv
      cases hv

/-- **A known value is stored as it is**, if its literal fits the variable. -/
theorem DataType.stored_of_takes {type : DataType} {e : Expr} {k : Known} {v : Value}
    (hv : k.constant? e = some v)
    (hfit : ∀ kind, e.bareKind? = some kind → type.takes kind = true) :
    type.stored e v.cell = v.cell := by
  cases hlit : e.literal? with
  | none => cases type <;> simp [stored, hlit]
  | some literal =>
    obtain ⟨kind, text⟩ := literal
    obtain ⟨hbare, hvalue⟩ := Expr.bareKind?_of_literal? hv hlit
    have htakes := hfit kind hbare
    cases type with
    | integer | real => rfl
    | string =>
      obtain rfl : kind = .string := of_decide_eq_true htakes
      obtain rfl := Option.some.inj hvalue
      simp [stored, hlit, LiteralKind.written, Value.cell]
    | boolean =>
      obtain rfl : kind = .boolean := of_decide_eq_true htakes
      obtain rfl := Option.some.inj hvalue
      by_cases hy : text = "yup" <;> simp [stored, hlit, LiteralKind.written, Value.cell, hy]

/-! ## Programs without `iterate` -/

mutual

/-- Whether no `iterate` stands in a statement. -/
def Stmt.iterateFree : Stmt → Bool
  | .conditional branches => branchesIterateFree branches
  | .iterate _ _ _ _ _ => false
  | .whilst _ body _ => blockIterateFree body
  | .function _ _ body => blockIterateFree body
  | .declare _ | .assign _ _ _ | .leave _ | .resume _ => true

/-- The same for an arm. -/
def Branch.iterateFree : Branch → Bool
  | .mk _ _ body _ => blockIterateFree body

/-- The same for statements in a row. -/
def blockIterateFree : List Stmt → Bool
  | [] => true
  | s :: rest => s.iterateFree && blockIterateFree rest

/-- The same for arms in a row. -/
def branchesIterateFree : List Branch → Bool
  | [] => true
  | b :: rest => b.iterateFree && branchesIterateFree rest

end

/-- Whether no `iterate` stands in a program. -/
def Program.iterateFree (p : Program) : Bool := blockIterateFree p

/-- Whether an action counts. -/
def Action.isCount : Action → Bool
  | count _ => true
  | declare _ | reserve _ | assign _ _ => false

mutual

theorem Stmt.not_isCount : ∀ {s : Stmt}, s.iterateFree = true → ∀ a ∈ s.actions, a.isCount = false
  | .declare _, _ => by simp [Stmt.actions, Action.isCount]
  | .assign _ _ _, _ => by simp [Stmt.actions, Action.isCount]
  | .conditional _, h => branches_not_isCount h
  | .whilst _ _ _, h => block_not_isCount h
  | .function _ params body, h => by
    rw [Stmt.actions, List.forall_mem_append]
    exact ⟨by simp [Action.isCount], block_not_isCount h⟩
  | .leave _, _ => by simp [Stmt.actions]
  | .resume _, _ => by simp [Stmt.actions]

theorem Branch.not_isCount : ∀ {b : Branch}, b.iterateFree = true →
    ∀ a ∈ b.actions, a.isCount = false
  | .mk _ _ _ _, h => block_not_isCount h

/-- **Only an `iterate` counts**: without one, no action does. -/
theorem block_not_isCount : ∀ {body : List Stmt}, blockIterateFree body = true →
    ∀ a ∈ blockActions body, a.isCount = false
  | [], _ => by simp [blockActions]
  | _ :: _, h => by
    obtain ⟨hs, hrest⟩ := Bool.and_eq_true_iff.1 h
    exact List.forall_mem_append.2 ⟨Stmt.not_isCount hs, block_not_isCount hrest⟩

theorem branches_not_isCount : ∀ {branches : List Branch}, branchesIterateFree branches = true →
    ∀ a ∈ branchesActions branches, a.isCount = false
  | [], _ => by simp [branchesActions]
  | _ :: _, h => by
    obtain ⟨hb, hrest⟩ := Bool.and_eq_true_iff.1 h
    exact List.forall_mem_append.2 ⟨Branch.not_isCount hb, branches_not_isCount hrest⟩

end

/-! ## Actions -/

/-- An action that the table follows: it does not count, its literals look as they should, and they
fit the variables they are stored in. -/
structure Action.Followed (types : String → Option DataType) (a : Action) : Prop where
  not_count : a.isCount = false
  shaped : ∀ name e, a.target? = some (name, e) → e.Shaped
  fits : a.literalFits types = true

theorem Action.write?_of_target? {a : Action} {name : String} {e : Expr}
    (h : a.target? = some (name, e)) : a.write? = some (name, some e) := by
  cases a <;> cases h <;> rfl

/-- **One store keeps the known values in memory.** -/
theorem Knows.store {t : SymbolTable} (ht : t.Valid) {types : String → Option DataType} {a : Action}
    (ha : a.Followed types) {name : String} {e : Expr} (htarget : a.target? = some (name, e))
    {s : Symbol} (hs : t.get? name = some s) (htype : types name = some s.dataType)
    {code : List Instruction} {o : Operand} {n n' : Nat} (he : Computes t e n code o n')
    (hn : t.nextLocation ≤ n) {k : Known} {m m₁ m₂ : Machine} (hk : Knows t k m.memory)
    (hexec : m.exec code = .ok m₁)
    (hstore : m₁.exec (s.dataType.storeCode o s.location) = .ok m₂) :
    Knows t (k.learn (name, some e)) m₂.memory := by
  have hm₁ := he.getElem?_of_exec hexec
  refine (hk.of_eq ht fun a ha => hm₁ a (Nat.lt_of_lt_of_le ha hn)).set ht hs ?_ ?_
  · intro s' _ hne
    refine Machine.getElem?_of_exec hstore ?_
    rwa [filledCells_storeCode, List.mem_singleton]
  · intro v hv
    have hcell := he.knows ht hn (ha.shaped name e htarget) hk hexec hv
    obtain ⟨m₂', hstore', hm₂⟩ := exec_storeCode s.dataType he.operand hcell s.location
    obtain rfl := Except.ok.inj (hstore'.symm.trans hstore)
    have hfits := ha.fits
    rw [Action.literalFits, htarget] at hfits
    simp only [htype] at hfits
    have hstored : s.dataType.stored e v.cell = v.cell := by
      refine DataType.stored_of_takes hv fun kind hkind => ?_
      rwa [hkind] at hfits
    rw [hm₂, Memory.getElem?_write, if_pos rfl, hstored]

/-- **The code of actions keeps the known values in memory.** -/
theorem Emits.knows {t : SymbolTable} {as : List Action} {code : List Instruction} {n n' : Nat}
    (h : Emits t as n code n') (ht : t.Valid) (hn : t.nextLocation ≤ n)
    {types : String → Option DataType}
    (htypes : ∀ name s, t.get? name = some s → types name = some s.dataType)
    (has : ∀ a ∈ as, a.Followed types) {k : Known} {m m' : Machine} (hk : Knows t k m.memory)
    (hexec : m.exec code = .ok m') :
    Knows t ((as.filterMap Action.write?).foldl Known.learn k) m'.memory := by
  induction h generalizing k m with
  | nil =>
    obtain rfl := Except.ok.inj hexec
    exact hk
  | mark hi _ _ ih =>
    rw [m.exec_mark hi] at hexec
    exact ih hn has hk hexec
  | @store a as name e s code rest o n n₁ n₂ ha hs he hrest ih =>
    obtain ⟨hfollowed, hothers⟩ := List.forall_mem_cons.1 has
    simp only [Machine.exec_append, bind_eq_ok_iff] at hexec
    obtain ⟨m₁, hexec₁, m₂, hexec₂, hexec₃⟩ := hexec
    have hk₂ := Knows.store ht hfollowed ha hs (htypes name s hs) he hn hk hexec₁ hexec₂
    rw [List.filterMap_cons, Action.write?_of_target? ha]
    exact ih (Nat.le_trans hn he.le) hothers hk₂ hexec₃
  | reserve p _ ih =>
    obtain ⟨-, hothers⟩ := List.forall_mem_cons.1 has
    exact ih hn hothers (hk.forget p.name) hexec
  | count => cases (has _ (List.mem_cons_self ..)).not_count

/-! ## Compiled sources -/

/-- **The table tells what a run leaves in memory.**  In a compiled source without an `iterate`,
where no string or boolean variable is given a bare literal of another kind, every variable with a
value in the table has the cell of that value at its address, once the code has run. -/
theorem execute_known {source : String} {optimize : Bool} {c : Compilation} {memory : Memory}
    (hc : compile source optimize = .ok c) (hiterate : c.program.iterateFree = true)
    (hfit : c.program.literalsFit = true) (hrun : execute c.lines = .ok memory) :
    ∀ s ∈ c.table.symbols, ∀ v, s.value = some v → memory[s.location]? = some v.cell := by
  obtain ⟨-, htable, -⟩ := compile_eq_ok_iff.1 hc
  have hvalid := Program.valid_of_analyze htable
  obtain ⟨n, hemits⟩ := emits_of_compile hc
  have hfollowed : ∀ a ∈ c.program.actions, a.Followed c.program.typeOf? := fun a ha =>
    ⟨block_not_isCount hiterate a ha, shaped_of_compile hc a ha, List.all_eq_true.1 hfit a ha⟩
  rw [execute_lines_of_compile hc] at hrun
  cases hexec : Machine.exec {} c.code with
  | error stop => rw [hexec] at hrun; cases hrun
  | ok m =>
    rw [hexec] at hrun
    obtain rfl : m.memory = memory := Except.ok.inj hrun
    have hknows := hemits.knows hvalid (Nat.le_refl _) (Program.typeOf?_eq htable) hfollowed
      (k := fun _ => none) (fun s _ v hv => by cases hv) hexec
    rw [← Program.known_of_analyze htable] at hknows
    intro s hs v hv
    refine hknows s hs v ?_
    rw [SymbolTable.known, SymbolTable.get?_of_mem hvalid.nodup hs]
    exact hv

/-- A variable that is written in an arm, in a loop and in a function, next to a string, a boolean
and a parameter: it is seven in the table and in memory. -/
theorem execute_known_seven :
    let source := "estr v-s = (\"x\"), ebool v-b = yup, enum v-a = 1, " ++
      "iff (v-b) { v-a = v-a + 2, } whilst (v-b) { v-a = v-a + v-a, } " ++
      "f-enum sum(enum v-p) { v-a = v-a + (1), }"
    ∃ c memory, compile source true = .ok c ∧ c.program.iterateFree = true ∧
      c.program.literalsFit = true ∧ execute c.lines = .ok memory ∧
      ∃ s ∈ c.table.symbols, s.value = some (.int 7) ∧ memory[s.location]? = some (.int 7) := by
  intro source
  have hall : ((compile source true).toOption.any fun c =>
      c.program.iterateFree && c.program.literalsFit &&
        ((execute c.lines).toOption.any fun _ => true) &&
        c.table.symbols.any fun s => s.value = some (.int 7)) = true := by
    decide +kernel
  obtain ⟨c, hc, hall⟩ := exists_of_toOption_any hall
  simp only [Bool.and_eq_true, List.any_eq_true, decide_eq_true_eq] at hall
  obtain ⟨⟨⟨hiterate, hfit⟩, hrun⟩, s, hs, hseven⟩ := hall
  obtain ⟨memory, hrun, -⟩ := exists_of_toOption_any hrun
  exact ⟨c, memory, hc, hiterate, hfit, hrun, s, hs, hseven,
    execute_known hc hiterate hfit hrun s hs _ hseven⟩

end Enigma
