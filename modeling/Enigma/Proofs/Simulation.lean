import Enigma.Proofs.Emission

/-!
# Proofs/Simulation — generated code does what the reference run says

The machine's memory **agrees** with the cells of the reference run if every variable's cell is at
its address.  Expressions are computed into cells behind the variables, each used once, so computing
disturbs no variable and no earlier intermediate result; a store then writes one variable.  The
registers never carry anything from one of these stretches of code to the next.

* `Outcome` — both runs succeed, with related results, or both stop at the same sum;
* `Computes.outcome` — expressions; `Emits.outcome` — actions in order;
* `execute_compile_outcome` — a compiled source leaves in memory what its reference run says.
-/

namespace Enigma

/-! ## Two runs with one outcome -/

/-- Both runs succeed with related results, or both stop at a sum of the same two cells. -/
inductive Outcome {α β : Type} (P : α → β → Prop) :
    Except RunError α → Except ExecutionError β → Prop
  | ok {a : α} {b : β} (h : P a b) : Outcome P (.ok a) (.ok b)
  | mismatch (left right : Cell) :
      Outcome P (.error (.mismatch left right)) (.error (.typeMismatch left right))

/-- **Runs with one outcome go on to one outcome.** -/
theorem Outcome.bind {α β γ δ : Type} {P : α → β → Prop} {Q : γ → δ → Prop}
    {x : Except RunError α} {y : Except ExecutionError β} {f : α → Except RunError γ}
    {g : β → Except ExecutionError δ} (h : Outcome P x y)
    (hfg : ∀ a b, P a b → Outcome Q (f a) (g b)) : Outcome Q (x >>= f) (y >>= g) := by
  cases h with
  | ok h => exact hfg _ _ h
  | mismatch left right => exact .mismatch left right

theorem Outcome.mono {α β : Type} {P Q : α → β → Prop} {x : Except RunError α}
    {y : Except ExecutionError β} (h : Outcome P x y) (hPQ : ∀ a b, P a b → Q a b) :
    Outcome Q x y := by
  cases h with
  | ok h => exact .ok (hPQ _ _ h)
  | mismatch left right => exact .mismatch left right

theorem Outcome.map {α β γ : Type} {P : α → γ → Prop} {f : β → γ} {x : Except RunError α}
    {y : Except ExecutionError β} (h : Outcome (fun a b => P a (f b)) x y) :
    Outcome P x (y.map f) := by
  cases h with
  | ok h => exact .ok h
  | mismatch left right => exact .mismatch left right

/-! ## Operands that later code does not disturb -/

/-- An operand that reads no register and no cell from an address on. -/
def Operand.Below (n : Nat) : Operand → Prop
  | immediate _ => True
  | memory address => address < n
  | register _ => False

/-- An operand stands for the same if memory is the same below. -/
theorem Operand.Below.cell? {o : Operand} {n : Nat} (h : o.Below n) {m m' : Machine}
    (hm : ∀ a < n, m'.memory[a]? = m.memory[a]?) : o.cell? m' = o.cell? m := by
  cases o with
  | immediate text => rfl
  | memory address => rw [Operand.cell?, Operand.cell?, Memory.read, Memory.read, hm address h]
  | register name => cases h

theorem Operand.Below.mono {o : Operand} {n n' : Nat} (h : o.Below n) (hn : n ≤ n') :
    o.Below n' := by
  cases o with
  | immediate text => trivial
  | memory address => exact Nat.lt_of_lt_of_le h hn
  | register name => cases h

/-- **An expression leaves its value below the next free cell**, so later sums do not touch it. -/
theorem Computes.operand_below {t : SymbolTable} {e : Expr} {code : List Instruction} {o : Operand}
    {n n' : Nat} (h : Computes t e n code o n') (ht : t.Valid) (hn : t.nextLocation ≤ n) :
    o.Below n' := by
  induction h with
  | literal => trivial
  | ident hs n =>
    exact Nat.lt_of_lt_of_le (ht.location_lt (SymbolTable.mem_of_get? hs).1) hn
  | group _ ih => exact ih hn
  | sum => exact Nat.lt_add_of_pos_right (by decide)
  | other _ hl hr _ ihl _ => exact (ihl hn).mono hr.le

/-- **A literal that is yielded stands in the operand**, and otherwise the operand is a cell. -/
theorem Computes.operand {t : SymbolTable} {e : Expr} {code : List Instruction} {o : Operand}
    {n n' : Nat} (h : Computes t e n code o n') :
    (∃ kind text, e.literal? = some (kind, text) ∧ o = .immediate (kind.written text)) ∨
      ∃ address, e.literal? = none ∧ o = .memory address := by
  induction h with
  | literal kind text n => exact .inl ⟨kind, text, rfl, rfl⟩
  | ident hs n => exact .inr ⟨_, rfl, rfl⟩
  | group _ ih => exact ih
  | sum => exact .inr ⟨_, rfl, rfl⟩
  | other hop _ _ _ ihl _ =>
    rw [Expr.literal?, if_neg hop]
    exact ihl

/-! ## Stretches of code -/

theorem immediateCell?_one : immediateCell? "1" = some (.int 1) := by decide

theorem immediateCell?_zero : immediateCell? "0" = some (.int 0) := by decide

theorem immediateCell?_minus_one : immediateCell? "-1" = some (.int (-1)) := by decide

section Stretches

variable {m : Machine} {a b : Operand} {v w : Cell} {n address : Nat}

/-- The registers do not show in an operand that reads none. -/
theorem Operand.Below.cell?_setRegister {o : Operand} (h : o.Below n) (m : Machine) (r : String)
    (c : Cell) : o.cell? (m.setRegister r c) = o.cell? m := h.cell? fun _ _ => rfl

/-- **The code of a sum** adds two cells into a third, or stops at them. -/
theorem exec_sumCode (numerals : Bool) (ha : a.cell? m = some v) (hb : b.cell? m = some w)
    (hbelow : b.Below n) (address : Nat) :
    Outcome (fun c m' => m'.memory = m.memory.write address c) (v.plus w)
      (m.exec (sumCode numerals a b address)) := by
  -- both forms come to an addition with the left cell in `r1`
  have hadd {m' : Machine} {o : Operand} {r : String} (hm : m'.memory = m.memory)
      (hleft : m'.registers "r1" = v) (ho : o.cell? m' = some w) :
      Outcome (fun c m' => m'.memory = m.memory.write address c) (v.plus w)
        (m'.exec [.add o "r1" r, .store r address]) := by
    unfold Cell.plus
    cases hsum : v.add? w with
    | none =>
      rw [Machine.exec_add_of_none _ ho (by rw [hleft, hsum]), hleft]
      exact .mismatch v w
    | some c =>
      rw [Machine.exec_add _ ho (by rw [hleft, hsum]), Machine.exec_store]
      refine .ok ?_
      rw [Machine.memory_setCell, Machine.memory_setRegister, hm, Machine.registers_setRegister,
        if_pos rfl]
  have hb' : b.cell? (m.setRegister "r1" v) = some w := by rw [hbelow.cell?_setRegister, hb]
  cases numerals with
  | true =>
    rw [sumCode, if_pos rfl, Machine.exec_load _ ha]
    exact hadd rfl (by simp) hb'
  | false =>
    rw [sumCode, if_neg (by decide), Machine.exec_load _ ha, Machine.exec_load _ hb']
    exact hadd rfl (by simp) rfl

/-- **The code of a store** writes the cell that the variable's type takes. -/
theorem exec_storeCode (type : DataType) {e : Expr}
    (hoperand : (∃ kind text, e.literal? = some (kind, text) ∧
      a = .immediate (kind.written text)) ∨ ∃ x, e.literal? = none ∧ a = .memory x)
    (ha : a.cell? m = some v) (address : Nat) :
    ∃ m', m.exec (type.storeCode a address) = .ok m' ∧
      m'.memory = m.memory.write address (type.stored e v) := by
  have hload {o : Operand} {c : Cell} (ho : o.cell? m = some c) :
      m.exec [.load o "r1", .store "r1" address]
        = .ok ((m.setRegister "r1" c).setCell address c) := by
    rw [Machine.exec_load _ ho, Machine.exec_store, Machine.registers_setRegister, if_pos rfl]
    rfl
  cases type with
  | integer => exact ⟨_, hload ha, rfl⟩
  | real =>
    refine ⟨(m.setRegister "fr1" v).setCell address v, ?_, rfl⟩
    rw [DataType.storeCode, Machine.exec_loadReal _ ha, Machine.exec_storeReal,
      Machine.registers_setRegister, if_pos rfl]
    rfl
  | boolean =>
    obtain ⟨kind, text, hlit, rfl⟩ | ⟨x, hlit, rfl⟩ := hoperand
    · have hcell : (Operand.toBoolean (.immediate (kind.written text))).cell? m
          = some (.int (if kind.written text = "1" then 1 else 0)) := by
        rw [Operand.toBoolean]
        split
        · exact immediateCell?_one
        · exact immediateCell?_zero
      refine ⟨_, hload hcell, ?_⟩
      simp only [DataType.stored, hlit, Machine.memory_setCell, Machine.memory_setRegister]
    · refine ⟨_, hload ha, ?_⟩
      simp only [DataType.stored, hlit, Machine.memory_setCell, Machine.memory_setRegister]
  | string =>
    obtain ⟨kind, text, hlit, rfl⟩ | ⟨x, hlit, rfl⟩ := hoperand
    · refine ⟨_, Machine.exec_str _ m _ address, ?_⟩
      simp only [DataType.stored, hlit, Machine.memory_setCell]
    · refine ⟨_, Machine.exec_move _ ha address, ?_⟩
      simp only [DataType.stored, hlit, Machine.memory_setCell]

/-- **The code of a step** adds one to a cell or takes one from it, or stops at it. -/
theorem exec_step (step : Step) (m : Machine) (address : Nat) :
    Outcome (fun c m' => m'.memory = m.memory.write address c)
      ((m.memory.read address).plus step.delta) (m.exec (step.code address)) := by
  have hdelta (m' : Machine) :
      (Operand.immediate (if step.operator = "--" then "-1" else "1")).cell? m'
        = some step.delta := by
    rw [Step.delta]
    split
    · exact immediateCell?_minus_one
    · exact immediateCell?_one
  have hload : (Operand.memory address).cell? m = some (m.memory.read address) := rfl
  exact exec_sumCode (n := address + 1) true hload (hdelta m) trivial address

end Stretches

/-! ## Memory and cells agree -/

/-- Every variable's cell is at its address, and nothing else is below the cells of sums. -/
structure Agrees (t : SymbolTable) (env : Env) (memory : Memory) : Prop where
  cell : ∀ s ∈ t.symbols, memory[s.location]? = env s.name
  only : ∀ a < t.nextLocation, memory[a]?.isSome = true → ∃ s ∈ t.symbols, s.location = a

namespace Agrees

variable {t : SymbolTable} {env : Env} {memory memory' : Memory}

/-- What happens above the variables does not touch the agreement. -/
theorem of_eq (h : Agrees t env memory) (ht : t.Valid)
    (heq : ∀ a < t.nextLocation, memory'[a]? = memory[a]?) : Agrees t env memory' := by
  constructor
  · intro s hs
    rw [heq _ (ht.location_lt hs), h.cell s hs]
  · intro a ha hsome
    rw [heq a ha] at hsome
    exact h.only a ha hsome

/-- A variable reads the same in both runs, also one that was never written. -/
theorem read {name : String} {s : Symbol} (h : Agrees t env memory) (hs : t.get? name = some s) :
    memory.read s.location = env.read name := by
  obtain ⟨hmem, rfl⟩ := SymbolTable.mem_of_get? hs
  rw [Memory.read, h.cell s hmem, Env.read]

/-- **Writing a variable's cell** keeps the agreement. -/
theorem write {name : String} {s : Symbol} (h : Agrees t env memory) (ht : t.Valid)
    (hs : t.get? name = some s) (c : Cell) :
    Agrees t (env.write name c) (memory.write s.location c) := by
  obtain ⟨hmem, rfl⟩ := SymbolTable.mem_of_get? hs
  constructor
  · intro s' hs'
    rw [Memory.getElem?_write, Env.write]
    by_cases heq : s'.name = s.name
    · have hsame : s' = s := by
        have hget := SymbolTable.get?_of_mem ht.nodup hs'
        rw [heq, hs] at hget
        exact (Option.some.inj hget).symm
      rw [hsame, if_pos rfl, if_pos rfl]
    · have hne : s.location ≠ s'.location := fun hlocation =>
        heq (congrArg Symbol.name (ht.eq_of_location hmem hs' hlocation)).symm
      rw [if_neg hne, if_neg heq, h.cell s' hs']
  · intro a ha hsome
    rw [Memory.getElem?_write] at hsome
    split at hsome
    · exact ⟨s, hmem, ‹_›⟩
    · exact h.only a ha hsome

end Agrees

/-! ## Expressions -/

/-- Whether the literals of an expression look as they should and can be read. -/
def Expr.Readable (e : Expr) : Prop :=
  ∀ kind text, (kind, text) ∈ e.literals → kind.Shape text ∧ ∃ c, kind.cell text = .ok c

/-- **An expression's code computes its value** and disturbs no cell that was in use. -/
theorem Computes.outcome {t : SymbolTable} {e : Expr} {code : List Instruction} {o : Operand}
    {n n' : Nat} (h : Computes t e n code o n') (ht : t.Valid) (hn : t.nextLocation ≤ n)
    (he : e.Readable) {env : Env} {m : Machine} (hm : Agrees t env m.memory) :
    Outcome (fun v m' => (∀ a < n, m'.memory[a]? = m.memory[a]?) ∧ o.cell? m' = some v)
      (e.eval env) (m.exec code) := by
  induction h generalizing m with
  | literal kind text n =>
    obtain ⟨hshape, c, hc⟩ := he kind text (List.mem_singleton_self _)
    rw [Expr.eval, hc]
    refine .ok ⟨fun _ _ => rfl, ?_⟩
    rw [Operand.cell?, hshape.immediateCell?, hc]
    rfl
  | ident hs n => exact .ok ⟨fun _ _ => rfl, congrArg some (hm.read hs)⟩
  | group _ ih => exact ih hn he hm
  | @sum left right lcode rcode a b n n₁ n₂ hl hr numerals hbound ihl ihr =>
    have hn₁ := hl.le
    have hn₂ := hr.le
    rw [Machine.exec_append]
    refine (ihl hn (fun kind text hmem => he kind text (List.mem_append_left _ hmem)) hm).bind ?_
    rintro v m₁ ⟨hm₁, hv⟩
    rw [Machine.exec_append]
    refine (ihr (Nat.le_trans hn hn₁)
      (fun kind text hmem => he kind text (List.mem_append_right _ hmem))
      (hm.of_eq ht fun x hx => hm₁ x (Nat.lt_of_lt_of_le hx hn))).bind ?_
    rintro w m₂ ⟨hm₂, hw⟩
    -- the left operand is still there: the right code writes behind it
    have hv₂ : a.cell? m₂ = some v := by rw [(hl.operand_below ht hn).cell? hm₂, hv]
    have hbelow := hr.operand_below ht (Nat.le_trans hn hn₁)
    rw [if_pos rfl]
    refine (exec_sumCode numerals hv₂ hw hbelow n₂).mono fun c m₃ hm₃ => ⟨fun x hx => ?_, ?_⟩
    · rw [hm₃, Memory.getElem?_write, if_neg (by omega), hm₂ x (by omega), hm₁ x hx]
    · rw [Operand.cell?, hm₃, Memory.read_write, if_pos rfl]
  | @other left right lcode rcode a b n n₁ n₂ operator hop hl hr text ihl ihr =>
    have hn₁ := hl.le
    rw [Machine.exec_append]
    refine (ihl hn (fun kind text hmem => he kind text (List.mem_append_left _ hmem)) hm).bind ?_
    rintro v m₁ ⟨hm₁, hv⟩
    rw [Machine.exec_append]
    refine (ihr (Nat.le_trans hn hn₁)
      (fun kind text hmem => he kind text (List.mem_append_right _ hmem))
      (hm.of_eq ht fun x hx => hm₁ x (Nat.lt_of_lt_of_le hx hn))).bind ?_
    rintro w m₂ ⟨hm₂, -⟩
    rw [if_neg hop]
    refine .ok ⟨fun x hx => ?_, ?_⟩
    · rw [hm₂ x (Nat.lt_of_lt_of_le hx hn₁), hm₁ x hx]
    · rw [(hl.operand_below ht hn).cell? hm₂, hv]

/-! ## Actions -/

/-- **The code of actions does what the reference run says.** -/
theorem Emits.outcome {t : SymbolTable} {as : List Action} {code : List Instruction} {n n' : Nat}
    (h : Emits t as n code n') (ht : t.Valid) (hn : t.nextLocation ≤ n)
    {types : String → Option DataType}
    (htypes : ∀ name s, t.get? name = some s → types name = some s.dataType)
    (has : ∀ a ∈ as, ∀ name e, a.target? = some (name, e) → e.Readable) {env : Env} {m : Machine}
    (hm : Agrees t env m.memory) :
    Outcome (fun env' m' => Agrees t env' m'.memory) (as.foldlM (Action.run types) env)
      (m.exec code) := by
  induction h generalizing env m with
  | nil => exact .ok hm
  | mark hi _ _ ih =>
    rw [m.exec_mark hi]
    exact ih hn has hm
  | @store a as name e s code rest o n n₁ n₂ ha hs he hrest ih =>
    have hrun : a.run types env = env.store types name e := by
      cases a with
      | declare d =>
        obtain ⟨rfl, rfl⟩ := Prod.mk.inj (Option.some.inj ha)
        rfl
      | assign name' value =>
        obtain ⟨rfl, rfl⟩ := Prod.mk.inj (Option.some.inj ha)
        rfl
      | reserve p => cases ha
      | count step => cases ha
    have hstore : Outcome (fun env' m' => Agrees t env' m'.memory) (env.store types name e)
        (m.exec code >>= fun m' => m'.exec (s.dataType.storeCode o s.location)) := by
      refine (he.outcome ht hn (has a (List.mem_cons_self ..) name e ha) hm).bind ?_
      rintro v m₁ ⟨hm₁, hv⟩
      obtain ⟨m₂, hexec, hm₂⟩ := exec_storeCode s.dataType he.operand hv s.location
      rw [hexec, htypes name s hs]
      refine .ok ?_
      rw [hm₂]
      exact (hm.of_eq ht fun x hx => hm₁ x (Nat.lt_of_lt_of_le hx hn)).write ht hs _
    rw [List.foldlM_cons, hrun, ← List.append_assoc, Machine.exec_append, Machine.exec_append]
    refine hstore.bind fun env' m' hm' => ?_
    exact ih (Nat.le_trans hn he.le) (fun a' ha' => has a' (List.mem_cons_of_mem _ ha')) hm'
  | reserve p _ ih =>
    rw [List.foldlM_cons]
    exact ih hn (fun a' ha' => has a' (List.mem_cons_of_mem _ ha')) hm
  | @count as step s code n n' hs hrest ih =>
    have hstep : Outcome (fun env' m' => Agrees t env' m'.memory)
        ((Action.count step).run types env) (m.exec (step.code s.location)) := by
      have hexec := exec_step step m s.location
      rw [hm.read hs] at hexec
      rw [Action.run, ← bind_pure (m.exec (step.code s.location))]
      refine hexec.bind fun c m' hm' => .ok ?_
      rw [hm']
      exact hm.write ht hs c
    rw [List.foldlM_cons, Machine.exec_append]
    exact hstep.bind fun env' m' hm' =>
      ih hn (fun a' ha' => has a' (List.mem_cons_of_mem _ ha')) hm'

/-! ## Whole programs -/

theorem SymbolTable.lookup_heads {t : SymbolTable} {name : String} {s : Symbol}
    (hs : t.get? name = some s) : t.heads.lookup name = some s.dataType.name := by
  obtain ⟨symbols, memory⟩ := t
  unfold get? at hs
  unfold heads
  dsimp only at hs ⊢
  induction symbols with
  | nil => cases hs
  | cons s' rest ih =>
    rw [List.map_cons, List.lookup_cons]
    by_cases heq : s'.name = name
    · rw [List.find?_cons_of_pos (by simpa using heq)] at hs
      obtain rfl := Option.some.inj hs
      simp [heq]
    · rw [List.find?_cons_of_neg (by simpa using heq)] at hs
      have hne : (name == s'.name) = false := by simpa using Ne.symm heq
      rw [hne]
      exact ih hs

/-- **The table has the data type that the program declares.** -/
theorem Program.typeOf?_eq {p : Program} {t : SymbolTable} (h : p.analyze = .ok t) (name : String)
    (s : Symbol) (hs : t.get? name = some s) : p.typeOf? name = some s.dataType := by
  rw [typeOf?, ← heads_of_analyze h, SymbolTable.lookup_heads hs]
  exact DataType.ofName?_name s.dataType

/-- Before a run there is nothing to disagree on. -/
theorem agrees_empty (t : SymbolTable) : Agrees t (fun _ => none) ∅ := by
  constructor
  · intro s _
    exact Std.ExtTreeMap.getElem?_empty
  · intro a _ hsome
    rw [Std.ExtTreeMap.getElem?_empty] at hsome
    cases hsome

/-- **Generated code does what the reference run says.**  Every variable of the program has an
address, and running the code of a source with ASCII numbers leaves there the cell that the
reference run leaves in the variable, or stops at the sum where that run stops. -/
theorem execute_compile_outcome {source : String} {c : Compilation}
    (hc : compile source false = .ok c)
    (hascii : ∀ t ∈ c.tokens, t.kind = .number → ∀ ch ∈ t.text.toList, Text.isDigit ch = true →
      ch.isDigit = true) :
    c.table.names = c.program.declared ∧
      Outcome (Agrees c.table) c.program.reference (execute c.optimized) := by
  obtain ⟨-, htable, -, hoptimized⟩ := compile_eq_ok_iff.1 hc
  obtain ⟨n, hemits⟩ := emits_of_compile hc
  obtain ⟨hscan, hliterals⟩ := literals_of_compile hc
  have hreadable : ∀ a ∈ c.program.actions, ∀ name e, a.target? = some (name, e) → e.Readable := by
    intro a ha name e htarget kind text hmem
    obtain ⟨t, ht, hk, rfl⟩ := hliterals a ha name e htarget kind text hmem
    have hshape := Token.shape_of_mem_scan (hscan ▸ ht) hk
    exact ⟨hshape, LiteralKind.cell_of_ascii hshape fun hnumber =>
      hascii t ht (by rw [hk, hnumber]; rfl)⟩
  have hlines : c.optimized = c.lines := by
    rw [hoptimized, if_neg (by decide)]
    rfl
  have houtcome := hemits.outcome (m := {}) (Program.valid_of_analyze htable) (Nat.le_refl _)
    (Program.typeOf?_eq htable) hreadable (agrees_empty c.table)
  rw [hlines, execute_lines_of_compile hc]
  exact ⟨Program.names_of_analyze htable, houtcome.map⟩

/-- A boolean, a nested sum with it and two texts in one: the cells of the reference run stand at
the addresses of the variables. -/
theorem execute_compile_outcome_cells :
    let source := "ebool v-b = yup, enum v-n = 2 + (v-b + 3), estr v-s = \"a\" + \"b\","
    ∃ c memory, compile source false = .ok c ∧ c.table.names = c.program.declared ∧
      Outcome (Agrees c.table) c.program.reference (execute c.optimized) ∧
      execute c.optimized = .ok memory ∧ memory[1000]? = some (.int 1) ∧
      memory[1004]? = some (.int 6) ∧ memory[1008]? = some (.str "ab") := by
  intro source
  let cells : List (Nat × Option Cell) :=
    [(1000, some (.int 1)), (1004, some (.int 6)), (1008, some (.str "ab"))]
  have hcheck : ((compile source false).toOption.any fun c => c.program.reference.toOption.any
      fun env => decide (c.table.symbols.map (fun s => (s.location, env s.name)) = cells))
      = true := by
    decide +kernel
  have hdigits : (Token.scan source).all (fun t =>
      t.kind != .number || t.text.toList.all fun ch => !Text.isDigit ch || ch.isDigit) = true := by
    decide +kernel
  obtain ⟨c, hc, hcheck⟩ := exists_of_toOption_any hcheck
  obtain ⟨env, henv, hcheck⟩ := exists_of_toOption_any hcheck
  obtain ⟨hnames, houtcome⟩ := execute_compile_outcome hc fun t ht hk ch hch hdigit => by
    have hscan := (literals_of_compile hc).1
    have hall := List.all_eq_true.1 hdigits t (hscan ▸ ht)
    simp only [hk, bne_self_eq_false, Bool.false_or, List.all_eq_true] at hall
    simpa [hdigit] using hall ch hch
  obtain ⟨memory, hrun, hmemory⟩ : ∃ memory, execute c.optimized = .ok memory ∧
      Agrees c.table env memory := by
    rw [henv] at houtcome
    generalize execute c.optimized = r at houtcome
    cases houtcome with
    | ok h => exact ⟨_, rfl, h⟩
  have hcells (a : Nat) (cell : Option Cell) (h : (a, cell) ∈ cells) : memory[a]? = cell := by
    rw [← of_decide_eq_true hcheck] at h
    obtain ⟨s, hs, heq⟩ := List.mem_map.1 h
    obtain ⟨rfl, rfl⟩ := Prod.mk.inj heq
    exact hmemory.cell s hs
  exact ⟨c, memory, hc, hnames, houtcome, hrun, hcells _ _ (by decide), hcells _ _ (by decide),
    hcells _ _ (by decide)⟩

end Enigma
