import Enigma.Proofs.Constants
import Enigma.Proofs.Optimisation

/-!
# Proofs/Lifetimes — how long registers and temporaries are needed

Generated code keeps a value in a register for a moment only: between the line that fills it and the
line that reads it nothing but registers is filled.  What has to last is kept in a cell behind the
variables, a new one for each sum, which is written once and read only after that.

* `Held.exists_filler` — where a register that is read was filled;
* `Emits.filledCells_eq` — the cells of the sums, in order; `Emits.count_filledCells` — each is
  filled once;
* `Stocked` — code that reads only cells it has filled, or some that are given; `Emits.stocked`;
* `compile_lifetimes` — what follows for the lines of a compiled source.
-/

namespace Enigma

/-! ## What lines take and leave -/

namespace Line

/-- The mnemonics of the lines that leave a result in a register. -/
def registerMnemonics : List String := ["LOAD", "FLOAD", "ADD"]

/-- The mnemonics of the lines that leave a result in memory. -/
def cellMnemonics : List String := ["STORE", "FSTORE", "STR", "MOV"]

/-- The operands that a line takes values from: all but the last, which says where the result
goes. -/
def sources (line : String) : List String :=
  match split? line with
  | some l => if l.mnemonic ∈ registerMnemonics ++ cellMnemonics then l.operands.dropLast else []
  | none => []

/-- The operand that says where the result goes, if the mnemonic is one of these. -/
def target? (mnemonics : List String) (line : String) : Option String :=
  match split? line with
  | some l => if l.mnemonic ∈ mnemonics then l.operands.getLast? else none
  | none => none

/-- The cell that is named in brackets. -/
def bracketed? (operand : String) : Option Nat :=
  (between? '[' ']' operand).bind fun s => Number.address? (Text.trim s.toList)

/-- The registers that a line reads. -/
def reads (line : String) : List String := (sources line).filter isRegister

/-- The cells that a line reads. -/
def fetches (line : String) : List Nat := (sources line).filterMap bracketed?

/-- The register that a line fills. -/
def fills? (line : String) : Option String := target? registerMnemonics line

/-- The cell that a line fills. -/
def writes? (line : String) : Option Nat :=
  (target? cellMnemonics line).bind fun s => Number.address? (Text.trim s.toList)

end Line

/-- The cells that an operand reads. -/
def Operand.cells : Operand → List Nat
  | memory address => [address]
  | immediate _ | register _ => []

@[simp] theorem Operand.cells_register (name : String) : (register name).cells = [] := rfl

namespace Operand

theorem WellFormed.filter_isRegister {o : Operand} (h : o.WellFormed) :
    [o.text].filter isRegister = o.reads := by
  cases h with
  | numeral h => simp [text, h.bare.1, reads]
  | quoted _ htext => simp [text, isRegister_of_ne htext, reads]
  | @memory address _ => simp [isRegister_of_ne (toList_text_memory address), reads]
  | register h => simp [text, h, reads]

theorem WellFormed.bracketed?_text {o : Operand} (h : o.WellFormed) :
    (Line.bracketed? o.text).toList = o.cells := by
  cases h with
  | numeral h => rw [text, Line.bracketed?, h.bare.2.1]; rfl
  | quoted _ htext => rw [text, Line.bracketed?, between?_of_ne htext (by decide)]; rfl
  | memory h =>
    rw [Line.bracketed?, between?_text_memory, Option.bind_some, address?_toString h]
    rfl
  | register h => rw [text, Line.bracketed?, between?_of_isRegister h (by decide) (by decide)]; rfl

variable {os : List Operand} (hos : ∀ o ∈ os, o.WellFormed)

include hos

/-- **Of written operands those name registers** that are registers. -/
theorem filter_isRegister : (os.map text).filter isRegister = os.flatMap reads := by
  induction os with
  | nil => rfl
  | cons o os ih =>
    obtain ⟨ho, hrest⟩ := List.forall_mem_cons.1 hos
    rw [List.map_cons, ← List.singleton_append, List.filter_append, ho.filter_isRegister, ih hrest,
      List.flatMap_cons]

/-- **Of written operands those name cells** that are cells. -/
theorem filterMap_bracketed? : (os.map text).filterMap Line.bracketed? = os.flatMap cells := by
  induction os with
  | nil => rfl
  | cons o os ih =>
    obtain ⟨ho, hrest⟩ := List.forall_mem_cons.1 hos
    rw [List.map_cons, List.filterMap_cons, ih hrest, List.flatMap_cons, ← ho.bracketed?_text]
    cases Line.bracketed? o.text <;> rfl

end Operand

namespace Instruction

/-- The operands that an instruction takes values from. -/
def sources : Instruction → List Operand
  | load source _ | loadReal source _ | move source _ => [source]
  | store source _ | storeReal source _ => [.register source]
  | str text _ => [.immediate ("\"" ++ text ++ "\"")]
  | add operand source _ => [operand, .register source]
  | jump _ | test _ | label _ | comment _ => []

/-- The cells that an instruction reads. -/
def fetches (i : Instruction) : List Nat := i.sources.flatMap Operand.cells

namespace WellFormed

variable {i : Instruction}

theorem sources (h : i.WellFormed) : ∀ o ∈ i.sources, o.WellFormed := by
  cases i with
  | load | loadReal | move => exact List.forall_mem_singleton.2 h.1
  | store | storeReal => exact List.forall_mem_singleton.2 (.register h.1)
  | str text _ => exact List.forall_mem_singleton.2 (.quoted h.1 (by simp))
  | add => exact List.forall_mem_cons.2 ⟨h.1, List.forall_mem_singleton.2 (.register h.2.1)⟩
  | jump | test | label | comment => exact List.forall_mem_nil _

/-- A mark is none of the lines that leave a result. -/
theorem mnemonic_not_mem (h : i.WellFormed) (hi : i.isMark = true) {l : Line}
    (hl : Line.split? i.text = some l) :
    l.mnemonic ∉ Line.registerMnemonics ++ Line.cellMnemonics := by
  have hwords : (Line.registerMnemonics ++ Line.cellMnemonics).all (fun w =>
      !([";", "IF", "JMP"].contains w) && w.toList.getLast? != some ':') = true := by decide
  intro hmem
  have hword := List.all_eq_true.1 hwords _ hmem
  simp only [Bool.and_eq_true, Bool.not_eq_true', bne_iff_ne] at hword
  rcases h.mnemonic_of_isMark hi hl with hmark | hcolon
  · rw [List.contains_iff_mem.2 hmark] at hword
    cases hword.1
  · exact hword.2 hcolon

/-- **The operands on a line are those of the instruction.** -/
theorem sources_text (h : i.WellFormed) : Line.sources i.text = i.sources.map Operand.text := by
  unfold Line.sources
  cases hi : i.isMark with
  | true =>
    have hnil : i.sources = [] := by
      cases i with
      | jump | test | label | comment => rfl
      | _ => cases hi
    rw [hnil]
    split
    · rename_i hl
      exact if_neg (h.mnemonic_not_mem hi hl)
    · rfl
  | false =>
    cases i with
    | jump | test | label | comment => cases hi
    | _ =>
      rw [h.split?_text rfl]
      dsimp only
      exact if_pos (by decide)

theorem target?_of_isMark (h : i.WellFormed) (hi : i.isMark = true) {mnemonics : List String}
    (hsub : mnemonics ⊆ Line.registerMnemonics ++ Line.cellMnemonics) :
    Line.target? mnemonics i.text = none := by
  unfold Line.target?
  split
  · rename_i hl
    exact if_neg fun hmem => h.mnemonic_not_mem hi hl (hsub hmem)
  · rfl

/-- The target on a line is its last operand, if the mnemonic has a target. -/
theorem target?_text (h : i.WellFormed) {l : Line} (hl : i.line? = some l)
    (mnemonics : List String) :
    Line.target? mnemonics i.text
      = if l.mnemonic ∈ mnemonics then l.operands.getLast? else none := by
  rw [Line.target?, h.split?_text hl]

/-- A line reads the registers that its instruction reads. -/
theorem mem_reads_text (h : i.WellFormed) {r : String} : r ∈ Line.reads i.text ↔ r ∈ i.reads := by
  rw [Line.reads, h.sources_text, Operand.filter_isRegister h.sources]
  cases i <;> simp [Instruction.sources, Instruction.reads, Operand.reads, or_comm]

theorem fetches_text (h : i.WellFormed) : Line.fetches i.text = i.fetches := by
  rw [Line.fetches, h.sources_text, Operand.filterMap_bracketed? h.sources, fetches]

/-- A line fills the register that its instruction fills. -/
theorem fills?_text (h : i.WellFormed) : Line.fills? i.text = i.fills? := by
  cases i with
  | jump | test | label | comment =>
    exact h.target?_of_isMark rfl (List.subset_append_left _ _)
  | load | loadReal | add =>
    rw [Line.fills?, h.target?_text rfl]
    dsimp only
    exact if_pos (by decide)
  | _ =>
    rw [Line.fills?, h.target?_text rfl]
    dsimp only
    exact if_neg (by decide)

/-- A line writes the cell that its instruction writes. -/
theorem writes?_text (h : i.WellFormed) : Line.writes? i.text = i.cell? := by
  cases i with
  | jump | test | label | comment =>
    rw [Line.writes?, h.target?_of_isMark rfl (List.subset_append_right _ _)]
    rfl
  | load | loadReal | add =>
    rw [Line.writes?, h.target?_text rfl]
    dsimp only
    rw [if_neg (by decide)]
    rfl
  | store | storeReal | str | move =>
    rw [Line.writes?, h.target?_text rfl]
    dsimp only
    rw [if_pos (by decide), List.getLast?_cons_cons, List.getLast?_singleton, Option.bind_some,
      address?_toString h.2]
    rfl

end WellFormed

end Instruction

/-! ## Registers -/

theorem Instruction.not_isMark_of_fills? {i : Instruction} (h : i.fills?.isSome = true) :
    i.isMark = false := by
  cases i with
  | load | loadReal | add => rfl
  | _ => cases h

/-- **Where a register that is read was filled**: behind it only registers are filled; or it is one
of the given ones, and nothing else is done in front. -/
theorem Held.exists_filler {regs : List String} {before after : List Instruction} {i : Instruction}
    (h : Held regs (before ++ i :: after)) {r : String} (hr : r ∈ i.reads) :
    (∃ front filler between, before = front ++ filler :: between ∧ filler.fills? = some r ∧
      ∀ j ∈ between, j.fills?.isSome = true) ∨ r ∈ regs ∧ ∀ j ∈ before, j.fills?.isSome = true := by
  induction before generalizing regs with
  | nil => exact .inr ⟨h.1 hr, List.forall_mem_nil _⟩
  | cons j before ih =>
    rcases ih h.2 with ⟨front, filler, between, rfl, hfiller, hbetween⟩ | ⟨hmem, hbefore⟩
    · exact .inl ⟨j :: front, filler, between, rfl, hfiller, hbetween⟩
    · cases hj : j.fills? with
      | none =>
        rw [hj] at hmem
        cases hmem
      | some d =>
        rw [hj] at hmem
        rcases List.mem_cons.1 hmem with rfl | hmem
        · exact .inl ⟨[], j, before, rfl, hj, hbefore⟩
        · exact .inr ⟨hmem, List.forall_mem_cons.2 ⟨by rw [hj]; rfl, hbefore⟩⟩

/-! ## The cells of sums -/

/-- Where the variables of a table are. -/
def SymbolTable.locations (t : SymbolTable) : List Nat := t.symbols.map Symbol.location

theorem SymbolTable.location_mem {t : SymbolTable} {name : String} {s : Symbol}
    (h : t.get? name = some s) : s.location ∈ t.locations :=
  List.mem_map_of_mem (mem_of_get? h).1

theorem SymbolTable.Valid.not_mem_locations {t : SymbolTable} (ht : t.Valid) {a : Nat}
    (ha : t.nextLocation ≤ a) : a ∉ t.locations := by
  intro hmem
  obtain ⟨s, hs, rfl⟩ := List.mem_map.1 hmem
  exact Nat.not_le_of_lt (ht.location_lt hs) ha

/-- **The cells that are filled beside the variables** are those of the sums, in order. -/
theorem Emits.filledCells_eq {t : SymbolTable} {as : List Action} {code : List Instruction}
    {n n' : Nat} (h : Emits t as n code n') (ht : t.Valid) (hn : t.nextLocation ≤ n) :
    (filledCells code).filter (fun a => decide (a ∉ t.locations))
      = List.range' n (sumsOf as) wordSize := by
  induction h with
  | nil => rfl
  | @mark _ i code _ _ hi _ _ ih =>
    have hmark : filledCells (i :: code) = filledCells code := by
      cases i with
      | jump | test | label | comment => rfl
      | _ => cases hi
    rw [hmark, ih hn]
  | @store a as name e s code rest o n n₁ n₂ ha hs he _ ih =>
    obtain ⟨hcode, rfl⟩ := he.filledCells_eq
    have hsums : a.sums = e.sums := by rw [Action.sums, ha]; rfl
    have hfresh : ∀ x ∈ List.range' n e.sums wordSize, decide (x ∉ t.locations) = true := by
      intro x hx
      obtain ⟨k, -, rfl⟩ := List.mem_range'.1 hx
      exact decide_eq_true (ht.not_mem_locations (Nat.le_trans hn (Nat.le_add_right _ _)))
    rw [filledCells_append, filledCells_append, filledCells_storeCode, hcode, List.filter_append,
      List.filter_append, List.filter_eq_self.2 hfresh,
      List.filter_cons_of_neg (by simpa using SymbolTable.location_mem hs), List.filter_nil,
      List.nil_append, ih (Nat.le_trans hn (Nat.le_add_right _ _)), sumsOf, hsums,
      List.range'_append]
  | @reserve as code n n' p _ ih =>
    have hsums : sumsOf (.reserve p :: as) = sumsOf as := Nat.zero_add _
    rw [ih hn, hsums]
  | @count as step s code n n' hs _ ih =>
    have hcode : filledCells (step.code s.location) = [s.location] := rfl
    have hsums : sumsOf (.count step :: as) = sumsOf as := Nat.zero_add _
    rw [filledCells_append, hcode, List.filter_append,
      List.filter_cons_of_neg (by simpa using SymbolTable.location_mem hs), List.filter_nil,
      List.nil_append, ih hn, hsums]

/-- A cell that is filled is that of a variable or that of a sum. -/
theorem Emits.mem_filledCells {t : SymbolTable} {as : List Action} {code : List Instruction}
    {n n' a : Nat} (h : Emits t as n code n') (ht : t.Valid) (hn : t.nextLocation ≤ n)
    (ha : a ∈ filledCells code) :
    a ∈ t.locations ∨ ∃ k < sumsOf as, a = n + wordSize * k := by
  by_cases hlocation : a ∈ t.locations
  · exact .inl hlocation
  · refine .inr (List.mem_range'.1 ?_)
    rw [← h.filledCells_eq ht hn]
    exact List.mem_filter.2 ⟨ha, decide_eq_true hlocation⟩

/-- **The cell of a sum is filled once.** -/
theorem Emits.count_filledCells {t : SymbolTable} {as : List Action} {code : List Instruction}
    {n n' k : Nat} (h : Emits t as n code n') (ht : t.Valid) (hn : t.nextLocation ≤ n)
    (hk : k < sumsOf as) : (filledCells code).count (n + wordSize * k) = 1 := by
  have hfresh : n + wordSize * k ∉ t.locations :=
    ht.not_mem_locations (Nat.le_trans hn (Nat.le_add_right _ _))
  have hmem : n + wordSize * k ∈ List.range' n (sumsOf as) wordSize :=
    List.mem_range'.2 ⟨k, hk, rfl⟩
  rw [← List.count_filter (p := fun a => decide (a ∉ t.locations)) (decide_eq_true hfresh),
    h.filledCells_eq ht hn, (List.nodup_range' wordSize (by decide)).count, if_pos hmem]

/-- **A cell that is filled once** has one instruction that fills it. -/
theorem exists_filler_of_count {code : List Instruction} {a : Nat}
    (h : (filledCells code).count a = 1) :
    ∃ before i after, code = before ++ i :: after ∧ i.cell? = some a ∧
      a ∉ filledCells before ∧ a ∉ filledCells after := by
  have hmem : a ∈ filledCells code := List.count_pos_iff.1 (by rw [h]; exact Nat.one_pos)
  obtain ⟨i, hi, hcell⟩ := List.mem_filterMap.1 hmem
  obtain ⟨before, after, rfl⟩ := List.append_of_mem hi
  refine ⟨before, i, after, rfl, hcell, ?_⟩
  rw [filledCells_append, filledCells_cons, hcell, Option.toList_some, List.count_append,
    List.count_append, List.count_singleton_self] at h
  exact ⟨List.count_eq_zero.1 (by omega), List.count_eq_zero.1 (by omega)⟩

/-! ## Cells that are read -/

/-- Every cell that is read was filled before, or is one of these. -/
def Stocked : List Nat → List Instruction → Prop
  | _, [] => True
  | cells, i :: code => i.fetches ⊆ cells ∧ Stocked (cells ++ i.cell?.toList) code

namespace Stocked

variable {cells cells' : List Nat} {code code' : List Instruction}

/-- Code in two parts is stocked if the second may use what the first fills. -/
theorem append (h : Stocked cells code) (h' : Stocked (cells ++ filledCells code) code') :
    Stocked cells (code ++ code') := by
  induction code generalizing cells with
  | nil =>
    rw [filledCells, List.filterMap_nil, List.append_nil] at h'
    exact h'
  | cons i code ih =>
    rw [filledCells_cons, ← List.append_assoc] at h'
    exact ⟨h.1, ih h.2 h'⟩

/-- **What an instruction reads was filled in front of it.** -/
theorem fetches_subset {before after : List Instruction} {i : Instruction}
    (h : Stocked cells (before ++ i :: after)) : i.fetches ⊆ cells ++ filledCells before := by
  induction before generalizing cells with
  | nil =>
    rw [filledCells, List.filterMap_nil, List.append_nil]
    exact h.1
  | cons j before ih =>
    rw [filledCells_cons, ← List.append_assoc]
    exact ih h.2

/-- A cell that is none of the given ones is not read up to where it is filled. -/
theorem not_mem_fetches {before after : List Instruction} {i : Instruction} {a : Nat}
    (h : Stocked cells (before ++ i :: after)) (hcells : a ∉ cells) (ha : a ∉ filledCells before) :
    ∀ j ∈ before ++ [i], a ∉ j.fetches := by
  induction before generalizing cells with
  | nil => exact List.forall_mem_singleton.2 fun hmem => hcells (h.1 hmem)
  | cons j before ih =>
    rw [filledCells_cons, List.mem_append, not_or] at ha
    refine List.forall_mem_cons.2 ⟨fun hmem => hcells (h.1 hmem), ih h.2 ?_ ha.2⟩
    rw [List.mem_append, not_or]
    exact ⟨hcells, ha.1⟩

end Stocked

/-- A sum fetches no cells but those of its operands. -/
theorem stocked_sumCode {cells : List Nat} {a b : Operand} (ha : a.cells ⊆ cells)
    (hb : b.cells ⊆ cells) (numerals : Bool) (cell : Nat) :
    Stocked cells (sumCode numerals a b cell) := by
  cases numerals <;>
    simp [sumCode, Stocked, Instruction.fetches, Instruction.sources, Instruction.cell?, ha, hb]

theorem stocked_storeCode {cells : List Nat} {a : Operand} (ha : a.cells ⊆ cells) (type : DataType)
    (address : Nat) : Stocked cells (type.storeCode a address) := by
  have hboolean : a.toBoolean.cells ⊆ cells := by
    cases a with
    | immediate => exact List.nil_subset _
    | _ => exact ha
  cases type with
  | string =>
    cases a with
    | immediate text => exact ⟨List.nil_subset _, trivial⟩
    | memory address => exact ⟨ha, trivial⟩
    | register name => exact ⟨List.nil_subset _, trivial⟩
  | _ => simp [DataType.storeCode, Stocked, Instruction.fetches, Instruction.sources,
      Instruction.cell?, ha, hboolean]

/-- The code of an expression reads variables and cells that it filled, and its value is read from
one of them or from none. -/
theorem Computes.stocked {t : SymbolTable} {e : Expr} {code : List Instruction} {o : Operand}
    {n n' : Nat} (h : Computes t e n code o n') {cells : List Nat} (hcells : t.locations ⊆ cells) :
    Stocked cells code ∧ o.cells ⊆ cells ++ filledCells code := by
  induction h generalizing cells with
  | literal => exact ⟨trivial, List.nil_subset _⟩
  | ident hs =>
    refine ⟨trivial, List.subset_append_of_subset_left _ (List.cons_subset.2 ?_)⟩
    exact ⟨hcells (SymbolTable.location_mem hs), List.nil_subset _⟩
  | group _ ih => exact ih hcells
  | @sum _ _ lcode rcode a b _ _ n₂ _ _ numerals _ ihl ihr =>
    obtain ⟨hl, ha⟩ := ihl hcells
    obtain ⟨hr, hb⟩ := ihr (List.subset_append_of_subset_left (filledCells lcode) hcells)
    refine ⟨hl.append (hr.append (stocked_sumCode ?_ hb numerals n₂)), ?_⟩
    · exact List.subset_append_of_subset_left _ ha
    · rw [filledCells_append, filledCells_append, filledCells_sumCode]
      simp [Operand.cells]
  | @other _ _ lcode rcode a b _ _ _ _ _ _ _ text ihl ihr =>
    obtain ⟨hl, ha⟩ := ihl hcells
    obtain ⟨hr, -⟩ := ihr (List.subset_append_of_subset_left (filledCells lcode) hcells)
    refine ⟨hl.append (hr.append ⟨List.nil_subset _, trivial⟩), ?_⟩
    rw [filledCells_append, ← List.append_assoc]
    exact List.subset_append_of_subset_left _ ha

/-- **Generated code reads only variables and cells that it has filled.** -/
theorem Emits.stocked {t : SymbolTable} {as : List Action} {code : List Instruction} {n n' : Nat}
    (h : Emits t as n code n') {cells : List Nat} (hcells : t.locations ⊆ cells) :
    Stocked cells code := by
  induction h generalizing cells with
  | nil => trivial
  | @mark _ i _ _ _ hi _ _ ih =>
    cases i with
    | jump | test | label | comment =>
      exact ⟨List.nil_subset _, ih (List.subset_append_of_subset_left _ hcells)⟩
    | _ => cases hi
  | store _ _ he _ ih =>
    obtain ⟨hcode, ho⟩ := he.stocked hcells
    refine hcode.append ((stocked_storeCode ho _ _).append (ih ?_))
    exact List.subset_append_of_subset_left _ (List.subset_append_of_subset_left _ hcells)
  | reserve _ _ ih => exact ih hcells
  | @count _ step s _ _ _ hs _ ih =>
    have hlocation : (Operand.memory s.location).cells ⊆ cells :=
      List.cons_subset.2 ⟨hcells (SymbolTable.location_mem hs), List.nil_subset _⟩
    have hstep : Stocked cells (step.code s.location) :=
      stocked_sumCode (b := .immediate _) hlocation (List.nil_subset _) true s.location
    exact hstep.append (ih (List.subset_append_of_subset_left _ hcells))

/-! ## Compiled sources -/

/-- Cutting the lines of code is cutting the code. -/
theorem exists_code_of_lines {code : List Instruction} {before after : List String} {line : String}
    (h : code.map Instruction.text = before ++ line :: after) :
    ∃ front i back, code = front ++ i :: back ∧ front.map Instruction.text = before ∧
      i.text = line := by
  obtain ⟨front, rest, rfl, hfront, hrest⟩ := List.map_eq_append_iff.1 h
  obtain ⟨i, back, rfl, hi, -⟩ := List.map_eq_cons_iff.1 hrest
  exact ⟨front, i, back, rfl, hfront, hi⟩

section Compiled

variable {source : String} {optimized : Bool} {c : Compilation}
  (hc : compile source optimized = .ok c)

include hc

/-- **A register is read right after it was filled**: between the two lines only registers are. -/
theorem exists_filler_of_compile {before after : List String} {line r : String}
    (hlines : c.lines = before ++ line :: after) (hr : r ∈ Line.reads line) :
    ∃ front filler between, before = front ++ filler :: between ∧ Line.fills? filler = some r ∧
      ∀ x ∈ filler :: between, Line.isMark x = false ∧ (Line.fills? x).isSome = true := by
  obtain ⟨n, hemits⟩ := emits_of_compile hc
  have hw := wellFormed_of_compile hc
  obtain ⟨front, i, back, hcode, rfl, rfl⟩ := exists_code_of_lines hlines
  have hheld := hemits.held
  rw [hcode] at hheld hw
  have hread := (hw i (List.mem_append_right _ (List.mem_cons_self ..))).mem_reads_text.1 hr
  rcases hheld.exists_filler hread with ⟨front, filler, between, rfl, hfiller, hbetween⟩ | ⟨hnil, -⟩
  · have hsub : filler :: between ⊆ front ++ filler :: between ++ i :: back :=
      List.subset_append_of_subset_left _ (List.subset_append_right _ _)
    refine ⟨front.map Instruction.text, filler.text, between.map Instruction.text, by simp, ?_, ?_⟩
    · rw [(hw filler (hsub (List.mem_cons_self ..))).fills?_text, hfiller]
    · have hfills : ∀ j ∈ filler :: between, j.fills?.isSome = true :=
        List.forall_mem_cons.2 ⟨by rw [hfiller]; rfl, hbetween⟩
      rw [← List.map_cons, List.forall_mem_map]
      intro j hj
      rw [(hw j (hsub hj)).isMark_text, (hw j (hsub hj)).fills?_text]
      exact ⟨Instruction.not_isMark_of_fills? (hfills j hj), hfills j hj⟩
  · exact absurd hnil List.not_mem_nil

/-- **Where values are kept**: a cell that a line writes or reads is that of a variable or that of a
sum. -/
theorem mem_cells_of_compile {line : String} (hline : line ∈ c.lines) {a : Nat}
    (ha : Line.writes? line = some a ∨ a ∈ Line.fetches line) :
    a ∈ c.table.locations ∨ ∃ k < c.program.sums, a = c.table.nextLocation + wordSize * k := by
  obtain ⟨n, hemits⟩ := emits_of_compile hc
  have hvalid := Program.valid_of_analyze (compile_eq_ok_iff.1 hc).2.1
  obtain ⟨i, hi, rfl⟩ := List.mem_map.1 hline
  have hw := wellFormed_of_compile hc i hi
  rw [hw.writes?_text, hw.fetches_text] at ha
  rcases ha with hwrite | hfetch
  · exact hemits.mem_filledCells hvalid (Nat.le_refl _) (List.mem_filterMap.2 ⟨i, hi, hwrite⟩)
  · obtain ⟨before, after, hcode⟩ := List.append_of_mem hi
    have hstocked := hemits.stocked (List.Subset.refl _)
    rw [hcode] at hstocked
    rcases List.mem_append.1 (hstocked.fetches_subset hfetch) with hlocation | hfilled
    · exact .inl hlocation
    · refine hemits.mem_filledCells hvalid (Nat.le_refl _) ?_
      rw [hcode, filledCells_append]
      exact List.mem_append_left _ hfilled

/-- **The cell of a sum is written by one line**, and not read up to it. -/
theorem exists_writer_of_compile {k : Nat} (hk : k < c.program.sums) :
    ∃ before line after, c.lines = before ++ line :: after ∧
      Line.writes? line = some (c.table.nextLocation + wordSize * k) ∧
      (∀ x ∈ before ++ after, Line.writes? x ≠ some (c.table.nextLocation + wordSize * k)) ∧
      ∀ x ∈ before ++ [line], c.table.nextLocation + wordSize * k ∉ Line.fetches x := by
  obtain ⟨n, hemits⟩ := emits_of_compile hc
  have hvalid := Program.valid_of_analyze (compile_eq_ok_iff.1 hc).2.1
  have hw := wellFormed_of_compile hc
  have hfresh : c.table.nextLocation + wordSize * k ∉ c.table.locations :=
    hvalid.not_mem_locations (Nat.le_add_right _ _)
  have hcount := hemits.count_filledCells hvalid (Nat.le_refl _) hk
  generalize c.table.nextLocation + wordSize * k = a at hfresh hcount ⊢
  obtain ⟨before, i, after, hcode, hcell, hbefore, hafter⟩ := exists_filler_of_count hcount
  have hstocked := hemits.stocked (List.Subset.refl _)
  rw [hcode] at hw hstocked
  refine ⟨before.map Instruction.text, i.text, after.map Instruction.text, ?_, ?_, ?_, ?_⟩
  · rw [Compilation.lines, hcode, List.map_append, List.map_cons]
  · rw [(hw i (by simp)).writes?_text, hcell]
  · rw [← List.map_append, List.forall_mem_map]
    intro j hj
    have hsublist := (List.sublist_cons_self i after).append_left before
    rw [(hw j (hsublist.subset hj)).writes?_text]
    intro hcell'
    have hmem : a ∈ filledCells (before ++ after) := List.mem_filterMap.2 ⟨j, hj, hcell'⟩
    rw [filledCells_append] at hmem
    exact (List.mem_append.1 hmem).elim hbefore hafter
  · rw [← List.map_singleton, ← List.map_append, List.forall_mem_map]
    intro j hj
    rw [List.append_cons] at hw
    rw [(hw j (List.mem_append_left _ hj)).fetches_text]
    exact hstocked.not_mem_fetches hfresh hbefore j hj

end Compiled

/-- **Registers and temporaries are filled before they are read, and not shared.**  In the lines
that are generated for a source, a register that is read was filled by a line in front of it, with
nothing between the two but lines that fill registers — no mark, and no write to memory.  A cell
that is written or read is that of a variable or, behind the variables, that of one of the sums; and
the cell of a sum is written by one line only, and read only behind it. -/
theorem compile_lifetimes {source : String} {optimized : Bool} {c : Compilation}
    (hc : compile source optimized = .ok c) :
    (∀ before line after, c.lines = before ++ line :: after → ∀ r ∈ Line.reads line,
      ∃ front filler between, before = front ++ filler :: between ∧ Line.fills? filler = some r ∧
        ∀ x ∈ filler :: between, Line.isMark x = false ∧ (Line.fills? x).isSome = true) ∧
    (∀ line ∈ c.lines, ∀ a, Line.writes? line = some a ∨ a ∈ Line.fetches line →
      a ∈ c.table.symbols.map Symbol.location ∨
        ∃ k < c.program.sums, a = c.table.nextLocation + 4 * k) ∧
    ∀ k < c.program.sums, ∃ before line after, c.lines = before ++ line :: after ∧
      Line.writes? line = some (c.table.nextLocation + 4 * k) ∧
      (∀ x ∈ before ++ after, Line.writes? x ≠ some (c.table.nextLocation + 4 * k)) ∧
      ∀ x ∈ before ++ [line], c.table.nextLocation + 4 * k ∉ Line.fetches x :=
  ⟨fun _ _ _ hlines _ hr => exists_filler_of_compile hc hlines hr,
    fun _ hline _ ha => mem_cells_of_compile hc hline ha,
    fun _ hk => exists_writer_of_compile hc hk⟩

/-- Four sums, one under an operator that is passed over and one in a loop. -/
theorem compile_lifetimes_nested :
    let source := "enum v-a = 1, efl v-b = v-a * (v-a + 2) + v-a,
      iterate (enum v-i = 1 + 2, v-i < 9 v-i ++,) { v-a = v-a + v-i, }"
    ∃ c, compile source false = .ok c ∧ c.program.sums = 4 ∧
      (∃ before after, c.lines = before ++ "ADD r2, r1, r3" :: after ∧
        ∃ front filler between, before = front ++ filler :: between ∧
          Line.fills? filler = some "r1" ∧
          ∀ x ∈ filler :: between, Line.isMark x = false ∧ (Line.fills? x).isSome = true) ∧
      ∃ before line after, c.lines = before ++ line :: after ∧ Line.writes? line = some 1024 ∧
        (∀ x ∈ before ++ after, Line.writes? x ≠ some 1024) ∧
        ∀ x ∈ before ++ [line], 1024 ∉ Line.fetches x := by
  intro source
  have hcheck : ((compile source false).toOption.any fun c => c.program.sums == 4 &&
      c.table.nextLocation == 1012 && c.lines.contains "ADD r2, r1, r3") = true := by
    decide +kernel
  obtain ⟨c, hc, hcheck⟩ := exists_of_toOption_any hcheck
  simp only [Bool.and_eq_true, beq_iff_eq, List.contains_iff_mem] at hcheck
  obtain ⟨⟨hsums, hnext⟩, hadd⟩ := hcheck
  obtain ⟨before, after, hlines⟩ := List.append_of_mem hadd
  obtain ⟨hregisters, -, htemporaries⟩ := compile_lifetimes hc
  have hlast := htemporaries 3 (by rw [hsums]; decide)
  rw [hnext] at hlast
  exact ⟨c, hc, hsums, ⟨before, after, hlines, hregisters _ _ _ hlines "r1" (by decide +kernel)⟩,
    hlast⟩

end Enigma
