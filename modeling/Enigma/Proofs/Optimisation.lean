import Enigma.Proofs.Emission
import Enigma.Proofs.Passes

/-!
# Proofs/Optimisation — optimised code leaves the memory that generated code leaves

A load and a store that are joined no longer fill their register.  Generated code does not miss it:
every register that it reads was filled since the last write to memory, and a joined pair ends with
such a write.  So the run of the joined code has the same memory throughout, and the same registers
wherever one is read.

* `Supplied` — code that reads only registers filled since the last write; `Held` — since anything
  else was done;
* `SameOn.effect` — one instruction; `Supplied.exec_joinCode` — joined code;
* `Emits.held`, `Emits.supplied` — what is generated is so supplied;
* `execute_optimize_iff` — the optimiser keeps the memory that is left.
-/

namespace Enigma

/-! ## Registers that are read and filled -/

/-- The registers that an operand reads. -/
def Operand.reads : Operand → List String
  | register name => [name]
  | immediate _ | memory _ => []

@[simp] theorem Operand.reads_register (name : String) : (register name).reads = [name] := rfl

namespace Instruction

/-- The registers that an instruction reads. -/
def reads : Instruction → List String
  | load source _ | loadReal source _ | move source _ => source.reads
  | store source _ | storeReal source _ => [source]
  | add operand source _ => source :: operand.reads
  | str _ _ | jump _ | test _ | label _ | comment _ => []

/-- The registers that were filled since the last write to memory, one instruction later. -/
def filled (regs : List String) : Instruction → List String
  | load _ dest | loadReal _ dest | add _ _ dest => dest :: regs
  | store _ _ | storeReal _ _ | str _ _ | move _ _ => []
  | jump _ | test _ | label _ | comment _ => regs

/-- The register that an instruction fills. -/
def fills? : Instruction → Option String
  | load _ dest | loadReal _ dest | add _ _ dest => some dest
  | store _ _ | storeReal _ _ | str _ _ | move _ _ | jump _ | test _ | label _ | comment _ => none

end Instruction

/-- Every register that is read was filled since the last write to memory, or is one of these. -/
def Supplied : List String → List Instruction → Prop
  | _, [] => True
  | regs, i :: code => i.reads ⊆ regs ∧ Supplied (i.filled regs) code

/-- Marks read no registers. -/
theorem Supplied.mark {regs : List String} {i : Instruction} (hi : i.isMark = true)
    {code : List Instruction} : Supplied regs (i :: code) ↔ Supplied regs code := by
  cases i with
  | jump | test | label | comment => exact and_iff_right (List.nil_subset regs)
  | _ => cases hi

/-- **Code stays supplied** when marks are dropped. -/
theorem Supplied.thins {regs : List String} {code code' : List Instruction}
    (h : Supplied regs code) (hthins : Thins code code') : Supplied regs code' := by
  induction hthins generalizing regs with
  | nil => exact h
  | keep i _ ih => exact ⟨h.1, ih h.2⟩
  | drop hi _ ih => exact ih ((Supplied.mark hi).1 h)

/-- Every register that is read was filled with nothing but registers filled since, or is one of
these: a mark does not come between either. -/
def Held : List String → List Instruction → Prop
  | _, [] => True
  | regs, i :: code => i.reads ⊆ regs ∧ Held ((i.fills?.map (· :: regs)).getD []) code

theorem Held.mark {i : Instruction} (hi : i.isMark = true) {code : List Instruction}
    (h : Held [] code) : Held [] (i :: code) := by
  cases i with
  | jump | test | label | comment => exact ⟨List.nil_subset _, h⟩
  | _ => cases hi

/-- Code that is held is supplied, and more registers do no harm. -/
theorem Held.supplied {regs regs' : List String} {code : List Instruction} (h : Held regs code)
    (hsub : regs ⊆ regs') : Supplied regs' code := by
  induction code generalizing regs regs' with
  | nil => trivial
  | cons i code ih =>
    refine ⟨List.Subset.trans h.1 hsub, ih h.2 ?_⟩
    cases i with
    | load | loadReal | add => exact List.cons_subset_cons _ hsub
    | _ => exact List.nil_subset _

/-! ## Two runs side by side -/

/-- Two machines with the same memory, and the same cells in some registers. -/
structure SameOn (regs : List String) (m m' : Machine) : Prop where
  memory : m'.memory = m.memory
  registers : ∀ r ∈ regs, m'.registers r = m.registers r

/-- Both runs succeed with related machines, or both fail. -/
inductive Alike (P : Machine → Machine → Prop) :
    Except ExecutionError Machine → Except ExecutionError Machine → Prop
  | ok {m m' : Machine} (h : P m m') : Alike P (.ok m) (.ok m')
  | error (e e' : ExecutionError) : Alike P (.error e) (.error e')

namespace Alike

variable {P Q : Machine → Machine → Prop} {x y : Except ExecutionError Machine}

/-- **Alike runs go on alike.** -/
theorem bind {f g : Machine → Except ExecutionError Machine} (h : Alike P x y)
    (hfg : ∀ m m', P m m' → Alike Q (f m) (g m')) : Alike Q (x >>= f) (y >>= g) := by
  cases h with
  | ok h => exact hfg _ _ h
  | error e e' => exact .error e e'

theorem map_memory_iff (h : Alike (fun m m' => m'.memory = m.memory) x y) (memory : Memory) :
    y.map Machine.memory = .ok memory ↔ x.map Machine.memory = .ok memory := by
  cases h with
  | @ok m m' h => rw [Except.map, Except.map, h]
  | error e e' => exact ⟨nofun, nofun⟩

end Alike

namespace SameOn

variable {regs : List String} {m m' : Machine}

/-- An operand stands for the same if the registers that it reads are the same. -/
theorem cell? (h : SameOn regs m m') {o : Operand} (ho : o.reads ⊆ regs) :
    o.cell? m' = o.cell? m := by
  cases o with
  | immediate text => rfl
  | memory address => rw [Operand.cell?, Operand.cell?, h.memory]
  | register name => exact congrArg some (h.registers name (ho (List.mem_singleton_self name)))

/-- Filling a register alike makes one more that is the same. -/
theorem setRegister (h : SameOn regs m m') (r : String) (c : Cell) :
    SameOn (r :: regs) (m.setRegister r c) (m'.setRegister r c) := by
  refine ⟨h.memory, fun x hx => ?_⟩
  rw [Machine.registers_setRegister, Machine.registers_setRegister]
  split
  · rfl
  · rename_i hne
    exact h.registers x ((List.mem_cons.1 hx).resolve_left hne)

theorem of_memory (h : m'.memory = m.memory) : SameOn [] m m' :=
  ⟨h, fun _ hr => absurd hr List.not_mem_nil⟩

/-- After a write the registers no longer matter. -/
theorem setCell (h : m'.memory = m.memory) (a : Nat) (c : Cell) :
    SameOn [] (m.setCell a c) (m'.setCell a c) := by
  refine of_memory ?_
  rw [Machine.memory_setCell, Machine.memory_setCell, h]

/-- **One instruction** keeps two machines the same where they have to be. -/
theorem effect (h : SameOn regs m m') {i : Instruction} (hi : i.reads ⊆ regs) :
    Alike (SameOn (i.filled regs)) (i.effect m) (i.effect m') := by
  cases i with
  | load source dest | loadReal source dest =>
    rw [Instruction.effect, Instruction.effect, h.cell? hi]
    cases source.cell? m with
    | none => exact .error _ _
    | some c => exact .ok (h.setRegister dest c)
  | store source address | storeReal source address =>
    rw [Instruction.effect, Instruction.effect, h.registers source (hi (List.mem_singleton_self _))]
    exact .ok (setCell h.memory address _)
  | str text address => exact .ok (setCell h.memory address _)
  | add operand source dest =>
    obtain ⟨hsource, hoperand⟩ := List.cons_subset.1 hi
    rw [Instruction.effect, Instruction.effect, h.cell? hoperand, h.registers source hsource]
    cases operand.cell? m with
    | none => exact .error _ _
    | some c =>
      dsimp only
      cases (m.registers source).add? c with
      | none => exact .error _ _
      | some sum => exact .ok (h.setRegister dest sum)
  | move source address =>
    rw [Instruction.effect, Instruction.effect, h.cell? hi]
    cases source.cell? m with
    | none => exact .error _ _
    | some c => exact .ok (setCell h.memory address c)
  | jump | test | label | comment => exact .ok h

/-- **A load and a store** do to the memory what the move does that they are joined to. -/
theorem joined (h : SameOn regs m m') {source : Operand} (hs : source.reads ⊆ regs) (r : String)
    (a : Nat) :
    Alike (SameOn []) (m.exec [.load source r, .store r a]) (m'.exec [.move source a]) := by
  cases hc : source.cell? m with
  | none =>
    rw [Machine.exec_cons, Machine.exec_cons, Instruction.effect, Instruction.effect, h.cell? hs,
      hc]
    exact .error _ _
  | some c =>
    rw [Machine.exec_load _ hc, Machine.exec_store, Machine.exec_move _ ((h.cell? hs).trans hc),
      Machine.registers_setRegister, if_pos rfl]
    exact .ok (setCell (m := m.setRegister r c) h.memory a c)

end SameOn

open Assembly in
/-- **Joined code** leaves the memory that the code leaves, if no register is missed. -/
theorem Supplied.exec_joinCode {regs : List String} {code : List Instruction}
    (hcode : Supplied regs code) {m m' : Machine} (h : SameOn regs m m') :
    Alike (fun m m' => m'.memory = m.memory) (m.exec code) (m'.exec (joinCode code)) := by
  fun_induction joinCode code generalizing regs m m' with
  | case1 => exact .ok h.memory
  | case2 i =>
    rw [Machine.exec_cons, Machine.exec_cons]
    exact (h.effect hcode.1).bind fun m m' hm => .ok hm.memory
  | case3 i j rest joined hjoined ih =>
    obtain ⟨source, r, a, rfl, rfl, rfl⟩ := Instruction.joined?_eq_some hjoined
    obtain ⟨hsource, -, hrest⟩ := hcode
    have hpair := (h.joined hsource r a).bind fun m m' hm => ih hrest hm
    rw [← Machine.exec_append, ← Machine.exec_append] at hpair
    exact hpair
  | case4 i j rest _ ih =>
    rw [Machine.exec_cons, Machine.exec_cons]
    exact (h.effect hcode.1).bind fun m m' hm => ih hcode.2 hm

/-! ## Generated code is supplied -/

section Stretches

variable {a b : Operand} {rest : List Instruction} (hrest : Held [] rest)

include hrest

theorem held_sumCode (ha : a.reads = []) (hb : b.reads = []) (numerals : Bool) (cell : Nat) :
    Held [] (sumCode numerals a b cell ++ rest) := by
  cases numerals <;> simp [sumCode, Held, Instruction.reads, Instruction.fills?, ha, hb, hrest]

theorem held_storeCode (ha : a.reads = []) (type : DataType) (address : Nat) :
    Held [] (type.storeCode a address ++ rest) := by
  have hboolean : a.toBoolean.reads = [] := by
    cases a with
    | immediate => rfl
    | _ => exact ha
  cases type with
  | string =>
    cases a with
    | immediate text => exact ⟨List.nil_subset _, hrest⟩
    | memory address => exact ⟨List.nil_subset _, hrest⟩
    | register name => cases ha
  | _ => simp [DataType.storeCode, Held, Instruction.reads, Instruction.fills?, ha, hboolean, hrest]

end Stretches

/-- The code of an expression leaves its value where no register is needed to read it. -/
theorem Computes.held {t : SymbolTable} {e : Expr} {code : List Instruction} {o : Operand}
    {n n' : Nat} (h : Computes t e n code o n') :
    o.reads = [] ∧ ∀ rest, Held [] rest → Held [] (code ++ rest) := by
  induction h with
  | literal => exact ⟨rfl, fun _ hrest => hrest⟩
  | ident => exact ⟨rfl, fun _ hrest => hrest⟩
  | group _ ih => exact ih
  | sum _ _ numerals _ ihl ihr =>
    refine ⟨rfl, fun rest hrest => ?_⟩
    rw [List.append_assoc, List.append_assoc]
    exact ihl.2 _ (ihr.2 _ (held_sumCode hrest ihl.1 ihr.1 numerals _))
  | other _ _ _ text ihl ihr =>
    refine ⟨ihl.1, fun rest hrest => ?_⟩
    rw [List.append_assoc, List.append_assoc]
    exact ihl.2 _ (ihr.2 _ (.mark rfl hrest))

/-- **Generated code reads only registers that it has just filled.** -/
theorem Emits.held {t : SymbolTable} {as : List Action} {code : List Instruction} {n n' : Nat}
    (h : Emits t as n code n') : Held [] code := by
  induction h with
  | nil => trivial
  | mark hi _ _ ih => exact .mark hi ih
  | store _ _ he _ ih =>
    obtain ⟨ho, hcode⟩ := he.held
    exact hcode _ (held_storeCode ih ho _ _)
  | reserve _ _ ih => exact ih
  | @count _ step s _ _ _ _ _ ih =>
    -- a step is the sum of a cell and a numeral, left in the same cell
    exact held_sumCode (a := .memory s.location) (b := .immediate _) ih rfl rfl true s.location

/-- Generated code reads only registers that it filled since its last write to memory. -/
theorem Emits.supplied {t : SymbolTable} {as : List Action} {code : List Instruction} {n n' : Nat}
    (h : Emits t as n code n') : Supplied [] code := h.held.supplied (List.nil_subset _)

/-! ## The whole optimiser -/

open Assembly

/-- **The last four passes** keep the memory that supplied code leaves. -/
theorem execute_passes_iff {code : List Instruction} (hw : ∀ i ∈ code, i.WellFormed)
    (hs : Supplied [] code) (memory : Memory) :
    execute (dropUnusedAccesses (dropRedundantJumps (dropUnusedLabels
      (joinMoves (code.map Instruction.text))))) = .ok memory ↔
      (Machine.exec {} code).map Machine.memory = .ok memory := by
  rw [dropUnusedAccesses_eq, execute, run_dropRedundantJumps, run_dropUnusedLabels,
    joinMoves_text hw, Machine.run_text (wellFormed_joinCode hw)]
  exact (hs.exec_joinCode (.of_memory rfl)).map_memory_iff memory

/-- **The optimiser keeps the memory that generated code leaves.**  Its last four passes do for
every source that compiles, and all of them do if the generated lines repeat no line but comments,
labels, tests and jumps. -/
theorem execute_optimize_iff {source : String} {optimized : Bool} {c : Compilation}
    (hc : compile source optimized = .ok c) :
    (∀ memory, execute (dropUnusedAccesses (dropRedundantJumps (dropUnusedLabels
        (joinMoves c.lines)))) = .ok memory ↔ execute c.lines = .ok memory) ∧
      ((c.lines.filter (!Line.isMark ·)).Nodup →
        ∀ memory, execute (optimize c.lines) = .ok memory ↔ execute c.lines = .ok memory) := by
  obtain ⟨n, hemits⟩ := emits_of_compile hc
  have hwellFormed := wellFormed_of_compile hc
  rw [execute_lines_of_compile hc]
  refine ⟨execute_passes_iff hwellFormed hemits.supplied, fun hnodup memory => ?_⟩
  obtain ⟨code, hthins, hdrop⟩ := exists_thins_of_dropRepeats hwellFormed hnodup
  have hoptimize : optimize c.lines = dropUnusedAccesses (dropRedundantJumps (dropUnusedLabels
      (joinMoves (dropRepeats (c.code.map Instruction.text))))) := rfl
  rw [hoptimize, hdrop, ← hthins.exec]
  exact execute_passes_iff (fun i hi => hwellFormed i (hthins.sublist.subset hi))
    (hemits.supplied.thins hthins) memory

/-- Loads and stores to join, and a comment that is there twice. -/
theorem execute_optimize_iff_products :
    ∃ c memory, compile "enum v-a = 1, enum v-b = v-a * 2, enum v-c = v-b * 2," false = .ok c ∧
      (c.lines.filter (!Line.isMark ·)).Nodup ∧ (optimize c.lines).length < c.lines.length ∧
      execute c.lines = .ok memory ∧ execute (optimize c.lines) = .ok memory := by
  have hall : ((compile "enum v-a = 1, enum v-b = v-a * 2, enum v-c = v-b * 2," false).toOption.any
      fun c => decide ((c.lines.filter (!Line.isMark ·)).Nodup) &&
        decide ((optimize c.lines).length < c.lines.length) &&
        ((execute c.lines).toOption.any fun _ => true)) = true := by
    decide +kernel
  obtain ⟨c, hc, hall⟩ := exists_of_toOption_any hall
  simp only [Bool.and_eq_true, decide_eq_true_eq] at hall
  obtain ⟨⟨hnodup, hlt⟩, hrun⟩ := hall
  obtain ⟨memory, hrun, -⟩ := exists_of_toOption_any hrun
  exact ⟨c, memory, hc, hnodup, hlt, hrun, ((execute_optimize_iff hc).2 hnodup memory).2 hrun⟩

end Enigma
