import Enigma.Proofs.Emission
import Enigma.Proofs.Outline

/-!
# Proofs/Jumps — labels and jumps in generated code

Labels are drawn from a counter, before the code of a loop's body, and jumps are written from the
labels of the loop around them.  `Stmt.Lays` says what comes out, without counters: where a loop
puts its labels, which of them the controls inside of it jump to, and that nothing else has a label
or a jump.

* `Stmt.lays`, `block_lays` — generated code is laid out so;
* `Stmt.Lays.labels`, `blockLays.labels` — its labels are numbered without a gap, each defined once;
* `Stmt.Lays.targets`, `blockLays.targets` — its jumps go to the labels of the loop around it, or to
  labels it defines.
-/

namespace Enigma

/-- The label with a number. -/
def labelName (n : Nat) : String := "L" ++ toString n

namespace Instruction

/-- The label that an instruction defines. -/
def defines? : Instruction → Option String
  | label name => some name
  | _ => none

/-- The label that an instruction jumps to. -/
def target? : Instruction → Option String
  | jump target => some target
  | _ => none

end Instruction

/-- Code without labels and without jumps. -/
def Straight (code : List Instruction) : Prop := ∀ i ∈ code, i.defines? = none ∧ i.target? = none

/-! ## How code is laid out -/

mutual

/-- The code of a statement whose first label has the number `n`, inside of the loop with the given
labels.  A `whilst` starts with the label for its next round and ends with the one behind it; an
`iterate` has the label for its next round in front of the step.  The controls in the body jump to
these, also from a function in it, unless a loop in the body is around them. -/
def Stmt.Lays (t : SymbolTable) (loop : Option LoopLabels) (n : Nat) :
    Stmt → List Instruction → Prop
  | .declare _, code => Straight code
  | .assign _ _ _, code => Straight code
  | .conditional branches, code => branchesLay t loop n branches code
  | .iterate _ condition step body _, code => ∃ init inner s, Straight init ∧
      t.get? step.name = some s ∧
      blockLays t (some ⟨labelName (n + 1), labelName (n + 2)⟩) (n + 3) body inner ∧
      code = [.comment "Begin ITERATE loop"] ++ init ++
        [.label (labelName n), .test condition.text, .comment "ITERATE body"] ++ inner ++
        [.label (labelName (n + 1))] ++ step.code s.location ++
        [.comment "End ITERATE body", .label (labelName (n + 2)), .comment "End ITERATE loop"]
  | .whilst condition body _, code => ∃ inner,
      blockLays t (some ⟨labelName n, labelName (n + 1)⟩) (n + 2) body inner ∧
      code = [.comment "Begin WHILST loop", .label (labelName n), .test condition.text,
        .comment "WHILST body"] ++ inner ++
        [.comment "End WHILST body", .label (labelName (n + 1)), .comment "End WHILST loop"]
  | .function _ _ body, code => ∃ head inner tail, blockLays t loop n body inner ∧
      code = [.comment head] ++ inner ++ [.comment tail]
  | .leave _, code => ∃ labels, loop = some labels ∧ code = [.jump labels.stop]
  | .resume _, code => ∃ labels, loop = some labels ∧ code = [.jump labels.next]

/-- The code of an arm. -/
def Branch.Lays (t : SymbolTable) (loop : Option LoopLabels) (n : Nat) :
    Branch → List Instruction → Prop
  | .mk kind condition body _, code => ∃ inner, blockLays t loop n body inner ∧
      code = kind.header condition ++ inner

/-- The code of statements in a row. -/
def blockLays (t : SymbolTable) (loop : Option LoopLabels) (n : Nat) :
    List Stmt → List Instruction → Prop
  | [], code => code = []
  | s :: rest, code => ∃ first behind, s.Lays t loop n first ∧
      blockLays t loop (n + s.labels) rest behind ∧ code = first ++ behind

/-- The code of arms in a row. -/
def branchesLay (t : SymbolTable) (loop : Option LoopLabels) (n : Nat) :
    List Branch → List Instruction → Prop
  | [], code => code = []
  | b :: rest, code => ∃ first behind, b.Lays t loop n first ∧
      branchesLay t loop (n + b.labels) rest behind ∧ code = first ++ behind

end

/-! ## Code without labels and jumps -/

namespace Straight

variable {code code' : List Instruction}

theorem append (h : Straight code) (h' : Straight code') : Straight (code ++ code') :=
  List.forall_mem_append.2 ⟨h, h'⟩

/-- Straight code defines no labels. -/
theorem defines (h : Straight code) : code.filterMap Instruction.defines? = [] :=
  List.filterMap_eq_nil_iff.2 fun i hi => (h i hi).1

/-- Straight code goes nowhere. -/
theorem targets (h : Straight code) : code.filterMap Instruction.target? = [] :=
  List.filterMap_eq_nil_iff.2 fun i hi => (h i hi).2

end Straight

/-- Sums are straight. -/
theorem straight_sumCode (numerals : Bool) (a b : Operand) (cell : Nat) :
    Straight (sumCode numerals a b cell) := by
  cases numerals <;> simp [Straight, sumCode, Instruction.defines?, Instruction.target?]

/-- Stores are straight, whatever the data type. -/
theorem straight_storeCode (type : DataType) (o : Operand) (address : Nat) :
    Straight (type.storeCode o address) := by
  cases type <;> cases o <;>
    simp [Straight, DataType.storeCode, Instruction.defines?, Instruction.target?]

theorem Step.straight_code (step : Step) (address : Nat) : Straight (step.code address) :=
  straight_sumCode true _ _ _

theorem BranchKind.straight_header (kind : BranchKind) (condition : Option Expr) :
    Straight (kind.header condition) := by
  cases condition <;> simp [Straight, header, Instruction.defines?, Instruction.target?]

/-- **Expressions are straight**: nothing in them is computed on a condition. -/
theorem Computes.straight {t : SymbolTable} {e : Expr} {code : List Instruction} {o : Operand}
    {n n' : Nat} (h : Computes t e n code o n') : Straight code := by
  induction h with
  | literal => exact List.forall_mem_nil _
  | ident => exact List.forall_mem_nil _
  | group _ ih => exact ih
  | sum _ _ numerals _ ihl ihr => exact ihl.append (ihr.append (straight_sumCode numerals _ _ _))
  | other _ _ _ text ihl ihr =>
    exact ihl.append (ihr.append (List.forall_mem_singleton.2 ⟨rfl, rfl⟩))

/-- Declarations are straight. -/
theorem Declaration.straight_of_generate {t : SymbolTable} {d : Declaration} {c c' : Counters}
    {code : List Instruction} (h : d.generate t c = .ok (code, c')) : Straight code := by
  simp only [Declaration.generate, Gen.bind_eq_ok, Gen.pure_eq_ok] at h
  obtain ⟨_, _, -, s, _, -, ⟨vcode, o⟩, _, hv, rfl, rfl⟩ := h
  exact (Expr.computes hv).straight.append (straight_storeCode _ _ _)

/-! ## Generated code is laid out so -/

/-- A declaration takes no label. -/
theorem Declaration.nextLabel_of_generate {t : SymbolTable} {d : Declaration} {c c' : Counters}
    {code : List Instruction} (h : d.generate t c = .ok (code, c')) : c'.nextLabel = c.nextLabel :=
  ((d.draws t).takes _ _ _ h).2.2.labels

/-- **How far the label counter moves** for a statement. -/
theorem Stmt.nextLabel_of_generate {t : SymbolTable} {loop : Option LoopLabels} {s : Stmt}
    {c c' : Counters} {code : List Instruction} (h : s.generate t loop c = .ok (code, c')) :
    c'.nextLabel = c.nextLabel + s.labels :=
  ((s.draws t loop (Stmt.controlled_of_generate h)).takes _ _ _ h).2.2.labels

/-- An arm takes the labels of its block. -/
theorem Branch.nextLabel_of_generate {t : SymbolTable} {loop : Option LoopLabels} {b : Branch}
    {c c' : Counters} {code : List Instruction} (h : b.generate t loop c = .ok (code, c')) :
    c'.nextLabel = c.nextLabel + b.labels :=
  ((b.draws t loop (Branch.controlled_of_generate h)).takes _ _ _ h).2.2.labels

mutual

/-- **Generated code is laid out so**, for a statement. -/
theorem Stmt.lays {t : SymbolTable} {loop : Option LoopLabels} :
    ∀ {s : Stmt} {c c' : Counters} {code : List Instruction}, s.generate t loop c = .ok (code, c') →
      s.Lays t loop c.nextLabel code
  | .declare _, _, _, _, h => Declaration.straight_of_generate h
  | .assign _ _ _, _, _, _, h => by
    simp only [Stmt.generate, Gen.bind_eq_ok, Gen.pure_eq_ok] at h
    obtain ⟨s, _, -, ⟨vcode, o⟩, _, hv, rfl, rfl⟩ := h
    exact (Expr.computes hv).straight.append (straight_storeCode _ _ _)
  | .conditional _, _, _, _, h => branches_lay h
  | .iterate init condition step body _, c, _, _, h => by
    simp only [Stmt.generate, Step.generate, Gen.bind_eq_ok, Gen.label_eq_ok, Gen.symbol_eq_ok,
      Gen.pure_eq_ok] at h
    obtain ⟨icode, c₁, hinit, _, _, ⟨-, rfl, rfl⟩, _, _, ⟨-, rfl, rfl⟩, _, _, ⟨-, rfl, rfl⟩, inner,
      _, hbody, scode, _, ⟨s, _, ⟨hs, rfl⟩, rfl, rfl⟩, rfl, rfl⟩ := h
    have hlay := block_lays hbody
    rw [← Declaration.nextLabel_of_generate hinit]
    exact ⟨icode, inner, s, Declaration.straight_of_generate hinit, hs, hlay, rfl⟩
  | .whilst _ _ _, _, _, _, h => by
    simp only [Stmt.generate, Gen.bind_eq_ok, Gen.label_eq_ok, Gen.pure_eq_ok] at h
    obtain ⟨_, _, ⟨-, rfl, rfl⟩, _, _, ⟨-, rfl, rfl⟩, inner, _, hbody, rfl, rfl⟩ := h
    have hlay := block_lays hbody
    exact ⟨inner, hlay, rfl⟩
  | .function _ params _, c, _, _, h => by
    simp only [Stmt.generate, Gen.bind_eq_ok, Gen.pure_eq_ok] at h
    obtain ⟨_, c₁, hparams, inner, _, hbody, rfl, rfl⟩ := h
    have hlabel : c₁.nextLabel = c.nextLabel :=
      ((Draws.reserve params).takes _ _ _ hparams).2.2.labels
    have hlay := block_lays hbody
    rw [hlabel] at hlay
    exact ⟨_, inner, _, hlay, rfl⟩
  | .leave _, _, _, _, h => by
    cases loop with
    | none => simp [Stmt.generate] at h
    | some labels => exact ⟨labels, rfl, (Gen.pure_eq_ok.1 h).1⟩
  | .resume _, _, _, _, h => by
    cases loop with
    | none => simp [Stmt.generate] at h
    | some labels => exact ⟨labels, rfl, (Gen.pure_eq_ok.1 h).1⟩

/-- The code of an arm is laid out as it should be. -/
theorem Branch.lays {t : SymbolTable} {loop : Option LoopLabels} :
    ∀ {b : Branch} {c c' : Counters} {code : List Instruction},
      b.generate t loop c = .ok (code, c') → b.Lays t loop c.nextLabel code
  | .mk _ _ _ _, _, _, _, h => by
    simp only [Branch.generate, Gen.bind_eq_ok, Gen.pure_eq_ok] at h
    obtain ⟨inner, _, hbody, rfl, rfl⟩ := h
    exact ⟨inner, block_lays hbody, rfl⟩

/-- **Generated code is laid out so**, for statements in a row. -/
theorem block_lays {t : SymbolTable} {loop : Option LoopLabels} :
    ∀ {body : List Stmt} {c c' : Counters} {code : List Instruction},
      generateBlock t loop body c = .ok (code, c') → blockLays t loop c.nextLabel body code
  | [], _, _, _, h => (Gen.pure_eq_ok.1 h).1
  | _ :: _, _, _, _, h => by
    simp only [generateBlock, Gen.bind_eq_ok, Gen.pure_eq_ok] at h
    obtain ⟨first, c₁, hs, behind, _, hrest, rfl, rfl⟩ := h
    have hlay := block_lays hrest
    rw [Stmt.nextLabel_of_generate hs] at hlay
    exact ⟨first, behind, Stmt.lays hs, hlay, rfl⟩

/-- The code of arms in a row is laid out as it should be. -/
theorem branches_lay {t : SymbolTable} {loop : Option LoopLabels} :
    ∀ {branches : List Branch} {c c' : Counters} {code : List Instruction},
      generateBranches t loop branches c = .ok (code, c') →
      branchesLay t loop c.nextLabel branches code
  | [], _, _, _, h => (Gen.pure_eq_ok.1 h).1
  | _ :: _, _, _, _, h => by
    simp only [generateBranches, Gen.bind_eq_ok, Gen.pure_eq_ok] at h
    obtain ⟨first, c₁, hb, behind, _, hrest, rfl, rfl⟩ := h
    have hlay := branches_lay hrest
    rw [Branch.nextLabel_of_generate hb] at hlay
    exact ⟨first, behind, Branch.lays hb, hlay, rfl⟩

end

/-! ## Its labels -/

/-- The labels with the numbers from `n` on. -/
def labelNames (n count : Nat) : List String := (List.range' n count).map labelName

/-- Labels in two stretches are labels in one. -/
theorem labelNames_append (n k l : Nat) :
    labelNames n k ++ labelNames (n + k) l = labelNames n (k + l) := by
  simp only [labelNames, ← List.map_append]
  rw [← List.range'_append, Nat.one_mul]

mutual

/-- **The labels of a statement** are numbered without a gap, and each is defined once. -/
theorem Stmt.Lays.labels {t : SymbolTable} {loop : Option LoopLabels} {n : Nat} :
    ∀ {s : Stmt} {code : List Instruction}, s.Lays t loop n code →
      (code.filterMap Instruction.defines?).Perm (labelNames n s.labels)
  | .declare _, _, h => by
    rw [Straight.defines h]
    exact .nil
  | .assign _ _ _, _, h => by
    rw [Straight.defines h]
    exact .nil
  | .conditional _, _, h => branchesLay.labels h
  | .iterate _ _ step body _, _, ⟨init, inner, s, hinit, _, hbody, hcode⟩ => by
    have hinner := blockLays.labels hbody
    have hstep := (step.straight_code s.location).defines
    have hdefines : init.filterMap Instruction.defines? = [] := Straight.defines hinit
    rw [hcode, Stmt.labels, ← labelNames_append]
    simp only [List.filterMap_append, List.filterMap_cons, List.filterMap_nil, hdefines, hstep,
      Instruction.defines?, List.nil_append, List.cons_append, List.append_assoc]
    -- the labels behind the body have the numbers in front of those in it
    exact (List.perm_append_comm.trans (hinner.append_left _)).cons _
  | .whilst _ body _, _, ⟨inner, hbody, hcode⟩ => by
    have hinner := blockLays.labels hbody
    rw [hcode, Stmt.labels, ← labelNames_append]
    simp only [List.filterMap_append, List.filterMap_cons, List.filterMap_nil,
      Instruction.defines?, List.nil_append, List.cons_append]
    exact (List.perm_append_comm.trans (hinner.append_left _)).cons _
  | .function _ _ _, _, ⟨_, inner, _, hbody, hcode⟩ => by
    have hinner := blockLays.labels hbody
    rw [hcode, Stmt.labels]
    simpa [List.filterMap_cons, Instruction.defines?] using hinner
  | .leave _, _, ⟨_, _, hcode⟩ => by
    rw [hcode]
    exact .nil
  | .resume _, _, ⟨_, _, hcode⟩ => by
    rw [hcode]
    exact .nil

/-- An arm defines the labels of its block. -/
theorem Branch.Lays.labels {t : SymbolTable} {loop : Option LoopLabels} {n : Nat} :
    ∀ {b : Branch} {code : List Instruction}, b.Lays t loop n code →
      (code.filterMap Instruction.defines?).Perm (labelNames n b.labels)
  | .mk kind condition _ _, _, ⟨inner, hbody, hcode⟩ => by
    rw [hcode, List.filterMap_append, (kind.straight_header condition).defines]
    exact blockLays.labels hbody

/-- **The labels of statements in a row** are numbered without a gap, and each is defined once. -/
theorem blockLays.labels {t : SymbolTable} {loop : Option LoopLabels} {n : Nat} :
    ∀ {body : List Stmt} {code : List Instruction}, blockLays t loop n body code →
      (code.filterMap Instruction.defines?).Perm (labelNames n (blockLabels body))
  | [], _, h => by
    rw [show _ = [] from h]
    exact .nil
  | s :: rest, _, ⟨first, behind, hs, hrest, hcode⟩ => by
    rw [hcode, List.filterMap_append, blockLabels, ← labelNames_append]
    exact (Stmt.Lays.labels hs).append (blockLays.labels hrest)

/-- Arms in a row define the labels of all of them. -/
theorem branchesLay.labels {t : SymbolTable} {loop : Option LoopLabels} {n : Nat} :
    ∀ {branches : List Branch} {code : List Instruction}, branchesLay t loop n branches code →
      (code.filterMap Instruction.defines?).Perm (labelNames n (branchesLabels branches))
  | [], _, h => by
    rw [show _ = [] from h]
    exact .nil
  | b :: rest, _, ⟨first, behind, hb, hrest, hcode⟩ => by
    rw [hcode, List.filterMap_append, branchesLabels, ← labelNames_append]
    exact (Branch.Lays.labels hb).append (branchesLay.labels hrest)

end

/-! ## Its jumps -/

/-- The labels that controls inside of a loop jump to. -/
def loopNames (loop : Option LoopLabels) : List String :=
  (loop.map fun labels => [labels.next, labels.stop]).getD []

/-- **Code in two parts** goes to its own labels and given ones if both parts do. -/
theorem targets_append {names : List String} {code code' : List Instruction}
    (h : code.filterMap Instruction.target? ⊆ names ++ code.filterMap Instruction.defines?)
    (h' : code'.filterMap Instruction.target? ⊆ names ++ code'.filterMap Instruction.defines?) :
    (code ++ code').filterMap Instruction.target? ⊆
      names ++ (code ++ code').filterMap Instruction.defines? := by
  simp only [List.filterMap_append]
  refine List.append_subset.2 ⟨fun l hl => ?_, fun l hl => ?_⟩
  · rcases List.mem_append.1 (h hl) with hl | hl <;> simp [hl]
  · rcases List.mem_append.1 (h' hl) with hl | hl <;> simp [hl]

mutual

/-- **The jumps of a statement** go to the labels of the loop around it or to labels it defines. -/
theorem Stmt.Lays.targets {t : SymbolTable} {loop : Option LoopLabels} {n : Nat} :
    ∀ {s : Stmt} {code : List Instruction}, s.Lays t loop n code →
      code.filterMap Instruction.target? ⊆ loopNames loop ++ code.filterMap Instruction.defines?
  | .declare _, _, h => by
    rw [Straight.targets h]
    exact List.nil_subset _
  | .assign _ _ _, _, h => by
    rw [Straight.targets h]
    exact List.nil_subset _
  | .conditional _, _, h => branchesLay.targets h
  | .iterate _ _ step body _, _, ⟨init, inner, s, hinit, _, hbody, hcode⟩ => by
    have hinner := blockLays.targets hbody
    rw [hcode]
    simp only [List.filterMap_append, List.filterMap_cons, List.filterMap_nil,
      Straight.targets hinit, (step.straight_code s.location).targets, Instruction.target?,
      Instruction.defines?, List.nil_append, List.append_nil]
    refine List.Subset.trans hinner (List.append_subset.2 ⟨?_, ?_⟩)
    · simp [loopNames]
    · exact fun l hl => by simp [hl]
  | .whilst _ _ _, _, ⟨inner, hbody, hcode⟩ => by
    have hinner := blockLays.targets hbody
    rw [hcode]
    simp only [List.filterMap_append, List.filterMap_cons, List.filterMap_nil, Instruction.target?,
      Instruction.defines?, List.nil_append, List.append_nil]
    refine List.Subset.trans hinner (List.append_subset.2 ⟨?_, ?_⟩)
    · simp [loopNames]
    · exact fun l hl => by simp [hl]
  | .function _ _ _, _, ⟨_, inner, _, hbody, hcode⟩ => by
    have hinner := blockLays.targets hbody
    rw [hcode]
    simpa [List.filterMap_cons, Instruction.target?, Instruction.defines?] using hinner
  | .leave _, _, ⟨labels, hloop, hcode⟩ => by
    rw [hcode, hloop]
    simp [Instruction.target?, loopNames]
  | .resume _, _, ⟨labels, hloop, hcode⟩ => by
    rw [hcode, hloop]
    simp [Instruction.target?, loopNames]

/-- An arm goes where its block goes. -/
theorem Branch.Lays.targets {t : SymbolTable} {loop : Option LoopLabels} {n : Nat} :
    ∀ {b : Branch} {code : List Instruction}, b.Lays t loop n code →
      code.filterMap Instruction.target? ⊆ loopNames loop ++ code.filterMap Instruction.defines?
  | .mk kind condition _ _, _, ⟨inner, hbody, hcode⟩ => by
    have hheader := kind.straight_header condition
    rw [hcode, List.filterMap_append, List.filterMap_append, hheader.targets, hheader.defines]
    exact blockLays.targets hbody

/-- **The jumps of statements in a row** go to the labels of the loop around them or to labels they
define. -/
theorem blockLays.targets {t : SymbolTable} {loop : Option LoopLabels} {n : Nat} :
    ∀ {body : List Stmt} {code : List Instruction}, blockLays t loop n body code →
      code.filterMap Instruction.target? ⊆ loopNames loop ++ code.filterMap Instruction.defines?
  | [], _, h => by
    rw [show _ = [] from h]
    exact List.nil_subset _
  | _ :: _, _, ⟨_, _, hs, hrest, hcode⟩ => by
    rw [hcode]
    exact targets_append (Stmt.Lays.targets hs) (blockLays.targets hrest)

/-- Arms in a row go to their own labels, or to those of the loop around them. -/
theorem branchesLay.targets {t : SymbolTable} {loop : Option LoopLabels} {n : Nat} :
    ∀ {branches : List Branch} {code : List Instruction}, branchesLay t loop n branches code →
      code.filterMap Instruction.target? ⊆ loopNames loop ++ code.filterMap Instruction.defines?
  | [], _, h => by
    rw [show _ = [] from h]
    exact List.nil_subset _
  | _ :: _, _, ⟨_, _, hb, hrest, hcode⟩ => by
    rw [hcode]
    exact targets_append (Branch.Lays.targets hb) (branchesLay.targets hrest)

end

end Enigma
