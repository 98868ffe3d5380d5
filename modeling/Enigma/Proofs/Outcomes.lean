import Enigma.Proofs.Passes
import Enigma.Proofs.Simulation

/-!
# Proofs/Outcomes — how a run of compiled code can end

A run ends early at a line that the machine does not know, that has the wrong operands, whose
operand cannot be read, or that adds two cells with no sum.  Compiled lines are written from
well-formed instructions, and the optimiser adds none but moves that it joins from two of them, so
the first two never happen; an operand that cannot be read is a number with a digit outside ASCII.

* `Assembly.mem_optimize` — where the lines of optimised code come from;
* `Machine.exists_step_of_run` — a run that fails does so at one of its lines;
  `Instruction.effect_eq_error` — what an instruction fails with;
* `Emits.readable` — code of readable literals has only operands that can be read;
* `execute_compile_ends` — the ends of a run of compiled code.
-/

namespace Enigma

/-! ## The lines of optimised code -/

namespace Assembly

theorem mem_joinMoves {lines : List String} {line : String} (h : line ∈ joinMoves lines) :
    line ∈ lines ∨ ∃ a ∈ lines, ∃ b ∈ lines, move? a b = some line := by
  fun_induction joinMoves lines with
  | case1 => exact .inl h
  | case2 first => exact .inl h
  | case3 first second rest move hmove ih =>
    rcases List.mem_cons.1 h with rfl | h
    · exact .inr ⟨first, by simp, second, by simp, hmove⟩
    · refine (ih h).imp (fun hline => by simp [hline]) ?_
      rintro ⟨a, ha, b, hb, hab⟩
      exact ⟨a, by simp [ha], b, by simp [hb], hab⟩
  | case4 first second rest _ ih =>
    rcases List.mem_cons.1 h with rfl | h
    · exact .inl (List.mem_cons_self ..)
    · refine (ih h).imp (List.mem_cons_of_mem first) ?_
      rintro ⟨a, ha, b, hb, hab⟩
      exact ⟨a, List.mem_cons_of_mem first ha, b, List.mem_cons_of_mem first hb, hab⟩

/-- **A line of optimised code** is one of the lines, or a move joined from two of them. -/
theorem mem_optimize {lines : List String} {line : String} (h : line ∈ optimize lines) :
    line ∈ lines ∨ ∃ a ∈ lines, ∃ b ∈ lines, move? a b = some line := by
  have hrepeats (x : String) (hx : x ∈ dropRepeats lines) : x ∈ lines := List.mem_eraseDups.1 hx
  rw [optimize_eq] at h
  have hjoined := (List.mem_filter.1 ((dropRedundantJumps_sublist _).subset h)).1
  refine (mem_joinMoves hjoined).imp (hrepeats line) ?_
  rintro ⟨a, ha, b, hb, hab⟩
  exact ⟨a, hrepeats a ha, b, hrepeats b hb, hab⟩

end Assembly

/-! ## Where a run fails -/

/-- **A run that fails does so at one of its lines.** -/
theorem Machine.exists_step_of_run {m : Machine} {lines : List String} {e : ExecutionError}
    (h : m.run lines = .error e) : ∃ line ∈ lines, ∃ m' : Machine, m'.step line = .error e := by
  induction lines generalizing m with
  | nil => cases h
  | cons line lines ih =>
    rw [run_cons, bind_eq_error_iff] at h
    rcases h with hstep | ⟨m', -, hrun⟩
    · exact ⟨line, List.mem_cons_self .., m, hstep⟩
    · obtain ⟨line', hline', hstep⟩ := ih hrun
      exact ⟨line', List.mem_cons_of_mem line hline', hstep⟩

/-- Whether there is a cell for the operand in every machine. -/
def Operand.Readable (o : Operand) : Prop := ∀ m : Machine, o.cell? m ≠ none

theorem Operand.readable_memory (address : Nat) : (Operand.memory address).Readable := by
  intro m h
  cases h

theorem Operand.readable_register (name : String) : (Operand.register name).Readable := by
  intro m h
  cases h

namespace Instruction

/-- The operand that an instruction takes a cell from, registers and addresses that it names by
themselves apart. -/
def operand? : Instruction → Option Operand
  | load source _ | loadReal source _ | move source _ => some source
  | add operand _ _ => some operand
  | store _ _ | storeReal _ _ | str _ _ | jump _ | test _ | label _ | comment _ => none

/-- Whether the operand of an instruction can be read. -/
def Readable (i : Instruction) : Prop := ∀ o ∈ i.operand?, o.Readable

/-- **What an instruction fails with**: two cells without a sum, or an operand it cannot read. -/
theorem effect_eq_error {i : Instruction} {m : Machine} {e : ExecutionError}
    (h : i.effect m = .error e) : (∃ left right, e = .typeMismatch left right) ∨
      (∃ operand line, e = .invalidOperand operand line) ∧ ¬ i.Readable := by
  have hunread {o : Operand} (ho : i.operand? = some o) (hcell : o.cell? m = none) :
      ¬ i.Readable := fun hi => hi o ho m hcell
  cases i with
  | load source dest | loadReal source dest | move source address =>
    rw [effect] at h
    cases hcell : source.cell? m with
    | none =>
      rw [hcell] at h
      obtain rfl := Except.error.inj h
      exact .inr ⟨⟨_, _, rfl⟩, hunread rfl hcell⟩
    | some c =>
      rw [hcell] at h
      cases h
  | add operand source dest =>
    rw [effect] at h
    cases hcell : operand.cell? m with
    | none =>
      rw [hcell] at h
      obtain rfl := Except.error.inj h
      exact .inr ⟨⟨_, _, rfl⟩, hunread rfl hcell⟩
    | some c =>
      rw [hcell] at h
      dsimp only at h
      cases hsum : (m.registers source).add? c with
      | none =>
        rw [hsum] at h
        obtain rfl := Except.error.inj h
        exact .inl ⟨_, _, rfl⟩
      | some sum =>
        rw [hsum] at h
        cases h
  | _ => cases h

theorem Readable.joined {i j k : Instruction} (hi : i.Readable) (h : joined? i j = some k) :
    k.Readable := by
  obtain ⟨source, register, address, rfl, rfl, rfl⟩ := joined?_eq_some h
  exact hi

end Instruction

/-! ## Code that can be read -/

theorem Operand.readable_of_immediateCell? {text : String} {c : Cell}
    (h : immediateCell? text = some c) : (Operand.immediate text).Readable := by
  intro m hnone
  rw [cell?, h] at hnone
  cases hnone

theorem readable_sumCode {a b : Operand} (ha : a.Readable) (hb : b.Readable) (numerals : Bool)
    (cell : Nat) : ∀ i ∈ sumCode numerals a b cell, i.Readable := by
  have hregister := Operand.readable_register "r2"
  cases numerals <;> simp [sumCode, Instruction.Readable, Instruction.operand?, ha, hb, hregister]

theorem readable_storeCode {o : Operand} (ho : o.Readable) (type : DataType) (address : Nat) :
    ∀ i ∈ type.storeCode o address, i.Readable := by
  have hboolean : o.toBoolean.Readable := by
    cases o with
    | immediate text =>
      rw [Operand.toBoolean]
      split
      · exact Operand.readable_of_immediateCell? immediateCell?_one
      · exact Operand.readable_of_immediateCell? immediateCell?_zero
    | memory address => exact ho
    | register name => exact ho
  cases type with
  | string => cases o <;> simp [DataType.storeCode, Instruction.Readable, Instruction.operand?, ho]
  | _ => simp [DataType.storeCode, Instruction.Readable, Instruction.operand?, ho, hboolean]

theorem Step.readable_code (step : Step) (address : Nat) :
    ∀ i ∈ step.code address, i.Readable := by
  have hdelta : (Operand.immediate (if step.operator = "--" then "-1" else "1")).Readable := by
    split
    · exact Operand.readable_of_immediateCell? immediateCell?_minus_one
    · exact Operand.readable_of_immediateCell? immediateCell?_one
  -- a step is the sum of a cell and a numeral, left in the same cell
  exact readable_sumCode (Operand.readable_memory address) hdelta true address

/-- **The code of a readable expression can be read**, and so can the operand it leaves. -/
theorem Computes.readable {t : SymbolTable} {e : Expr} {code : List Instruction} {o : Operand}
    {n n' : Nat} (h : Computes t e n code o n') (he : e.Readable) :
    (∀ i ∈ code, i.Readable) ∧ o.Readable := by
  induction h with
  | literal kind text n =>
    obtain ⟨hshape, c, hc⟩ := he kind text (List.mem_singleton_self _)
    refine ⟨by simp, Operand.readable_of_immediateCell? (c := c) ?_⟩
    rw [hshape.immediateCell?, hc]
    rfl
  | ident hs n => exact ⟨by simp, Operand.readable_memory _⟩
  | group _ ih => exact ih he
  | sum hl hr numerals hn ihl ihr =>
    obtain ⟨hlcode, ha⟩ := ihl fun kind text hmem => he kind text (List.mem_append_left _ hmem)
    obtain ⟨hrcode, hb⟩ := ihr fun kind text hmem => he kind text (List.mem_append_right _ hmem)
    refine ⟨List.forall_mem_append.2 ⟨hlcode, List.forall_mem_append.2 ⟨hrcode, ?_⟩⟩,
      Operand.readable_memory _⟩
    exact readable_sumCode ha hb numerals _
  | other _ hl hr text ihl ihr =>
    obtain ⟨hlcode, ha⟩ := ihl fun kind text hmem => he kind text (List.mem_append_left _ hmem)
    obtain ⟨hrcode, -⟩ := ihr fun kind text hmem => he kind text (List.mem_append_right _ hmem)
    refine ⟨List.forall_mem_append.2 ⟨hlcode, List.forall_mem_append.2 ⟨hrcode, ?_⟩⟩, ha⟩
    exact List.forall_mem_singleton.2 fun _ ho => by cases ho

/-- **The code of actions can be read** if their literals can. -/
theorem Emits.readable {t : SymbolTable} {as : List Action} {code : List Instruction} {n n' : Nat}
    (h : Emits t as n code n')
    (has : ∀ a ∈ as, ∀ name e, a.target? = some (name, e) → e.Readable) :
    ∀ i ∈ code, i.Readable := by
  induction h with
  | nil => simp
  | @mark _ i _ _ _ hi _ _ ih =>
    refine List.forall_mem_cons.2 ⟨fun o ho => ?_, ih has⟩
    cases i with
    | jump | test | label | comment => cases ho
    | _ => cases hi
  | @store a _ name e s _ _ _ _ _ _ ha hs he _ ih =>
    obtain ⟨hcode, ho⟩ := he.readable (has a (List.mem_cons_self ..) name e ha)
    refine List.forall_mem_append.2 ⟨hcode, List.forall_mem_append.2 ⟨?_, ?_⟩⟩
    · exact readable_storeCode ho s.dataType s.location
    · exact ih fun a' ha' => has a' (List.mem_cons_of_mem _ ha')
  | reserve p _ ih => exact ih fun a' ha' => has a' (List.mem_cons_of_mem _ ha')
  | @count _ step s _ _ _ hs _ ih =>
    refine List.forall_mem_append.2 ⟨step.readable_code s.location, ?_⟩
    exact ih fun a' ha' => has a' (List.mem_cons_of_mem _ ha')

/-! ## Compiled sources -/

section Compiled

variable {source : String} {optimize : Bool} {c : Compilation}
  (hc : compile source optimize = .ok c)

include hc

/-- **A line of compiled code** is written from a well-formed instruction, and from one that can be
read if all of them can. -/
theorem exists_instruction_of_compile {line : String} (h : line ∈ c.optimized) :
    ∃ i : Instruction, i.text = line ∧ i.WellFormed ∧
      ((∀ j ∈ c.code, j.Readable) → i.Readable) := by
  have hwellFormed := wellFormed_of_compile hc
  have hgenerated (x : String) (hx : x ∈ c.code.map Instruction.text) :
      ∃ i ∈ c.code, i.text = x ∧ i.WellFormed := by
    obtain ⟨i, hi, rfl⟩ := List.mem_map.1 hx
    exact ⟨i, hi, rfl, hwellFormed i hi⟩
  rw [(compile_eq_ok_iff.1 hc).2.2.2] at h
  have hline : line ∈ c.code.map Instruction.text ∨ ∃ a ∈ c.code.map Instruction.text,
      ∃ b ∈ c.code.map Instruction.text, Assembly.move? a b = some line := by
    split at h
    · exact Assembly.mem_optimize h
    · exact .inl h
  rcases hline with hline | ⟨_, ha, _, hb, hmove⟩
  · obtain ⟨i, hi, hline, hw⟩ := hgenerated line hline
    exact ⟨i, hline, hw, fun hall => hall i hi⟩
  · obtain ⟨i, hi, rfl, hiw⟩ := hgenerated _ ha
    obtain ⟨j, hj, rfl, hjw⟩ := hgenerated _ hb
    rw [Assembly.move?_text hiw hjw] at hmove
    obtain ⟨k, hk, rfl⟩ := Option.map_eq_some_iff.1 hmove
    exact ⟨k, rfl, hiw.joined hjw hk, fun hall => (hall i hi).joined hk⟩

/-- **Code of ASCII numbers can be read.** -/
theorem readable_of_compile (hascii : ∀ t ∈ Token.scan source, t.kind = .number →
      ∀ d ∈ t.text.toList, Text.isDigit d = true → d.isDigit = true) :
    ∀ i ∈ c.code, i.Readable := by
  obtain ⟨n, hemits⟩ := emits_of_compile hc
  obtain ⟨hscan, hliterals⟩ := literals_of_compile hc
  refine hemits.readable fun a ha name e htarget kind text hmem => ?_
  obtain ⟨t, ht, hk, rfl⟩ := hliterals a ha name e htarget kind text hmem
  rw [← hscan] at ht
  have hshape := Token.shape_of_mem_scan ht hk
  exact ⟨hshape, LiteralKind.cell_of_ascii hshape fun hnumber =>
    hascii t ht (by rw [hk, hnumber]; rfl)⟩

end Compiled

/-- **The ends of a run of compiled code.**  Optimised or not, the code of a source runs to its end,
or stops at two cells without a sum, or at an operand that cannot be read; and this last only if a
number of the source has a digit outside of ASCII. -/
theorem execute_compile_ends {source : String} {optimize : Bool} {c : Compilation}
    (hc : compile source optimize = .ok c) :
    (∃ memory, execute c.optimized = .ok memory) ∨
      (∃ left right, execute c.optimized = .error (.typeMismatch left right)) ∨
      (∃ operand line, execute c.optimized = .error (.invalidOperand operand line)) ∧
        ∃ t ∈ Token.scan source, t.kind = .number ∧
          ∃ d ∈ t.text.toList, Text.isDigit d = true ∧ d.isDigit = false := by
  rw [execute]
  cases hrun : Machine.run {} c.optimized with
  | ok m => exact .inl ⟨m.memory, rfl⟩
  | error e =>
    obtain ⟨line, hline, m, hstep⟩ := Machine.exists_step_of_run hrun
    obtain ⟨i, rfl, hwellFormed, hreadable⟩ := exists_instruction_of_compile hc hline
    rw [hwellFormed.step] at hstep
    obtain ⟨left, right, rfl⟩ | ⟨⟨operand, line, rfl⟩, hunread⟩ := Instruction.effect_eq_error hstep
    · exact .inr (.inl ⟨left, right, rfl⟩)
    · refine .inr (.inr ⟨⟨operand, line, rfl⟩, ?_⟩)
      -- were all digits of numbers ASCII, the operand could be read
      apply Classical.byContradiction
      intro hnone
      refine hunread (hreadable (readable_of_compile hc fun t ht hk d hd hdigit => ?_))
      apply Classical.byContradiction
      intro hd'
      exact hnone ⟨t, ht, hk, d, hd, hdigit, by simpa using hd'⟩

/-- A load of a number in Arabic digits that the optimiser joins to a move. -/
theorem execute_compile_ends_arabic :
    ∃ c, compile "enum v-a = ٣," true = .ok c ∧ c.optimized = ["MOV ٣, 1000"] ∧
      execute c.optimized = .error (.invalidOperand "٣" "MOV ٣, 1000") ∧
        ∃ t ∈ Token.scan "enum v-a = ٣,", t.kind = .number ∧
          ∃ d ∈ t.text.toList, Text.isDigit d = true ∧ d.isDigit = false := by
  have hcheck : ((compile "enum v-a = ٣," true).toOption.any fun c =>
      decide (c.optimized = ["MOV ٣, 1000"])) = true := by decide +kernel
  obtain ⟨c, hc, hcheck⟩ := exists_of_toOption_any hcheck
  have hlines : c.optimized = ["MOV ٣, 1000"] := of_decide_eq_true hcheck
  have hrun : execute c.optimized = .error (.invalidOperand "٣" "MOV ٣, 1000") := by
    rw [hlines]
    rfl
  obtain ⟨memory, hok⟩ | ⟨left, right, hsum⟩ | ⟨-, hdigit⟩ := execute_compile_ends hc
  · rw [hrun] at hok
    cases hok
  · rw [hrun] at hsum
    cases hsum
  · exact ⟨c, hc, hlines, hrun, hdigit⟩

end Enigma
