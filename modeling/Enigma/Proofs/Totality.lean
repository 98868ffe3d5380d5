import Enigma.Compile
import Enigma.Proofs.Coverage
import Enigma.Proofs.Generation

/-!
# Proofs/Totality — compiling is never broken off by a fault

A fault can come from the checker, when addresses run out, and from the generator, in five ways.
The grammar lets loops be left and resumed only from inside (`Grammar.Derives.controlled`),
addressable programs run out of nothing (`SymbolTable.Valid.bindAll_ne_fault`), and the generator
finds every variable where the checker put it (`Program.exists_generate`).

* `compile_ne_fault_and_ok_iff` — so an addressable source is compiled or refused, and it is
  compiled exactly if it scans, parses and checks.
-/

namespace Enigma

/-! ## The checker runs out of nothing -/

namespace SymbolTable

theorem Valid.nextLocation_eq {t : SymbolTable} (h : t.Valid) :
    t.nextLocation = memoryBase + wordSize * t.heads.length := by
  rw [h.next, heads, List.length_map]

/-- A declaration with room for its variable meets no fault. -/
theorem declare_ne_fault {t : SymbolTable} (name : String) (type : DataType) (value : Option Value)
    (fault : Fault) (hroom : t.nextLocation + wordSize < Number.addressLimit) :
    t.declare name type value ≠ .error (.fault fault) := by
  intro h
  unfold declare Allocator.allocate at h
  rw [nextLocation] at hroom
  split at h
  · cases h
  · simp at h

/-- **A binding does not run out of addresses** while there is one for what it declares. -/
theorem bind_ne_fault {t : SymbolTable} (b : Binding) (fault : Fault)
    (hroom : t.nextLocation + wordSize * b.head?.toList.length < Number.addressLimit) :
    t.bind b ≠ .error (.fault fault) := by
  have hrequire (name : String) (line : Nat) :
      t.requireDeclared name line ≠ .error (.fault fault) := by
    unfold requireDeclared
    split <;> simp
  intro h
  cases b with
  | declare dataType name value line =>
    cases hc : checkDeclaration dataType name line with
    | error stop =>
      simp only [SymbolTable.bind, hc, Bind.bind, Except.bind, Except.error.injEq] at h
      unfold checkDeclaration at hc
      split at hc
      · split at hc <;> simp_all
      · simp_all
    | ok type =>
      have hdeclare := declare_ne_fault name type (value.bind t.constant?) fault hroom
      simp only [SymbolTable.bind, hc, Bind.bind, Except.bind] at h
      split at h <;> simp_all
  | assign name value line =>
    cases hr : t.requireDeclared name line with
    | error stop =>
      simp only [SymbolTable.bind, hr, Bind.bind, Except.bind, Except.error.injEq] at h
      exact hrequire name line (h ▸ hr)
    | ok u => cases value <;> simp [SymbolTable.bind, hr, Bind.bind, Except.bind] at h
  | read name line =>
    cases hr : t.requireDeclared name line with
    | error stop =>
      simp only [SymbolTable.bind, hr, Bind.bind, Except.bind, Except.error.injEq] at h
      exact hrequire name line (h ▸ hr)
    | ok u => simp [SymbolTable.bind, hr, Bind.bind, Except.bind] at h

/-- **Bindings do not run out of addresses** while there are enough for what they declare. -/
theorem Valid.bindAll_ne_fault {t : SymbolTable} (ht : t.Valid) (bs : List Binding) (fault : Fault)
    (hroom : t.nextLocation + wordSize * (bs.filterMap Binding.head?).length
      < Number.addressLimit) : (t.bindAll bs).2 ≠ some (.fault fault) := by
  induction bs generalizing t with
  | nil => simp [SymbolTable.bindAll]
  | cons b bs ih =>
    have hlength : ((b :: bs).filterMap Binding.head?).length
        = b.head?.toList.length + (bs.filterMap Binding.head?).length := by
      rw [List.filterMap_cons]
      cases b.head? <;> simp [Nat.add_comm]
    rw [hlength] at hroom
    unfold SymbolTable.bindAll
    cases hb : t.bind b with
    | error stop =>
      have hstop := bind_ne_fault b fault (t := t) (by simp only [wordSize] at hroom ⊢; omega)
      rintro h
      exact hstop (Option.some.inj h ▸ hb)
    | ok t' =>
      obtain ⟨ht', hheads, -⟩ := ht.bind hb
      refine ih ht' ?_
      rw [ht.nextLocation_eq] at hroom
      rw [ht'.nextLocation_eq, hheads, List.length_append]
      simp only [wordSize] at hroom ⊢
      omega

end SymbolTable

/-- **Checking an addressable program is not broken off.** -/
theorem Program.analyze_ne_fault {p : Program} (hp : p.Addressable) (fault : Fault) :
    p.analyze ≠ .error (.fault fault) := by
  have hdeclared : ((bindings p).filterMap Binding.head?).length = p.declared.length := by
    rw [declared, actions, (block_matches p).declared, List.length_map]
    rfl
  have hbind := SymbolTable.valid_empty.bindAll_ne_fault (bindings p) fault (by
    obtain ⟨hmemory, -⟩ := hp
    rw [hdeclared]
    simp only [SymbolTable.nextLocation, memoryBase, wordSize, Number.addressLimit]
    omega)
  intro h
  unfold analyze analyzeIn at h
  split at h
  · cases h
  · rename_i heq
    rw [heq] at hbind
    exact hbind (congrArg some (Except.error.inj h))

/-! ## Loops are left only from inside -/

theorem branchesControlled_append {loop : Bool} {bs : List Branch} {b : Branch}
    (h : branchesControlled loop bs) (hb : b.Controlled loop) :
    branchesControlled loop (bs ++ [b]) := by
  induction bs with
  | nil => exact ⟨hb, trivial⟩
  | cons b' bs ih => exact ⟨h.1, ih h.2⟩

namespace Grammar

mutual

/-- **Where controls are derived there is a loop around them.**  A function's body is derived as if
there were none, so it is controlled wherever the function stands. -/
theorem Statement.controlled {inLoop : Bool} {ts : List Token} {s : Stmt} :
    Statement inLoop ts s → ∀ {loop : Bool}, (inLoop = true → loop = true) → s.Controlled loop
  | .declaration _, _, _ => trivial
  | .assignment _ _ _ _, _, _ => trivial
  | .conditional h, _, hl => h.controlled hl
  | .conditionalElse h _ hb, _, hl => branchesControlled_append (h.controlled hl) (hb.controlled hl)
  | .iterate _ _ _ _ _ _ hb, _, _ => hb.controlled id
  | .whilst _ _ hb, _, _ => hb.controlled id
  | .function _ _ _ _ _ hb, _, _ => hb.controlled (by simp)
  | .leave _ _, _, hl => hl rfl
  | .resume _ _, _, hl => hl rfl

/-- Arms in a row leave and resume loops only in loops. -/
theorem Branches.controlled {inLoop : Bool} {ts : List Token} {bs : List Branch} :
    Branches inLoop ts bs → ∀ {loop : Bool}, (inLoop = true → loop = true) →
      branchesControlled loop bs
  | .iff _ _ hb, _, hl => ⟨hb.controlled hl, trivial⟩
  | .maybe h _ _ hb, _, hl => branchesControlled_append (h.controlled hl) (hb.controlled hl)

theorem Block.controlled {inLoop : Bool} {ts : List Token} {body : List Stmt} :
    Block inLoop ts body → ∀ {loop : Bool}, (inLoop = true → loop = true) →
      blockControlled loop body
  | .mk _ h _, _, hl => h.controlled hl

/-- **Statements in a row leave and resume loops only in loops.** -/
theorem Statements.controlled {inLoop : Bool} {ts : List Token} {body : List Stmt} :
    Statements inLoop ts body → ∀ {loop : Bool}, (inLoop = true → loop = true) →
      blockControlled loop body
  | .nil, _, _ => trivial
  | .cons h hrest, _, hl => ⟨h.controlled hl, hrest.controlled hl⟩

end

/-- **A program that is derived leaves loops only from inside.** -/
theorem Derives.controlled {tokens : List Token} {p : Program} (h : Derives tokens p) :
    blockControlled false p := Statements.controlled h id

end Grammar

/-! ## The phases of a compilation -/

theorem bind_eq_error_iff {ε α β : Type} {x : Except ε α} {f : α → Except ε β} {e : ε} :
    x >>= f = .error e ↔ x = .error e ∨ ∃ a, x = .ok a ∧ f a = .error e := by
  cases x <;> simp [bind, Except.bind]

theorem mapError_eq_error_iff {ε δ α : Type} {x : Except ε α} {f : ε → δ} {d : δ} :
    x.mapError f = .error d ↔ ∃ e, x = .error e ∧ f e = d := by
  cases x with
  | error e =>
    change Except.error (f e) = .error d ↔ _
    simp
  | ok a =>
    change Except.ok a = .error d ↔ _
    simp

/-- A check that passes on a result says that there is one. -/
theorem exists_of_toOption_any {ε α : Type} {x : Except ε α} {p : α → Bool}
    (h : x.toOption.any p = true) : ∃ a, x = .ok a ∧ p a = true := by
  cases x with
  | error e => cases h
  | ok a => exact ⟨a, rfl, h⟩

/-- Scanning succeeds if nothing is stray. -/
theorem scanSource_eq_ok_iff {source : String} {tokens : List Token} :
    scanSource source = .ok tokens ↔
      Token.lexErrors (Token.scan source) = [] ∧ Token.scan source = tokens := by
  unfold scanSource
  dsimp only
  split <;> rename_i h
  · simp [h]
  · simpa using fun h' => absurd h' h

/-- **Reading succeeds** if nothing is stray and the tokens are a program. -/
theorem readSource_eq_ok_iff {source : String} {tokens : List Token} {p : Program} :
    readSource source = .ok (tokens, p) ↔ Token.lexErrors (Token.scan source) = [] ∧
      Token.scan source = tokens ∧ Program.parse tokens source = .ok p := by
  simp only [readSource, bind_eq_ok_iff, mapError_eq_ok_iff, scanSource_eq_ok_iff, pure,
    Except.pure, Except.ok.injEq, Prod.mk.injEq]
  constructor
  · rintro ⟨_, ⟨hlex, hscan⟩, _, hparse, rfl, rfl⟩
    exact ⟨hlex, hscan, hparse⟩
  · rintro ⟨hlex, hscan, hparse⟩
    exact ⟨tokens, ⟨hlex, hscan⟩, p, hparse, rfl, rfl⟩

/-- **What a compilation holds**: the result of every phase. -/
theorem compile_eq_ok_iff {source : String} {optimize : Bool} {c : Compilation} :
    compile source optimize = .ok c ↔ readSource source = .ok (c.tokens, c.program) ∧
      c.program.analyze = .ok c.table ∧ c.program.generate c.table = .ok ⟨c.code, c.folded⟩ ∧
      c.optimized = if optimize then Assembly.optimize (c.code.map Instruction.text)
        else c.code.map Instruction.text := by
  simp only [compile, bind_eq_ok_iff, mapError_eq_ok_iff, pure, Except.pure, Except.ok.injEq,
    Prod.exists]
  constructor
  · rintro ⟨tokens, program, hread, table, htable, g, hg, rfl⟩
    exact ⟨hread, htable, hg, rfl⟩
  · rintro ⟨hread, htable, hg, hoptimized⟩
    refine ⟨_, _, hread, _, htable, _, hg, ?_⟩
    rw [← hoptimized]

/-- **Where a compilation is broken off**: only when a program that was read is checked, or when
code is generated for it. -/
theorem compile_eq_fault {source : String} {optimize : Bool} {fault : Fault}
    (h : compile source optimize = .error (.fault fault)) :
    ∃ tokens p, readSource source = .ok (tokens, p) ∧
      (p.analyze = .error (.fault fault) ∨
        ∃ t, p.analyze = .ok t ∧ p.generate t = .error fault) := by
  simp only [compile, bind_eq_error_iff, mapError_eq_error_iff, mapError_eq_ok_iff,
    Prod.exists] at h
  obtain ⟨e, -, hstop⟩ | ⟨tokens, p, hread, ⟨stop, hstop, hmap⟩ | ⟨t, ht, hgenerate⟩⟩ := h
  · cases hstop
  · refine ⟨tokens, p, hread, .inl ?_⟩
    cases stop with
    | refused e => cases hmap
    | fault f =>
      obtain rfl := Stop.fault.inj hmap
      exact hstop
  · refine ⟨tokens, p, hread, .inr ⟨t, ht, ?_⟩⟩
    obtain ⟨f, hf, hstop⟩ | ⟨g, -, hpure⟩ := hgenerate
    · obtain rfl := Stop.fault.inj hstop
      exact hf
    · cases hpure

/-- **Compiling is not broken off**: an addressable source is compiled or refused, and it is
compiled exactly if it scans without an error, parses and checks. -/
theorem compile_ne_fault_and_ok_iff (source : String) (optimize : Bool)
    (hp : ∀ p, Program.parse (Token.scan source) source = .ok p → p.Addressable) :
    (∀ fault, compile source optimize ≠ .error (.fault fault)) ∧
      ((∃ c, compile source optimize = .ok c) ↔
        Token.lexErrors (Token.scan source) = [] ∧
          ∃ p t, Program.parse (Token.scan source) source = .ok p ∧ p.analyze = .ok t) := by
  -- with a checked program nothing is left that can fail
  have hgenerate {p : Program} {t : SymbolTable}
      (hparse : Program.parse (Token.scan source) source = .ok p) (ht : p.analyze = .ok t) :
      ∃ g, p.generate t = .ok g :=
    Program.exists_generate ht (hp p hparse) (Program.parse_eq_ok_iff.1 hparse).controlled
  constructor
  · intro fault h
    obtain ⟨tokens, p, hread, hbroken⟩ := compile_eq_fault h
    obtain ⟨-, rfl, hparse⟩ := readSource_eq_ok_iff.1 hread
    obtain hanalyze | ⟨t, ht, hfault⟩ := hbroken
    · exact Program.analyze_ne_fault (hp p hparse) fault hanalyze
    · obtain ⟨g, hg⟩ := hgenerate hparse ht
      rw [hg] at hfault
      cases hfault
  · constructor
    · rintro ⟨c, hc⟩
      obtain ⟨hread, ht, -⟩ := compile_eq_ok_iff.1 hc
      obtain ⟨hlex, hscan, hparse⟩ := readSource_eq_ok_iff.1 hread
      exact ⟨hlex, c.program, c.table, hscan ▸ hparse, ht⟩
    · rintro ⟨hlex, p, t, hparse, ht⟩
      obtain ⟨g, hg⟩ := hgenerate hparse ht
      let lines := g.instructions.map Instruction.text
      let optimized := if optimize then Assembly.optimize lines else lines
      exact ⟨⟨Token.scan source, p, t, g.instructions, optimized, g.folded⟩, compile_eq_ok_iff.2
        ⟨readSource_eq_ok_iff.2 ⟨hlex, rfl, hparse⟩, ht, hg, rfl⟩⟩

/-- A function inside a loop, with a parameter, an addition and a control behind it. -/
theorem compile_ne_fault_function_in_loop :
    let source := "whilst (yup) { f-enum sum(enum v-a) { v-a = 1 + 2, } br, }"
    (∀ p, Program.parse (Token.scan source) source = .ok p → p.Addressable) ∧
      ∀ fault, compile source true ≠ .error (.fault fault) := by
  intro source
  have hp : ∀ p, Program.parse (Token.scan source) source = .ok p → p.Addressable := by
    intro p hparse
    have hcheck : (Program.parse (Token.scan source) source).toOption.all
        (fun p => decide p.Addressable) = true := by decide +kernel
    rw [hparse] at hcheck
    exact of_decide_eq_true hcheck
  exact ⟨hp, (compile_ne_fault_and_ok_iff source true hp).1⟩

end Enigma
