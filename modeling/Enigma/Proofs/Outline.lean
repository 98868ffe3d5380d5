import Enigma.Proofs.Checking

/-!
# Proofs/Outline — generating from a table that was not checked

The outline of a program passes over declarations of an unknown type or of a name that is taken,
while the generator hands out an address for every declaration it meets and wants the table to have
it there.  A declaration that was passed over may find its address by accident, since the name can
be in the table from elsewhere, but addresses then run ahead of the table, and the last declaration
has none.

* `SymbolTable.Valid.sketch`, `SymbolTable.Valid.foldlM_sketch` — what an unchecked binding adds,
  and what bindings in a row add;
* `LaidOut.length_le` — a table has at least as many variables as are laid out in it;
* `block_controlled_of_generate` — where code is generated, loops are left only from inside;
* `Program.generate_outline_iff` — code is generated from the outline exactly for the programs that
  are `Coherent`.
-/

namespace Enigma

/-! ## The table of an outline -/

namespace SymbolTable

variable {t : SymbolTable}

theorem mem_dataTypeNames_of_mem_heads {head : String × String} (h : head ∈ t.heads) :
    head.2 ∈ dataTypeNames := by
  obtain ⟨s, -, rfl⟩ := List.mem_map.1 h
  exact exists_ofName?_iff.1 ⟨s.dataType, DataType.ofName?_name s.dataType⟩

/-- **What an unchecked binding adds**: the variable it declares, if the type is known and the name
is new. -/
theorem Valid.sketch (ht : t.Valid) (b : Binding)
    (hroom : t.nextLocation + wordSize * b.head?.toList.length < Number.addressLimit) :
    ∃ t', t.sketch b = .ok t' ∧ t'.Valid ∧ t'.heads = t.heads ++
      b.head?.toList.filter fun head => head.2 ∈ dataTypeNames ∧ head.1 ∉ t.names := by
  cases b with
  | declare dataType name value line =>
    cases htype : DataType.ofName? dataType with
    | none =>
      have hnot : dataType ∉ dataTypeNames := by simp [← exists_ofName?_iff, htype]
      exact ⟨t, by simp [SymbolTable.sketch, htype], ht, by simp [Binding.head?, hnot]⟩
    | some type =>
      have hmem : dataType ∈ dataTypeNames := exists_ofName?_iff.1 ⟨type, htype⟩
      have hname : type.name = dataType := by simpa using List.find?_some htype
      rcases hdeclare : t.declare name type (value.bind t.constant?) with
        (e | fault) | ⟨address, t'⟩
      · have hknown : name ∈ t.names := (declare_eq_refused_iff.1 hdeclare).1
        exact ⟨t, by simp [SymbolTable.sketch, htype, hdeclare], ht,
          by simp [Binding.head?, hknown]⟩
      · exact absurd hdeclare (declare_ne_fault name type _ fault hroom)
      · have hnew : name ∉ t.names := by
          simp [← contains_iff_mem_names, (declare_eq_ok hdeclare).1]
        refine ⟨t', by simp [SymbolTable.sketch, htype, hdeclare], ht.declare hdeclare, ?_⟩
        simp [heads_declare hdeclare, Binding.head?, hname, hmem, hnew]
  | assign name value line =>
    cases value with
    | none => exact ⟨t, rfl, ht, by simp [Binding.head?]⟩
    | some e =>
      by_cases hknown : t.contains name = true
      · exact ⟨_, if_pos hknown, ht.setValue _ _, by simp [heads_setValue, Binding.head?]⟩
      · exact ⟨t, if_neg hknown, ht, by simp [Binding.head?]⟩
  | read name line => exact ⟨t, rfl, ht, by simp [Binding.head?]⟩

/-- **What unchecked bindings in a row add**: some of the variables they declare, and all of them if
their types are known and their names are new and distinct. -/
theorem Valid.foldlM_sketch (ht : t.Valid) (bs : List Binding)
    (hroom : t.nextLocation + wordSize * (bs.filterMap Binding.head?).length
      < Number.addressLimit) :
    ∃ t', bs.foldlM SymbolTable.sketch t = .ok t' ∧ t'.Valid ∧
      t'.heads.Sublist (t.heads ++ bs.filterMap Binding.head?) ∧
      ((∀ head ∈ bs.filterMap Binding.head?, head.2 ∈ dataTypeNames) →
        ((t.heads ++ bs.filterMap Binding.head?).map Prod.fst).Nodup →
        t'.heads = t.heads ++ bs.filterMap Binding.head?) := by
  induction bs generalizing t with
  | nil => exact ⟨t, rfl, ht, by simp, by simp⟩
  | cons b bs ih =>
    have hsplit : (b :: bs).filterMap Binding.head?
        = b.head?.toList ++ bs.filterMap Binding.head? := by
      rw [List.filterMap_cons]
      cases b.head? <;> rfl
    rw [hsplit, List.length_append] at hroom
    obtain ⟨t₁, hb, ht₁, hheads₁⟩ := ht.sketch b (by simp only [wordSize] at hroom ⊢; omega)
    generalize hadded : (b.head?.toList.filter fun head =>
      decide (head.2 ∈ dataTypeNames ∧ head.1 ∉ t.names)) = added at hheads₁
    have hsub : added.Sublist b.head?.toList := hadded ▸ List.filter_sublist
    have hroom₁ : t₁.nextLocation + wordSize * (bs.filterMap Binding.head?).length
        < Number.addressLimit := by
      have hlength := hsub.length_le
      rw [ht.nextLocation_eq] at hroom
      rw [ht₁.nextLocation_eq, hheads₁, List.length_append]
      simp only [wordSize] at hroom ⊢
      omega
    obtain ⟨t', hbs, ht', hsub', hall⟩ := ih ht₁ hroom₁
    refine ⟨t', ?_, ht', ?_, ?_⟩
    · rw [List.foldlM_cons, hb]
      exact hbs
    · rw [hheads₁, List.append_assoc] at hsub'
      rw [hsplit]
      exact hsub'.trans ((hsub.append_right _).append_left _)
    · rw [hsplit, ← List.append_assoc]
      intro htyped hdistinct
      -- the variable of the binding is typed and new, so it was added
      have hfirst : added = b.head?.toList := by
        rw [← hadded, List.filter_eq_self]
        intro head hmem
        have hnew : head.1 ∉ t.names := by
          rw [names_eq]
          intro hknown
          rw [List.map_append, List.map_append, List.nodup_append] at hdistinct
          exact (List.nodup_append.1 hdistinct.1).2.2 _ hknown _ (List.mem_map_of_mem hmem) rfl
        exact decide_eq_true ⟨htyped head (List.mem_append_left _ hmem), hnew⟩
      rw [hfirst] at hheads₁
      rw [← hheads₁] at hdistinct ⊢
      exact hall (fun head hmem => htyped head (List.mem_append_right _ hmem)) hdistinct

end SymbolTable

/-! ## What is laid out is in the table -/

theorem LaidOut.location?_of_getElem? {t : SymbolTable} {address i : Nat} {xs : List String}
    {x : String} (h : LaidOut t address xs) (hi : xs[i]? = some x) :
    t.location? x = some (address + wordSize * i) := by
  induction xs generalizing address i with
  | nil => cases hi
  | cons y ys ih =>
    obtain ⟨hy, hys⟩ := h
    cases i with
    | zero =>
      obtain rfl := Option.some.inj hi
      exact hy
    | succ i =>
      rw [ih hys hi]
      simp only [wordSize]
      congr 1
      omega

/-- **A table has at least as many variables as are laid out in it**: one more would lie behind all
of them. -/
theorem LaidOut.length_le {t : SymbolTable} {xs : List String} (h : LaidOut t memoryBase xs)
    (ht : t.Valid) : xs.length ≤ t.symbols.length := by
  refine Nat.not_lt.1 fun hlt => ?_
  have hlocation := h.location?_of_getElem? (List.getElem?_eq_getElem hlt)
  rw [← ht.next] at hlocation
  obtain ⟨s, hs, hnext⟩ := Option.map_eq_some_iff.1 hlocation
  have hbelow : s.location < t.nextLocation := ht.location_lt (SymbolTable.mem_of_get? hs).1
  exact absurd hnext (Nat.ne_of_lt hbelow)

/-! ## Loops are left only from inside -/

mutual

/-- **Where code is generated for a statement**, loops are left and resumed only inside of one. -/
theorem Stmt.controlled_of_generate {t : SymbolTable} {loop : Option LoopLabels} :
    ∀ {s : Stmt} {c c' : Counters} {code : List Instruction}, s.generate t loop c = .ok (code, c') →
      s.Controlled loop.isSome
  | .declare _, _, _, _, _ => trivial
  | .assign _ _ _, _, _, _, _ => trivial
  | .conditional _, _, _, _, h => branches_controlled_of_generate h
  | .iterate _ _ _ _ _, _, _, _, h => by
    simp only [Stmt.generate, Gen.bind_eq_ok] at h
    obtain ⟨_, _, _, _, _, _, _, _, _, _, _, _, _, _, hbody, _⟩ := h
    exact block_controlled_of_generate hbody
  | .whilst _ _ _, _, _, _, h => by
    simp only [Stmt.generate, Gen.bind_eq_ok] at h
    obtain ⟨_, _, _, _, _, _, _, _, hbody, _⟩ := h
    exact block_controlled_of_generate hbody
  | .function _ _ _, _, _, _, h => by
    simp only [Stmt.generate, Gen.bind_eq_ok] at h
    obtain ⟨_, _, _, _, _, hbody, _⟩ := h
    exact block_controlled_of_generate hbody
  | .leave _, _, _, _, h => by
    cases loop with
    | none => simp [Stmt.generate] at h
    | some labels => rfl
  | .resume _, _, _, _, h => by
    cases loop with
    | none => simp [Stmt.generate] at h
    | some labels => rfl

theorem Branch.controlled_of_generate {t : SymbolTable} {loop : Option LoopLabels} :
    ∀ {b : Branch} {c c' : Counters} {code : List Instruction},
      b.generate t loop c = .ok (code, c') → b.Controlled loop.isSome
  | .mk _ _ _ _, _, _, _, h => by
    simp only [Branch.generate, Gen.bind_eq_ok] at h
    obtain ⟨_, _, hbody, _⟩ := h
    exact block_controlled_of_generate hbody

/-- **Where code is generated for statements in a row**, loops are left only from inside. -/
theorem block_controlled_of_generate {t : SymbolTable} {loop : Option LoopLabels} :
    ∀ {body : List Stmt} {c c' : Counters} {code : List Instruction},
      generateBlock t loop body c = .ok (code, c') → blockControlled loop.isSome body
  | [], _, _, _, _ => trivial
  | _ :: _, _, _, _, h => by
    simp only [generateBlock, Gen.bind_eq_ok] at h
    obtain ⟨_, _, hs, _, _, hrest, _⟩ := h
    exact ⟨Stmt.controlled_of_generate hs, block_controlled_of_generate hrest⟩

theorem branches_controlled_of_generate {t : SymbolTable} {loop : Option LoopLabels} :
    ∀ {branches : List Branch} {c c' : Counters} {code : List Instruction},
      generateBranches t loop branches c = .ok (code, c') → branchesControlled loop.isSome branches
  | [], _, _, _, _ => trivial
  | _ :: _, _, _, _, h => by
    simp only [generateBranches, Gen.bind_eq_ok] at h
    obtain ⟨_, _, hb, _, _, hrest, _⟩ := h
    exact ⟨Branch.controlled_of_generate hb, branches_controlled_of_generate hrest⟩

end

/-! ## Whole programs -/

namespace Program

/-- What the generator asks of a program: the variables it declares have data types and distinct
names, it uses only variables that it declares, in front of the use or behind it, and it leaves and
resumes loops only inside of one. -/
structure Coherent (p : Program) : Prop where
  typed : ∀ head ∈ p.actions.filterMap Action.head?, head.2 ∈ dataTypeNames
  distinct : p.declared.Nodup
  known : p.actions.flatMap Action.uses ⊆ p.declared
  controlled : blockControlled false p

/-- **The outline of an addressable program**: its variables are some of those that the program
declares, and all of them if these have data types and distinct names. -/
theorem exists_outline {p : Program} (hp : p.Addressable) : ∃ t, p.outline = .ok t ∧ t.Valid ∧
    t.heads.Sublist (p.actions.filterMap Action.head?) ∧
    ((∀ head ∈ p.actions.filterMap Action.head?, head.2 ∈ dataTypeNames) → p.declared.Nodup →
      t.heads = p.actions.filterMap Action.head?) := by
  have hheads : p.actions.filterMap Action.head? = (bindings p).filterMap Binding.head? :=
    (block_matches p).heads
  have hlocatable : p.Locatable := by
    have hmemory := hp.1
    rw [declared, declaredBy, hheads] at hmemory
    rw [Locatable, declaredIn]
    omega
  obtain ⟨t, ht, hvalid, hsub, hall⟩ :=
    SymbolTable.valid_empty.foldlM_sketch (bindings p) hlocatable.room
  rw [declared, declaredBy, hheads]
  exact ⟨t, ht, hvalid, hsub, hall⟩

/-- **Code is generated from the outline of a program exactly if the program is coherent.** -/
theorem generate_outline_iff {p : Program} (hp : p.Addressable) :
    ∃ t, p.outline = .ok t ∧ ((∃ g, p.generate t = .ok g) ↔ p.Coherent) := by
  obtain ⟨t, ht, hvalid, hsub, hall⟩ := exists_outline hp
  refine ⟨t, ht, ?_, ?_⟩
  · rintro ⟨g, hg⟩
    obtain ⟨c, -, hblock⟩ := generate_eq_ok_iff.1 hg
    have hcontrolled : blockControlled false p := block_controlled_of_generate hblock
    obtain ⟨hused, hlaid, -⟩ := (block_draws t none p hcontrolled).takes _ _ _ hblock
    -- the table has no fewer variables than the program declares, so none was passed over
    have hcount : (p.actions.filterMap Action.head?).length ≤ t.heads.length := by
      have hlength := LaidOut.length_le hlaid hvalid
      rw [SymbolTable.heads, List.length_map]
      rwa [Needs.ofActions, declaredBy, List.length_map] at hlength
    have hheads : t.heads = p.actions.filterMap Action.head? := hsub.eq_of_length_le hcount
    have hnames : t.names = p.declared := by
      rw [SymbolTable.names_eq, hheads]
      rfl
    refine ⟨?_, hnames ▸ hvalid.nodup, hnames ▸ hused, hcontrolled⟩
    rw [← hheads]
    exact fun head hmem => SymbolTable.mem_dataTypeNames_of_mem_heads hmem
  · rintro ⟨htyped, hdistinct, hknown, hcontrolled⟩
    have hnames : t.names = p.declared := by
      rw [SymbolTable.names_eq, hall htyped hdistinct]
      rfl
    exact exists_generate_of_room (room_of_names hvalid hnames (hnames ▸ hknown) hp) hcontrolled

/-- Code is generated for a variable that is assigned in front of its declaration, and for a loop
that is left from a function inside.  A variable whose first declaration is passed over lies where
that one wants it, but not where the second does. -/
theorem generate_outline_iff_passed_over :
    let p : Program := [.whilst (.ident "n") [.function ⟨"none", "f"⟩ [⟨"estr", "s", 1⟩] [.leave 1],
      .assign "x" (.binary (.ident "x") "+" (.ident "s")) 2] 1,
      .declare ⟨"enum", "x", .literal .number "1", 3⟩]
    let q : Program := [.declare ⟨"list", "x", .literal .number "1", 1⟩,
      .declare ⟨"enum", "x", .literal .number "2", 2⟩]
    (p.Addressable ∧ ∃ t g, p.outline = .ok t ∧ p.generate t = .ok g) ∧
      q.Addressable ∧ ∃ t, q.outline = .ok t ∧ t.location? "x" = some memoryBase ∧
        ¬ ∃ g, q.generate t = .ok g := by
  intro p q
  have hp : p.Addressable := by decide
  have hq : q.Addressable := by decide
  have hcoherent : p.Coherent :=
    ⟨by decide, by decide, by decide, ⟨⟨rfl, trivial⟩, trivial, trivial⟩, trivial, trivial⟩
  have hnot : ¬ q.Coherent := fun h => absurd h.distinct (by decide)
  obtain ⟨t, ht, hiff⟩ := generate_outline_iff hp
  obtain ⟨g, hg⟩ := hiff.2 hcoherent
  obtain ⟨t', ht', hiff'⟩ := generate_outline_iff hq
  have hlocation : q.outline.toOption.bind (·.location? "x") = some memoryBase := by decide
  rw [ht'] at hlocation
  exact ⟨⟨hp, t, g, ht, hg⟩, hq, t', ht', hlocation, fun h => hnot (hiff'.1 h)⟩

end Program

end Enigma
