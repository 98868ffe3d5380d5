import Enigma.Proofs.Actions
import Enigma.Symbol.Analysis

/-!
# Proofs/Layout — where the table has the variables of a program

A table that was built by declarations is **valid**: its names are distinct, the variables lie one
word apart from the base on, and the next free address is behind the last of them
(`SymbolTable.Valid`).  Declarations and new values keep this, so the table of a checked program is
valid, has exactly what the program declares, in that order, and knows everything the program uses
(`Program.valid_of_analyze`, `Program.heads_of_analyze`, `Program.uses_of_analyze`).
-/

namespace Enigma

theorem bind_eq_ok_iff {ε α β : Type} {x : Except ε α} {f : α → Except ε β} {b : β} :
    x >>= f = .ok b ↔ ∃ a, x = .ok a ∧ f a = .ok b := by
  cases x <;> simp [bind, Except.bind]

namespace SymbolTable

/-- The names in a table, in the order of declaration. -/
def names (t : SymbolTable) : List String := t.symbols.map Symbol.name

/-- The names in a table with their data types as they are written. -/
def heads (t : SymbolTable) : List (String × String) :=
  t.symbols.map fun s => (s.name, s.dataType.name)

theorem names_eq (t : SymbolTable) : t.names = t.heads.map Prod.fst := by
  simp [names, heads, Function.comp_def]

/-- Distinct names, one word apart from the base on, and nothing behind them. -/
structure Valid (t : SymbolTable) : Prop where
  nodup : t.names.Nodup
  location : ∀ (i : Nat) (s : Symbol), t.symbols[i]? = some s →
    s.location = memoryBase + wordSize * i
  next : t.nextLocation = memoryBase + wordSize * t.symbols.length
  bound : t.nextLocation < Number.addressLimit

/-! ## Looking up -/

theorem mem_of_get? {t : SymbolTable} {name : String} {s : Symbol} (h : t.get? name = some s) :
    s ∈ t.symbols ∧ s.name = name :=
  ⟨List.mem_of_find?_eq_some h, by simpa using List.find?_some h⟩

theorem contains_iff_mem_names {t : SymbolTable} {name : String} :
    t.contains name = true ↔ name ∈ t.names := by
  simp [contains, get?, names, List.find?_isSome]

/-- **A variable is found by its name**, where names are distinct. -/
theorem get?_of_mem {t : SymbolTable} (h : t.names.Nodup) {s : Symbol} (hs : s ∈ t.symbols) :
    t.get? s.name = some s := by
  obtain ⟨symbols, memory⟩ := t
  unfold get?
  unfold names at h
  dsimp only at hs h ⊢
  induction symbols with
  | nil => cases hs
  | cons s' rest ih =>
    obtain ⟨hhead, hrest⟩ := List.nodup_cons.1 h
    rcases List.mem_cons.1 hs with rfl | hs
    · simp
    · have hne : s'.name ≠ s.name := fun heq => hhead (heq ▸ List.mem_map_of_mem hs)
      rw [List.find?_cons_of_neg (by simpa using hne)]
      exact ih hrest hs

theorem Valid.location?_of_getElem? {t : SymbolTable} (h : t.Valid) {i : Nat} {name : String}
    (hi : t.names[i]? = some name) : t.location? name = some (memoryBase + wordSize * i) := by
  rw [names, List.getElem?_map] at hi
  obtain ⟨s, hs, rfl⟩ := Option.map_eq_some_iff.1 hi
  rw [location?, get?_of_mem h.nodup (List.mem_of_getElem? hs), Option.map_some, h.location i s hs]

/-- **Variables lie below the next free address.** -/
theorem Valid.location_lt {t : SymbolTable} (h : t.Valid) {s : Symbol} (hs : s ∈ t.symbols) :
    s.location < t.nextLocation := by
  obtain ⟨i, hi⟩ := List.getElem?_of_mem hs
  have hlt : i < t.symbols.length := (List.getElem?_eq_some_iff.1 hi).1
  rw [h.location i s hi, h.next]
  simp only [wordSize]
  omega

/-- **Two variables at one address are one variable.** -/
theorem Valid.eq_of_location {t : SymbolTable} (h : t.Valid) {s s' : Symbol} (hs : s ∈ t.symbols)
    (hs' : s' ∈ t.symbols) (heq : s.location = s'.location) : s = s' := by
  obtain ⟨i, hi⟩ := List.getElem?_of_mem hs
  obtain ⟨j, hj⟩ := List.getElem?_of_mem hs'
  rw [h.location i s hi, h.location j s' hj] at heq
  have hij : i = j := by simp only [wordSize] at heq; omega
  rw [hij, hj] at hi
  exact (Option.some.inj hi).symm

/-! ## Building -/

theorem valid_empty : Valid {} where
  nodup := List.nodup_nil
  location i s h := by simp at h
  next := rfl
  bound := by decide

/-- **What a declaration adds**: one variable at the next free address. -/
theorem declare_eq_ok {t t' : SymbolTable} {name : String} {type : DataType} {value : Option Value}
    {address : Nat} (h : t.declare name type value = .ok (address, t')) :
    t.contains name = false ∧ address = t.nextLocation ∧
      t'.symbols = t.symbols ++ [{ name, dataType := type, value, location := address }] ∧
      t'.nextLocation = t.nextLocation + wordSize ∧ t'.nextLocation < Number.addressLimit := by
  unfold declare at h
  split at h
  · cases h
  · rename_i hnew
    cases hm : t.memory.allocate with
    | error fault => simp [hm] at h
    | ok r =>
      obtain ⟨a, m⟩ := r
      obtain ⟨ha, hnext, hbound⟩ := Allocator.allocate_eq_ok_iff.1 hm
      simp only [hm, Except.ok.injEq, Prod.mk.injEq] at h
      obtain ⟨rfl, rfl⟩ := h
      exact ⟨by simpa using hnew, ha, rfl, hnext, hbound⟩

theorem heads_declare {t t' : SymbolTable} {name : String} {type : DataType} {value : Option Value}
    {address : Nat} (h : t.declare name type value = .ok (address, t')) :
    t'.heads = t.heads ++ [(name, type.name)] := by
  simp [heads, (declare_eq_ok h).2.2.1]

/-- **A declaration keeps the table valid.** -/
theorem Valid.declare {t t' : SymbolTable} {name : String} {type : DataType} {value : Option Value}
    {address : Nat} (ht : t.Valid) (h : t.declare name type value = .ok (address, t')) :
    t'.Valid := by
  obtain ⟨hnew, haddress, hsymbols, hnext, hbound⟩ := declare_eq_ok h
  refine ⟨?_, fun i s hi => ?_, ?_, hbound⟩
  · rw [names_eq, heads_declare h, List.map_append, ← names_eq, List.nodup_append]
    refine ⟨ht.nodup, by simp, fun a ha b hb => ?_⟩
    obtain rfl := List.mem_singleton.1 hb
    rintro rfl
    rw [contains_iff_mem_names.2 ha] at hnew
    cases hnew
  · rw [hsymbols] at hi
    rcases Nat.lt_or_ge i t.symbols.length with hlt | hge
    · rw [List.getElem?_append_left hlt] at hi
      exact ht.location i s hi
    · rw [List.getElem?_append_right hge] at hi
      obtain ⟨h0, rfl⟩ := List.getElem?_eq_some_iff.1 hi
      have hi' : i = t.symbols.length := by simp only [List.length_singleton] at h0; omega
      simp [haddress, ht.next, hi']
  · rw [hnext, ht.next, hsymbols, List.length_append, List.length_singleton]
    simp only [wordSize]
    omega

theorem heads_setValue (t : SymbolTable) (name : String) (value : Option Value) :
    (t.setValue name value).heads = t.heads := by
  rw [heads, setValue, List.map_map, heads]
  refine List.map_congr_left fun s _ => ?_
  simp only [Function.comp_apply]
  split <;> rfl

/-- **A new value keeps the table valid.** -/
theorem Valid.setValue {t : SymbolTable} (ht : t.Valid) (name : String) (value : Option Value) :
    (t.setValue name value).Valid := by
  refine ⟨by rw [names_eq, heads_setValue, ← names_eq]; exact ht.nodup, fun i s hi => ?_, ?_,
    ht.bound⟩
  · rw [SymbolTable.setValue, List.getElem?_map] at hi
    obtain ⟨s', hs', rfl⟩ := Option.map_eq_some_iff.1 hi
    have hlocation := ht.location i s' hs'
    split <;> exact hlocation
  · have hnext := ht.next
    simpa [SymbolTable.setValue, nextLocation] using hnext

/-! ## Binding -/

theorem requireDeclared_eq_ok_iff {t : SymbolTable} {name : String} {line : Nat} {u : Unit} :
    t.requireDeclared name line = .ok u ↔ t.contains name = true := by
  unfold requireDeclared
  split <;> simp_all

theorem checkDeclaration_eq_ok_iff {dataType name : String} {line : Nat} {type : DataType} :
    checkDeclaration dataType name line = .ok type ↔
      isValidName name = true ∧ DataType.ofName? dataType = some type := by
  unfold checkDeclaration
  split
  · split <;> simp_all
  · simp_all

/-- **When a declaration is taken**: its name and its type are in order, and the table takes the
variable with what is known of its value. -/
theorem bind_declare_eq_ok_iff {t t' : SymbolTable} {dataType name : String} {value : Option Expr}
    {line : Nat} : t.bind (.declare dataType name value line) = .ok t' ↔
      isValidName name = true ∧ ∃ type, DataType.ofName? dataType = some type ∧
        ∃ address, t.declare name type (value.bind t.constant?) = .ok (address, t') := by
  simp only [SymbolTable.bind, bind_eq_ok_iff, checkDeclaration_eq_ok_iff, and_assoc,
    exists_and_left]
  refine and_congr_right fun _ => exists_congr fun type => and_congr_right fun _ => ?_
  split <;> simp_all

/-- **When an assignment is taken**: its variable is declared, and then has what is known of the new
value; a new value that is not looked at leaves the table as it is. -/
theorem bind_assign_eq_ok_iff {t t' : SymbolTable} {name : String} {value : Option Expr}
    {line : Nat} : t.bind (.assign name value line) = .ok t' ↔ t.contains name = true ∧
      (value.map fun e => t.setValue name (t.constant? e)).getD t = t' := by
  simp only [SymbolTable.bind, bind_eq_ok_iff, requireDeclared_eq_ok_iff, exists_const]
  cases value <;> simp

/-- **When a read is taken**: its variable is declared. -/
theorem bind_read_eq_ok_iff {t t' : SymbolTable} {name : String} {line : Nat} :
    t.bind (.read name line) = .ok t' ↔ t.contains name = true ∧ t = t' := by
  simp [SymbolTable.bind, bind_eq_ok_iff, requireDeclared_eq_ok_iff]

/-- **What a binding does to a valid table**: it stays valid, a declaration adds its variable, and
what is used is known. -/
theorem Valid.bind {t t' : SymbolTable} {b : Binding} (ht : t.Valid) (h : t.bind b = .ok t') :
    t'.Valid ∧ t'.heads = t.heads ++ b.head?.toList ∧ ∀ x ∈ b.used?, x ∈ t.names := by
  cases b with
  | declare dataType name value line =>
    obtain ⟨-, type, htype, address, hd⟩ := bind_declare_eq_ok_iff.1 h
    have hname : type.name = dataType := by simpa using List.find?_some htype
    refine ⟨ht.declare hd, ?_, by simp [Binding.used?]⟩
    rw [heads_declare hd, hname]
    rfl
  | assign name value line =>
    obtain ⟨hknown, rfl⟩ := bind_assign_eq_ok_iff.1 h
    have hused : ∀ x ∈ some name, x ∈ t.names := by simpa using contains_iff_mem_names.1 hknown
    cases value with
    | none => exact ⟨ht, by simp [Binding.head?], hused⟩
    | some e => exact ⟨ht.setValue _ _, by simp [heads_setValue, Binding.head?], hused⟩
  | read name line =>
    obtain ⟨hknown, rfl⟩ := bind_read_eq_ok_iff.1 h
    exact ⟨ht, by simp [Binding.head?],
      by simpa [Binding.used?] using contains_iff_mem_names.1 hknown⟩

/-- **When bindings in a row are taken**: the first is, and the others behind it. -/
theorem bindAll_cons_eq_iff {t t' : SymbolTable} {b : Binding} {bs : List Binding} :
    t.bindAll (b :: bs) = (t', none) ↔ ∃ t₁, t.bind b = .ok t₁ ∧ t₁.bindAll bs = (t', none) := by
  rw [SymbolTable.bindAll]
  cases t.bind b <;> simp

/-- **What bindings in a row do to a valid table.** -/
theorem Valid.bindAll {t t' : SymbolTable} {bs : List Binding} (ht : t.Valid)
    (h : t.bindAll bs = (t', none)) :
    t'.Valid ∧ t'.heads = t.heads ++ bs.filterMap Binding.head? ∧
      bs.filterMap Binding.used? ⊆ t'.names := by
  induction bs generalizing t with
  | nil =>
    obtain ⟨rfl, -⟩ := Prod.mk.inj h
    exact ⟨ht, by simp, by simp⟩
  | cons b bs ih =>
    obtain ⟨t₁, hb, hbs⟩ := bindAll_cons_eq_iff.1 h
    obtain ⟨ht₁, hheads₁, huses₁⟩ := ht.bind hb
    obtain ⟨ht', hheads, huses⟩ := ih ht₁ hbs
    refine ⟨ht', ?_, ?_⟩
    · rw [hheads, hheads₁, List.filterMap_cons, List.append_assoc]
      cases b.head? <;> rfl
    · rw [List.filterMap_cons]
      cases hu : b.used? with
      | none => exact huses
      | some x =>
        have hx : x ∈ t.names := huses₁ x (by rw [hu]; rfl)
        refine List.cons_subset.2 ⟨?_, huses⟩
        rw [names_eq, hheads, hheads₁, List.map_append, List.map_append, ← names_eq]
        exact List.mem_append_left _ (List.mem_append_left _ hx)

end SymbolTable

namespace Program

/-- **When a program checks**: all of its bindings are taken. -/
theorem analyze_eq_ok_iff {p : Program} {t : SymbolTable} :
    p.analyze = .ok t ↔ SymbolTable.bindAll {} (bindings p) = (t, none) := by
  unfold analyze analyzeIn
  split <;> simp_all

/-- **The table of a checked program is valid.** -/
theorem valid_of_analyze {p : Program} {t : SymbolTable} (h : p.analyze = .ok t) : t.Valid :=
  (SymbolTable.valid_empty.bindAll (analyze_eq_ok_iff.1 h)).1

/-- **The table has what the program declares**, in that order. -/
theorem heads_of_analyze {p : Program} {t : SymbolTable} (h : p.analyze = .ok t) :
    t.heads = p.actions.filterMap Action.head? := by
  rw [(SymbolTable.valid_empty.bindAll (analyze_eq_ok_iff.1 h)).2.1]
  exact (block_matches p).heads.symm

theorem names_of_analyze {p : Program} {t : SymbolTable} (h : p.analyze = .ok t) :
    t.names = p.declared := by
  rw [SymbolTable.names_eq, heads_of_analyze h]
  rfl

/-- **The table knows what the program uses.** -/
theorem uses_of_analyze {p : Program} {t : SymbolTable} (h : p.analyze = .ok t) :
    p.actions.flatMap Action.uses ⊆ t.names :=
  List.Subset.trans (block_matches p).uses
    (SymbolTable.valid_empty.bindAll (analyze_eq_ok_iff.1 h)).2.2

end Program

end Enigma
