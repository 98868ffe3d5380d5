import Enigma.Proofs.Layout

/-!
# Proofs/Generation — when generating succeeds, and what its counters become

Generation threads three counters and can fault in five ways.  `Room` gathers what keeps every fault
away from a part with given `Needs`: its variables lie where the table has them, what it uses is
known, and the three counters have room.  `Advanced` says how far generating the part moves them.

* `Draws` — how a part is put together, with what it needs; `Stmt.draws`, `block_draws` — statements
  are, where loops are left only from inside;
* `Fits`, `Draws.fits` — generating such a part succeeds wherever there is room for it;
* `Takes`, `Draws.takes` — and where it succeeds, what it needs was there;
* `Program.room_of_names`, `Program.exists_generate` — the table of a checked program gives room for
  that program, so its code is generated.
-/

namespace Enigma

/-! ## One step of generation -/

namespace Gen

variable {α β : Type} {c c' : Counters}

/-- **Two steps succeed** if the first does, and the second from the counters that it leaves. -/
@[simp] theorem bind_eq_ok {x : Gen α} {f : α → Gen β} {b : β} :
    (x >>= f) c = .ok (b, c') ↔ ∃ a c₁, x c = .ok (a, c₁) ∧ f a c₁ = .ok (b, c') := by
  change (x c >>= fun p => f p.1 p.2) = _ ↔ _
  cases x c with
  | error fault => simp [bind, Except.bind]
  | ok p =>
    obtain ⟨a, c₁⟩ := p
    change f a c₁ = _ ↔ _
    simp [and_assoc]

@[simp] theorem pure_eq_ok {a b : α} : (pure a : Gen α) c = .ok (b, c') ↔ b = a ∧ c' = c := by
  change Except.ok (a, c) = Except.ok (b, c') ↔ _
  simp [eq_comm]

@[simp] theorem fail_eq_ok {fault : Fault} {a : α} :
    (fail fault : Gen α) c = .ok (a, c') ↔ False := by
  simp [fail]

/-- A label is the next one, while there are numbers for labels. -/
@[simp] theorem label_eq_ok {name : String} :
    label c = .ok (name, c') ↔ c.nextLabel + 1 < Number.addressLimit ∧
      name = "L" ++ toString c.nextLabel ∧ c' = { c with nextLabel := c.nextLabel + 1 } := by
  unfold label
  by_cases h : c.nextLabel + 1 < Number.addressLimit
  · rw [if_pos h]
    simp [h, eq_comm]
  · rw [if_neg h]
    simp [h]

/-- A temporary is the next cell, while there are addresses. -/
@[simp] theorem temporary_eq_ok {cell : Nat} :
    temporary c = .ok (cell, c') ↔ c.temporaries.next + wordSize < Number.addressLimit ∧
      cell = c.temporaries.next ∧
      c' = { c with temporaries := ⟨c.temporaries.next + wordSize⟩ } := by
  unfold temporary Allocator.allocate
  by_cases h : c.temporaries.next + wordSize < Number.addressLimit
  · rw [if_pos h]
    simp [h, eq_comm]
  · rw [if_neg h]
    simp [h]

/-- **A variable gets the next cell**, and that must be the one which the table has for it. -/
@[simp] theorem variableCell_eq_ok {t : SymbolTable} {name : String} {cell : Nat} :
    variableCell t name c = .ok (cell, c') ↔ c.memory.next + wordSize < Number.addressLimit ∧
      t.location? name = some c.memory.next ∧ cell = c.memory.next ∧
      c' = { c with memory := ⟨c.memory.next + wordSize⟩ } := by
  unfold variableCell Allocator.allocate
  by_cases h : c.memory.next + wordSize < Number.addressLimit
  · rw [if_pos h]
    by_cases hl : t.location? name = some c.memory.next
    · simp [h, hl, eq_comm]
    · simp [hl]
  · rw [if_neg h]
    simp [h]

/-- A symbol is one of the table. -/
@[simp] theorem symbol_eq_ok {t : SymbolTable} {name : String} {s : Symbol} :
    symbol t name c = .ok (s, c') ↔ t.get? name = some s ∧ c' = c := by
  unfold symbol
  cases t.get? name with
  | none => simp
  | some s' => rw [pure_eq_ok, Option.some_inj, eq_comm]

@[simp] theorem fold_eq_ok {sum : Option Value} {u : Unit} :
    fold sum c = .ok (u, c') ↔ c' = { c with folded := sum } := by
  change Except.ok ((), { c with folded := sum }) = Except.ok (u, c') ↔ _
  simp [eq_comm]

end Gen

/-! ## Room for what is to come -/

/-- Variables lie one word apart from an address on, in the order given. -/
def LaidOut (t : SymbolTable) : Nat → List String → Prop
  | _, [] => True
  | address, name :: rest => t.location? name = some address ∧ LaidOut t (address + wordSize) rest

/-- Variables in two parts are laid out in one row. -/
theorem laidOut_append {t : SymbolTable} {address : Nat} {xs ys : List String} :
    LaidOut t address (xs ++ ys) ↔
      LaidOut t address xs ∧ LaidOut t (address + wordSize * xs.length) ys := by
  induction xs generalizing address with
  | nil => simp [LaidOut]
  | cons x xs ih =>
    have hnext : address + wordSize + wordSize * xs.length
        = address + wordSize * (xs.length + 1) := by simp only [wordSize]; omega
    simp only [List.cons_append, LaidOut, List.length_cons, ih, and_assoc, hnext]

/-- What is laid out is known. -/
theorem LaidOut.subset_names {t : SymbolTable} {address : Nat} {xs : List String}
    (h : LaidOut t address xs) : xs ⊆ t.names := by
  induction xs generalizing address with
  | nil => exact List.nil_subset _
  | cons x xs ih =>
    obtain ⟨s, hs, -⟩ := Option.map_eq_some_iff.1 h.1
    obtain ⟨hmem, rfl⟩ := SymbolTable.mem_of_get? hs
    exact List.cons_subset.2 ⟨List.mem_map_of_mem hmem, ih h.2⟩

/-- What generating a part asks for. -/
structure Needs where
  declared : List String := []
  used : List String := []
  sums : Nat := 0
  labels : Nat := 0

namespace Needs

instance : Append Needs where
  append m n := ⟨m.declared ++ n.declared, m.used ++ n.used, m.sums + n.sums, m.labels + n.labels⟩

@[simp] theorem mk_append (d d' u u' : List String) (s s' l l' : Nat) :
    (⟨d, u, s, l⟩ ++ ⟨d', u', s', l'⟩ : Needs) = ⟨d ++ d', u ++ u', s + s', l + l'⟩ := rfl

/-- What actions ask for, with the labels between them. -/
def ofActions (as : List Action) (labels : Nat) : Needs :=
  ⟨declaredBy as, as.flatMap Action.uses, sumsOf as, labels⟩

/-- What actions in two parts need is what the actions in one row need. -/
theorem ofActions_append (as bs : List Action) (m n : Nat) :
    ofActions as m ++ ofActions bs n = ofActions (as ++ bs) (m + n) := by
  simp [ofActions]

end Needs

/-- What keeps every fault away from a part. -/
structure Room (t : SymbolTable) (n : Needs) (c : Counters) : Prop where
  used : n.used ⊆ t.names
  laidOut : LaidOut t c.memory.next n.declared
  memory : c.memory.next + wordSize * n.declared.length < Number.addressLimit
  temporaries : c.temporaries.next + wordSize * n.sums < Number.addressLimit
  labels : c.nextLabel + n.labels < Number.addressLimit

/-- How far generating a part moves the counters. -/
structure Advanced (n : Needs) (c c' : Counters) : Prop where
  memory : c'.memory.next = c.memory.next + wordSize * n.declared.length
  temporaries : c'.temporaries.next = c.temporaries.next + wordSize * n.sums
  labels : c'.nextLabel = c.nextLabel + n.labels

section Room

variable {t : SymbolTable} {m n : Needs} {c c' c'' : Counters}

/-- Room for two parts is room for the first. -/
theorem Room.left (h : Room t (m ++ n) c) : Room t m c := by
  obtain ⟨d, u, s, l⟩ := m
  obtain ⟨d', u', s', l'⟩ := n
  obtain ⟨used, laidOut, memory, temporaries, labels⟩ := h
  simp only [Needs.mk_append, List.append_subset, laidOut_append, List.length_append, wordSize]
    at used laidOut memory temporaries labels
  refine ⟨used.1, laidOut.1, ?_, ?_, ?_⟩ <;> simp only [wordSize] <;> omega

/-- **What a part leaves** is room for the rest. -/
theorem Room.right (h : Room t (m ++ n) c) (hc : Advanced m c c') : Room t n c' := by
  obtain ⟨d, u, s, l⟩ := m
  obtain ⟨d', u', s', l'⟩ := n
  obtain ⟨used, laidOut, memory, temporaries, labels⟩ := h
  obtain ⟨hm, ht, hl⟩ := hc
  simp only [Needs.mk_append, List.append_subset, laidOut_append, List.length_append]
    at used laidOut memory temporaries labels
  rw [← hm] at laidOut
  simp only [wordSize] at memory temporaries hm ht hl
  refine ⟨used.2, laidOut.2, ?_, ?_, ?_⟩ <;> simp only [wordSize] <;> omega

/-- Counters advance by two parts as by both. -/
theorem Advanced.append (h : Advanced m c c') (h' : Advanced n c' c'') :
    Advanced (m ++ n) c c'' := by
  obtain ⟨d, u, s, l⟩ := m
  obtain ⟨d', u', s', l'⟩ := n
  obtain ⟨hm, ht, hl⟩ := h
  obtain ⟨hm', ht', hl'⟩ := h'
  simp only [wordSize] at hm ht hl hm' ht' hl'
  refine ⟨?_, ?_, ?_⟩ <;> simp only [Needs.mk_append, List.length_append, wordSize] <;> omega

end Room

/-! ## Parts that fit -/

/-- Generating succeeds wherever there is room, and takes what it asked for. -/
def Fits {α : Type} (t : SymbolTable) (n : Needs) (x : Gen α) : Prop :=
  ∀ c, Room t n c → ∃ a c', x c = .ok (a, c') ∧ Advanced n c c'

namespace Fits

variable {α β : Type} {t : SymbolTable} {m n : Needs} {x : Gen α} {f : α → Gen β}

theorem pure (a : α) : Fits t {} (pure a) := by
  intro c _
  exact ⟨a, c, rfl, by constructor <;> rfl⟩

/-- **Parts that fit, fit one behind the other.** -/
theorem bind (hx : Fits t m x) (hf : ∀ a, Fits t n (f a)) : Fits t (m ++ n) (x >>= f) := by
  intro c hroom
  obtain ⟨a, c₁, hxc, hadv⟩ := hx c hroom.left
  obtain ⟨b, c₂, hfc, hadv'⟩ := hf a c₁ (hroom.right hadv)
  exact ⟨b, c₂, Gen.bind_eq_ok.2 ⟨a, c₁, hxc, hfc⟩, hadv.append hadv'⟩

/-- What is declared need not be known from elsewhere. -/
theorem of_declared {d u : List String} {s l : Nat} (h : Fits t ⟨d, d ++ u, s, l⟩ x) :
    Fits t ⟨d, u, s, l⟩ x := by
  intro c hroom
  obtain ⟨used, laidOut, memory, temporaries, labels⟩ := hroom
  obtain ⟨a, c', hxc, hm, ht, hl⟩ := h c ⟨List.append_subset.2 ⟨laidOut.subset_names, used⟩,
    laidOut, memory, temporaries, labels⟩
  exact ⟨a, c', hxc, hm, ht, hl⟩

theorem label : Fits t { labels := 1 } Gen.label := by
  intro c hroom
  exact ⟨_, _, Gen.label_eq_ok.2 ⟨hroom.labels, rfl, rfl⟩, by constructor <;> rfl⟩

theorem temporary : Fits t { sums := 1 } Gen.temporary := by
  intro c hroom
  exact ⟨_, _, Gen.temporary_eq_ok.2 ⟨hroom.temporaries, rfl, rfl⟩, by constructor <;> rfl⟩

/-- A cell for a variable fits where the table has it next. -/
theorem variableCell (name : String) : Fits t { declared := [name] } (Gen.variableCell t name) := by
  intro c hroom
  exact ⟨_, _, Gen.variableCell_eq_ok.2 ⟨hroom.memory, hroom.laidOut.1, rfl, rfl⟩,
    by constructor <;> rfl⟩

/-- A symbol fits where its variable is known. -/
theorem symbol (name : String) : Fits t { used := [name] } (Gen.symbol t name) := by
  intro c hroom
  have hname : name ∈ t.names := hroom.used (List.mem_singleton_self name)
  obtain ⟨s, hs⟩ := Option.isSome_iff_exists.1 (SymbolTable.contains_iff_mem_names.2 hname)
  exact ⟨s, c, Gen.symbol_eq_ok.2 ⟨hs, rfl⟩, by constructor <;> rfl⟩

theorem fold (sum : Option Value) : Fits t {} (Gen.fold sum) := by
  intro c _
  exact ⟨(), _, Gen.fold_eq_ok.2 rfl, by constructor <;> rfl⟩

end Fits

/-- Where generating succeeds, the table had what it asked for, and it took that. -/
def Takes {α : Type} (t : SymbolTable) (n : Needs) (x : Gen α) : Prop :=
  ∀ c a c', x c = .ok (a, c') →
    n.used ⊆ t.names ∧ LaidOut t c.memory.next n.declared ∧ Advanced n c c'

/-- **What parts take, they take one behind the other.** -/
theorem Takes.bind {α β : Type} {t : SymbolTable} {m n : Needs} {x : Gen α} {f : α → Gen β}
    (hx : Takes t m x) (hf : ∀ a, Takes t n (f a)) : Takes t (m ++ n) (x >>= f) := by
  intro c b c' h
  obtain ⟨a, c₁, hxc, hfc⟩ := Gen.bind_eq_ok.1 h
  obtain ⟨hused, hlaid, hadv⟩ := hx c a c₁ hxc
  obtain ⟨hused', hlaid', hadv'⟩ := hf a c₁ b c' hfc
  rw [hadv.memory] at hlaid'
  exact ⟨List.append_subset.2 ⟨hused, hused'⟩, laidOut_append.2 ⟨hlaid, hlaid'⟩,
    hadv.append hadv'⟩

/-! ## How parts are put together -/

/-- How generation is put together from what the counters and the table are asked, and what it needs
for that.  What is declared need not be known from elsewhere. -/
inductive Draws (t : SymbolTable) : {α : Type} → Needs → Gen α → Prop
  | pure {α : Type} (a : α) : Draws t {} (pure a)
  | bind {α β : Type} {m n : Needs} {x : Gen α} {f : α → Gen β} (hx : Draws t m x)
      (hf : ∀ a, Draws t n (f a)) : Draws t (m ++ n) (x >>= f)
  | label : Draws t { labels := 1 } Gen.label
  | temporary : Draws t { sums := 1 } Gen.temporary
  | variableCell (name : String) : Draws t { declared := [name] } (Gen.variableCell t name)
  | symbol (name : String) : Draws t { used := [name] } (Gen.symbol t name)
  | fold (sum : Option Value) : Draws t {} (Gen.fold sum)
  | declared {α : Type} {d u : List String} {s l : Nat} {x : Gen α}
      (h : Draws t ⟨d, d ++ u, s, l⟩ x) : Draws t ⟨d, u, s, l⟩ x

namespace Draws

variable {α : Type} {t : SymbolTable} {m n : Needs} {x : Gen α}

theorem of_eq (h : Draws t m x) (heq : m = n) : Draws t n x := heq ▸ h

/-- **What is put together fits.** -/
theorem fits (h : Draws t n x) : Fits t n x := by
  induction h with
  | pure a => exact .pure a
  | bind _ _ ihx ihf => exact ihx.bind ihf
  | label => exact .label
  | temporary => exact .temporary
  | variableCell name => exact .variableCell name
  | symbol name => exact .symbol name
  | fold sum => exact .fold sum
  | declared _ ih => exact ih.of_declared

/-- **What is put together takes what it needs.** -/
theorem takes (h : Draws t n x) : Takes t n x := by
  induction h with
  | bind _ _ ihx ihf => exact ihx.bind ihf
  | declared _ ih =>
    intro c a c' hc
    obtain ⟨hused, hlaid, hm, ht, hl⟩ := ih c a c' hc
    exact ⟨(List.append_subset.1 hused).2, hlaid, hm, ht, hl⟩
  | pure a =>
    intro c b c' hc
    obtain ⟨-, rfl⟩ := Gen.pure_eq_ok.1 hc
    exact ⟨List.nil_subset _, trivial, by constructor <;> rfl⟩
  | label =>
    intro c name c' hc
    obtain ⟨-, -, rfl⟩ := Gen.label_eq_ok.1 hc
    exact ⟨List.nil_subset _, trivial, by constructor <;> rfl⟩
  | temporary =>
    intro c cell c' hc
    obtain ⟨-, -, rfl⟩ := Gen.temporary_eq_ok.1 hc
    exact ⟨List.nil_subset _, trivial, by constructor <;> rfl⟩
  | variableCell name =>
    intro c cell c' hc
    obtain ⟨-, hlocation, -, rfl⟩ := Gen.variableCell_eq_ok.1 hc
    exact ⟨List.nil_subset _, ⟨hlocation, trivial⟩, by constructor <;> rfl⟩
  | symbol name =>
    intro c s c' hc
    obtain ⟨hs, rfl⟩ := Gen.symbol_eq_ok.1 hc
    obtain ⟨hmem, hname⟩ := SymbolTable.mem_of_get? hs
    have hknown : name ∈ t.names := hname ▸ List.mem_map_of_mem hmem
    exact ⟨List.cons_subset.2 ⟨hknown, List.nil_subset _⟩, trivial, by constructor <;> rfl⟩
  | fold sum =>
    intro c u c' hc
    obtain rfl := Gen.fold_eq_ok.1 hc
    exact ⟨List.nil_subset _, trivial, by constructor <;> rfl⟩

/-- Parameters draw a cell each. -/
theorem reserve (params : List Param) :
    Draws t { declared := params.map Param.name }
      (params.forM fun p => discard (Gen.variableCell t p.name)) := by
  induction params with
  | nil => exact pure ()
  | cons p rest ih =>
    have hcell : Draws t { declared := [p.name] } (discard (Gen.variableCell t p.name)) :=
      (variableCell p.name).bind fun _ => pure ()
    exact hcell.bind fun _ => ih

end Draws

/-! ## Expressions -/

/-- **What an expression needs**: its variables, and a cell for each addition. -/
theorem Expr.draws (t : SymbolTable) (e : Expr) :
    Draws t { used := e.reads, sums := e.sums } (e.generate t) := by
  induction e with
  | literal kind text => cases kind <;> exact .pure _
  | ident name => exact (Draws.symbol name).bind fun _ => .pure _
  | group inner ih => exact ih
  | binary left operator right ihl ihr =>
    by_cases hop : operator = "+"
    · refine Draws.of_eq (ihl.bind fun l => ihr.bind (n := { sums := 1 }) fun r => ?_)
        (by simp [reads, sums, hop, Nat.add_assoc])
      simp only [if_pos hop]
      refine Draws.temporary.bind (n := {}) fun cell => ?_
      split
      · exact (Draws.fold _).bind fun _ => .pure _
      · exact .pure _
    · refine Draws.of_eq (ihl.bind fun l => ihr.bind (n := {}) fun r => ?_)
        (by simp [reads, sums, hop])
      simp only [if_neg hop]
      exact .pure _

/-- A declaration draws the sums of its value and one cell. -/
theorem Declaration.draws (t : SymbolTable) (d : Declaration) :
    Draws t (.ofActions [.declare d] 0) (d.generate t) := by
  refine Draws.declared (Draws.of_eq ((Draws.variableCell d.name).bind fun _ =>
    (Draws.symbol d.name).bind fun _ => (d.value.draws t).bind fun _ => .pure _) ?_)
  simp [declaredBy, Action.head?, Action.uses, sumsOf, Action.sums, Action.target?]

/-- A step draws nothing but its variable. -/
theorem Step.draws (t : SymbolTable) (s : Step) :
    Draws t (.ofActions [.count s] 0) (s.generate t) :=
  (Draws.symbol s.name).bind fun _ => .pure _

/-! ## Statements -/

theorem Needs.ofActions_reserve (params : List Param) :
    ofActions (params.map .reserve) 0 = { declared := params.map Param.name } := by
  induction params with
  | nil => rfl
  | cons p rest ih =>
    have hhead : ofActions [.reserve p] 0 = { declared := [p.name] } := rfl
    rw [List.map_cons, ← List.singleton_append, ← ofActions_append _ _ 0 0, ih, hhead]
    rfl

mutual

/-- **What a statement needs** is what its actions need, and its labels, where loops are left and
resumed only inside of one. -/
theorem Stmt.draws (t : SymbolTable) (loop : Option LoopLabels) :
    ∀ s : Stmt, s.Controlled loop.isSome →
      Draws t (.ofActions s.actions s.labels) (s.generate t loop)
  | .declare d, _ => d.draws t
  | .assign name value _, _ => by
    refine Draws.of_eq ((Draws.symbol name).bind fun _ => (value.draws t).bind fun _ => .pure _) ?_
    simp [Needs.ofActions, Stmt.actions, Stmt.labels, declaredBy, Action.head?, Action.uses,
      sumsOf, Action.sums, Action.target?]
  | .conditional branches, h => branches_draw t loop branches h
  | .iterate init _ step body _, h => by
    refine Draws.of_eq ((init.draws t).bind fun _ => Draws.label.bind fun _ =>
      Draws.label.bind fun _ => Draws.label.bind fun _ =>
      (block_draws t (some _) body h).bind fun _ => (step.draws t).bind fun _ => .pure _) ?_
    have hparts : Needs.ofActions (.declare init :: (blockActions body ++ [.count step]))
        (3 + blockLabels body) = .ofActions [.declare init] 3 ++
          (.ofActions (blockActions body) (blockLabels body) ++ .ofActions [.count step] 0) := by
      rw [Needs.ofActions_append, Needs.ofActions_append]
      rfl
    have hlabels (n : Nat) : 1 + (1 + (1 + n)) = 3 + n := by omega
    rw [Stmt.actions, Stmt.labels, hparts]
    simp [Needs.ofActions, hlabels]
  | .whilst _ body _, h => by
    refine Draws.of_eq (Draws.label.bind fun _ => Draws.label.bind fun _ =>
      (block_draws t (some _) body h).bind fun _ => .pure _) ?_
    simp [Needs.ofActions, Stmt.actions, Stmt.labels, ← Nat.add_assoc]
  | .function _ params body, h => by
    refine Draws.of_eq ((Draws.reserve params).bind fun _ =>
      (block_draws t loop body h).bind fun _ => .pure _) ?_
    rw [← Needs.ofActions_reserve]
    simp [Needs.ofActions, Stmt.actions, Stmt.labels]
  | .leave _, h => by
    obtain ⟨labels, rfl⟩ := Option.isSome_iff_exists.1 h
    exact .pure _
  | .resume _, h => by
    obtain ⟨labels, rfl⟩ := Option.isSome_iff_exists.1 h
    exact .pure _

/-- An arm draws what its block draws. -/
theorem Branch.draws (t : SymbolTable) (loop : Option LoopLabels) :
    ∀ b : Branch, b.Controlled loop.isSome →
      Draws t (.ofActions b.actions b.labels) (b.generate t loop)
  | .mk _ _ body _, h => Draws.of_eq ((block_draws t loop body h).bind fun _ => .pure _)
    (by simp [Needs.ofActions, Branch.actions, Branch.labels])

/-- **What statements in a row need.** -/
theorem block_draws (t : SymbolTable) (loop : Option LoopLabels) :
    ∀ body : List Stmt, blockControlled loop.isSome body →
      Draws t (.ofActions (blockActions body) (blockLabels body)) (generateBlock t loop body)
  | [], _ => .pure _
  | s :: rest, h => Draws.of_eq ((s.draws t loop h.1).bind fun _ =>
    (block_draws t loop rest h.2).bind fun _ => .pure _)
    (by simp [Needs.ofActions, blockActions, blockLabels])

/-- Arms in a row draw one after the other. -/
theorem branches_draw (t : SymbolTable) (loop : Option LoopLabels) :
    ∀ branches : List Branch, branchesControlled loop.isSome branches →
      Draws t (.ofActions (branchesActions branches) (branchesLabels branches))
        (generateBranches t loop branches)
  | [], _ => .pure _
  | b :: rest, h => Draws.of_eq ((b.draws t loop h.1).bind fun _ =>
    (branches_draw t loop rest h.2).bind fun _ => .pure _)
    (by simp [Needs.ofActions, branchesActions, branchesLabels])

end

/-! ## Whole programs -/

/-- A valid table has its variables laid out from the base on. -/
theorem SymbolTable.Valid.laidOut {t : SymbolTable} (h : t.Valid) :
    LaidOut t memoryBase t.names := by
  suffices hsuffix : ∀ (xs : List String) (k : Nat), t.names.drop k = xs →
      LaidOut t (memoryBase + wordSize * k) xs from hsuffix t.names 0 rfl
  intro xs
  induction xs with
  | nil => exact fun _ _ => trivial
  | cons x xs ih =>
    intro k hk
    have hx : t.names[k]? = some x := by rw [← List.head?_drop, hk, List.head?_cons]
    have hxs : t.names.drop (k + 1) = xs := by rw [← List.tail_drop, hk, List.tail_cons]
    have hnext : memoryBase + wordSize * (k + 1) = memoryBase + wordSize * k + wordSize := rfl
    exact ⟨h.location?_of_getElem? hx, hnext ▸ ih (k + 1) hxs⟩

namespace Program

/-- Whether a program's variables, additions and labels stay inside of 32 bits. -/
def Addressable (p : Program) : Prop :=
  1000 + 4 * (p.declared.length + p.sums) ≤ 0xFFFFFFFF ∧ p.labels < 0xFFFFFFFF

instance (p : Program) : Decidable p.Addressable := inferInstanceAs (Decidable (_ ∧ _))

/-- **A table gives room for a program** if it is valid, has just what the program declares and
knows what the program uses. -/
theorem room_of_names {p : Program} {t : SymbolTable} (hvalid : t.Valid)
    (hnames : t.names = p.declared) (huses : p.actions.flatMap Action.uses ⊆ t.names)
    (hp : p.Addressable) :
    Room t (.ofActions p.actions p.labels) { temporaries := ⟨t.nextLocation⟩ } := by
  have hlength : t.symbols.length = p.declared.length := by
    rw [← hnames, SymbolTable.names, List.length_map]
  obtain ⟨hmemory, hlabels⟩ := hp
  unfold declared at hnames hlength hmemory
  unfold sums at hmemory
  refine ⟨huses, ?_, ?_, ?_, ?_⟩
  · have hlaid := hvalid.laidOut
    rwa [hnames] at hlaid
  · simp only [Needs.ofActions, memoryBase, wordSize, Number.addressLimit]
    omega
  · simp only [Needs.ofActions, hvalid.next, hlength, memoryBase, wordSize, Number.addressLimit]
    omega
  · simp only [Needs.ofActions, Number.addressLimit]
    omega

/-- **When code is generated for a program**: when its statements are generated from fresh
counters. -/
theorem generate_eq_ok_iff {p : Program} {t : SymbolTable} {g : Generated} :
    p.generate t = .ok g ↔ ∃ c, g.folded = c.folded ∧
      generateBlock t none p { temporaries := ⟨t.nextLocation⟩ } = .ok (g.instructions, c) := by
  unfold generate StateT.run
  rw [bind_eq_ok_iff]
  constructor
  · rintro ⟨⟨code, c⟩, hgen, hg⟩
    cases hg
    exact ⟨c, rfl, hgen⟩
  · rintro ⟨c, hfolded, hgen⟩
    refine ⟨(g.instructions, c), hgen, ?_⟩
    obtain ⟨code, folded⟩ := g
    cases hfolded
    rfl

/-- **Code is generated wherever there is room for the program**, if it leaves loops only from
inside. -/
theorem exists_generate_of_room {p : Program} {t : SymbolTable}
    (hroom : Room t (.ofActions p.actions p.labels) { temporaries := ⟨t.nextLocation⟩ })
    (hcontrol : blockControlled false p) : ∃ g, p.generate t = .ok g := by
  obtain ⟨code, c, hgen, -⟩ := (block_draws t none p hcontrol).fits _ hroom
  exact ⟨⟨code, c.folded⟩, generate_eq_ok_iff.2 ⟨c, rfl, hgen⟩⟩

/-- **Code is generated for every checked program** that leaves loops only from inside and is
addressable. -/
theorem exists_generate {p : Program} {t : SymbolTable} (h : p.analyze = .ok t)
    (hp : p.Addressable) (hcontrol : blockControlled false p) : ∃ g, p.generate t = .ok g :=
  exists_generate_of_room (room_of_names (valid_of_analyze h) (names_of_analyze h)
    (uses_of_analyze h) hp) hcontrol

end Program

end Enigma
