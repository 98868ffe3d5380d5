import Enigma.Proofs.Totality

/-!
# Proofs/Checking — which programs check, and where the others fail

The checker walks the bindings of a program with a table that grows, and stops at the first one that
is refused.  What it asks for can be said without a table: names and data types are in order, no
variable is declared twice, and every variable is declared before it is used (`WellDeclared`).

* `Violates` — how a binding can be at fault behind those that declare some variables;
* `SymbolTable.bind_eq_refused_iff` — the checker refuses exactly the bindings that are at fault;
* `SymbolTable.exists_stop` — where bindings in a row are stopped;
* `Program.analyze_iff_wellDeclared` — the programs that check are the well-declared ones, and any
  other is refused for its first violation, with the table of the bindings before it.
-/

namespace Enigma

/-! ## What is asked of bindings -/

/-- A name that a variable may have: `v-`, an ASCII letter, and ASCII letters and digits. -/
def IsVariableName (name : String) : Prop :=
  ∃ c rest, name = "v-" ++ String.ofList (c :: rest) ∧ c.isAlpha = true ∧
    rest.all Char.isAlphanum = true

/-- The data types as they are written. -/
def dataTypeNames : List String := ["enum", "efl", "estr", "ebool"]

/-- The variables that bindings declare, in order. -/
def declaredIn (bs : List Binding) : List String := (bs.filterMap Binding.head?).map Prod.fst

/-- Names and data types are in order, no variable is declared twice, and what is assigned or read
is declared by an earlier binding. -/
structure WellDeclared (bs : List Binding) : Prop where
  declared : ∀ dataType name value line, .declare dataType name value line ∈ bs →
    IsVariableName name ∧ dataType ∈ dataTypeNames
  distinct : (declaredIn bs).Nodup
  known : ∀ before b after name, bs = before ++ b :: after → b.used? = some name →
    name ∈ declaredIn before

/-- How a binding is at fault when some variables are declared.  A declaration is judged by its
name, then by its data type, and then by whether it is the first of its variable. -/
inductive Violates (known : List String) : Binding → SemanticError → Prop
  | name {dataType name : String} {value : Option Expr} {line : Nat} (h : ¬ IsVariableName name) :
      Violates known (.declare dataType name value line) (.invalidName name line)
  | dataType {dataType name : String} {value : Option Expr} {line : Nat}
      (hname : IsVariableName name) (h : dataType ∉ dataTypeNames) :
      Violates known (.declare dataType name value line) (.invalidDataType dataType name line)
  | redeclared {dataType name : String} {value : Option Expr} {line : Nat}
      (hname : IsVariableName name) (htype : dataType ∈ dataTypeNames) (h : name ∈ known) :
      Violates known (.declare dataType name value line) (.alreadyDeclared name line)
  | assigned {name : String} {value : Option Expr} {line : Nat} (h : name ∉ known) :
      Violates known (.assign name value line) (.usedBeforeDeclaration name line)
  | read {name : String} {line : Nat} (h : name ∉ known) :
      Violates known (.read name line) (.usedBeforeDeclaration name line)

/-- **Behind a violation nothing is well-declared.** -/
theorem Violates.not_wellDeclared {before after : List Binding} {b : Binding} {e : SemanticError}
    (h : Violates (declaredIn before) b e) : ¬ WellDeclared (before ++ b :: after) := by
  rintro ⟨hdeclared, hdistinct, hknown⟩
  have hmem : b ∈ before ++ b :: after := List.mem_append_right _ (List.mem_cons_self ..)
  cases h with
  | name h => exact h (hdeclared _ _ _ _ hmem).1
  | dataType _ h => exact h (hdeclared _ _ _ _ hmem).2
  | redeclared _ _ h =>
    -- the name is declared in front of the binding and by it
    simp only [declaredIn, List.filterMap_append, List.filterMap_cons, Binding.head?,
      List.map_append, List.map_cons] at hdistinct
    exact (List.nodup_append.1 hdistinct).2.2 _ h _ (List.mem_cons_self ..) rfl
  | assigned h => exact h (hknown before _ after _ rfl rfl)
  | read h => exact h (hknown before _ after _ rfl rfl)

/-! ## What the checker asks for -/

theorem isDigit_eq_false_of_isAlpha {c : Char} (h : c.isAlpha = true) : c.isDigit = false := by
  refine Bool.eq_false_iff.2 fun hdigit => ?_
  have hc : c.toNat < 0x80 := by
    have hle := UInt32.le_iff_toNat_le.1 (of_decide_eq_true (Bool.and_eq_true_iff.1 hdigit).2)
    exact Nat.lt_of_le_of_lt hle (by decide)
  have hclass := Text.forall_ascii (p := fun c => !(c.isAlpha && c.isDigit)) (by decide) hc
  simp [h, hdigit] at hclass

/-- **The names that are accepted** are those that a variable may have. -/
theorem isValidName_iff {name : String} : isValidName name = true ↔ IsVariableName name := by
  have hname (c : Char) (rest : List Char) :
      ("v-" ++ String.ofList (c :: rest)).toList = 'v' :: '-' :: c :: rest := by simp
  constructor
  · intro h
    unfold isValidName at h
    split at h
    · rename_i c rest hlist
      simp only [Bool.and_eq_true, Bool.not_eq_true', List.all_cons, Char.isAlphanum,
        Bool.or_eq_true] at h
      obtain ⟨hdigit, hc, hrest⟩ := h
      refine ⟨c, rest, ?_, ?_, hrest⟩
      · rw [← String.toList_inj, hname, hlist]
      · exact hc.resolve_right (by simp [hdigit])
    · cases h
  · rintro ⟨c, rest, rfl, hc, hrest⟩
    unfold isValidName
    rw [hname]
    simp only [isDigit_eq_false_of_isAlpha hc, List.all_cons, hrest, Char.isAlphanum, hc]
    rfl

/-- **The data types that are known** are the four. -/
theorem exists_ofName?_iff {s : String} :
    (∃ type, DataType.ofName? s = some type) ↔ s ∈ dataTypeNames := by
  constructor
  · rintro ⟨type, htype⟩
    have hname : type.name = s := by simpa using List.find?_some htype
    rw [← hname]
    cases type <;> decide
  · intro hs
    simp only [dataTypeNames, List.mem_cons, List.not_mem_nil, or_false] at hs
    rcases hs with rfl | rfl | rfl | rfl
    · exact ⟨_, DataType.ofName?_name .integer⟩
    · exact ⟨_, DataType.ofName?_name .real⟩
    · exact ⟨_, DataType.ofName?_name .string⟩
    · exact ⟨_, DataType.ofName?_name .boolean⟩

namespace SymbolTable

variable {t t' : SymbolTable}

theorem requireDeclared_eq_error_iff {name : String} {line : Nat} {stop : Stop SemanticError} :
    t.requireDeclared name line = .error stop ↔
      name ∉ t.names ∧ .refused (.usedBeforeDeclaration name line) = stop := by
  rw [← contains_iff_mem_names]
  unfold requireDeclared
  split <;> simp_all

theorem checkDeclaration_eq_error_iff {dataType name : String} {line : Nat}
    {stop : Stop SemanticError} : checkDeclaration dataType name line = .error stop ↔
      ¬ IsVariableName name ∧ .refused (.invalidName name line) = stop ∨
        IsVariableName name ∧ dataType ∉ dataTypeNames ∧
          .refused (.invalidDataType dataType name line) = stop := by
  rw [← isValidName_iff, ← exists_ofName?_iff]
  unfold checkDeclaration
  split
  · split <;> simp_all
  · simp_all

theorem declare_eq_refused_iff {name : String} {type : DataType} {value : Option Value}
    {e : TableError} :
    t.declare name type value = .error (.refused e) ↔ name ∈ t.names ∧ .alreadyExists = e := by
  rw [← contains_iff_mem_names]
  unfold declare
  split
  · simp_all
  · cases t.memory.allocate <;> simp_all

/-- **A binding is refused exactly for what it is at fault with.** -/
theorem bind_eq_refused_iff {b : Binding} {e : SemanticError} :
    t.bind b = .error (.refused e) ↔ Violates t.names b e := by
  cases b with
  | declare dataType name value line =>
    simp only [SymbolTable.bind, bind_eq_error_iff, checkDeclaration_eq_error_iff,
      checkDeclaration_eq_ok_iff, isValidName_iff]
    constructor
    · rintro ((⟨hname, ⟨⟩⟩ | ⟨hname, htype, ⟨⟩⟩) | ⟨type, ⟨hname, htype⟩, h⟩)
      · exact .name hname
      · exact .dataType hname htype
      · split at h
        · cases h
        · rename_i hrefused
          cases h
          exact .redeclared hname (exists_ofName?_iff.1 ⟨type, htype⟩)
            (declare_eq_refused_iff.1 hrefused).1
        · cases h
    · intro h
      cases h with
      | name hname => exact .inl (.inl ⟨hname, rfl⟩)
      | dataType hname htype => exact .inl (.inr ⟨hname, htype, rfl⟩)
      | redeclared hname htype hknown =>
        obtain ⟨type, htype⟩ := exists_ofName?_iff.2 htype
        refine .inr ⟨type, ⟨hname, htype⟩, ?_⟩
        rw [declare_eq_refused_iff.2 ⟨hknown, rfl⟩]
  | assign name value line =>
    simp only [SymbolTable.bind, bind_eq_error_iff, requireDeclared_eq_error_iff]
    constructor
    · rintro (⟨hknown, ⟨⟩⟩ | ⟨_, _, h⟩)
      · exact .assigned hknown
      · cases value <;> cases h
    · intro h
      cases h with
      | assigned hknown => exact .inl ⟨hknown, rfl⟩
  | read name line =>
    simp only [SymbolTable.bind, bind_eq_error_iff, requireDeclared_eq_error_iff]
    constructor
    · rintro (⟨hknown, ⟨⟩⟩ | ⟨_, _, ⟨⟩⟩)
      exact .read hknown
    · intro h
      cases h with
      | read hknown => exact .inl ⟨hknown, rfl⟩

/-- **When two stretches of bindings are taken**: the first is, and the second behind it. -/
theorem bindAll_append_eq_iff {bs cs : List Binding} :
    t.bindAll (bs ++ cs) = (t', none) ↔
      ∃ t₁, t.bindAll bs = (t₁, none) ∧ t₁.bindAll cs = (t', none) := by
  induction bs generalizing t with
  | nil => simp [SymbolTable.bindAll]
  | cons b bs ih =>
    simp only [List.cons_append, bindAll_cons_eq_iff, ih]
    constructor
    · rintro ⟨t₁, hb, t₂, hbs, hcs⟩
      exact ⟨t₂, ⟨t₁, hb, hbs⟩, hcs⟩
    · rintro ⟨t₂, ⟨t₁, hb, hbs⟩, hcs⟩
      exact ⟨t₁, hb, t₂, hbs, hcs⟩

/-- **Where bindings in a row are stopped**: at the first that is not taken, with the table of those
before it. -/
theorem exists_stop {bs : List Binding} {stop : Stop SemanticError}
    (h : t.bindAll bs = (t', some stop)) : ∃ before b after, bs = before ++ b :: after ∧
      t.bindAll before = (t', none) ∧ t'.bind b = .error stop := by
  induction bs generalizing t with
  | nil => cases h
  | cons b bs ih =>
    rw [SymbolTable.bindAll] at h
    cases hb : t.bind b with
    | error stop' =>
      rw [hb] at h
      cases h
      exact ⟨[], b, bs, rfl, rfl, hb⟩
    | ok t₁ =>
      rw [hb] at h
      obtain ⟨before, b', after, rfl, hbefore, hb'⟩ := ih h
      exact ⟨b :: before, b', after, rfl, bindAll_cons_eq_iff.2 ⟨t₁, hb, hbefore⟩, hb'⟩

/-- **The table of bindings that are taken** is valid and has what they declare. -/
theorem names_of_bindAll {bs : List Binding} (h : bindAll {} bs = (t, none)) :
    t.Valid ∧ t.names = declaredIn bs := by
  obtain ⟨hvalid, hheads, -⟩ := valid_empty.bindAll h
  refine ⟨hvalid, ?_⟩
  rw [names_eq, hheads]
  rfl

/-- **Bindings that are taken are well-declared.** -/
theorem wellDeclared_of_bindAll {bs : List Binding} (h : bindAll {} bs = (t, none)) :
    WellDeclared bs := by
  -- each binding is taken by the table of those before it
  have htaken {before after : List Binding} {b : Binding} (hbs : bs = before ++ b :: after) :
      ∃ t₁ t₂ : SymbolTable, t₁.Valid ∧ t₁.names = declaredIn before ∧ t₁.bind b = .ok t₂ := by
    rw [hbs, bindAll_append_eq_iff] at h
    obtain ⟨t₁, hbefore, hrest⟩ := h
    obtain ⟨t₂, hb, -⟩ := bindAll_cons_eq_iff.1 hrest
    obtain ⟨hvalid, hnames⟩ := names_of_bindAll hbefore
    exact ⟨t₁, t₂, hvalid, hnames, hb⟩
  obtain ⟨hvalid, hnames⟩ := names_of_bindAll h
  refine ⟨fun dataType name value line hmem => ?_, hnames ▸ hvalid.nodup, ?_⟩
  · obtain ⟨before, after, hbs⟩ := List.append_of_mem hmem
    obtain ⟨t₁, t₂, -, -, hb⟩ := htaken hbs
    obtain ⟨hname, type, htype, -⟩ := bind_declare_eq_ok_iff.1 hb
    exact ⟨isValidName_iff.1 hname, exists_ofName?_iff.1 ⟨type, htype⟩⟩
  · intro before b after name hbs hused
    obtain ⟨t₁, t₂, hvalid₁, hnames₁, hb⟩ := htaken hbs
    rw [← hnames₁]
    exact (hvalid₁.bind hb).2.2 name hused

/-- **Bindings that are refused** are at fault at the first that is not taken. -/
theorem exists_violation {bs : List Binding} {e : SemanticError}
    (h : bindAll {} bs = (t, some (.refused e))) : ∃ before b after, bs = before ++ b :: after ∧
      bindAll {} before = (t, none) ∧ Violates (declaredIn before) b e := by
  obtain ⟨before, b, after, hbs, hbefore, hb⟩ := exists_stop h
  rw [bind_eq_refused_iff, (names_of_bindAll hbefore).2] at hb
  exact ⟨before, b, after, hbs, hbefore, hb⟩

end SymbolTable

/-! ## Whole programs -/

namespace Program

/-- Whether the addresses of a program's variables stay inside of 32 bits. -/
def Locatable (p : Program) : Prop := 1000 + 4 * (declaredIn (bindings p)).length ≤ 0xFFFFFFFF

instance (p : Program) : Decidable p.Locatable := inferInstanceAs (Decidable (_ ≤ _))

theorem Locatable.room {p : Program} (hp : p.Locatable) : SymbolTable.nextLocation {}
    + wordSize * ((bindings p).filterMap Binding.head?).length < Number.addressLimit := by
  rw [Locatable, declaredIn, List.length_map] at hp
  simp only [SymbolTable.nextLocation, memoryBase, wordSize, Number.addressLimit]
  omega

/-- **A program whose variables have addresses is checked to its end or refused.** -/
theorem analyzeIn_cases {p : Program} (hp : p.Locatable) :
    ∃ t, analyzeIn {} p = (t, none) ∨ ∃ e, analyzeIn {} p = (t, some (.refused e)) := by
  rcases h : analyzeIn {} p with ⟨t, _ | e | fault⟩
  · exact ⟨t, .inl rfl⟩
  · exact ⟨t, .inr ⟨e, rfl⟩⟩
  · have hfault := SymbolTable.valid_empty.bindAll_ne_fault (bindings p) fault hp.room
    rw [analyzeIn] at h
    exact absurd (congrArg Prod.snd h) hfault

/-- **The programs that check are the well-declared ones.**  Any other is refused for its first
violation: the bindings before it are well-declared, the error is what the binding is at fault with,
and the table is the one that the bindings before it make. -/
theorem analyze_iff_wellDeclared {p : Program} (hp : p.Locatable) :
    ((∃ t, p.analyze = .ok t) ↔ WellDeclared (bindings p)) ∧
      (¬ WellDeclared (bindings p) → ∃ before b after e t, bindings p = before ++ b :: after ∧
        WellDeclared before ∧ Violates (declaredIn before) b e ∧
        p.analyze = .error (.refused e) ∧ analyzeIn {} p = (t, some (.refused e)) ∧
        SymbolTable.bindAll {} before = (t, none)) := by
  obtain ⟨t, hok | ⟨e, hrefused⟩⟩ := analyzeIn_cases hp
  · have hwell : WellDeclared (bindings p) := SymbolTable.wellDeclared_of_bindAll hok
    exact ⟨iff_of_true ⟨t, analyze_eq_ok_iff.2 hok⟩ hwell, fun hnot => absurd hwell hnot⟩
  · obtain ⟨before, b, after, hbs, hbefore, hviolates⟩ := SymbolTable.exists_violation hrefused
    have hanalyze : p.analyze = .error (.refused e) := by rw [analyze, hrefused]
    refine ⟨iff_of_false ?_ ?_, fun _ => ?_⟩
    · rintro ⟨t', ht'⟩
      rw [hanalyze] at ht'
      cases ht'
    · rw [hbs]
      exact hviolates.not_wellDeclared
    · exact ⟨before, b, after, e, t, hbs, SymbolTable.wellDeclared_of_bindAll hbefore, hviolates,
        hanalyze, hrefused, hbefore⟩

/-- A variable that is declared in a loop and again, with a type that does not exist, behind it:
what is refused is the type, and the table has the variable as the loop declares it. -/
theorem analyze_iff_wellDeclared_twice :
    let p : Program := [.whilst (.literal .boolean "yup")
      [.declare ⟨"enum", "v-a", .literal .number "1", 1⟩] 1,
      .declare ⟨"list", "v-a", .ident "v-a", 2⟩, .assign "v-b" (.ident "v-a") 3]
    p.Locatable ∧ p.analyze = .error (.refused (.invalidDataType "list" "v-a" 2)) ∧
      ∃ before b after t, bindings p = before ++ b :: after ∧ WellDeclared before ∧
        Violates (declaredIn before) b (.invalidDataType "list" "v-a" 2) ∧
        SymbolTable.bindAll {} before = (t, none) ∧ t.names = ["v-a"] := by
  intro p
  have hp : p.Locatable := by decide
  have hanalyze : p.analyze = .error (.refused (.invalidDataType "list" "v-a" 2)) := rfl
  have hnot : ¬ WellDeclared (bindings p) := by
    rw [← (analyze_iff_wellDeclared hp).1, hanalyze]
    simp
  obtain ⟨before, b, after, e, t, hbs, hbefore, hb, he, htable, ht⟩ :=
    (analyze_iff_wellDeclared hp).2 hnot
  rw [hanalyze] at he
  cases he
  have htable : (analyzeIn {} p).1 = t := congrArg Prod.fst htable
  have hnames : t.names = ["v-a"] := by
    rw [← htable]
    rfl
  exact ⟨hp, hanalyze, before, b, after, t, hbs, hbefore, hb, ht, hnames⟩

end Program

end Enigma
