import Enigma.Proofs.Constants
import Enigma.Proofs.InPlace
import Std.Data.HashMap

/-!
# Proofs/Representation — tables behind calls, and a table kept in three parts

Calls declare variables and give them values, and some are refused.  What is left is told by the
accepted ones alone: their declarations, in that order, each with the last value it was given
(`SymbolTable.Records`), and what was declared stays as it is (`SymbolTable.bare_foldl`).

For fast look-ups the table is kept in three parts: the entries, an index from names to positions,
and the allocator of addresses.  A call touches them one after the other, in place.  Yet they never
come apart, because a call makes all its checks first:

* `IndexedTable.run_cases` — what a call comes to in place, accepted or not;
* `IndexedTable.Consistent` — the entries are a valid table and the index is that of their names;
  `Consistent.accepts` — calls keep this and come to what they come to on the table itself;
* `IndexedTable.represents_after` — all of this behind any calls.
-/

namespace Enigma

/-! ## Calls -/

/-- A call that changes a table. -/
inductive Call
  | declare (name : String) (dataType : DataType) (value : Option Value)
  | set (name : String) (value : Option Value)

namespace Call

/-- The variable that a call is about. -/
def name : Call → String
  | declare name _ _ => name
  | set name _ => name

/-- The value that a call gives. -/
def value : Call → Option Value
  | declare _ _ value => value
  | set _ value => value

/-- The name that a call declares, with its data type as it is written. -/
def head? : Call → Option (String × String)
  | declare name dataType _ => some (name, dataType.name)
  | set .. => none

/-- The last value that calls give to each variable. -/
def lastValue (calls : List Call) : Known := fun name =>
  (calls.reverse.find? fun c => c.name == name).bind value

theorem lastValue_append (calls : List Call) (c : Call) :
    lastValue (calls ++ [c]) = (lastValue calls).set c.name c.value := by
  funext name
  unfold lastValue Known.set
  rw [List.reverse_append, List.reverse_singleton, List.singleton_append, List.find?_cons]
  by_cases hname : name = c.name
  · simp [hname]
  · have hne : (c.name == name) = false := by simpa using Ne.symm hname
    simp [hname, hne]

end Call

/-- All of a variable but its value. -/
def Symbol.bare (s : Symbol) : Symbol := { s with value := none }

namespace SymbolTable

/-- Makes a call.  A declaration answers with the address of the variable. -/
def call (t : SymbolTable) : Call → Except (Stop TableError) (Option Nat × SymbolTable)
  | .declare name dataType value =>
    match t.declare name dataType value with
    | .ok (location, t') => .ok (some location, t')
    | .error stop => .error stop
  | .set name value =>
    match t.set name value with
    | .ok t' => .ok (none, t')
    | .error error => .error (.refused error)

/-- The table behind a call: another one if the call is accepted, and the same one if not. -/
def next (t : SymbolTable) (c : Call) : SymbolTable :=
  match t.call c with
  | .ok (_, t') => t'
  | .error _ => t

/-- The table behind calls on a new one. -/
def after (calls : List Call) : SymbolTable := calls.foldl next {}

/-- The calls that are accepted, one after the other, from a table on. -/
def accepted (t : SymbolTable) : List Call → List Call
  | [] => []
  | c :: calls =>
    match t.call c with
    | .ok (_, t') => c :: t'.accepted calls
    | .error _ => t.accepted calls

/-- **An accepted call** declares a variable, or gives a value to one that is declared. -/
theorem call_eq_ok {t t' : SymbolTable} {c : Call} {answer : Option Nat}
    (h : t.call c = .ok (answer, t')) :
    (∃ name dataType value location, c = .declare name dataType value ∧ answer = some location ∧
      t.declare name dataType value = .ok (location, t')) ∨
    ∃ name value, c = .set name value ∧ answer = none ∧ t.contains name = true ∧
      t' = t.setValue name value := by
  cases c with
  | declare name dataType value =>
    rw [call] at h
    split at h
    · cases h
      exact .inl ⟨name, dataType, value, _, rfl, rfl, ‹_›⟩
    · cases h
  | set name value =>
    rw [call, set] at h
    split at h
    · rename_i hset
      split at hset
      · cases h
        cases hset
        exact .inr ⟨name, value, rfl, rfl, ‹_›, rfl⟩
      · cases hset
    · cases h

section Call

variable {t t' : SymbolTable} {c : Call} {answer : Option Nat} (h : t.call c = .ok (answer, t'))

include h

/-- A call that is taken declares what it says. -/
theorem heads_call : t'.heads = t.heads ++ c.head?.toList := by
  obtain ⟨name, dataType, value, location, rfl, -, hd⟩ | ⟨name, value, rfl, -, -, rfl⟩ :=
    call_eq_ok h
  · exact heads_declare hd
  · rw [heads_setValue]
    exact (List.append_nil _).symm

/-- A call that is taken sets the value that it says. -/
theorem known_call : t'.known = t.known.set c.name c.value := by
  obtain ⟨name, dataType, value, location, rfl, -, hd⟩ | ⟨name, value, rfl, -, hknown, rfl⟩ :=
    call_eq_ok h
  · exact known_declare hd
  · exact known_setValue hknown value

/-- **Declared variables stay**, with their names, data types, scopes and addresses. -/
theorem bare_call : t.symbols.map Symbol.bare <+: t'.symbols.map Symbol.bare := by
  obtain ⟨name, dataType, value, location, rfl, -, hd⟩ | ⟨name, value, rfl, -, -, rfl⟩ :=
    call_eq_ok h
  · rw [(declare_eq_ok hd).2.2.1, List.map_append]
    exact List.prefix_append ..
  · have hsame : (t.setValue name value).symbols.map Symbol.bare = t.symbols.map Symbol.bare := by
      rw [setValue, List.map_map]
      refine List.map_congr_left fun s _ => ?_
      rw [Function.comp_apply]
      split <;> rfl
    exact ⟨[], by rw [List.append_nil, hsame]⟩

end Call

theorem bare_foldl (t : SymbolTable) (calls : List Call) :
    t.symbols.map Symbol.bare <+: (calls.foldl next t).symbols.map Symbol.bare := by
  induction calls generalizing t with
  | nil => exact List.prefix_rfl
  | cons c calls ih =>
    refine List.IsPrefix.trans ?_ (ih (t.next c))
    unfold next
    split
    · exact bare_call ‹_›
    · exact List.prefix_rfl

/-- What accepted calls on a new table have left: the variables they declared, in that order, each
with the last value it was given. -/
structure Records (t : SymbolTable) (done : List Call) : Prop where
  heads : t.heads = done.filterMap Call.head?
  known : t.known = Call.lastValue done

/-- **Every accepted call is recorded.** -/
theorem Records.foldl {t : SymbolTable} {done : List Call} (h : t.Records done)
    (calls : List Call) : (calls.foldl next t).Records (done ++ t.accepted calls) := by
  induction calls generalizing t done with
  | nil => simpa [accepted] using h
  | cons c calls ih =>
    rw [List.foldl_cons, next, accepted]
    split
    · rename_i answer t' hcall
      have hstep : t'.Records (done ++ [c]) := by
        refine ⟨?_, ?_⟩
        · rw [heads_call hcall, h.heads, List.filterMap_append]
          cases c <;> rfl
        · rw [known_call hcall, h.known, Call.lastValue_append]
      simpa using ih hstep
    · exact ih h

/-- **A table records the calls that it took.** -/
theorem records_after (calls : List Call) : (after calls).Records (accepted {} calls) := by
  have hempty : Records {} [] := ⟨rfl, rfl⟩
  exact hempty.foldl calls

/-- **What is declared stays declared**, where it is and as it is, whatever calls follow. -/
theorem exists_of_declare {before : List Call} {name : String} {dataType : DataType}
    {value : Option Value} {location : Nat} {t : SymbolTable}
    (h : (after before).declare name dataType value = .ok (location, t)) (later : List Call) :
    ∃ s ∈ (after (before ++ .declare name dataType value :: later)).symbols,
      s.bare = { name, dataType, value := none, location } := by
  have hnext : (after before).next (.declare name dataType value) = t := by rw [next, call, h]
  have hmem : { name, dataType, value := none, location } ∈ t.symbols.map Symbol.bare := by
    simp [(declare_eq_ok h).2.2.1, Symbol.bare]
  rw [after, List.foldl_append, List.foldl_cons, ← after, hnext]
  exact List.mem_map.1 ((bare_foldl t later).subset hmem)

end SymbolTable

/-! ## A table in three parts -/

/-- The entries of a table, the position of each name, and the addresses left. -/
structure IndexedTable where
  entries : List Symbol := []
  index : Std.HashMap String Nat := {}
  memory : Allocator := {}

namespace IndexedTable

/-- Work on such a table. -/
abbrev Work := InPlace (Stop TableError) IndexedTable

/-- The table without its index. -/
def table (t : IndexedTable) : SymbolTable := ⟨t.entries, t.memory⟩

/-- The entry at the position that the index has for a name. -/
def get? (t : IndexedTable) (name : String) : Option Symbol := t.index[name]?.bind (t.entries[·]?)

/-- Takes the next address, if there is one. -/
def allocate : Work Nat := do
  let (location, memory) ← InPlace.look fun t =>
    match t.memory.allocate with
    | .ok r => .ok r
    | .error fault => .error (.fault fault)
  InPlace.change fun t => { t with memory }
  return location

/-- Declares a variable: in the allocator, then in the index, then among the entries. -/
def declare (name : String) (dataType : DataType) (value : Option Value) : Work Nat := do
  InPlace.look fun t =>
    if t.index.contains name then .error (.refused .alreadyExists) else .ok ()
  let location ← allocate
  InPlace.change fun t => { t with index := t.index.insert name t.entries.length }
  InPlace.change fun t =>
    { t with entries := t.entries ++ [{ name, dataType, value, location }] }
  return location

/-- Gives the entry at the position of the name another value. -/
def set (name : String) (value : Option Value) : Work Unit := do
  let i ← InPlace.look fun t =>
    match t.index[name]? with
    | some i => .ok i
    | none => .error (.refused .doesNotExist)
  InPlace.change fun t => { t with entries := t.entries.modify i fun s => { s with value } }

/-- Makes a call. -/
def run : Call → Work (Option Nat)
  | .declare name dataType value => some <$> declare name dataType value
  | .set name value => (fun _ => none) <$> set name value

/-- The table behind a call, accepted or not. -/
def next (t : IndexedTable) (c : Call) : IndexedTable := (run c t).2

/-- The table behind calls on a new one. -/
def after (calls : List Call) : IndexedTable := calls.foldl next {}

/-! ## What a call comes to -/

theorem allocate_bind {α : Type} (work : Nat → Work α) (t : IndexedTable) :
    (allocate >>= work) t =
      if t.memory.next + wordSize < Number.addressLimit then
        work t.memory.next { t with memory := ⟨t.memory.next + wordSize⟩ }
      else (.error (.fault .overflow), t) := by
  unfold allocate
  rw [bind_assoc, InPlace.look_bind, Allocator.allocate]
  by_cases h : t.memory.next + wordSize < Number.addressLimit
  · rw [if_pos h, if_pos h]
    rfl
  · rw [if_neg h, if_neg h]

/-- **A declaration checks everything before it changes anything**: the name, and then the address
behind the one it takes. -/
theorem declare_apply (t : IndexedTable) (name : String) (dataType : DataType)
    (value : Option Value) :
    declare name dataType value t =
      if t.index.contains name then (.error (.refused .alreadyExists), t)
      else if t.memory.next + wordSize < Number.addressLimit then
        (.ok t.memory.next,
          { entries := t.entries ++ [{ name, dataType, value, location := t.memory.next }]
            index := t.index.insert name t.entries.length
            memory := ⟨t.memory.next + wordSize⟩ })
      else (.error (.fault .overflow), t) := by
  unfold declare
  rw [InPlace.look_bind]
  cases t.index.contains name with
  | true => rfl
  | false => exact allocate_bind _ t

/-- Setting a value changes one entry, or nothing if the name has none. -/
theorem set_apply (t : IndexedTable) (name : String) (value : Option Value) :
    set name value t =
      match t.index[name]? with
      | some i => (.ok (), { t with entries := t.entries.modify i fun s => { s with value } })
      | none => (.error (.refused .doesNotExist), t) := by
  unfold set
  rw [InPlace.look_bind]
  cases t.index[name]? <;> rfl

/-- What an accepted call makes of a table, and how it answers. -/
inductive Accepts (t : IndexedTable) : Call → Option Nat → IndexedTable → Prop
  | declare (name : String) (dataType : DataType) (value : Option Value)
      (hnew : t.index.contains name = false)
      (hroom : t.memory.next + wordSize < Number.addressLimit) :
      Accepts t (.declare name dataType value) (some t.memory.next)
        { entries := t.entries ++ [{ name, dataType, value, location := t.memory.next }]
          index := t.index.insert name t.entries.length
          memory := ⟨t.memory.next + wordSize⟩ }
  | set (name : String) (value : Option Value) (i : Nat) (hi : t.index[name]? = some i) :
      Accepts t (.set name value) none
        { t with entries := t.entries.modify i fun s => { s with value } }

/-- Why a call is not accepted, and how that is reported. -/
inductive Refuses (t : IndexedTable) : Call → Stop TableError → Prop
  | declared (name : String) (dataType : DataType) (value : Option Value)
      (hname : t.index.contains name = true) :
      Refuses t (.declare name dataType value) (.refused .alreadyExists)
  | full (name : String) (dataType : DataType) (value : Option Value)
      (hnew : t.index.contains name = false)
      (hfull : ¬ t.memory.next + wordSize < Number.addressLimit) :
      Refuses t (.declare name dataType value) (.fault .overflow)
  | undeclared (name : String) (value : Option Value) (hname : t.index[name]? = none) :
      Refuses t (.set name value) (.refused .doesNotExist)

/-- **A call is accepted, or leaves the table as it was.** -/
theorem run_cases (t : IndexedTable) (c : Call) :
    (∃ answer t', run c t = (.ok answer, t') ∧ Accepts t c answer t') ∨
      ∃ stop, run c t = (.error stop, t) ∧ Refuses t c stop := by
  cases c with
  | declare name dataType value =>
    rw [run, InPlace.map_apply, declare_apply]
    cases hname : t.index.contains name with
    | true => exact .inr ⟨_, rfl, .declared name dataType value hname⟩
    | false =>
      by_cases hroom : t.memory.next + wordSize < Number.addressLimit
      · rw [if_neg Bool.false_ne_true, if_pos hroom]
        exact .inl ⟨_, _, rfl, .declare name dataType value hname hroom⟩
      · rw [if_neg Bool.false_ne_true, if_neg hroom]
        exact .inr ⟨_, rfl, .full name dataType value hname hroom⟩
  | set name value =>
    rw [run, InPlace.map_apply, set_apply]
    cases hi : t.index[name]? with
    | none => exact .inr ⟨_, rfl, .undeclared name value hi⟩
    | some i => exact .inl ⟨_, _, rfl, .set name value i hi⟩

/-! ## The parts belong together -/

/-- The entries are a valid table, and the index has the position of each of their names. -/
structure Consistent (t : IndexedTable) : Prop where
  valid : t.table.Valid
  index : ∀ (name : String) (i : Nat), t.index[name]? = some i ↔ t.table.names[i]? = some name

theorem consistent_empty : Consistent {} where
  valid := SymbolTable.valid_empty
  index name i := by simp [table, SymbolTable.names]

namespace Consistent

variable {t : IndexedTable} (h : t.Consistent)

include h

theorem contains_eq (name : String) : t.index.contains name = t.table.contains name := by
  rw [Bool.eq_iff_iff, SymbolTable.contains_iff_mem_names, List.mem_iff_getElem?,
    Std.HashMap.contains_iff_mem, Std.HashMap.mem_iff_isSome_getElem?, Option.isSome_iff_exists]
  exact exists_congr (h.index name)

/-- **The index leads to the entry with the name.** -/
theorem get?_eq_some_iff {name : String} {s : Symbol} :
    t.get? name = some s ↔ s ∈ t.entries ∧ s.name = name := by
  unfold get?
  constructor
  · intro hget
    obtain ⟨i, hi, hs⟩ := Option.bind_eq_some_iff.1 hget
    have hname := (h.index name i).1 hi
    rw [SymbolTable.names, List.getElem?_map, table, hs] at hname
    exact ⟨List.mem_of_getElem? hs, Option.some.inj hname⟩
  · rintro ⟨hs, rfl⟩
    obtain ⟨i, hi⟩ := List.mem_iff_getElem?.1 hs
    have hname : t.table.names[i]? = some s.name := by
      rw [SymbolTable.names, List.getElem?_map, table, hi, Option.map_some]
    rw [(h.index s.name i).2 hname, Option.bind_some, hi]

/-- **The index finds what a search finds.** -/
theorem get?_eq (name : String) : t.get? name = t.table.get? name := by
  refine Option.ext fun s => ⟨fun hs => ?_, fun hs => ?_⟩
  · obtain ⟨hmem, rfl⟩ := h.get?_eq_some_iff.1 hs
    exact SymbolTable.get?_of_mem h.valid.nodup hmem
  · exact h.get?_eq_some_iff.2 (SymbolTable.mem_of_get? hs)

theorem contains_eq_isSome (name : String) : t.index.contains name = (t.get? name).isSome := by
  rw [h.contains_eq, h.get?_eq, SymbolTable.contains]

/-- **The entry at the position of a name is the only one with that name**, so that changing it is
changing all there are. -/
theorem table_modify {name : String} {i : Nat} (hi : t.index[name]? = some i)
    (value : Option Value) :
    table { t with entries := t.entries.modify i fun s => { s with value } }
      = t.table.setValue name value := by
  have hentries : (t.entries.modify i fun s => { s with value })
      = t.entries.map fun s => if s.name == name then { s with value } else s := by
    refine List.ext_getElem? fun j => ?_
    rw [List.getElem?_modify, List.getElem?_map]
    cases hj : t.entries[j]? with
    | none => simp
    | some s =>
      have hname : s.name = name ↔ t.index[name]? = some j := by
        rw [h.index, SymbolTable.names, List.getElem?_map, table, hj]
        simp
      have hij : i = j ↔ s.name = name := by rw [hname, hi, Option.some.injEq]
      by_cases heq : i = j
      · simp [heq, hij.1 heq]
      · have hne : s.name ≠ name := fun hs => heq (hij.2 hs)
        simp [heq, hne]
  rw [table, SymbolTable.setValue, hentries]
  rfl

/-- **A new name is indexed at the end**, and all others stay where they are. -/
theorem index_insert {name : String} (hnew : t.index.contains name = false) (n : String) (i : Nat) :
    (t.index.insert name t.entries.length)[n]? = some i ↔
      (t.table.names ++ [name])[i]? = some n := by
  have hlength : t.entries.length = t.table.names.length := by simp [table, SymbolTable.names]
  have hnone : t.index[name]? = none := by simpa using hnew
  have hindex := h.index n i
  rw [Std.HashMap.getElem?_insert, hlength]
  grind

/-- **An accepted call keeps the parts together**, and is what it is on the table without index. -/
theorem accepts {c : Call} {answer : Option Nat} {t' : IndexedTable} (ha : Accepts t c answer t') :
    t'.Consistent ∧ t.table.call c = .ok (answer, t'.table) := by
  cases ha with
  | declare name dataType value hnew hroom =>
    have hcall : t.table.declare name dataType value = .ok (t.memory.next,
        table { entries := t.entries ++ [{ name, dataType, value, location := t.memory.next }]
                index := t.index.insert name t.entries.length
                memory := ⟨t.memory.next + wordSize⟩ }) := by
      have hallocate : t.table.memory.allocate = .ok (t.memory.next, ⟨t.memory.next + wordSize⟩) :=
        if_pos hroom
      rw [SymbolTable.declare, ← h.contains_eq, hnew, hallocate]
      rfl
    refine ⟨⟨h.valid.declare hcall, fun n i => ?_⟩, by rw [SymbolTable.call, hcall]⟩
    rw [h.index_insert hnew n i]
    simp [SymbolTable.names, table]
  | set name value i hi =>
    have hcontains : t.table.contains name = true := by
      rw [← h.contains_eq, Std.HashMap.contains_eq_isSome_getElem?, hi, Option.isSome_some]
    have hcall : t.table.set name value
        = .ok (table { t with entries := t.entries.modify i fun s => { s with value } }) := by
      rw [SymbolTable.set, hcontains, h.table_modify hi]
      rfl
    refine ⟨⟨?_, fun n j => ?_⟩, by rw [SymbolTable.call, hcall]⟩
    · rw [h.table_modify hi]
      exact h.valid.setValue name value
    · rw [h.table_modify hi, SymbolTable.names_eq, SymbolTable.heads_setValue,
        ← SymbolTable.names_eq]
      exact h.index n j

theorem refuses {c : Call} {stop : Stop TableError} (hr : Refuses t c stop) :
    t.table.call c = .error stop := by
  cases hr with
  | declared name dataType value hname =>
    rw [SymbolTable.call, SymbolTable.declare, ← h.contains_eq, hname]
    rfl
  | full name dataType value hnew hfull =>
    have hallocate : t.table.memory.allocate = .error .overflow := if_neg hfull
    rw [SymbolTable.call, SymbolTable.declare, ← h.contains_eq, hnew, hallocate]
    rfl
  | undeclared name value hname =>
    rw [SymbolTable.call, SymbolTable.set, ← h.contains_eq,
      Std.HashMap.contains_eq_isSome_getElem?, hname]
    rfl

/-- **A call comes to the same on the table without index.** -/
theorem call_table (c : Call) :
    t.table.call c = (run c t).1.map fun answer => (answer, (t.next c).table) := by
  unfold IndexedTable.next
  obtain ⟨answer, t', hrun, ha⟩ | ⟨stop, hrun, hr⟩ := run_cases t c
  · rw [hrun, (h.accepts ha).2]
    rfl
  · rw [hrun, h.refuses hr]
    rfl

/-- **Every call keeps the parts together**, accepted or not. -/
theorem next (c : Call) : (t.next c).Consistent ∧ (t.next c).table = t.table.next c := by
  unfold IndexedTable.next SymbolTable.next
  obtain ⟨answer, t', hrun, ha⟩ | ⟨stop, hrun, hr⟩ := run_cases t c
  · rw [hrun, (h.accepts ha).2]
    exact ⟨(h.accepts ha).1, rfl⟩
  · rw [hrun, h.refuses hr]
    exact ⟨h, rfl⟩

/-- **Calls in a row keep an indexed table consistent**, and its table takes them too. -/
theorem foldl (calls : List Call) :
    (calls.foldl IndexedTable.next t).Consistent ∧
      (calls.foldl IndexedTable.next t).table = calls.foldl SymbolTable.next t.table := by
  induction calls generalizing t with
  | nil => exact ⟨h, rfl⟩
  | cons c calls ih =>
    rw [List.foldl_cons, List.foldl_cons, ← (h.next c).2]
    exact ih (h.next c).1

end Consistent

theorem consistent_after (calls : List Call) : (after calls).Consistent :=
  (consistent_empty.foldl calls).1

theorem table_after (calls : List Call) : (after calls).table = SymbolTable.after calls :=
  (consistent_empty.foldl calls).2

theorem get?_of_declare {before : List Call} {name : String} {dataType : DataType}
    {value : Option Value} {location : Nat}
    (hrun : (run (.declare name dataType value) (after before)).1 = .ok (some location))
    (later : List Call) :
    ∃ now, (after (before ++ .declare name dataType value :: later)).get? name
      = some { name, dataType, value := now, location } := by
  have hcall := (consistent_after before).call_table (.declare name dataType value)
  rw [hrun, table_after] at hcall
  obtain ⟨name', dataType', value', location', hc, hanswer, hd⟩ | ⟨_, _, hc, -⟩ :=
    SymbolTable.call_eq_ok hcall
  · cases hc
    cases hanswer
    obtain ⟨s, hs, hbare⟩ := SymbolTable.exists_of_declare hd later
    rw [← table_after] at hs
    obtain ⟨rfl, rfl, rfl⟩ : s.name = name ∧ s.dataType = dataType ∧ s.location = location := by
      simpa [Symbol.bare] using hbare
    exact ⟨s.value, (consistent_after _).get?_eq_some_iff.2 ⟨hs, rfl⟩⟩
  · cases hc

/-- **A call that fails changes none of the parts.** -/
theorem run_of_error {t : IndexedTable} {c : Call} {stop : Stop TableError}
    (hstop : (run c t).1 = .error stop) : run c t = (.error stop, t) := by
  obtain ⟨answer, t', hrun, -⟩ | ⟨stop', hrun, -⟩ := run_cases t c <;> rw [hrun] at hstop ⊢
  · cases hstop
  · rw [Except.error.inj hstop]

/-- **Where addresses have run out**, declarations fault and change none of the parts. -/
theorem Consistent.run_of_full {t : IndexedTable} (h : t.Consistent) {name : String}
    (dataType : DataType) (value : Option Value) (hnew : t.get? name = none)
    (hfull : Number.addressLimit ≤ t.memory.next + wordSize) :
    run (.declare name dataType value) t = (.error (.fault .overflow), t) := by
  obtain ⟨answer, t', hrun, ha⟩ | ⟨stop, hrun, hr⟩ := run_cases t (.declare name dataType value)
  · cases ha with
    | declare _ _ _ _ hroom => omega
  · cases hr with
    | declared _ _ _ hname =>
      rw [h.contains_eq_isSome, hnew] at hname
      cases hname
    | full => exact hrun

/-- A new name with room for the address behind it may be declared, and a declared one may be
set. -/
def Admits (t : IndexedTable) : Call → Prop
  | .declare name _ _ => t.get? name = none ∧ t.memory.next + 4 ≤ 4294967295
  | .set name _ => (t.get? name).isSome = true

/-- **Which calls are accepted.** -/
theorem Consistent.exists_ok_iff {t : IndexedTable} (h : t.Consistent) (c : Call) :
    (∃ answer, (run c t).1 = .ok answer) ↔ t.Admits c := by
  obtain ⟨answer, t', hrun, ha⟩ | ⟨stop, hrun, hr⟩ := run_cases t c
  · rw [hrun]
    refine iff_of_true ⟨answer, rfl⟩ ?_
    cases ha with
    | declare name _ _ hnew hroom =>
      rw [h.contains_eq_isSome, Option.isSome_eq_false_iff, Option.isNone_iff_eq_none] at hnew
      exact ⟨hnew, Nat.le_of_lt_succ hroom⟩
    | set name _ i hi =>
      rw [Admits, ← h.contains_eq_isSome, Std.HashMap.contains_eq_isSome_getElem?, hi,
        Option.isSome_some]
  · rw [hrun]
    refine iff_of_false (by simp) ?_
    cases hr with
    | declared name _ _ hname =>
      rintro ⟨hnew, -⟩
      rw [h.contains_eq_isSome, hnew] at hname
      cases hname
    | full name _ _ _ hfull => exact fun hadmits => hfull (Nat.lt_succ_of_le hadmits.2)
    | undeclared name _ hname =>
      intro hsome
      rw [Admits, ← h.contains_eq_isSome, Std.HashMap.contains_eq_isSome_getElem?, hname] at hsome
      cases hsome

/-- What the three parts are behind calls on a new table. -/
structure Represents (calls : List Call) (t : IndexedTable) : Prop where
  /-- They are the table that the same calls come to without an index. -/
  table : t.table = SymbolTable.after calls
  nodup : (t.entries.map Symbol.name).Nodup
  location : ∀ (i : Nat) (s : Symbol), t.entries[i]? = some s → s.location = 1000 + 4 * i
  next : t.memory.next = 1000 + 4 * t.entries.length
  /-- Both ways of looking up a name find the one entry that has it. -/
  get : ∀ name, t.get? name = t.table.get? name
  found : ∀ name s, t.get? name = some s ↔ s ∈ t.entries ∧ s.name = name
  /-- A variable keeps all but its value from its accepted declaration on. -/
  kept : ∀ before name dataType value later location,
    calls = before ++ .declare name dataType value :: later →
    (run (.declare name dataType value) (after before)).1 = .ok (some location) →
    ∃ now, t.get? name = some { name, dataType, value := now, scope := .global, location }
  /-- There are no variables but those of accepted declarations. -/
  heads : t.table.heads = (SymbolTable.accepted {} calls).filterMap Call.head?
  /-- A variable has the value of the last accepted call about it. -/
  value : ∀ s ∈ t.entries, s.value = Call.lastValue (SymbolTable.accepted {} calls) s.name
  /-- Another call has the same answer as without an index, and changes no part if it fails. -/
  call : ∀ c, t.table.call c = (run c t).1.map fun answer => (answer, (run c t).2.table)
  failed : ∀ c stop, (run c t).1 = .error stop → run c t = (.error stop, t)
  accepted : ∀ c, (∃ answer, (run c t).1 = .ok answer) ↔ t.Admits c
  /-- Another declaration fails like this if the address behind it needs more than 32 bits. -/
  full : ∀ name dataType value, t.get? name = none → 4294967295 < t.memory.next + 4 →
    run (.declare name dataType value) t = (.error (.fault .overflow), t)

/-- **The three parts stay one table.**  This is so behind any calls, with any names, data types and
values, refused calls and faults included. -/
theorem represents_after (calls : List Call) : Represents calls (after calls) := by
  have h := consistent_after calls
  have hrecords := SymbolTable.records_after calls
  rw [← table_after] at hrecords
  refine
    { table := table_after calls
      nodup := h.valid.nodup
      location := h.valid.location
      next := h.valid.next
      get := h.get?_eq
      found := fun name s => h.get?_eq_some_iff
      kept := ?_
      heads := hrecords.heads
      value := fun s hs => ?_
      call := h.call_table
      failed := fun c stop => run_of_error
      accepted := h.exists_ok_iff
      full := fun name dataType value hnew => h.run_of_full dataType value hnew }
  · rintro before name dataType value later location rfl hrun
    exact get?_of_declare hrun later
  · have hknown : (after calls).table.known s.name = s.value := by
      rw [SymbolTable.known, SymbolTable.get?_of_mem h.valid.nodup hs, Option.bind_some]
    rw [← hknown, hrecords.known]

end IndexedTable

end Enigma
