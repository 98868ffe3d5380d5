import Enigma.Proofs.Literals

/-!
# Proofs/Encoding — lines say what their instructions mean

An instruction is data and a line is text, and between the two stand blanks, commas, quotes and
colons that a text in an instruction can hold as well.  An instruction is **encodable** if its parts
are what they should be: registers by number, addresses of 32 bits, constants that are decimals or
quoted, and labels that are words.  Of such an instruction the line keeps everything.

* `Constant`, `Register` — what can be written as an operand; `Constant.immediateCell?_text` — a
  constant is read back; `isRegister_iff` — the machine knows these registers and no others;
* `Operand.Holds`, `Cell.Sum`, `Machine.Fills`, `Machine.Writes` — what operands stand for, what
  sums are and what is in a machine behind a write, told by what can be read there;
* `Instruction.Runs` — what instructions do in these terms, told without their texts;
* `Instruction.Encodable.exists_runs` — an encodable instruction can always be run;
* `Instruction.text_faithful` — and its line does just that, and looks like nothing else.
-/

namespace Enigma

/-! ## Constants and registers -/

/-- ASCII digits, at least one. -/
structure Digits where
  chars : List Char
  ne_nil : chars ≠ []
  all_isDigit : chars.all Char.isDigit = true

/-- A constant in code: a decimal with a minus and a fraction or without, or a quoted text that
holds no quote. -/
inductive Constant
  | decimal (negative : Bool) (whole : Digits) (fraction : Option Digits)
  | quoted (s : String) (h : '"' ∉ s.toList)

/-- A register: the number of one for reals or of one for all else. -/
structure Register where
  real : Bool
  number : Digits

/-- A register as it is written. -/
def Register.name (r : Register) : String :=
  String.ofList ((if r.real then ['f', 'r'] else ['r']) ++ r.number.chars)

/-- A number with its sign. -/
def signed {α : Type} [Neg α] (negative : Bool) (x : α) : α := if negative then -x else x

namespace Constant

/-- A decimal as it is written, without its sign. -/
def magnitude (whole : Digits) (fraction : Option Digits) : List Char :=
  whole.chars ++ fraction.elim [] ('.' :: ·.chars)

/-- A constant as it is written. -/
def text : Constant → String
  | decimal negative whole fraction =>
    String.ofList ((if negative then ['-'] else []) ++ magnitude whole fraction)
  | quoted s _ => "\"" ++ s ++ "\""

/-- What a constant stands for: a whole number is an integer if it fits into 64 bits, and any other
number is the real next to it. -/
def cell : Constant → Cell
  | decimal negative whole none =>
    let n := Nat.ofDigitChars 10 whole.chars 0
    let value := signed negative (n : Int)
    if -9223372036854775808 ≤ value ∧ value ≤ 9223372036854775807 then .int (Int64.ofInt value)
    else .real (signed negative (Number.Decimal.toFloat ⟨n, 0⟩))
  | decimal negative whole (some fraction) =>
    .real (signed negative (Number.Decimal.toFloat
      ⟨Nat.ofDigitChars 10 (whole.chars ++ fraction.chars) 0, -fraction.chars.length⟩))
  | quoted s _ => .str s

end Constant

/-! ## Constants are read back -/

namespace Digits

variable (ds : Digits)

theorem isDigit_of_mem {c : Char} (h : c ∈ ds.chars) : c.isDigit = true :=
  List.all_eq_true.1 ds.all_isDigit c h

theorem natural?_chars : Number.natural? ds.chars = some (Number.digitsValue ds.chars) := by
  rw [Number.natural?, ds.all_isDigit, List.isEmpty_eq_false_iff.2 ds.ne_nil]
  rfl

/-- Digits are taken up to what is none. -/
theorem takeWhile_chars (rest : List Char) (hrest : ∀ c ∈ rest.head?, c.isDigit = false) :
    (ds.chars ++ rest).takeWhile Char.isDigit = ds.chars ∧
      (ds.chars ++ rest).dropWhile Char.isDigit = rest := by
  obtain ⟨htake, hdrop⟩ := takeWhile_of_all ds.all_isDigit rest
  rw [htake, hdrop]
  cases rest with
  | nil => exact ⟨List.append_nil _, rfl⟩
  | cons c rest =>
    have hc := hrest c rfl
    rw [List.takeWhile_cons_of_neg (by simp [hc]), List.dropWhile_cons_of_neg (by simp [hc]),
      List.append_nil]
    exact ⟨rfl, rfl⟩

end Digits

namespace Constant

variable {whole fraction : Digits}

/-- **The sign is taken off and nothing else.** -/
theorem splitSign_text (negative : Bool) (whole : Digits) (fraction : Option Digits) :
    Number.splitSign ((if negative then ['-'] else []) ++ magnitude whole fraction)
      = (negative, magnitude whole fraction) := by
  cases negative with
  | true => rfl
  | false =>
    obtain ⟨c, rest, hrest⟩ := List.exists_cons_of_ne_nil whole.ne_nil
    have hc : c.isDigit = true := whole.isDigit_of_mem (hrest ▸ List.mem_cons_self)
    rw [magnitude, hrest, if_neg Bool.false_ne_true, List.nil_append, List.cons_append]
    unfold Number.splitSign
    split
    · rename_i heq
      rw [(List.cons.inj heq).1] at hc
      exact absurd hc (by decide)
    · rename_i heq
      rw [(List.cons.inj heq).1] at hc
      exact absurd hc (by decide)
    · rfl

/-- A number with a fraction is not whole. -/
theorem natural?_fraction : Number.natural? (magnitude whole (some fraction)) = none := by
  have hpoint : '.'.isDigit = false := by decide
  simp [Number.natural?, magnitude, hpoint]

theorem decimal?_whole : Number.decimal? (magnitude whole none)
    = some ⟨Number.digitsValue whole.chars, 0⟩ := by
  obtain ⟨htake, hdrop⟩ := whole.takeWhile_chars [] (by simp)
  rw [magnitude, Option.elim_none, Number.decimal?, htake, hdrop]
  simp [Number.exponent?, whole.ne_nil]

/-- The digits of a fraction go on from the whole, each for a tenth of the one before. -/
theorem decimal?_fraction : Number.decimal? (magnitude whole (some fraction))
    = some ⟨Number.digitsValue (whole.chars ++ fraction.chars), -fraction.chars.length⟩ := by
  have hpoint : ∀ c ∈ ('.' :: fraction.chars).head?, c.isDigit = false := by
    rintro c hc
    obtain rfl := Option.some.inj hc
    decide
  obtain ⟨htake, hdrop⟩ := whole.takeWhile_chars _ hpoint
  obtain ⟨htake', hdrop'⟩ := fraction.takeWhile_chars [] (by simp)
  rw [List.append_nil] at htake' hdrop'
  rw [magnitude, Option.elim_some, Number.decimal?, htake, hdrop]
  simp [htake', hdrop', Number.exponent?, whole.ne_nil]

theorem toList_text_quoted (s : String) (h : '"' ∉ s.toList) :
    (quoted s h).text.toList = '"' :: (s.toList ++ ['"']) := by
  simp [text]

/-- A decimal is written in characters of numerals. -/
theorem isNumeral_text (negative : Bool) (whole : Digits) (fraction : Option Digits) :
    IsNumeral (decimal negative whole fraction).text.toList := by
  have hdigits (ds : Digits) : ds.chars.all isNumeralChar = true :=
    List.all_eq_true.2 fun c hc => isNumeralChar_of_isDigit (ds.isDigit_of_mem hc)
  have hminus : isNumeralChar '-' = true := by decide
  have hpoint : isNumeralChar '.' = true := by decide
  rw [text, String.toList_ofList, magnitude]
  refine ⟨by simp [whole.ne_nil], ?_⟩
  cases negative <;> cases fraction <;> simp only [List.all_append, List.all_cons, List.all_nil,
    Option.elim_none, Option.elim_some, hdigits, hminus, hpoint, Bool.and_self, if_true,
    Bool.false_eq_true, if_false]

/-- Constants can stand in code. -/
theorem wellFormed (k : Constant) : (Operand.immediate k.text).WellFormed := by
  cases k with
  | decimal negative whole fraction => exact .numeral (isNumeral_text negative whole fraction)
  | quoted s h => exact .quoted h (toList_text_quoted s h)

/-- **A constant is read back** as what it stands for. -/
theorem immediateCell?_text (k : Constant) : immediateCell? k.text = some k.cell := by
  cases k with
  | quoted s h =>
    rw [immediateCell?, between?_eq_some (toList_text_quoted s h), String.ofList_toList]
    rfl
  | decimal negative whole fraction =>
    have hbare := (isNumeral_text negative whole fraction).bare.2.2
    have hsign := splitSign_text negative whole fraction
    rw [immediateCell?, hbare, Number.int64?, Number.real?, text, String.toList_ofList, hsign]
    dsimp only
    cases fraction with
    | none =>
      rw [Number.magnitude?, decimal?_whole, magnitude, Option.elim_none, List.append_nil,
        whole.natural?_chars, Option.bind_some, cell]
      have hdigits : Number.digitsValue whole.chars = Nat.ofDigitChars 10 whole.chars 0 := rfl
      have hvalue (n : Nat) : (if negative then -(n : Int) else n) = signed negative (n : Int) :=
        rfl
      rw [hdigits, hvalue]
      dsimp only
      generalize signed negative (Nat.ofDigitChars 10 whole.chars 0 : Int) = value
      by_cases hfits : -9223372036854775808 ≤ value ∧ value ≤ 9223372036854775807
      · have hsome : Number.toInt64? value = some (Int64.ofInt value) := if_pos hfits
        rw [hsome, if_pos hfits]
      · have hnone : Number.toInt64? value = none := if_neg hfits
        rw [hnone, if_neg hfits]
        rfl
    | some fraction =>
      rw [natural?_fraction, Number.magnitude?, decimal?_fraction]
      rfl

end Constant

/-- The machine takes the name of a register for one. -/
theorem Register.isRegister_name (r : Register) : isRegister r.name = true := by
  obtain ⟨real, number⟩ := r
  have hdigits := List.all_eq_true.1 number.all_isDigit
  cases real <;> simpa [name, isRegister, number.ne_nil] using hdigits

/-- **Registers are the names that the machine takes for one.** -/
theorem isRegister_iff {s : String} : isRegister s = true ↔ ∃ r : Register, s = r.name := by
  refine ⟨fun h => ?_, ?_⟩
  · obtain ⟨ds, hne, hds, hs | hs⟩ := exists_digits_of_isRegister h
    · exact ⟨⟨false, ds, hne, hds⟩, String.toList_inj.1 (by simpa [Register.name] using hs)⟩
    · exact ⟨⟨true, ds, hne, hds⟩, String.toList_inj.1 (by simpa [Register.name] using hs)⟩
  · rintro ⟨r, rfl⟩
    exact r.isRegister_name

/-! ## What instructions mean

All of it is told by what can be read off a machine: the cells in its registers, and the cells that
were written to its memory. -/

/-- A constant, an address of 32 bits or a register. -/
inductive Operand.Encodable : Operand → Prop
  | constant (k : Constant) : Encodable (.immediate k.text)
  | memory {address : Nat} (h : address < Number.addressLimit) : Encodable (.memory address)
  | register (r : Register) : Encodable (.register r.name)

/-- What an operand stands for; a cell that was never written is zero. -/
inductive Operand.Holds (m : Machine) : Operand → Cell → Prop
  | constant (k : Constant) : Holds m (.immediate k.text) k.cell
  | written {address : Nat} {c : Cell} (h : m.memory[address]? = some c) :
      Holds m (.memory address) c
  | unwritten {address : Nat} (h : m.memory[address]? = none) : Holds m (.memory address) (.int 0)
  | register (name : String) : Holds m (.register name) (m.registers name)

/-- The sum of two cells: integers wrap around, a real makes the sum real, and a text goes behind
another.  A text and a number have none. -/
inductive Cell.Sum : Cell → Cell → Cell → Prop
  | int (a b : Int64) : Sum (.int a) (.int b) (.int (a + b))
  | intReal (a : Int64) (x : Float) : Sum (.int a) (.real x) (.real (Float.ofInt a.toInt + x))
  | realInt (x : Float) (a : Int64) : Sum (.real x) (.int a) (.real (x + Float.ofInt a.toInt))
  | real (x y : Float) : Sum (.real x) (.real y) (.real (x + y))
  | str (s t : String) : Sum (.str s) (.str t) (.str (s ++ t))

namespace Machine

/-- The second machine has the cell in the register, and all else as the first has it. -/
structure Fills (m : Machine) (dest : String) (c : Cell) (m' : Machine) : Prop where
  register : m'.registers dest = c
  others : ∀ r, r ≠ dest → m'.registers r = m.registers r
  memory : ∀ a : Nat, m'.memory[a]? = m.memory[a]?

/-- The second machine has the cell at the address, and all else as the first has it. -/
structure Writes (m : Machine) (address : Nat) (c : Cell) (m' : Machine) : Prop where
  cell : m'.memory[address]? = some c
  others : ∀ a : Nat, a ≠ address → m'.memory[a]? = m.memory[a]?
  registers : ∀ r, m'.registers r = m.registers r

end Machine

namespace Instruction

/-- The parts of the instruction are what they should be.  A test, a jump and a comment can say
anything; a label is a word that does not start as a comment does. -/
inductive Encodable : Instruction → Prop
  | load {o : Operand} (ho : o.Encodable) (dest : Register) : Encodable (.load o dest.name)
  | store (source : Register) {address : Nat} (ha : address < Number.addressLimit) :
      Encodable (.store source.name address)
  | loadReal {o : Operand} (ho : o.Encodable) (dest : Register) : Encodable (.loadReal o dest.name)
  | storeReal (source : Register) {address : Nat} (ha : address < Number.addressLimit) :
      Encodable (.storeReal source.name address)
  | str {text : String} (htext : '"' ∉ text.toList) {address : Nat}
      (ha : address < Number.addressLimit) : Encodable (.str text address)
  | add {o : Operand} (ho : o.Encodable) (source dest : Register) :
      Encodable (.add o source.name dest.name)
  | move {o : Operand} (ho : o.Encodable) {address : Nat} (ha : address < Number.addressLimit) :
      Encodable (.move o address)
  | jump (target : String) : Encodable (.jump target)
  | test (condition : String) : Encodable (.test condition)
  | label {name : String} (hne : name.toList ≠ [])
      (hword : name.toList.all (!Text.isBlank ·) = true) (hhead : name.toList.head? ≠ some ';') :
      Encodable (.label name)
  | comment (text : String) : Encodable (.comment text)

/-- What an instruction does to a machine, and how it can fail. -/
inductive Runs (m : Machine) : Instruction → Except ExecutionError Machine → Prop
  | load {o : Operand} {c : Cell} {dest : String} {m' : Machine} (hc : o.Holds m c)
      (h : m.Fills dest c m') : Runs m (.load o dest) (.ok m')
  | store {source : String} {address : Nat} {m' : Machine}
      (h : m.Writes address (m.registers source) m') : Runs m (.store source address) (.ok m')
  | loadReal {o : Operand} {c : Cell} {dest : String} {m' : Machine} (hc : o.Holds m c)
      (h : m.Fills dest c m') : Runs m (.loadReal o dest) (.ok m')
  | storeReal {source : String} {address : Nat} {m' : Machine}
      (h : m.Writes address (m.registers source) m') : Runs m (.storeReal source address) (.ok m')
  | str {text : String} {address : Nat} {m' : Machine} (h : m.Writes address (.str text) m') :
      Runs m (.str text address) (.ok m')
  | add {o : Operand} {c sum : Cell} {source dest : String} {m' : Machine} (hc : o.Holds m c)
      (hsum : (m.registers source).Sum c sum) (h : m.Fills dest sum m') :
      Runs m (.add o source dest) (.ok m')
  | mismatch {o : Operand} {c : Cell} {source dest : String} (hc : o.Holds m c)
      (hsum : ∀ sum, ¬ (m.registers source).Sum c sum) :
      Runs m (.add o source dest) (.error (.typeMismatch (m.registers source) c))
  | move {o : Operand} {c : Cell} {address : Nat} {m' : Machine} (hc : o.Holds m c)
      (h : m.Writes address c m') : Runs m (.move o address) (.ok m')
  | jump (target : String) : Runs m (.jump target) (.ok m)
  | test (condition : String) : Runs m (.test condition) (.ok m)
  | label (name : String) : Runs m (.label name) (.ok m)
  | comment (text : String) : Runs m (.comment text) (.ok m)

end Instruction

/-! ## The machine does that -/

/-- **Cells are added** as their sum says. -/
theorem Cell.add?_eq_some_iff {a b c : Cell} : a.add? b = some c ↔ a.Sum b c := by
  constructor
  · intro h
    cases a <;> cases b <;> cases h <;> constructor
  · rintro (_ | _ | _ | _ | _) <;> rfl

/-- **What has no sum** is not added. -/
theorem Cell.add?_eq_none_iff {a b : Cell} : a.add? b = none ↔ ∀ c, ¬ a.Sum b c := by
  simp only [Option.eq_none_iff_forall_ne_some, ne_eq, add?_eq_some_iff]

namespace Machine

variable {m m' : Machine} {c : Cell}

/-- **A register is filled** and nothing else, and that says all of the machine it makes. -/
theorem fills_iff {dest : String} : m.Fills dest c m' ↔ m.setRegister dest c = m' := by
  constructor
  · rintro ⟨hregister, hothers, hmemory⟩
    obtain ⟨registers, memory⟩ := m'
    obtain rfl : memory = m.memory := Std.ExtTreeMap.ext_getElem? fun a => hmemory a
    refine congrArg (Machine.mk · m.memory) (funext fun r => ?_)
    split <;> rename_i hr
    · rw [hr]
      exact hregister.symm
    · exact (hothers r hr).symm
  · rintro rfl
    exact ⟨if_pos rfl, fun r hr => if_neg hr, fun _ => rfl⟩

/-- **A cell is written** and nothing else, and that says all of the machine it makes. -/
theorem writes_iff {address : Nat} : m.Writes address c m' ↔ m.setCell address c = m' := by
  constructor
  · rintro ⟨hcell, hothers, hregisters⟩
    obtain ⟨registers, memory⟩ := m'
    obtain rfl : registers = m.registers := funext hregisters
    refine congrArg (Machine.mk m.registers) (Std.ExtTreeMap.ext_getElem? fun a => ?_)
    rw [Memory.getElem?_write]
    split <;> rename_i ha
    · rw [← ha]
      exact hcell.symm
    · exact (hothers a (Ne.symm ha)).symm
  · rintro rfl
    refine ⟨?_, fun a ha => ?_, fun _ => rfl⟩ <;> rw [memory_setCell, Memory.getElem?_write]
    · exact if_pos rfl
    · exact if_neg (Ne.symm ha)

end Machine

namespace Operand

variable {o : Operand} {m : Machine}

theorem Encodable.wellFormed (h : o.Encodable) : o.WellFormed := by
  cases h with
  | constant k => exact k.wellFormed
  | memory h => exact .memory h
  | register r => exact .register r.isRegister_name

/-- **An encodable operand stands for something**, whatever the machine holds. -/
theorem Encodable.exists_holds (h : o.Encodable) (m : Machine) : ∃ c, o.Holds m c := by
  cases h with
  | constant k => exact ⟨k.cell, .constant k⟩
  | @memory address h =>
    cases hcell : m.memory[address]? with
    | none => exact ⟨_, .unwritten hcell⟩
    | some c => exact ⟨c, .written hcell⟩
  | register r => exact ⟨_, .register _⟩

/-- **What an operand stands for is what the machine reads.** -/
theorem Holds.cell? {c : Cell} (h : o.Holds m c) : o.cell? m = some c := by
  cases h with
  | constant k => exact k.immediateCell?_text
  | written h | unwritten h => rw [Operand.cell?, Memory.read, h]; rfl
  | register name => rfl

end Operand

namespace Instruction

variable {i : Instruction} {m : Machine} {r : Except ExecutionError Machine}

theorem Encodable.wellFormed (h : i.Encodable) : i.WellFormed := by
  cases h with
  | load ho dest => exact ⟨ho.wellFormed, dest.isRegister_name⟩
  | store source ha => exact ⟨source.isRegister_name, ha⟩
  | loadReal ho dest => exact ⟨ho.wellFormed, dest.isRegister_name⟩
  | storeReal source ha => exact ⟨source.isRegister_name, ha⟩
  | str htext ha => exact ⟨htext, ha⟩
  | add ho source dest => exact ⟨ho.wellFormed, source.isRegister_name, dest.isRegister_name⟩
  | move ho ha => exact ⟨ho.wellFormed, ha⟩
  | label _ hword _ => exact hword
  | jump | test | comment => trivial

/-- **An encodable instruction can always be run**, if only to a mismatch. -/
theorem Encodable.exists_runs (h : i.Encodable) (m : Machine) : ∃ r, i.Runs m r := by
  cases h with
  | load ho dest =>
    obtain ⟨c, hc⟩ := ho.exists_holds m
    exact ⟨_, .load hc (Machine.fills_iff.2 rfl)⟩
  | store => exact ⟨_, .store (Machine.writes_iff.2 rfl)⟩
  | loadReal ho dest =>
    obtain ⟨c, hc⟩ := ho.exists_holds m
    exact ⟨_, .loadReal hc (Machine.fills_iff.2 rfl)⟩
  | storeReal => exact ⟨_, .storeReal (Machine.writes_iff.2 rfl)⟩
  | str => exact ⟨_, .str (Machine.writes_iff.2 rfl)⟩
  | add ho source dest =>
    obtain ⟨c, hc⟩ := ho.exists_holds m
    cases hsum : (m.registers source.name).add? c with
    | some sum => exact ⟨_, .add hc (Cell.add?_eq_some_iff.1 hsum) (Machine.fills_iff.2 rfl)⟩
    | none => exact ⟨_, .mismatch hc (Cell.add?_eq_none_iff.1 hsum)⟩
  | move ho ha =>
    obtain ⟨c, hc⟩ := ho.exists_holds m
    exact ⟨_, .move hc (Machine.writes_iff.2 rfl)⟩
  | jump => exact ⟨_, .jump _⟩
  | test => exact ⟨_, .test _⟩
  | label => exact ⟨_, .label _⟩
  | comment => exact ⟨_, .comment _⟩

/-- **What an instruction does is its effect.** -/
theorem Runs.effect (h : i.Runs m r) : i.effect m = r := by
  cases h with
  | load hc h | loadReal hc h =>
    rw [Instruction.effect, hc.cell?]
    exact congrArg Except.ok (Machine.fills_iff.1 h)
  | move hc h =>
    rw [Instruction.effect, hc.cell?]
    exact congrArg Except.ok (Machine.writes_iff.1 h)
  | store h | storeReal h | str h => exact congrArg Except.ok (Machine.writes_iff.1 h)
  | add hc hsum h =>
    rw [Instruction.effect, hc.cell?]
    dsimp only
    rw [Cell.add?_eq_some_iff.2 hsum]
    exact congrArg Except.ok (Machine.fills_iff.1 h)
  | mismatch hc hsum =>
    rw [Instruction.effect, hc.cell?]
    dsimp only
    rw [Cell.add?_eq_none_iff.2 hsum]
  | jump | test | label | comment => rfl

/-- **Stepping a line is running its instruction.** -/
theorem Encodable.step_iff (h : i.Encodable) : m.step i.text = r ↔ i.Runs m r := by
  rw [h.wellFormed.step]
  refine ⟨?_, Runs.effect⟩
  rintro rfl
  obtain ⟨r, hr⟩ := h.exists_runs m
  rw [hr.effect]
  exact hr

/-! ## Comments and labels -/

/-- A line that starts with a word is a comment if the word starts as one. -/
theorem isComment_of_word {w : List Char} (hne : w ≠ []) (hw : w.all (!Text.isBlank ·) = true)
    (rest : List Char) :
    Line.isComment (String.ofList (w ++ ' ' :: rest)) = (w.head? == some ';') := by
  rw [Line.isComment_of_split? (Line.split?_mnemonic hne hw rest), String.toList_ofList]

/-- A comment is no label, though its text may end like one. -/
theorem label?_comment (text : String) : Line.label? (comment text).text = none := by
  rw [text_comment, List.singleton_append, Line.label?, Line.isComment_semicolon]
  rfl

theorem isComment_test (condition : String) : Line.isComment (test condition).text = false := by
  rw [text_test, isComment_of_word (by simp) (by decide)]
  rfl

/-- A test is no label, for it ends with a word of its own. -/
theorem label?_test (condition : String) : Line.label? (test condition).text = none := by
  have hlast : (test condition).text.toList = ("IF " ++ condition ++ " THE").toList ++ ['N'] := by
    simp [Instruction.text]
  rw [Line.label?, isComment_test, hlast, Text.trim_concat (by decide), List.getLast?_concat]
  rfl

/-- **A label is read back.** -/
theorem label?_label {name : String} (hne : name.toList ≠ [])
    (hword : name.toList.all (!Text.isBlank ·) = true) (hhead : name.toList.head? ≠ some ';') :
    Line.isComment (label name).text = false ∧ Line.label? (label name).text = some name := by
  obtain ⟨c, rest, hname⟩ := List.exists_cons_of_ne_nil hne
  have hcolon : Text.isBlank ':' = false := by decide
  have hwhole : (name.toList ++ [':']).all (!Text.isBlank ·) = true := by
    rw [List.all_append, hword, List.all_cons, hcolon]
    rfl
  have htrim : Text.trim (name.toList ++ [':']) = name.toList ++ [':'] := by
    have hblank (x : Char) (hx : x ∈ name.toList ++ [':']) : Text.isBlank x = false := by
      simpa using List.all_eq_true.1 hwhole x hx
    exact Text.IsTrimmed.trim_eq ⟨by simp, fun x hx => hblank x (List.mem_of_head? hx),
      fun x hx => hblank x (List.mem_of_getLast? hx)⟩
  have hcomment : Line.isComment (label name).text = false := by
    rw [text_label, Line.isComment_of_split? (Line.split?_word (by simp) hwhole),
      String.toList_ofList, List.head?_append, hname, List.head?_cons, Option.some_or]
    rw [hname] at hhead
    simpa using hhead
  refine ⟨hcomment, ?_⟩
  rw [Line.label?, hcomment, text_label, String.toList_ofList, htrim, List.getLast?_concat,
    List.dropLast_concat, String.ofList_toList]
  rfl

/-- **Comments are comments**, and nothing else is one. -/
theorem Encodable.isComment_iff (h : i.Encodable) :
    Line.isComment i.text = true ↔ ∃ text, i = .comment text := by
  have hline {l : Line} (hl : i.line? = some l) : Line.isComment i.text = false := by
    rw [text_of_line? hl]
    exact (h.wellFormed.solid hl).isComment_text
  have hother (hfalse : Line.isComment i.text = false) (hi : ∀ text, i ≠ .comment text) :
      Line.isComment i.text = true ↔ ∃ text, i = .comment text := by
    rw [hfalse]
    exact ⟨fun htrue => absurd htrue Bool.false_ne_true,
      fun ⟨text, htext⟩ => absurd htext (hi text)⟩
  cases h with
  | comment text =>
    rw [text_comment, List.singleton_append, Line.isComment_semicolon]
    exact ⟨fun _ => ⟨text, rfl⟩, fun _ => rfl⟩
  | label hne hword hhead => exact hother (label?_label hne hword hhead).1 (by simp)
  | test condition => exact hother (isComment_test condition) (by simp)
  | jump target =>
    refine hother ?_ (by simp)
    rw [text_jump, isComment_of_word (by simp) (by decide)]
    rfl
  | load | store | loadReal | storeReal | str | add | move => exact hother (hline rfl) (by simp)

/-- **Labels are labels**, and nothing but a jump can look like one. -/
theorem Encodable.label?_iff (h : i.Encodable) (hjump : ∀ target, i ≠ .jump target)
    (name : String) : Line.label? i.text = some name ↔ i = .label name := by
  have hline {l : Line} (hl : i.line? = some l) : Line.label? i.text = none := by
    rw [text_of_line? hl]
    exact (h.wellFormed.solid hl).label?_text
  have hother (hnone : Line.label? i.text = none) (hi : i ≠ .label name) :
      Line.label? i.text = some name ↔ i = .label name := by
    rw [hnone]
    exact ⟨fun hsome => absurd hsome (Option.some_ne_none name).symm, fun heq => absurd heq hi⟩
  cases h with
  | comment text => exact hother (label?_comment text) (by simp)
  | label hne hword hhead =>
    rw [(label?_label hne hword hhead).2, Option.some.injEq, label.injEq]
  | test condition => exact hother (label?_test condition) (by simp)
  | jump target => exact absurd rfl (hjump target)
  | load | store | loadReal | storeReal | str | add | move => exact hother (hline rfl) (by simp)

/-- **Lines are faithful**: on every machine the line of an encodable instruction does what the
instruction does, only comments look like comments, and of what is no jump only labels look like
labels, each like itself. -/
theorem text_faithful (h : i.Encodable) :
    (∀ (m : Machine) (r : Except ExecutionError Machine), m.step i.text = r ↔ i.Runs m r) ∧
    (Line.isComment i.text = true ↔ ∃ text, i = .comment text) ∧
    ((∀ target, i ≠ .jump target) → ∀ name, Line.label? i.text = some name ↔ i = .label name) :=
  ⟨fun _ _ => h.step_iff, h.isComment_iff, h.label?_iff⟩

/-- A text that holds all that lines are cut at is one operand: it is loaded into a register, stored
into a cell and put behind itself, and no number is added to it. -/
theorem text_faithful_quoted :
    let text := "L1: ; x, [7]"
    let line := (load (.immediate "\"L1: ; x, [7]\"") "r1").text
    ∃ m₁ m₂ m₃ : Machine, Machine.step {} line = .ok m₁ ∧
      m₁.registers "r1" = .str text ∧ m₁.registers "r2" = .int 0 ∧
      m₁.step (store "r1" 1004).text = .ok m₂ ∧
      m₂.memory[1004]? = some (.str text) ∧ m₂.memory[1000]? = none ∧
      m₂.step (add (.memory 1004) "r1" "fr2").text = .ok m₃ ∧
      m₃.registers "fr2" = .str "L1: ; x, [7]L1: ; x, [7]" ∧ m₃.registers "r1" = .str text ∧
      m₃.step (add (.immediate "-1") "r1" "r2").text
        = .error (.typeMismatch (.str text) (.int (-1))) ∧
      Line.isComment line ≠ true ∧ Line.label? line ≠ some "L1" := by
  intro text line
  let one : Digits := ⟨['1'], by decide, by decide⟩
  let two : Digits := ⟨['2'], by decide, by decide⟩
  let quoted : Constant := .quoted text (by decide)
  let minus : Constant := .decimal true one none
  obtain ⟨m₁, h₁⟩ : ∃ m, Machine.Fills {} "r1" (.str text) m := ⟨_, Machine.fills_iff.2 rfl⟩
  obtain ⟨m₂, h₂⟩ : ∃ m, m₁.Writes 1004 (m₁.registers "r1") m := ⟨_, Machine.writes_iff.2 rfl⟩
  obtain ⟨m₃, h₃⟩ : ∃ m, m₂.Fills "fr2" (.str (text ++ text)) m := ⟨_, Machine.fills_iff.2 rfl⟩
  have hr₂ : m₂.registers "r1" = .str text := (h₂.registers "r1").trans h₁.register
  have hr₃ : m₃.registers "r1" = .str text := (h₃.others "r1" (by decide)).trans hr₂
  have hcell : m₂.memory[1004]? = some (.str text) := h₂.cell.trans (congrArg some h₁.register)
  have hsum : (m₂.registers "r1").Sum (.str text) (.str (text ++ text)) := hr₂ ▸ .str text text
  have hnone (sum : Cell) : ¬ (m₃.registers "r1").Sum (.int (-1)) sum := by
    rw [hr₃]
    exact nofun
  have hload := text_faithful (.load (.constant quoted) ⟨false, one⟩)
  have hstore := text_faithful (.store ⟨false, one⟩ (by decide : 1004 < Number.addressLimit))
  have hadd := text_faithful (.add (.memory (by decide : 1004 < Number.addressLimit))
    ⟨false, one⟩ ⟨true, two⟩)
  have hminus := text_faithful (.add (.constant minus) ⟨false, one⟩ ⟨false, two⟩)
  refine ⟨m₁, m₂, m₃, (hload.1 _ _).2 (.load (.constant quoted) h₁), h₁.register,
    h₁.others "r2" (by decide), (hstore.1 _ _).2 (.store h₂), hcell, ?_,
    (hadd.1 _ _).2 (.add (.written hcell) hsum h₃), h₃.register, hr₃, ?_,
    fun h => by simpa using hload.2.1.1 h, fun h => by simpa using (hload.2.2 (by simp) _).1 h⟩
  · rw [h₂.others 1000 (by decide), h₁.memory]
    rfl
  · rw [← hr₃]
    exact (hminus.1 _ _).2 (.mismatch (.constant minus) hnone)

end Instruction

end Enigma
