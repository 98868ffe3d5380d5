import Enigma.Proofs.Lines
import Enigma.Text.Word

/-!
# Proofs/Effects — what an instruction does to the machine

The machine reads lines of text.  For **well-formed** instructions — registers that are registers,
addresses below 2^32, constants that are numerals or quoted — the text can be forgotten:
`Instruction.effect` says on the instruction itself what the machine does.

* `Operand.WellFormed.value` — the cell of an operand; `Machine.address_toString` — an address is
  read back as it was written;
* `Instruction.WellFormed.step` — running an instruction's line is its effect;
* `Machine.run_text` — and so for code.
-/

namespace Enigma

/-! ## Addresses and registers -/

/-- **Printed digits are read back.** -/
theorem digitsValue_toDigits (n : Nat) : Number.digitsValue (Nat.toDigits 10 n) = n :=
  Nat.ofDigitChars_ten_toDigits

/-- A number in text is its decimal digits. -/
theorem toList_toString (n : Nat) : (toString n).toList = Nat.toDigits 10 n := Nat.toList_repr

/-- **An address is read back as it was written.** -/
theorem address?_toDigits {a : Nat} (h : a < Number.addressLimit) :
    Number.address? (Nat.toDigits 10 a) = some a := by
  have hdigit : (Nat.toDigits 10 a).all Char.isDigit = true :=
    List.all_eq_true.2 fun c hc => Nat.isDigit_of_mem_toDigits (by decide) (by decide) hc
  have hempty : (Nat.toDigits 10 a).isEmpty = false := by simp
  unfold Number.address?
  split
  · rename_i heq
    rw [heq] at hdigit
    exact absurd (Bool.and_eq_true_iff.1 hdigit).1 (by decide)
  · dsimp only
    rw [Number.natural?, hempty, hdigit, digitsValue_toDigits]
    simp [h]

/-- Whether a character can be in a numeral: a digit of some script, a point or a minus. -/
def isNumeralChar (c : Char) : Bool := Text.isDigit c || c == '.' || c == '-'

/-- Digits are characters of numerals. -/
theorem isNumeralChar_of_isDigit {c : Char} (h : c.isDigit = true) : isNumeralChar c = true := by
  have hc : c.toNat < 0x80 := by
    have hle : c.val ≤ '9'.val := of_decide_eq_true (Bool.and_eq_true_iff.1 h).2
    exact Nat.lt_of_le_of_lt (UInt32.le_iff_toNat_le.1 hle) (by decide)
  simp [isNumeralChar, Text.isDigit, hc, h]

/-- Characters of numerals stay together when a line is cut. -/
theorem isSolid_of_isNumeralChar {c : Char} (h : isNumeralChar c = true) :
    Line.isSolid c = true := by
  have hne (x : Char) (hx : isNumeralChar x = false) : c ≠ x := by
    rintro rfl
    rw [h] at hx
    cases hx
  refine Line.isSolid_iff.2 ⟨?_, hne ',' (by decide), hne '"' (by decide), hne ':' (by decide),
    hne ';' (by decide)⟩
  -- a digit is a word character, and no blank is one
  cases hb : Text.isBlank c with
  | false => rfl
  | true =>
    rcases Bool.or_eq_true_iff.1 h with h | h
    · rcases Bool.or_eq_true_iff.1 h with h | h
      · have hword := Text.isWord_of_isDigit h
        rw [Text.isWord_eq_false_of_isBlank hb] at hword
        cases hword
      · rw [eq_of_beq h] at hb
        exact absurd hb (by decide)
    · rw [eq_of_beq h] at hb
      exact absurd hb (by decide)

/-- A numeral: some characters of numerals. -/
def IsNumeral (s : List Char) : Prop := s ≠ [] ∧ s.all isNumeralChar = true

/-- A numeral holds nothing that a line is cut at, so it stays in one piece. -/
theorem IsNumeral.all_isSolid {s : List Char} (h : IsNumeral s) : s.all Line.isSolid = true :=
  List.all_eq_true.2 fun c hc => isSolid_of_isNumeralChar (List.all_eq_true.1 h.2 c hc)

/-- A numeral is one operand of its line. -/
theorem IsNumeral.isOperand {s : List Char} (h : IsNumeral s) : Line.IsOperand s :=
  .solid h.1 h.all_isSolid

/-- An address in text is a numeral. -/
theorem isNumeral_toString (n : Nat) : IsNumeral (toString n).toList := by
  rw [toList_toString]
  refine ⟨Nat.toDigits_ne_nil, List.all_eq_true.2 fun c hc => ?_⟩
  exact isNumeralChar_of_isDigit (Nat.isDigit_of_mem_toDigits (by decide) (by decide) hc)

/-- **A printed address is read back** if it has 32 bits. -/
theorem address?_toString {a : Nat} (h : a < Number.addressLimit) :
    Number.address? (Text.trim (toString a).toList) = some a := by
  rw [(isNumeral_toString a).isOperand.isTrimmed.trim_eq, toList_toString, address?_toDigits h]

/-- Every line takes a printed address of 32 bits. -/
theorem Machine.address_toString {a : Nat} (h : a < Number.addressLimit) (line : String) :
    address line (toString a) = .ok a := by
  rw [address, address?_toString h]

/-- A register: `r` or `fr`, and digits. -/
theorem exists_digits_of_isRegister {r : String} (h : isRegister r = true) :
    ∃ ds : List Char, ds ≠ [] ∧ ds.all Char.isDigit = true ∧
      (r.toList = 'r' :: ds ∨ r.toList = 'f' :: 'r' :: ds) := by
  unfold isRegister at h
  split at h <;> obtain ⟨hne, hds⟩ := Bool.and_eq_true_iff.1 h
  · rename_i heq
    exact ⟨_, by simpa using hne, hds, .inr heq⟩
  · rename_i heq
    exact ⟨_, by simpa using hne, hds, .inl heq⟩
  · cases hne

/-- **A register is one operand**: letters and digits are solid. -/
theorem isOperand_of_isRegister {r : String} (h : isRegister r = true) :
    Line.IsOperand r.toList := by
  obtain ⟨ds, -, hds, heq⟩ := exists_digits_of_isRegister h
  have hsolid : ds.all Line.isSolid = true := List.all_eq_true.2 fun c hc =>
    isSolid_of_isNumeralChar (isNumeralChar_of_isDigit (List.all_eq_true.1 hds c hc))
  have hr : Line.isSolid 'r' = true := by decide
  have hf : Line.isSolid 'f' = true := by decide
  rcases heq with heq | heq <;> rw [heq] <;> refine .solid (by simp) ?_
  · simp only [List.all_cons, hr, hsolid, Bool.and_self]
  · simp only [List.all_cons, hr, hf, hsolid, Bool.and_self]

/-! ## Operands -/

/-- What starts with another character has nothing between the two. -/
theorem between?_of_ne {left right c : Char} {s : String} {rest : List Char}
    (hs : s.toList = c :: rest) (hc : c ≠ left) : between? left right s = none := by
  unfold between?
  rw [hs]
  exact if_neg (by simp [hc])

/-- **The delimiters come off**, whatever stands between them. -/
theorem between?_eq_some {left right : Char} {s : String} {inner : List Char}
    (hs : s.toList = left :: (inner ++ [right])) :
    between? left right s = some (String.ofList inner) := by
  unfold between?
  rw [hs]
  simp

/-- A register starts with a letter, and not with a bracket or a quote. -/
theorem between?_of_isRegister {name : String} (h : isRegister name = true) {left : Char}
    (hr : 'r' ≠ left) (hf : 'f' ≠ left) (right : Char) : between? left right name = none := by
  obtain ⟨ds, -, -, heq | heq⟩ := exists_digits_of_isRegister h
  · exact between?_of_ne heq hr
  · exact between?_of_ne heq hf

/-- Only what starts with one of two letters is a register, so no numeral, address or text is. -/
theorem isRegister_of_ne {c : Char} {s : String} {rest : List Char} (hs : s.toList = c :: rest)
    (hr : c ≠ 'r') (hf : c ≠ 'f') : isRegister s = false := by
  refine eq_false_of_ne_true fun h => ?_
  obtain ⟨ds, -, -, heq | heq⟩ := exists_digits_of_isRegister h <;> rw [hs] at heq
  · exact hr (List.cons.inj heq).1
  · exact hf (List.cons.inj heq).1

/-- A numeral names no register, and does not stand in brackets or quotes. -/
theorem IsNumeral.bare {text : String} (h : IsNumeral text.toList) :
    isRegister text = false ∧ between? '[' ']' text = none ∧ between? '"' '"' text = none := by
  obtain ⟨c, rest, hs⟩ := List.exists_cons_of_ne_nil h.1
  have hne (x : Char) (hx : isNumeralChar x = false) : c ≠ x := by
    rintro rfl
    rw [List.all_eq_true.1 h.2 c (by simp [hs])] at hx
    cases hx
  exact ⟨isRegister_of_ne hs (hne 'r' (by decide)) (hne 'f' (by decide)),
    between?_of_ne hs (hne '[' (by decide)), between?_of_ne hs (hne '"' (by decide))⟩

/-- The cell of a constant: a text in quotes, an integer or a real, whichever it is first. -/
def immediateCell? (text : String) : Option Cell :=
  match between? '"' '"' text with
  | some s => some (.str s)
  | none =>
    match Number.int64? text, Number.real? text with
    | some n, _ => some (.int n)
    | none, some x => some (.real x)
    | none, none => none

namespace Operand

/-- The cell that an operand stands for. -/
def cell? (m : Machine) : Operand → Option Cell
  | immediate text => immediateCell? text
  | memory address => some (m.memory.read address)
  | register name => some (m.registers name)

/-- Constants that are numerals or quoted, addresses below 2^32, and registers. -/
inductive WellFormed : Operand → Prop
  | numeral {text : String} (h : IsNumeral text.toList) : WellFormed (.immediate text)
  | quoted {text : String} {s : List Char} (h : '"' ∉ s)
      (htext : text.toList = '"' :: (s ++ ['"'])) : WellFormed (.immediate text)
  | memory {address : Nat} (h : address < Number.addressLimit) : WellFormed (.memory address)
  | register {name : String} (h : isRegister name = true) : WellFormed (.register name)

/-- The characters of an address in brackets. -/
theorem toList_text_memory (address : Nat) :
    (Operand.memory address).text.toList = '[' :: (Nat.toDigits 10 address ++ [']']) := by
  simp only [text, String.toList_append, toList_toString]
  rfl

/-- **Brackets come off an address.** -/
theorem between?_text_memory (address : Nat) :
    between? '[' ']' (Operand.memory address).text = some (toString address) := by
  rw [between?_eq_some (toList_text_memory address), ← toList_toString, String.ofList_toList]

namespace WellFormed

variable {o : Operand}

/-- **A well-formed operand is one operand of its line.** -/
theorem isOperand (h : o.WellFormed) : Line.IsOperand o.text.toList := by
  cases h with
  | numeral h => exact h.isOperand
  | quoted h htext =>
    rw [text, htext]
    exact .quoted h
  | @memory address h =>
    have hdigits := (isNumeral_toString address).all_isSolid
    have hleft : Line.isSolid '[' = true := by decide
    have hright : Line.isSolid ']' = true := by decide
    rw [toList_toString] at hdigits
    rw [toList_text_memory]
    refine .solid (by simp) ?_
    simp only [List.all_cons, List.all_append, List.all_nil, hdigits, hleft, hright, Bool.and_self]
  | register h => exact isOperand_of_isRegister h

/-- **The cell of an operand** is what the machine reads from its text. -/
theorem value (h : o.WellFormed) (m : Machine) (line : String) :
    m.value line o.text = match o.cell? m with
      | some c => .ok c
      | none => .error (Machine.invalid o.text line) := by
  cases h with
  | @numeral text h =>
    obtain ⟨hregister, hbracket, hquote⟩ := h.bare
    rw [Operand.text, Machine.value, hbracket, hquote, hregister, cell?, immediateCell?, hquote]
    cases Number.int64? text <;> cases Number.real? text <;> rfl
  | quoted h htext =>
    rw [Operand.text, Machine.value, between?_of_ne htext (by decide), cell?, immediateCell?,
      between?_eq_some htext]
  | @memory address h =>
    rw [Machine.value, between?_text_memory]
    dsimp only
    rw [Machine.address_toString h]
    rfl
  | @register name h =>
    rw [Operand.text, Machine.value, between?_of_isRegister h (by decide) (by decide),
      between?_of_isRegister h (by decide) (by decide)]
    dsimp only
    rw [if_pos h]
    rfl

end WellFormed

end Operand

/-! ## Instructions -/

namespace Instruction

/-- The mnemonic and the operands of an instruction that is no mark. -/
def line? : Instruction → Option Line
  | load source dest => some ⟨"LOAD", [source.text, dest]⟩
  | store source address => some ⟨"STORE", [source, toString address]⟩
  | loadReal source dest => some ⟨"FLOAD", [source.text, dest]⟩
  | storeReal source address => some ⟨"FSTORE", [source, toString address]⟩
  | str text address => some ⟨"STR", ["\"" ++ text ++ "\"", toString address]⟩
  | add operand source dest => some ⟨"ADD", [operand.text, source, dest]⟩
  | move source address => some ⟨"MOV", [source.text, toString address]⟩
  | jump _ | test _ | label _ | comment _ => none

/-- An instruction with a line of operands is printed as that line. -/
theorem text_of_line? {i : Instruction} {l : Line} (h : i.line? = some l) : i.text = l.text := by
  cases i <;> cases h <;> rw [← String.toList_inj] <;> simp [text, Line.text, Line.joined]

/-- Registers that are registers, addresses below 2^32, texts without a quote in them and labels
without a blank. -/
def WellFormed : Instruction → Prop
  | load source dest => source.WellFormed ∧ isRegister dest = true
  | store source address => isRegister source = true ∧ address < Number.addressLimit
  | loadReal source dest => source.WellFormed ∧ isRegister dest = true
  | storeReal source address => isRegister source = true ∧ address < Number.addressLimit
  | str text address => '"' ∉ text.toList ∧ address < Number.addressLimit
  | add operand source dest =>
    operand.WellFormed ∧ isRegister source = true ∧ isRegister dest = true
  | move source address => source.WellFormed ∧ address < Number.addressLimit
  | label name => name.toList.all (!Text.isBlank ·) = true
  | jump _ | test _ | comment _ => True

/-- **A quoted text is one operand**: what lines are cut at counts for nothing between quotes. -/
theorem isOperand_quoted {text : String} (h : '"' ∉ text.toList) :
    Line.IsOperand ("\"" ++ text ++ "\"").toList := by
  have hquoted := Line.IsOperand.quoted h
  simpa using hquoted

/-- A well-formed instruction is written as a solid line. -/
theorem WellFormed.solid {i : Instruction} (h : i.WellFormed) {l : Line} (hl : i.line? = some l) :
    l.Solid := by
  have htwo {w a b : String} (hw : (!w.toList.isEmpty && w.toList.all Line.isSolid) = true)
      (ha : Line.IsOperand a.toList) (hb : Line.IsOperand b.toList) : Line.Solid ⟨w, [a, b]⟩ := by
    obtain ⟨hne, hw⟩ := Bool.and_eq_true_iff.1 hw
    exact ⟨by simpa using hne, hw, by simp,
      List.forall_mem_cons.2 ⟨ha, List.forall_mem_singleton.2 hb⟩⟩
  have haddress (a : Nat) := (isNumeral_toString a).isOperand
  cases i with
  | load source dest =>
    obtain rfl := Option.some.inj hl
    exact htwo (by decide) h.1.isOperand (isOperand_of_isRegister h.2)
  | store source address =>
    obtain rfl := Option.some.inj hl
    exact htwo (by decide) (isOperand_of_isRegister h.1) (haddress _)
  | loadReal source dest =>
    obtain rfl := Option.some.inj hl
    exact htwo (by decide) h.1.isOperand (isOperand_of_isRegister h.2)
  | storeReal source address =>
    obtain rfl := Option.some.inj hl
    exact htwo (by decide) (isOperand_of_isRegister h.1) (haddress _)
  | str text address =>
    obtain rfl := Option.some.inj hl
    exact htwo (by decide) (isOperand_quoted h.1) (haddress _)
  | add operand source dest =>
    obtain rfl := Option.some.inj hl
    obtain ⟨ho, hs, hd⟩ := h
    have hpair := htwo (w := "ADD") (by decide) (isOperand_of_isRegister hs)
      (isOperand_of_isRegister hd)
    exact ⟨hpair.mnemonic_ne, hpair.mnemonic, by simp,
      List.forall_mem_cons.2 ⟨ho.isOperand, hpair.operands⟩⟩
  | move source address =>
    obtain rfl := Option.some.inj hl
    exact htwo (by decide) h.1.isOperand (haddress _)
  | _ => cases hl

/-- What an instruction does to the machine. -/
def effect (m : Machine) (i : Instruction) : Except ExecutionError Machine :=
  match i with
  | load source dest | loadReal source dest =>
    match source.cell? m with
    | some c => .ok (m.setRegister dest c)
    | none => .error (Machine.invalid source.text i.text)
  | store source address | storeReal source address =>
    .ok (m.setCell address (m.registers source))
  | str text address => .ok (m.setCell address (.str text))
  | add operand source dest =>
    match operand.cell? m with
    | some c =>
      match (m.registers source).add? c with
      | some sum => .ok (m.setRegister dest sum)
      | none => .error (.typeMismatch (m.registers source) c)
    | none => .error (Machine.invalid operand.text i.text)
  | move source address =>
    match source.cell? m with
    | some c => .ok (m.setCell address c)
    | none => .error (Machine.invalid source.text i.text)
  | jump _ | test _ | label _ | comment _ => .ok m

end Instruction

namespace Machine

variable {m : Machine} {line : String}

/-- A register is accepted where one is asked for. -/
theorem register_eq_ok {r : String} (h : isRegister r = true) : register line r = .ok r := if_pos h

/-- **Loading** puts what the operand stands for into the register, and an operand that stands for
nothing is invalid. -/
theorem load_eq {o : Operand} {r : String} (ho : o.WellFormed) (hr : isRegister r = true) :
    m.load line o.text r = match o.cell? m with
      | some c => .ok (m.setRegister r c)
      | none => .error (invalid o.text line) := by
  rw [load, ho.value, register_eq_ok hr]
  cases o.cell? m <;> rfl

/-- **Storing** copies the register to the address. -/
theorem store_eq {r : String} {a : Nat} (hr : isRegister r = true) (ha : a < Number.addressLimit) :
    m.store line r (toString a) = .ok (m.setCell a (m.registers r)) := by
  rw [store, register_eq_ok hr, address_toString ha]
  rfl

/-- **Storing a text** takes its quotes off. -/
theorem storeText_eq {text : String} {a : Nat} (ha : a < Number.addressLimit) :
    m.storeText line ("\"" ++ text ++ "\"") (toString a) = .ok (m.setCell a (.str text)) := by
  have hquoted : ("\"" ++ text ++ "\"").toList = '"' :: (text.toList ++ ['"']) := by simp
  rw [storeText, between?_eq_some hquoted, String.ofList_toList]
  dsimp only
  rw [address_toString ha]
  rfl

/-- **Moving** goes from the operand to the address with no register between. -/
theorem move_eq {o : Operand} {a : Nat} (ho : o.WellFormed) (ha : a < Number.addressLimit) :
    m.move line o.text (toString a) = match o.cell? m with
      | some c => .ok (m.setCell a c)
      | none => .error (invalid o.text line) := by
  rw [move, ho.value, address_toString ha]
  cases o.cell? m <;> rfl

/-- **Adding** leaves the sum in the register named last; it fails on an operand that stands for
nothing, and on a text and a number. -/
theorem add_eq {o : Operand} {r d : String} (ho : o.WellFormed) (hr : isRegister r = true)
    (hd : isRegister d = true) :
    m.add line o.text r d = match o.cell? m with
      | some c =>
        match (m.registers r).add? c with
        | some sum => .ok (m.setRegister d sum)
        | none => .error (.typeMismatch (m.registers r) c)
      | none => .error (invalid o.text line) := by
  rw [add, ho.value, register_eq_ok hr, register_eq_ok hd]
  cases o.cell? m with
  | none => rfl
  | some c =>
    dsimp only [Except.map, bind, Except.bind]
    cases (m.registers r).add? c <;> rfl

end Machine

/-- **Running an instruction's line is its effect.** -/
theorem Instruction.WellFormed.step {i : Instruction} (h : i.WellFormed) (m : Machine) :
    m.step i.text = i.effect m := by
  have hline {l : Line} (hl : i.line? = some l) :
      m.step i.text = m.perform i.text l.mnemonic l.operands := by
    rw [text_of_line? hl]
    exact m.step_text (h.solid hl)
  cases i with
  | load source dest => rw [hline rfl]; exact Machine.load_eq h.1 h.2
  | store source address => rw [hline rfl]; exact Machine.store_eq h.1 h.2
  | loadReal source dest => rw [hline rfl]; exact Machine.load_eq h.1 h.2
  | storeReal source address => rw [hline rfl]; exact Machine.store_eq h.1 h.2
  | str text address => rw [hline rfl]; exact Machine.storeText_eq h.2
  | add operand source dest => rw [hline rfl]; exact Machine.add_eq h.1 h.2.1 h.2.2
  | move source address => rw [hline rfl]; exact Machine.move_eq h.1 h.2
  | _ => exact m.step_of_isMark (isMark_text rfl)

namespace Machine

/-- A filled register reads as its new cell, and the others read as before. -/
@[simp] theorem registers_setRegister (m : Machine) (r x : String) (c : Cell) :
    (m.setRegister r c).registers x = if x = r then c else m.registers x := rfl

/-- Filling a register leaves memory alone. -/
@[simp] theorem memory_setRegister (m : Machine) (r : String) (c : Cell) :
    (m.setRegister r c).memory = m.memory := rfl

/-- A filled cell is a write to memory. -/
@[simp] theorem memory_setCell (m : Machine) (a : Nat) (c : Cell) :
    (m.setCell a c).memory = m.memory.write a c := rfl

/-- The effects of instructions in order, up to the first that has none. -/
def exec (m : Machine) (code : List Instruction) : Except ExecutionError Machine :=
  code.foldlM (fun m i => i.effect m) m

/-- **Running the lines of well-formed code is its effect.** -/
theorem run_text {code : List Instruction} (h : ∀ i ∈ code, i.WellFormed) (m : Machine) :
    m.run (code.map Instruction.text) = m.exec code := by
  induction code generalizing m with
  | nil => rfl
  | cons i code ih =>
    rw [run, List.map_cons, List.foldlM_cons, (h i (List.mem_cons_self ..)).step, exec,
      List.foldlM_cons]
    congr 1
    ext m'
    exact ih (fun j hj => h j (List.mem_cons_of_mem i hj)) m'

/-- **Code runs from the front**: the first effect, and the rest on what it leaves. -/
theorem exec_cons (m : Machine) (i : Instruction) (code : List Instruction) :
    m.exec (i :: code) = i.effect m >>= fun m' => m'.exec code := List.foldlM_cons

/-- **Code runs in stretches**, one after the other. -/
theorem exec_append (m : Machine) (code code' : List Instruction) :
    m.exec (code ++ code') = m.exec code >>= fun m' => m'.exec code' := List.foldlM_append

/-- **Marks do nothing**, so code runs as if they were not there. -/
theorem exec_mark (m : Machine) {i : Instruction} (hi : i.isMark = true) (code : List Instruction) :
    m.exec (i :: code) = m.exec code := by
  cases i with
  | jump | test | label | comment => rfl
  | _ => cases hi

section Exec

variable {m : Machine} {o : Operand} {c sum : Cell} {r r' : String} (code : List Instruction)

/-- Code behind a load runs with the register filled by what the operand stands for. -/
theorem exec_load (h : o.cell? m = some c) :
    m.exec (.load o r :: code) = (m.setRegister r c).exec code := by
  rw [exec_cons, Instruction.effect, h]
  rfl

/-- A load of a real fills its register in the same way. -/
theorem exec_loadReal (h : o.cell? m = some c) :
    m.exec (.loadReal o r :: code) = (m.setRegister r c).exec code := by
  rw [exec_cons, Instruction.effect, h]
  rfl

/-- Code behind a move runs with the cell filled by what the operand stands for. -/
theorem exec_move (h : o.cell? m = some c) (a : Nat) :
    m.exec (.move o a :: code) = (m.setCell a c).exec code := by
  rw [exec_cons, Instruction.effect, h]
  rfl

/-- Code behind a sum runs with the sum in the register named last. -/
theorem exec_add (h : o.cell? m = some c) (hsum : (m.registers r).add? c = some sum) :
    m.exec (.add o r r' :: code) = (m.setRegister r' sum).exec code := by
  rw [exec_cons, Instruction.effect, h]
  dsimp only
  rw [hsum]
  rfl

/-- **Code stops** at a sum of cells that have none. -/
theorem exec_add_of_none (h : o.cell? m = some c) (hsum : (m.registers r).add? c = none) :
    m.exec (.add o r r' :: code) = .error (.typeMismatch (m.registers r) c) := by
  rw [exec_cons, Instruction.effect, h]
  dsimp only
  rw [hsum]
  rfl

/-- Code behind a store runs with the cell filled from the register. -/
theorem exec_store (m : Machine) (r : String) (a : Nat) :
    m.exec (.store r a :: code) = (m.setCell a (m.registers r)).exec code := rfl

/-- A store of a real fills its cell in the same way. -/
theorem exec_storeReal (m : Machine) (r : String) (a : Nat) :
    m.exec (.storeReal r a :: code) = (m.setCell a (m.registers r)).exec code := rfl

/-- Code behind a text runs with the text in the cell. -/
theorem exec_str (m : Machine) (text : String) (a : Nat) :
    m.exec (.str text a :: code) = (m.setCell a (.str text)).exec code := rfl

end Exec

end Machine

end Enigma
