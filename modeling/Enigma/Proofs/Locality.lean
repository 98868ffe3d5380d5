import Enigma.Proofs.InPlace
import Enigma.Proofs.Joining
import Enigma.Proofs.Lifetimes

/-!
# Proofs/Locality — a line makes one write, or none

A line of assembly looks at its operands, checks them, and only then writes: one register or one
cell.  So a line that cannot be run leaves the machine as it was, even if it is run in place, where
nothing takes back what was written.  And all that it looks at are the registers and the cells that
its operands name, so that on two machines that agree on these it makes the same write.

* `Write` — what a line does to a machine;
* `InPlace.step` — a line run in place: what is written stays written if an error follows;
* `AgreeOn` — machines that agree on what operands name; `AgreeOn.value` — they read the same;
* `SameWrite` — a line comes to the same on two machines: `AgreeOn.perform`, `AgreeOn.step`;
* `Machine.step_makes_one_write` — what follows for a single line.
-/

namespace Enigma

/-! ## Writes -/

/-- What a line does to a machine. -/
inductive Write
  | nothing
  | register (name : String) (c : Cell)
  | cell (address : Nat) (c : Cell)

/-- The machine behind a write. -/
def Write.on : Write → Machine → Machine
  | nothing, m => m
  | register name c, m => m.setRegister name c
  | cell address c, m => m.setCell address c

/-- At most one register or at most one cell is different, and never one of each. -/
def ChangesOne (m m' : Machine) : Prop :=
  (m'.memory = m.memory ∧ ∃ r, ∀ x, x ≠ r → m'.registers x = m.registers x) ∨
    m'.registers = m.registers ∧ ∃ a : Nat, ∀ x : Nat, x ≠ a → m'.memory[x]? = m.memory[x]?

/-- **A write changes one thing at most.** -/
theorem Write.changesOne (w : Write) (m : Machine) : ChangesOne m (w.on m) := by
  cases w with
  | nothing => exact .inl ⟨rfl, "", fun _ _ => rfl⟩
  | register name c => exact .inl ⟨rfl, name, fun x hx => if_neg hx⟩
  | cell address c =>
    refine .inr ⟨rfl, address, fun x hx => ?_⟩
    rw [Write.on, Machine.memory_setCell, Memory.getElem?_write, if_neg (Ne.symm hx)]

/-! ## Lines in place

The operations of the machine once more, in the order in which they look, check and write.  Here an
error does not bring back the machine there was before. -/

namespace InPlace

/-- Work on a machine. -/
abbrev OnMachine := InPlace ExecutionError Machine Unit

/-- Writes. -/
def write (w : Write) : OnMachine := change w.on

def load (line source dest : String) : OnMachine := do
  let c ← look (·.value line source)
  let r ← check (Machine.register line dest)
  write (.register r c)

def store (line source dest : String) : OnMachine := do
  let r ← check (Machine.register line source)
  let c ← look fun m => .ok (m.registers r)
  let a ← check (Machine.address line dest)
  write (.cell a c)

def storeText (line quoted dest : String) : OnMachine := do
  let text ← check <| match between? '"' '"' quoted with
    | some text => .ok text
    | none => .error (Machine.invalid quoted line)
  let a ← check (Machine.address line dest)
  write (.cell a (.str text))

def move (line source dest : String) : OnMachine := do
  let c ← look (·.value line source)
  let a ← check (Machine.address line dest)
  write (.cell a c)

def add (line operand source dest : String) : OnMachine := do
  let r ← check (Machine.register line source)
  let left ← look fun m => .ok (m.registers r)
  let right ← look (·.value line operand)
  let sum ← check <| match left.add? right with
    | some sum => .ok sum
    | none => .error (.typeMismatch left right)
  let r ← check (Machine.register line dest)
  write (.register r sum)

/-- What an instruction does in place, by its mnemonic. -/
def perform (line mnemonic : String) (operands : List String) : OnMachine :=
  let malformed := check (.error (.malformed (Text.trimmed line)))
  if mnemonic = "IF" ∨ mnemonic = "JMP" then write .nothing
  else if mnemonic = "LOAD" ∨ mnemonic = "FLOAD" then
    match operands with
    | [source, dest] => load line source dest
    | _ => malformed
  else if mnemonic = "STORE" ∨ mnemonic = "FSTORE" then
    match operands with
    | [source, dest] => store line source dest
    | _ => malformed
  else if mnemonic = "STR" then
    match operands with
    | [quoted, dest] => storeText line quoted dest
    | _ => malformed
  else if mnemonic = "MOV" then
    match operands with
    | [source, dest] => move line source dest
    | _ => malformed
  else if mnemonic = "ADD" then
    match operands with
    | [operand, source, dest] => add line operand source dest
    | _ => malformed
  else check (.error (.unknownInstruction (Text.trimmed line)))

/-- Runs one line in place. -/
def step (line : String) : OnMachine :=
  if Line.isComment line || (Line.label? line).isSome then write .nothing
  else
    match Line.split? line with
    | some ⟨mnemonic, operands⟩ => perform line mnemonic operands
    | none => write .nothing

end InPlace

/-! ## What operands name -/

/-- The operands of a line. -/
def Line.operandsIn (line : String) : List String := ((split? line).map Line.operands).getD []

/-- Two machines agree on the registers and the cells that operands name. -/
structure AgreeOn (operands : List String) (m n : Machine) : Prop where
  registers : ∀ r ∈ operands, isRegister r = true → n.registers r = m.registers r
  cells : ∀ o ∈ operands, ∀ a ∈ Line.bracketed? o, n.memory.read a = m.memory.read a

/-- **An operand reads the same** on machines that agree on what it names. -/
theorem AgreeOn.value {operands : List String} {m n : Machine} (h : AgreeOn operands m n)
    {operand : String} (ho : operand ∈ operands) (line : String) :
    n.value line operand = m.value line operand := by
  unfold Machine.value
  cases hbracket : between? '[' ']' operand with
  | some inner =>
    dsimp only
    unfold Machine.address
    cases haddress : Number.address? (Text.trim inner.toList) with
    | none => rfl
    | some a =>
      have hcell : Line.bracketed? operand = some a := by
        rw [Line.bracketed?, hbracket, Option.bind_some, haddress]
      exact congrArg Except.ok (h.cells operand ho a hcell)
  | none =>
    cases between? '"' '"' operand with
    | some text => rfl
    | none =>
      dsimp only
      split
      · rename_i hregister
        rw [h.registers operand ho hregister]
      · rfl

/-! ## Lines on two machines -/

/-- A line comes to the same on two machines: run in place on the first, and run on both.  It is
refused with one error, and the machine in place is as it was; or it makes one write. -/
inductive SameWrite (m n : Machine) : Except ExecutionError Unit × Machine →
    Except ExecutionError Machine → Except ExecutionError Machine → Prop
  | refused (e : ExecutionError) : SameWrite m n (.error e, m) (.error e) (.error e)
  | made (w : Write) : SameWrite m n (.ok (), w.on m) (.ok (w.on m)) (.ok (w.on n))

namespace SameWrite

variable {m n : Machine}

/-- Both runs fail in the same way and change nothing, or both make the same write. -/
theorem cases {done : Except ExecutionError Unit × Machine} {x y : Except ExecutionError Machine}
    (h : SameWrite m n done x y) :
    (∃ e, done = (.error e, m) ∧ x = .error e ∧ y = .error e) ∨
      ∃ w : Write, done = (.ok (), w.on m) ∧ x = .ok (w.on m) ∧ y = .ok (w.on n) := by
  cases h with
  | refused e => exact .inl ⟨e, rfl, rfl, rfl⟩
  | made w => exact .inr ⟨w, rfl, rfl, rfl⟩

/-- **Looking first** changes nothing, if both machines show the same. -/
theorem look {α : Type} {f : Machine → Except ExecutionError α} {work : α → InPlace.OnMachine}
    {g h : α → Except ExecutionError Machine} (hf : f n = f m)
    (hrest : ∀ a, f m = .ok a → SameWrite m n (work a m) (g a) (h a)) :
    SameWrite m n ((InPlace.look f >>= work) m) (f m >>= g) (f n >>= h) := by
  rw [InPlace.look_bind, hf]
  cases hm : f m with
  | error e => exact .refused e
  | ok a => exact hrest a hm

/-- A check that fails, fails on both machines and changes neither. -/
theorem check {α : Type} {x : Except ExecutionError α} {work : α → InPlace.OnMachine}
    {g h : α → Except ExecutionError Machine}
    (hrest : ∀ a, x = .ok a → SameWrite m n (work a m) (g a) (h a)) :
    SameWrite m n ((InPlace.check x >>= work) m) (x >>= g) (x >>= h) :=
  look rfl hrest

/-- **A test of the line itself** goes the same way in place and on both machines. -/
theorem ite {p : Prop} [Decidable p] {work work' : InPlace.OnMachine}
    {x x' y y' : Except ExecutionError Machine} (h : SameWrite m n (work m) x y)
    (h' : SameWrite m n (work' m) x' y') :
    SameWrite m n ((if p then work else work') m) (if p then x else x') (if p then y else y') := by
  by_cases hp : p
  · simpa only [if_pos hp] using h
  · simpa only [if_neg hp] using h'

/-- **An instruction of two operands** is refused with any other number of them. -/
theorem ofPair (operands : List String) (e : ExecutionError)
    {work : String → String → InPlace.OnMachine}
    {f g : String → String → Except ExecutionError Machine} :
    (∀ x y, operands = [x, y] → SameWrite m n (work x y m) (f x y) (g x y)) →
    SameWrite m n
      ((match operands with
        | [x, y] => work x y
        | _ => InPlace.check (.error e)) m)
      (match operands with
        | [x, y] => f x y
        | _ => .error e)
      (match operands with
        | [x, y] => g x y
        | _ => .error e) := by
  intro h
  rcases operands with _ | ⟨x, _ | ⟨y, _ | ⟨z, rest⟩⟩⟩
  case cons.cons.nil => exact h x y rfl
  all_goals exact .refused e

theorem ofTriple (operands : List String) (e : ExecutionError)
    {work : String → String → String → InPlace.OnMachine}
    {f g : String → String → String → Except ExecutionError Machine} :
    (∀ x y z, operands = [x, y, z] → SameWrite m n (work x y z m) (f x y z) (g x y z)) →
    SameWrite m n
      ((match operands with
        | [x, y, z] => work x y z
        | _ => InPlace.check (.error e)) m)
      (match operands with
        | [x, y, z] => f x y z
        | _ => .error e)
      (match operands with
        | [x, y, z] => g x y z
        | _ => .error e) := by
  intro h
  rcases operands with _ | ⟨x, _ | ⟨y, _ | ⟨z, _ | ⟨w, rest⟩⟩⟩⟩
  case cons.cons.cons.nil => exact h x y z rfl
  all_goals exact .refused e

end SameWrite

/-! ## The operations -/

theorem SameWrite.storeText {m n : Machine} (line quoted dest : String) :
    SameWrite m n (InPlace.storeText line quoted dest m) (m.storeText line quoted dest)
      (n.storeText line quoted dest) := by
  unfold InPlace.storeText Machine.storeText
  cases between? '"' '"' quoted with
  | none => exact .refused _
  | some text => exact .check fun a _ => .made (.cell a (.str text))

namespace AgreeOn

variable {operands : List String} {m n : Machine} (h : AgreeOn operands m n) (line : String)

include h

/-- A register that an operand names holds the same. -/
theorem register {operand r : String} (ho : operand ∈ operands)
    (hr : Machine.register line operand = .ok r) : n.registers r = m.registers r := by
  obtain ⟨hregister, rfl⟩ := Machine.register_eq_ok_iff.1 hr
  exact h.registers _ ho hregister

theorem load {source : String} (hs : source ∈ operands) (dest : String) :
    SameWrite m n (InPlace.load line source dest m) (m.load line source dest)
      (n.load line source dest) :=
  .look (f := (·.value line source)) (h.value hs line) fun c _ =>
    .check fun r _ => .made (.register r c)

theorem store {source : String} (hs : source ∈ operands) (dest : String) :
    SameWrite m n (InPlace.store line source dest m) (m.store line source dest)
      (n.store line source dest) := by
  refine .check fun r hr => ?_
  rw [h.register line hs hr]
  exact .check fun a _ => .made (.cell a (m.registers r))

theorem move {source : String} (hs : source ∈ operands) (dest : String) :
    SameWrite m n (InPlace.move line source dest m) (m.move line source dest)
      (n.move line source dest) :=
  .look (f := (·.value line source)) (h.value hs line) fun c _ =>
    .check fun a _ => .made (.cell a c)

theorem add {operand source : String} (ho : operand ∈ operands) (hs : source ∈ operands)
    (dest : String) :
    SameWrite m n (InPlace.add line operand source dest m) (m.add line operand source dest)
      (n.add line operand source dest) := by
  have hadd (x : Machine) : x.add line operand source dest
      = Machine.register line source >>= fun r => x.value line operand >>= fun right =>
          match (x.registers r).add? right with
          | some sum => Machine.register line dest >>= fun d => pure (x.setRegister d sum)
          | none => .error (.typeMismatch (x.registers r) right) := by
    unfold Machine.add
    cases Machine.register line source <;> rfl
  rw [hadd, hadd]
  refine .check fun r hr => ?_
  rw [h.register line hs hr]
  refine .look (f := (·.value line operand)) (h.value ho line) fun right _ => ?_
  cases (m.registers r).add? right with
  | none => exact .refused _
  | some sum => exact .check fun d _ => .made (.register d sum)

/-- **An instruction comes to the same** on machines that agree on what its operands name. -/
theorem perform (mnemonic : String) :
    SameWrite m n (InPlace.perform line mnemonic operands m) (m.perform line mnemonic operands)
      (n.perform line mnemonic operands) := by
  unfold InPlace.perform Machine.perform
  refine .ite (.made .nothing) (.ite ?_ (.ite ?_ (.ite ?_ (.ite ?_ (.ite ?_ (.refused _))))))
  · refine .ofPair operands _ fun x y ho => ?_
    exact h.load line (by simp [ho]) y
  · refine .ofPair operands _ fun x y ho => ?_
    exact h.store line (by simp [ho]) y
  · exact .ofPair operands _ fun x y _ => .storeText line x y
  · refine .ofPair operands _ fun x y ho => ?_
    exact h.move line (by simp [ho]) y
  · refine .ofTriple operands _ fun x y z ho => ?_
    exact h.add line (by simp [ho]) (by simp [ho]) z

end AgreeOn

/-- **A line comes to the same** on machines that agree on what its operands name. -/
theorem AgreeOn.step {m n : Machine} {line : String} (h : AgreeOn (Line.operandsIn line) m n) :
    SameWrite m n (InPlace.step line m) (m.step line) (n.step line) := by
  unfold InPlace.step Machine.step
  split
  · exact .made .nothing
  · cases hsplit : Line.split? line with
    | none => exact .made .nothing
    | some l =>
      rw [Line.operandsIn, hsplit] at h
      exact h.perform line l.mnemonic

/-- **A line makes one write, or none.**  Run in place, a line that is refused leaves every register
and every cell as it was, and one that is taken changes at most one register or at most one cell.
And on any other machine that has the same in the registers and cells that the operands of the line
name, the line is refused with the same error or makes the same write. -/
theorem Machine.step_makes_one_write (m : Machine) (line : String) :
    (∀ e, (InPlace.step line m).1 = .error e →
      m.step line = .error e ∧ (InPlace.step line m).2 = m) ∧
    ((InPlace.step line m).1 = .ok () →
      m.step line = .ok (InPlace.step line m).2 ∧ ChangesOne m (InPlace.step line m).2) ∧
    ∀ n, AgreeOn (Line.operandsIn line) m n →
      (∃ e, m.step line = .error e ∧ n.step line = .error e) ∨
        ∃ w : Write, m.step line = .ok (w.on m) ∧ n.step line = .ok (w.on n) := by
  have hself : AgreeOn (Line.operandsIn line) m m := ⟨fun _ _ _ => rfl, fun _ _ _ _ => rfl⟩
  refine ⟨fun e he => ?_, fun hok => ?_, fun n hn => ?_⟩
  · obtain ⟨e', hdone, hstep, -⟩ | ⟨w, hdone, -, -⟩ := hself.step.cases <;> rw [hdone] at he ⊢
    · obtain rfl := Except.error.inj he
      exact ⟨hstep, rfl⟩
    · cases he
  · obtain ⟨e, hdone, -, -⟩ | ⟨w, hdone, hstep, -⟩ := hself.step.cases <;> rw [hdone] at hok ⊢
    · cases hok
    · exact ⟨hstep, w.changesOne m⟩
  · obtain ⟨e, -, hm, hn⟩ | ⟨w, -, hm, hn⟩ := hn.step.cases
    · exact .inl ⟨e, hm, hn⟩
    · exact .inr ⟨w, hm, hn⟩

end Enigma
