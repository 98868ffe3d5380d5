import Enigma.Assembly.Optimize
import Enigma.Proofs.Effects

/-!
# Proofs/Passes — what the passes of the optimiser do to lines

Three of the passes cannot be seen by the machine: they drop lines on which it does nothing, or no
line at all.  Joining a load and a store does change what is run, and on well-formed code it is a
matter of instructions: `joinCode` joins the instructions themselves.

* `run_dropUnusedLabels`, `run_dropRedundantJumps`, `dropUnusedAccesses_eq` — the three;
* `execute_optimize_eq` — so a run shows only what dropping repeats and joining moves have done;
* `joinMoves_text` — joining lines is joining instructions;
* `Thins` — code with some of its marks left out; `exists_thins_of_dropRepeats` — that is what
  dropping repeats leaves of lines that repeat only marks.
-/

namespace Enigma

/-! ## Lines that are not missed -/

namespace Machine

theorem run_cons (m : Machine) (line : String) (lines : List String) :
    m.run (line :: lines) = m.step line >>= fun m' => m'.run lines := List.foldlM_cons

theorem run_of_isMark (m : Machine) {line : String} (h : Line.isMark line = true)
    (lines : List String) : m.run (line :: lines) = m.run lines := by
  rw [run_cons, m.step_of_isMark h]
  rfl

theorem run_congr_cons {m : Machine} (line : String) {lines lines' : List String}
    (h : ∀ m' : Machine, m'.run lines = m'.run lines') :
    m.run (line :: lines) = m.run (line :: lines') := by
  rw [run_cons, run_cons]
  congr 1
  ext m'
  exact h m'

/-- **Leaving out marks** does not change a run. -/
theorem run_filter {keep : String → Bool} {lines : List String}
    (h : ∀ line ∈ lines, keep line = false → Line.isMark line = true) (m : Machine) :
    m.run (lines.filter keep) = m.run lines := by
  induction lines generalizing m with
  | nil => rfl
  | cons line lines ih =>
    obtain ⟨hline, hlines⟩ := List.forall_mem_cons.1 h
    cases hkeep : keep line with
    | true =>
      rw [List.filter_cons_of_pos hkeep]
      exact run_congr_cons line (ih hlines)
    | false =>
      rw [List.filter_cons_of_neg (by rw [hkeep]; simp), m.run_of_isMark (hline hkeep)]
      exact ih hlines m

end Machine

namespace Assembly

/-- **Dropping unused labels** does not change a run. -/
theorem run_dropUnusedLabels (m : Machine) (lines : List String) :
    m.run (dropUnusedLabels lines) = m.run lines := by
  refine Machine.run_filter (fun line _ hdrop => ?_) m
  cases hlabel : Line.label? line with
  | none => simp [hlabel] at hdrop
  | some label => simp [Line.isMark, hlabel]

/-- **Dropping redundant jumps** does not change a run. -/
theorem run_dropRedundantJumps (m : Machine) (lines : List String) :
    m.run (dropRedundantJumps lines) = m.run lines := by
  fun_induction dropRedundantJumps lines generalizing m with
  | case1 => rfl
  | case2 => rfl
  | case3 line next rest hjumps ih =>
    have hmark : Line.isMark line = true := by
      unfold jumpsTo at hjumps
      split at hjumps
      · rename_i hsplit _
        simp [Line.isMark, hsplit]
      · cases hjumps
    rw [m.run_of_isMark hmark, ih]
  | case4 line next rest _ ih => exact Machine.run_congr_cons line ih

theorem dropRedundantJumps_sublist (lines : List String) :
    (dropRedundantJumps lines).Sublist lines := by
  fun_induction dropRedundantJumps lines with
  | case1 => exact .slnil
  | case2 line => exact .refl _
  | case3 line next rest _ ih => exact ih.cons line
  | case4 line next rest _ ih => exact ih.cons_cons line

/-- **No access is unused**: each uses its own operand. -/
theorem dropUnusedAccesses_eq (lines : List String) : dropUnusedAccesses lines = lines := by
  unfold dropUnusedAccesses
  refine List.filter_eq_self.2 fun line hline => ?_
  cases hoperand : accessed? line with
  | none => rfl
  | some operand =>
    have hused : operand ∈ lines.filterMap accessed? := List.mem_filterMap.2 ⟨line, hline, hoperand⟩
    simpa using hused

/-- **What the optimiser does**: of its six passes the first and the last change nothing. -/
theorem optimize_eq (lines : List String) :
    optimize lines = dropRedundantJumps (dropUnusedLabels (joinMoves (dropRepeats lines))) :=
  dropUnusedAccesses_eq _

theorem execute_dropUnusedLabels (lines : List String) :
    execute (dropUnusedLabels lines) = execute lines := by
  rw [execute, run_dropUnusedLabels, execute]

theorem execute_dropRedundantJumps (lines : List String) :
    execute (dropRedundantJumps lines) = execute lines := by
  rw [execute, run_dropRedundantJumps, execute]

/-- **Four of the six passes cannot be told from a run.**  Whatever the lines are, each of the four
leaves lines that end as these do, with the same memory or the same error.  The first pass and the
last return every list as it is; what an optimised run can show is up to the two that are left. -/
theorem execute_optimize_eq (lines : List String) :
    execute (foldConstants lines) = execute lines ∧
      execute (dropUnusedLabels lines) = execute lines ∧
      execute (dropRedundantJumps lines) = execute lines ∧
      execute (dropUnusedAccesses lines) = execute lines ∧
      foldConstants lines = lines ∧ dropUnusedAccesses lines = lines ∧
      execute (optimize lines) = execute (joinMoves (dropRepeats lines)) := by
  have hfold : foldConstants lines = lines := rfl
  have haccesses := dropUnusedAccesses_eq lines
  refine ⟨congrArg execute hfold, execute_dropUnusedLabels lines, execute_dropRedundantJumps lines,
    congrArg execute haccesses, hfold, haccesses, ?_⟩
  rw [optimize_eq, execute_dropRedundantJumps, execute_dropUnusedLabels]

end Assembly

/-! ## Joining instructions -/

namespace Instruction

/-- The move that a load and the store of the same register behind it amount to. -/
def joined? : Instruction → Instruction → Option Instruction
  | load source register, store stored address =>
    if register = stored then some (move source address) else none
  | _, _ => none

theorem joined?_eq_some {i j k : Instruction} (h : joined? i j = some k) :
    ∃ source register address, i = load source register ∧ j = store register address ∧
      k = move source address := by
  unfold joined? at h
  split at h
  · split at h
    · rename_i heq
      subst heq
      exact ⟨_, _, _, rfl, rfl, (Option.some.inj h).symm⟩
    · cases h
  · cases h

theorem WellFormed.joined {i j k : Instruction} (hi : i.WellFormed) (hj : j.WellFormed)
    (h : joined? i j = some k) : k.WellFormed := by
  obtain ⟨source, register, address, rfl, rfl, rfl⟩ := joined?_eq_some h
  exact ⟨hi.1, hj.2⟩

theorem WellFormed.split?_text {i : Instruction} (h : i.WellFormed) {l : Line}
    (hl : i.line? = some l) : Line.split? i.text = some l := by
  rw [text_of_line? hl, (h.solid hl).split?_text]

/-- A mark starts with a semicolon, with a word of its own, or with a word that ends in a colon. -/
theorem WellFormed.mnemonic_of_isMark {i : Instruction} (h : i.WellFormed) (hi : i.isMark = true)
    {l : Line} (hl : Line.split? i.text = some l) :
    l.mnemonic ∈ [";", "IF", "JMP"] ∨ l.mnemonic.toList.getLast? = some ':' := by
  cases i with
  | comment text =>
    rw [text_comment, Line.split?_mnemonic (by simp) (by decide)] at hl
    obtain rfl := Option.some.inj hl
    exact .inl (by simp)
  | test condition =>
    rw [text_test, Line.split?_mnemonic (by simp) (by decide)] at hl
    obtain rfl := Option.some.inj hl
    exact .inl (by simp)
  | jump target =>
    rw [text_jump, Line.split?_mnemonic (by simp) (by decide)] at hl
    obtain rfl := Option.some.inj hl
    exact .inl (by simp)
  | label name =>
    have hword : (name.toList ++ [':']).all (!Text.isBlank ·) = true := by
      rw [List.all_append, h]
      decide
    rw [text_label, Line.split?_word (by simp) hword] at hl
    obtain rfl := Option.some.inj hl
    exact .inr (by simp)
  | _ => cases hi

/-- **A line that reads as a load or a store** is one. -/
theorem WellFormed.line?_of_split? {i : Instruction} (h : i.WellFormed) {l : Line}
    (hl : Line.split? i.text = some l) (hmnemonic : l.mnemonic = "LOAD" ∨ l.mnemonic = "STORE") :
    i.line? = some l := by
  cases hi : i.isMark with
  | true =>
    have hmark := h.mnemonic_of_isMark hi hl
    rcases hmnemonic with heq | heq <;> rw [heq] at hmark <;> exact absurd hmark (by decide)
  | false =>
    obtain ⟨l', hl'⟩ : ∃ l', i.line? = some l' := by
      cases i with
      | jump | test | label | comment => cases hi
      | _ => exact ⟨_, rfl⟩
    rw [hl', ← h.split?_text hl', hl]

end Instruction

namespace Assembly

open Instruction

/-- **Joining two lines is joining two instructions.** -/
theorem move?_text {i j : Instruction} (hi : i.WellFormed) (hj : j.WellFormed) :
    move? i.text j.text = (joined? i j).map Instruction.text := by
  unfold move?
  split
  · rename_i source register stored address hfirst hsecond
    have hload := hi.line?_of_split? hfirst (.inl rfl)
    have hstore := hj.line?_of_split? hsecond (.inr rfl)
    obtain ⟨o, rfl, rfl⟩ : ∃ o : Operand, i = .load o register ∧ o.text = source := by
      cases i <;> simp [line?] at hload
      exact ⟨_, by rw [hload.2], hload.1⟩
    obtain ⟨a, rfl, rfl⟩ : ∃ a : Nat, j = .store stored a ∧ toString a = address := by
      cases j <;> simp [line?] at hstore
      exact ⟨_, by rw [hstore.1], hstore.2⟩
    rw [joined?]
    split <;> rfl
  · rename_i hother
    cases hjoined : joined? i j with
    | none => rfl
    | some k =>
      obtain ⟨source, register, address, rfl, rfl, rfl⟩ := joined?_eq_some hjoined
      exact (hother _ _ _ _ (hi.split?_text rfl) (hj.split?_text rfl)).elim

/-- Joins instructions as `joinMoves` joins lines. -/
def joinCode : List Instruction → List Instruction
  | [] => []
  | [i] => [i]
  | i :: j :: rest =>
    match joined? i j with
    | some joined => joined :: joinCode rest
    | none => i :: joinCode (j :: rest)

/-- **Joining lines is joining instructions.** -/
theorem joinMoves_text {code : List Instruction} (h : ∀ i ∈ code, i.WellFormed) :
    joinMoves (code.map Instruction.text) = (joinCode code).map Instruction.text := by
  fun_induction joinCode code with
  | case1 => rfl
  | case2 i => rfl
  | case3 i j rest joined hjoined ih =>
    obtain ⟨hi, hj, hrest⟩ := List.forall_mem_cons.1 h |>.imp_right List.forall_mem_cons.1
    rw [List.map_cons, List.map_cons, joinMoves, move?_text hi hj, hjoined]
    exact congrArg (joined.text :: ·) (ih hrest)
  | case4 i j rest hjoined ih =>
    obtain ⟨hi, htail⟩ := List.forall_mem_cons.1 h
    have hj := htail j (List.mem_cons_self ..)
    rw [List.map_cons, List.map_cons, joinMoves, move?_text hi hj, hjoined]
    exact congrArg (i.text :: ·) (ih htail)

theorem wellFormed_joinCode {code : List Instruction} (h : ∀ i ∈ code, i.WellFormed) :
    ∀ i ∈ joinCode code, i.WellFormed := by
  fun_induction joinCode code with
  | case1 => exact h
  | case2 i => exact h
  | case3 i j rest joined hjoined ih =>
    obtain ⟨hi, hj, hrest⟩ := List.forall_mem_cons.1 h |>.imp_right List.forall_mem_cons.1
    exact List.forall_mem_cons.2 ⟨hi.joined hj hjoined, ih hrest⟩
  | case4 i j rest _ ih =>
    obtain ⟨hi, htail⟩ := List.forall_mem_cons.1 h
    exact List.forall_mem_cons.2 ⟨hi, ih htail⟩

end Assembly

/-! ## Dropping repeats -/

/-- The second code is the first with some of its marks left out. -/
inductive Thins : List Instruction → List Instruction → Prop
  | nil : Thins [] []
  | keep (i : Instruction) {code code' : List Instruction} (h : Thins code code') :
      Thins (i :: code) (i :: code')
  | drop {i : Instruction} (hi : i.isMark = true) {code code' : List Instruction}
      (h : Thins code code') : Thins (i :: code) code'

namespace Thins

variable {code code' code'' : List Instruction}

theorem trans (h : Thins code code') (h' : Thins code' code'') : Thins code code'' := by
  induction h generalizing code'' with
  | nil => exact h'
  | keep i _ ih =>
    cases h' with
    | keep _ h' => exact .keep i (ih h')
    | drop hi h' => exact .drop hi (ih h')
  | drop hi _ ih => exact .drop hi (ih h')

theorem sublist (h : Thins code code') : code'.Sublist code := by
  induction h with
  | nil => exact .slnil
  | keep i _ ih => exact ih.cons_cons i
  | drop _ _ ih => exact ih.cons _

theorem filter {keep : Instruction → Bool} (h : ∀ i ∈ code, keep i = false → i.isMark = true) :
    Thins code (code.filter keep) := by
  induction code with
  | nil => exact .nil
  | cons i code ih =>
    obtain ⟨hi, hcode⟩ := List.forall_mem_cons.1 h
    cases hkeep : keep i with
    | true =>
      rw [List.filter_cons_of_pos hkeep]
      exact .keep i (ih hcode)
    | false =>
      rw [List.filter_cons_of_neg (by simp [hkeep])]
      exact .drop (hi hkeep) (ih hcode)

/-- **Marks are not missed.** -/
theorem exec (h : Thins code code') (m : Machine) : m.exec code' = m.exec code := by
  induction h generalizing m with
  | nil => rfl
  | keep i _ ih =>
    rw [Machine.exec_cons, Machine.exec_cons]
    congr 1
    ext m'
    exact ih m'
  | drop hi _ ih => rw [m.exec_mark hi, ih]

end Thins

/-- **An instruction is a mark if its line is.** -/
theorem Instruction.WellFormed.isMark_text {i : Instruction} (h : i.WellFormed) :
    Line.isMark i.text = i.isMark := by
  cases hi : i.isMark with
  | true => exact Instruction.isMark_text hi
  | false =>
    have hline {l : Line} (hl : i.line? = some l)
        (hmnemonic : (l.mnemonic == "IF" || l.mnemonic == "JMP") = false) :
        Line.isMark i.text = false := by
      have hsolid := h.solid hl
      rw [Line.isMark, h.split?_text hl, text_of_line? hl, hsolid.isComment_text,
        hsolid.label?_text]
      exact hmnemonic
    cases i with
    | jump | test | label | comment => cases hi
    | _ => exact hline rfl (by simp)

/-- **Dropping repeats thins code** whose lines repeat only marks: each line drops its repeats from
the rest, and what that leaves is treated alike. -/
theorem exists_thins_of_dropRepeats : ∀ {code : List Instruction}, (∀ i ∈ code, i.WellFormed) →
    ((code.map Instruction.text).filter (!Line.isMark ·)).Nodup →
    ∃ code', Thins code code' ∧
      Assembly.dropRepeats (code.map Instruction.text) = code'.map Instruction.text
  | [], _, _ => ⟨[], .nil, rfl⟩
  | i :: code, hw, h => by
    obtain ⟨hi, hcode⟩ := List.forall_mem_cons.1 hw
    have hthins : Thins code (code.filter fun j => j.text != i.text) := by
      refine .filter fun j hj hdrop => ?_
      have heq : j.text = i.text := by simpa using hdrop
      cases hmark : j.isMark with
      | true => rfl
      | false =>
        have hkeep : Line.isMark i.text = false := by rw [← heq, (hcode j hj).isMark_text, hmark]
        have hmem : i.text ∈ code.map Instruction.text := heq ▸ List.mem_map_of_mem hj
        rw [List.map_cons, List.filter_cons_of_pos (p := (!Line.isMark ·)) (by simp [hkeep])] at h
        exact absurd (List.mem_filter.2 ⟨hmem, by simp [hkeep]⟩) (List.nodup_cons.1 h).1
    have hsublist := hthins.sublist
    obtain ⟨code', hcode', heq⟩ := exists_thins_of_dropRepeats
      (fun j hj => hcode j (hsublist.subset hj)) (h.sublist (((hsublist.cons i).map _).filter _))
    refine ⟨i :: code', .keep i (hthins.trans hcode'), ?_⟩
    rw [Assembly.dropRepeats] at heq ⊢
    rw [List.map_cons, List.map_cons, List.eraseDups_cons, ← heq, List.filter_map]
    rfl
termination_by code => code.length
decreasing_by exact Nat.lt_succ_of_le (List.length_filter_le _ _)

end Enigma
