import Enigma.Proofs.Layout
import Enigma.Proofs.Passes
import Mathlib.Data.List.Chain

/-!
# Proofs/Joining — the move that stands for a load and a store

A load and the store behind it are any two lines that split that way: blanks and empty operands may
stand in them, commas between quotes, a quote that is never closed, and a colon that makes a line a
label.  Operands that came out of a line go back into one (`Line.row_of_split?`), so the move that
is written from them is taken apart as it was put together.

* `plain_move` — the move splits into the operands it was written from;
* `step_move` — where the load and the store can be run so can it, and it leaves the same memory;
* `isChain_joinMoves` — a sweep leaves no pair behind;
* `joinMoves_sound_and_complete` — all of it, for any lines.
-/

namespace Enigma

namespace Line

/-! ## Operands that came out of a line -/

theorem pass?_blank {s : List Char} (h : s.all Text.isBlank = true) (quoted : Bool) :
    pass? quoted s = some quoted := by
  refine pass?_eq_self fun c hc => ?_
  have hblank := List.all_eq_true.1 h c hc
  constructor
  · rintro rfl
    exact absurd hblank (by decide)
  · rintro rfl
    exact absurd hblank (by decide)

theorem pass?_trim (s : List Char) (quoted : Bool) :
    pass? quoted (Text.trim s) = pass? quoted s := by
  obtain ⟨l, r, hs, hl, hr⟩ := Text.exists_blanks_trim s
  conv => rhs; rw [hs, pass?_append, pass?_blank hl, Option.bind_some, pass?_append]
  cases pass? quoted (Text.trim s) with
  | none => rfl
  | some quoted' => exact (pass?_blank hr quoted').symm

/-- **Where a text is cut**: nowhere, or first at a comma behind text that is not. -/
theorem cutAtCommas_cases (quoted : Bool) (s : List Char) :
    (∃ quoted', pass? quoted s = some quoted' ∧ cutAtCommas quoted s = [s]) ∨
      ∃ p rest, s = p ++ ',' :: rest ∧ pass? quoted p = some false ∧
        cutAtCommas quoted s = p :: cutAtCommas false rest := by
  induction s generalizing quoted with
  | nil => exact .inl ⟨quoted, rfl, rfl⟩
  | cons c s ih =>
    rw [cutAtCommas, pass?]
    split
    · rename_i hcomma
      simp only [Bool.and_eq_true, beq_iff_eq, Bool.not_eq_true'] at hcomma
      obtain ⟨rfl, rfl⟩ := hcomma
      exact .inr ⟨[], s, rfl, rfl, rfl⟩
    · rename_i hcomma
      rcases ih (if c == '"' then !quoted else quoted) with
        ⟨quoted', hpass, hcut⟩ | ⟨p, rest, hs, hpass, hcut⟩
      · exact .inl ⟨quoted', hpass, by rw [hcut]; rfl⟩
      · refine .inr ⟨c :: p, rest, by rw [hs]; rfl, ?_, by rw [hcut]; rfl⟩
        rw [pass?, if_neg hcomma, hpass]

/-- The texts of the operands, before they are strings. -/
def parts (s : List Char) : List (List Char) :=
  ((cutAtCommas false s).map Text.trim).filter (!·.isEmpty)

/-- **Operands go back into a line**: those of any text are a row, unless there are none. -/
theorem row_parts (s : List Char) : parts s = [] ∨ Row (parts s) := by
  rcases cutAtCommas_cases false s with ⟨quoted, hpass, hcut⟩ | ⟨p, rest, hs, hpass, hcut⟩
  · rw [parts, hcut, List.map_singleton]
    by_cases hne : Text.trim s = []
    · exact .inl (by simp [hne])
    · refine .inr ?_
      rw [List.filter_cons_of_pos (by simpa using hne)]
      exact .last (Text.isTrimmed_trim hne) ((pass?_trim s false).trans hpass)
  · have hparts : parts s = [Text.trim p].filter (!·.isEmpty) ++ parts rest := by
      rw [parts, hcut, List.map_cons, parts, ← List.filter_append, List.singleton_append]
    have hrest := row_parts rest
    rw [hparts]
    by_cases hne : Text.trim p = []
    · simpa [hne] using hrest
    · rw [List.filter_cons_of_pos (by simpa using hne), List.filter_nil, List.singleton_append]
      have ht := Text.isTrimmed_trim hne
      have hclosed := (pass?_trim p false).trans hpass
      refine .inr ?_
      rcases hrest with hnil | hrow
      · rw [hnil]
        exact .last ht hclosed
      · exact .cons ht hclosed hrow
termination_by s.length
decreasing_by simp [hs]; omega

theorem row_of_operandsOf {s : List Char} {ops : List String} (hne : ops ≠ [])
    (h : operandsOf s = ops) : Row (ops.map String.toList) := by
  have hparts : ops.map String.toList = parts s := by
    rw [← h, operandsOf, List.map_map]
    exact (List.map_congr_left fun p _ => String.toList_ofList).trans (List.map_id _)
  rw [hparts]
  refine (row_parts s).resolve_left ?_
  rw [← hparts]
  simpa using hne

/-- A character that does not divide goes to the last piece. -/
theorem cutAtCommas_concat {c : Char} (hc : c ≠ ',') (quoted : Bool) (s : List Char) :
    ∃ ps p, cutAtCommas quoted (s ++ [c]) = ps ++ [p ++ [c]] := by
  induction s generalizing quoted with
  | nil => exact ⟨[], [], by rw [List.nil_append, cutAtCommas, if_neg (by simp [hc])]; rfl⟩
  | cons x s ih =>
    rw [List.cons_append, cutAtCommas]
    split
    · obtain ⟨ps, p, h⟩ := ih quoted
      exact ⟨[] :: ps, p, by rw [h]; rfl⟩
    · obtain ⟨ps, p, h⟩ := ih (if x == '"' then !quoted else quoted)
      rw [h]
      cases ps with
      | nil => exact ⟨[], x :: p, rfl⟩
      | cons p' ps => exact ⟨(x :: p') :: ps, p, rfl⟩

/-- What a text ends with, its last operand ends with. -/
theorem operandsOf_concat {c : Char} (hblank : Text.isBlank c = false) (hc : c ≠ ',')
    (s : List Char) : ∃ ops p, operandsOf (s ++ [c]) = ops ++ [String.ofList (p ++ [c])] := by
  obtain ⟨ps, p, h⟩ := cutAtCommas_concat hc false s
  rw [operandsOf, h, List.map_append, List.map_singleton, Text.trim_concat hblank,
    List.filter_append, List.filter_cons_of_pos (by simp), List.map_append]
  exact ⟨_, _, rfl⟩

/-! ## Lines that are taken apart -/

/-- **The last operand of a label** ends with the colon. -/
theorem getLast?_of_label? {line operand : String} {l : Line} (h : split? line = some l)
    (hoperand : l.operands.getLast? = some operand) (hlabel : (label? line).isSome = true) :
    operand.toList.getLast? = some ':' := by
  obtain ⟨rest, htrim, -, hops⟩ := exists_of_split? h
  have hcomment : isComment line = false := by
    refine eq_false_of_ne_true fun hcomment => ?_
    rw [label?, hcomment] at hlabel
    cases hlabel
  rw [isSome_label? hcomment, beq_iff_eq, htrim, ← List.take_append_drop 1 rest,
    ← List.append_assoc, List.getLast?_append] at hlabel
  -- there are operands, so the colon stands among them
  rcases List.eq_nil_or_concat (rest.drop 1) with hnil | ⟨s, c, hs⟩
  · rw [hops, hnil] at hoperand
    cases hoperand
  · rw [List.concat_eq_append] at hs
    rw [hs, List.getLast?_concat, Option.some_or] at hlabel
    obtain rfl := Option.some.inj hlabel
    obtain ⟨ops, p, hconcat⟩ := operandsOf_concat (c := ':') (by decide) (by decide) s
    rw [hops, hs, hconcat, List.getLast?_concat] at hoperand
    rw [← Option.some.inj hoperand, String.toList_ofList, List.getLast?_concat]

theorem row_of_split? {line word : String} {ops : List String} (h : split? line = some ⟨word, ops⟩)
    (hne : ops ≠ []) : Row (ops.map String.toList) := by
  obtain ⟨rest, -, -, hops⟩ := exists_of_split? h
  exact row_of_operandsOf hne hops.symm

end Line

/-! ## What a line that can be run says -/

/-- An address ends with a digit, and so with no colon. -/
theorem Number.getLast?_of_address? {s : List Char} {n : Nat} (h : address? s = some n) :
    s.getLast? ≠ some ':' := by
  intro hcolon
  have hnatural {ds : List Char} (hds : (natural? ds).filter (· < addressLimit) = some n) :
      ds ≠ [] ∧ ds.getLast? ≠ some ':' := by
    obtain ⟨hvalue, -⟩ := Option.filter_eq_some_iff.1 hds
    unfold natural? at hvalue
    split at hvalue
    · rename_i hdigits
      obtain ⟨hne, hall⟩ := Bool.and_eq_true_iff.1 hdigits
      refine ⟨by simpa using hne, fun hlast => ?_⟩
      exact absurd (List.all_eq_true.1 hall _ (List.mem_of_getLast? hlast)) (by decide)
    · cases hvalue
  unfold address? at h
  split at h
  · rename_i ds
    obtain ⟨hne, hlast⟩ := hnatural h
    rw [List.getLast?_cons, List.getLast?_eq_some_getLast hne, Option.getD_some,
      ← List.getLast?_eq_some_getLast hne] at hcolon
    exact hlast hcolon
  · exact (hnatural h).2 hcolon

namespace Machine

variable {m m' : Machine} {line line' operand source dest : String}

theorem address_eq_ok_iff {n : Nat} :
    address line operand = .ok n ↔ Number.address? (Text.trim operand.toList) = some n := by
  rw [address]
  cases Number.address? (Text.trim operand.toList) <;> simp

/-- **A value does not depend on the line** that an error would quote. -/
theorem value_of_ok {c : Cell} :
    m.value line operand = .ok c → m.value line' operand = .ok c := by
  rw [value, value]
  cases between? '[' ']' operand with
  | some inner =>
    dsimp only
    intro h
    cases hinner : address line inner with
    | error e => rw [hinner] at h; cases h
    | ok n => rw [← h, hinner, address_eq_ok_iff.2 (address_eq_ok_iff.1 hinner)]
  | none =>
    cases between? '"' '"' operand with
    | some text => exact id
    | none =>
      dsimp only
      split
      · exact id
      · cases Number.int64? operand with
        | some n => exact id
        | none =>
          cases Number.real? operand with
          | some x => exact id
          | none => intro h; cases h

theorem register_eq_ok_iff {r : String} :
    register line operand = .ok r ↔ isRegister operand = true ∧ operand = r := by
  rw [register]
  split <;> simp_all

theorem load_eq_ok_iff : m.load line source dest = .ok m' ↔
    ∃ c, m.value line source = .ok c ∧ isRegister dest = true ∧ m.setRegister dest c = m' := by
  simp [load, bind_eq_ok_iff, register_eq_ok_iff, pure, Except.pure, and_assoc]

theorem store_eq_ok_iff : m.store line source dest = .ok m' ↔
    isRegister source = true ∧ ∃ n, Number.address? (Text.trim dest.toList) = some n ∧
      m.setCell n (m.registers source) = m' := by
  simp [store, bind_eq_ok_iff, register_eq_ok_iff, address_eq_ok_iff, pure, Except.pure, and_assoc]

theorem move_eq_ok_iff : m.move line source dest = .ok m' ↔
    ∃ c, m.value line source = .ok c ∧ ∃ n, Number.address? (Text.trim dest.toList) = some n ∧
      m.setCell n c = m' := by
  simp [move, bind_eq_ok_iff, address_eq_ok_iff, pure, Except.pure]

/-- What a line that is no comment does is up to whether it is a label. -/
theorem step_of_split? (m : Machine) {l : Line} (h : Line.split? line = some l)
    (hword : l.mnemonic.toList.head? ≠ some ';') :
    m.step line = if (Line.label? line).isSome then .ok m
      else m.perform line l.mnemonic l.operands := by
  have hcomment : Line.isComment line = false := by
    rw [Line.isComment_of_split? h]
    simpa using hword
  rw [step, hcomment, Bool.false_or, h]

end Machine

/-! ## The move -/

namespace Assembly

variable {a b move : String}

theorem move?_eq_some_iff : move? a b = some move ↔ ∃ x r y,
    Line.split? a = some ⟨"LOAD", [x, r]⟩ ∧ Line.split? b = some ⟨"STORE", [r, y]⟩ ∧
      (Line.mk "MOV" [x, y]).text = move := by
  have htext (x y : String) : (Line.mk "MOV" [x, y]).text = "MOV " ++ x ++ ", " ++ y := by
    rw [← String.toList_inj]
    simp [Line.text, Line.joined]
  constructor
  · intro h
    unfold move? at h
    split at h
    · rename_i x r s y ha hb
      split at h
      · rename_i hrs
        subst hrs
        exact ⟨x, r, y, ha, hb, (htext x y).trans (Option.some.inj h)⟩
      · cases h
    · cases h
  · rintro ⟨x, r, y, ha, hb, rfl⟩
    rw [move?, ha, hb, htext]
    exact if_pos rfl

/-- **The move is a plain line**: its operands came out of lines. -/
theorem plain_move {x r y : String} (ha : Line.split? a = some ⟨"LOAD", [x, r]⟩)
    (hb : Line.split? b = some ⟨"STORE", [r, y]⟩) : (Line.mk "MOV" [x, y]).Plain where
  mnemonic_ne := show "MOV".toList ≠ [] by decide
  mnemonic := show "MOV".toList.all (!Text.isBlank ·) = true by decide
  row := by
    -- behind the first operand of a line no quote is open, and the second starts with none open
    cases Line.row_of_split? ha (List.cons_ne_nil _ _) with
    | cons htx hx _ =>
      cases Line.row_of_split? hb (List.cons_ne_nil _ _) with
      | cons _ _ hy => exact .cons htx hx hy

/-- The move defines a label if its last operand ends with a colon. -/
theorem isSome_label?_move {x y : String} (h : (Line.mk "MOV" [x, y]).Plain) :
    (Line.label? (Line.mk "MOV" [x, y]).text).isSome = (y.toList.getLast? == some ':') := by
  have hcomment : Line.isComment (Line.mk "MOV" [x, y]).text = false := by
    rw [Line.isComment_of_split? h.split?_text]
    exact show ("MOV".toList.head? == some ';') = false by decide
  obtain ⟨s, c, hs, hc, -, -, hlast⟩ := h.getLast?_text
  obtain rfl : y = s := Option.some.inj hs
  rw [Line.isSome_label? hcomment, h.isTrimmed_text.trim_eq, hlast, hc]

/-- A load leaves the memory as it is, and is a label or fills a register. -/
theorem step_load {x r : String} (ha : Line.split? a = some ⟨"LOAD", [x, r]⟩) {m m₁ : Machine}
    (h : m.step a = .ok m₁) : m₁.memory = m.memory ∧
      (isRegister r = true → ∃ c, m.value a x = .ok c ∧ m.setRegister r c = m₁) := by
  rw [m.step_of_split? ha (show "LOAD".toList.head? ≠ some ';' by decide)] at h
  split at h <;> rename_i hlabel
  · obtain rfl := Except.ok.inj h
    refine ⟨rfl, fun hr => ?_⟩
    -- a label ends with a colon, and no register does
    have hcolon := Line.getLast?_of_label? ha rfl hlabel
    exact absurd rfl ((isOperand_of_isRegister hr).ends.2 ':' hcolon).2
  · obtain ⟨c, hc, -, rfl⟩ := Machine.load_eq_ok_iff.1 h
    exact ⟨rfl, fun _ => ⟨c, hc, rfl⟩⟩

/-- **The move does what the load and the store do** where both can be run, and leaves the registers
as they are. -/
theorem step_move {x r y : String} (ha : Line.split? a = some ⟨"LOAD", [x, r]⟩)
    (hb : Line.split? b = some ⟨"STORE", [r, y]⟩) {m m₁ m₂ : Machine} (h₁ : m.step a = .ok m₁)
    (h₂ : m₁.step b = .ok m₂) :
    m.step (Line.mk "MOV" [x, y]).text = .ok ⟨m.registers, m₂.memory⟩ := by
  have hplain := plain_move ha hb
  obtain ⟨hmemory, hload⟩ := step_load ha h₁
  rw [m₁.step_of_split? hb (show "STORE".toList.head? ≠ some ';' by decide)] at h₂
  rw [m.step_of_split? hplain.split?_text (show "MOV".toList.head? ≠ some ';' by decide),
    isSome_label?_move hplain]
  split at h₂ <;> rename_i hlabel
  · -- the store is a label, so the move is one too
    obtain rfl := Except.ok.inj h₂
    rw [if_pos (by simpa using Line.getLast?_of_label? hb rfl hlabel), hmemory]
  · obtain ⟨hr, n, hn, rfl⟩ := Machine.store_eq_ok_iff.1 h₂
    obtain ⟨c, hc, rfl⟩ := hload hr
    have htrim : Text.trim y.toList = y.toList :=
      (hplain.row.isTrimmed y.toList (by simp)).trim_eq
    have hcolon := Number.getLast?_of_address? (htrim ▸ hn)
    rw [if_neg (by simpa using hcolon)]
    refine Machine.move_eq_ok_iff.2 ⟨c, Machine.value_of_ok hc, n, hn, ?_⟩
    rw [Machine.setCell, Machine.memory_setCell, Machine.memory_setRegister,
      Machine.registers_setRegister, if_pos rfl]

/-! ## The sweep -/

/-- A move is neither half of a pair. -/
theorem move?_move {x y : String} (h : (Line.mk "MOV" [x, y]).Plain) (line : String) :
    move? (Line.mk "MOV" [x, y]).text line = none ∧
      move? line (Line.mk "MOV" [x, y]).text = none := by
  have hword {w : String} {ops : List String}
      (hw : Line.split? (Line.mk "MOV" [x, y]).text = some ⟨w, ops⟩) : "MOV" = w := by
    rw [h.split?_text] at hw
    exact congrArg Line.mnemonic (Option.some.inj hw)
  constructor
  · refine Option.eq_none_iff_forall_ne_some.2 fun move hmove => ?_
    obtain ⟨_, _, _, hload, -, -⟩ := move?_eq_some_iff.1 hmove
    exact absurd (hword hload) (by decide)
  · refine Option.eq_none_iff_forall_ne_some.2 fun move hmove => ?_
    obtain ⟨_, _, _, -, hstore, -⟩ := move?_eq_some_iff.1 hmove
    exact absurd (hword hstore) (by decide)

theorem move?_of_move? (h : move? a b = some move) (line : String) :
    move? move line = none ∧ move? line move = none := by
  obtain ⟨x, r, y, ha, hb, rfl⟩ := move?_eq_some_iff.1 h
  exact move?_move (plain_move ha hb) line

/-- What a sweep puts first makes no pair with a line that the first line made none with. -/
theorem move?_head?_joinMoves {line : String} {lines : List String}
    (h : ∀ next ∈ lines.head?, move? line next = none) :
    ∀ next ∈ (joinMoves lines).head?, move? line next = none := by
  cases lines with
  | nil => exact h
  | cons first rest =>
    cases rest with
    | nil => exact h
    | cons second rest =>
      rw [joinMoves]
      split
      · rename_i move hmove
        rintro _ ⟨⟩
        exact (move?_of_move? hmove line).2
      · exact h

/-- **A sweep leaves no pair behind.** -/
theorem isChain_joinMoves (lines : List String) :
    (joinMoves lines).IsChain fun a b => move? a b = none := by
  fun_induction joinMoves lines with
  | case1 => exact .nil
  | case2 line => exact .singleton line
  | case3 first second rest move hmove ih =>
    exact List.isChain_cons.2 ⟨fun next _ => (move?_of_move? hmove next).1, ih⟩
  | case4 first second rest hmove ih =>
    refine List.isChain_cons.2 ⟨move?_head?_joinMoves ?_, ih⟩
    rintro _ ⟨⟩
    exact hmove

/-- Lines without a pair are left as they are. -/
theorem joinMoves_eq_self {lines : List String} (h : lines.IsChain fun a b => move? a b = none) :
    joinMoves lines = lines := by
  fun_induction joinMoves lines with
  | case1 => rfl
  | case2 line => rfl
  | case3 first second rest move hmove ih =>
    rw [(List.isChain_cons_cons.1 h).1] at hmove
    cases hmove
  | case4 first second rest hmove ih => rw [ih (List.isChain_cons_cons.1 h).2]

/-- The second lines are the first, with moves for some of the pairs. -/
inductive Joins : List String → List String → Prop
  | nil : Joins [] []
  | keep (line : String) {lines lines' : List String} (h : Joins lines lines') :
      Joins (line :: lines) (line :: lines')
  | join {a b move : String} (hmove : move? a b = some move) {lines lines' : List String}
      (h : Joins lines lines') : Joins (a :: b :: lines) (move :: lines')

theorem joins_joinMoves (lines : List String) : Joins lines (joinMoves lines) := by
  fun_induction joinMoves lines with
  | case1 => exact .nil
  | case2 line => exact .keep line .nil
  | case3 first second rest move hmove ih => exact .join hmove ih
  | case4 first second rest _ ih => exact .keep first ih

/-- **A sweep joins what can be joined, and joins it rightly.**  Whatever two lines are joined, the
move splits into the first operand of the load and the second of the store; from every state from
which they can be run it leaves the memory they leave, and the registers as they were.  And whatever
the lines are, a sweep puts moves for pairs, keeps the other lines, and leaves no pair, so that
another sweep changes nothing. -/
theorem joinMoves_sound_and_complete :
    (∀ a b move, move? a b = some move →
      (∃ x r y, Line.split? a = some ⟨"LOAD", [x, r]⟩ ∧ Line.split? b = some ⟨"STORE", [r, y]⟩ ∧
        Line.split? move = some ⟨"MOV", [x, y]⟩) ∧
      ∀ m m₁ m₂ : Machine, m.step a = .ok m₁ → m₁.step b = .ok m₂ →
        m.step move = .ok ⟨m.registers, m₂.memory⟩) ∧
    ∀ lines, Joins lines (joinMoves lines) ∧
      (joinMoves lines).IsChain (fun a b => move? a b = none) ∧
      joinMoves (joinMoves lines) = joinMoves lines := by
  refine ⟨fun a b move h => ?_, fun lines => ?_⟩
  · obtain ⟨x, r, y, ha, hb, rfl⟩ := move?_eq_some_iff.1 h
    exact ⟨⟨x, r, y, ha, hb, (plain_move ha hb).split?_text⟩, fun m m₁ m₂ => step_move ha hb⟩
  · have hchain := isChain_joinMoves lines
    exact ⟨joins_joinMoves lines, hchain, joinMoves_eq_self hchain⟩

/-- A comma between quotes, an empty operand, and blanks and commas at the ends. -/
theorem joinMoves_sound_and_complete_quoted :
    move? "\tLOAD \"a, b\",, r1 " "STORE r1 , 1000," = some "MOV \"a, b\", 1000" ∧
      ({} : Machine).step "\tLOAD \"a, b\",, r1 "
        = .ok (({} : Machine).setRegister "r1" (.str "a, b")) ∧
      (({} : Machine).setRegister "r1" (.str "a, b")).step "STORE r1 , 1000,"
        = .ok ((({} : Machine).setRegister "r1" (.str "a, b")).setCell 1000 (.str "a, b")) ∧
      ({} : Machine).step "MOV \"a, b\", 1000"
        = .ok (({} : Machine).setCell 1000 (.str "a, b")) := by
  have hmove : move? "\tLOAD \"a, b\",, r1 " "STORE r1 , 1000," = some "MOV \"a, b\", 1000" := by
    decide +kernel
  exact ⟨hmove, rfl, rfl, (joinMoves_sound_and_complete.1 _ _ _ hmove).2 {} _ _ rfl rfl⟩

end Assembly

end Enigma
