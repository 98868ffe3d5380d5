import Enigma.Proofs.Jumps
import Enigma.Proofs.Passes

/-!
# Proofs/Linking — every jump finds its label, before and after the optimiser

The optimiser sees only lines.  Of a line it can tell the label that it defines and the label that
it jumps to (`Line.label?`, `Line.jump?`), and for generated code these are the ones of the
instruction (`label?_text`, `jump?_text`).  Each pass drops lines, and what could go wrong is told
by `Linked`: no label is defined twice, no jump is there twice, and what is jumped to is defined.

* `linked_joinMoves` — once repeats are dropped and moves joined, generated code is linked;
* `Linked.dropUnusedLabels`, `Linked.dropRedundantJumps` — the passes behind keep it linked;
* `Linked.jumpsTo_eq_false` — no jump to the next line is left: what follows a jump when the line
  behind it is dropped is the label of another jump;
* `compile_jumps` — the labels of compiled code, where its jumps go, and what is left of both.
-/

namespace Enigma

/-- The label that a line jumps to. -/
def Line.jump? (line : String) : Option String :=
  (Line.split? line).bind fun l => if l.mnemonic = "JMP" then l.operands.head? else none

/-! ## Labels and jumps are read back -/

theorem all_isSolid_labelName (n : Nat) : (labelName n).toList.all Line.isSolid = true := by
  have hnumeral := (isNumeral_toString n).all_isSolid
  rw [labelName, String.toList_append, List.all_append, hnumeral]
  decide

theorem labelName_ne (n : Nat) : (labelName n).toList ≠ [] := by
  simp [labelName]

theorem labelName_inj {m n : Nat} (h : labelName m = labelName n) : m = n := by
  rw [← String.toList_inj, labelName, labelName, String.toList_append, String.toList_append,
    List.append_cancel_left_eq, toList_toString, toList_toString] at h
  rw [← digitsValue_toDigits m, h, digitsValue_toDigits]

theorem nodup_labelNames (n count : Nat) : (labelNames n count).Nodup := by
  refine List.pairwise_map.2 ((List.nodup_range' 1).imp fun hne heq => ?_)
  exact hne (labelName_inj heq)

/-- A jump to a numbered label is a line like any other. -/
theorem solid_jump (n : Nat) : Line.Solid ⟨"JMP", [labelName n]⟩ := by
  have hmnemonic : "JMP".toList.all Line.isSolid = true := by decide
  refine ⟨by simp, hmnemonic, by simp, ?_⟩
  exact List.forall_mem_singleton.2 (.solid (labelName_ne n) (all_isSolid_labelName n))

theorem text_jump_labelName (n : Nat) :
    (Instruction.jump (labelName n)).text = Line.text ⟨"JMP", [labelName n]⟩ := by
  rw [← String.toList_inj]
  simp [Instruction.text, Line.text, Line.joined]

/-- **What ends with a colon defines a label**, if it is solid in front. -/
theorem Line.label?_solid {w : List Char} (hne : w ≠ []) (hw : w.all isSolid = true) :
    label? (String.ofList (w ++ [':'])) = some (String.ofList w) := by
  have hblank : Text.isBlank ':' = false := by decide
  obtain ⟨c, w, rfl⟩ := List.exists_cons_of_ne_nil hne
  obtain ⟨hc, -, -, -, hsemicolon⟩ := isSolid_iff.1 (Bool.and_eq_true_iff.1 hw).1
  have hstart (s : List Char) : Text.trimStart (c :: s) = c :: s := by
    rw [Text.trimStart, List.dropWhile_cons_of_neg (by rw [hc]; simp)]
  have hcomment : isComment (String.ofList (c :: w ++ [':'])) = false := by
    rw [isComment, String.toList_ofList, List.cons_append, hstart]
    simpa using hsemicolon
  rw [label?, String.toList_ofList, hcomment, Text.trim_concat hblank, hstart,
    List.getLast?_concat, List.dropLast_concat]
  rfl

theorem Line.label?_concat {c : Char} (hblank : Text.isBlank c = false) (hc : c ≠ ':')
    (s : List Char) : label? (String.ofList (s ++ [c])) = none := by
  rw [label?, String.toList_ofList, Text.trim_concat hblank, List.getLast?_concat]
  split
  · rfl
  · rw [if_neg (by simpa using hc)]

/-- Whether every label in code has a number. -/
def Numbered (code : List Instruction) : Prop :=
  ∀ l, l ∈ code.filterMap Instruction.defines? ∨ l ∈ code.filterMap Instruction.target? →
    ∃ n, l = labelName n

namespace Instruction

variable {i : Instruction}

/-- **The label that an instruction defines** is read back from its line. -/
theorem label?_text (hi : i.WellFormed) (hn : Numbered [i]) : Line.label? i.text = i.defines? := by
  have hline {l : Line} (hl : i.line? = some l) : Line.label? i.text = none := by
    rw [text_of_line? hl, (hi.solid hl).label?_text]
  cases i with
  | label name =>
    obtain ⟨n, rfl⟩ := hn name (.inl (List.mem_singleton_self _))
    rw [text_label, Line.label?_solid (labelName_ne n) (all_isSolid_labelName n),
      String.ofList_toList]
    rfl
  | jump target =>
    obtain ⟨n, rfl⟩ := hn target (.inr (List.mem_singleton_self _))
    rw [text_jump_labelName, (solid_jump n).label?_text]
    rfl
  | test condition =>
    have htext : (test condition).text
        = String.ofList (("IF " ++ condition ++ " THE").toList ++ ['N']) := by
      rw [← String.toList_inj]
      simp [text]
    rw [htext, Line.label?_concat (by decide) (by decide)]
    rfl
  | comment text =>
    rw [text_comment, List.singleton_append, Line.label?, Line.isComment_semicolon]
    rfl
  | _ => exact hline rfl

/-- **The label that an instruction jumps to** is read back from its line. -/
theorem jump?_text (hi : i.WellFormed) (hn : Numbered [i]) : Line.jump? i.text = i.target? := by
  have hline {l : Line} (hl : i.line? = some l) (hne : l.mnemonic ≠ "JMP") :
      Line.jump? i.text = none := by
    rw [Line.jump?, hi.split?_text hl, Option.bind_some, if_neg hne]
  cases i with
  | label name =>
    have hword : (name.toList ++ [':']).all (!Text.isBlank ·) = true := by
      rw [List.all_append, hi]
      decide
    rw [text_label, Line.jump?, Line.split?_word (by simp) hword, Option.bind_some]
    split <;> rfl
  | jump target =>
    obtain ⟨n, rfl⟩ := hn target (.inr (List.mem_singleton_self _))
    rw [text_jump_labelName, Line.jump?, (solid_jump n).split?_text]
    rfl
  | test condition =>
    have hne : String.ofList ['I', 'F'] ≠ "JMP" := by decide
    rw [text_test, Line.jump?, Line.split?_mnemonic (by simp) (by decide), Option.bind_some,
      if_neg hne]
    rfl
  | comment text =>
    have hne : String.ofList [';'] ≠ "JMP" := by decide
    rw [text_comment, Line.jump?, Line.split?_mnemonic (by simp) (by decide), Option.bind_some,
      if_neg hne]
    rfl
  | _ => exact hline rfl (by simp)

end Instruction

namespace Assembly

open Instruction

/-- **A jump names its label**, as the pass that drops unused labels reads it. -/
theorem namedLabel?_jump (n : Nat) :
    namedLabel? (Instruction.jump (labelName n)).text = some (labelName n) := by
  have hword : ['J', 'M', 'P'].all (!Text.isBlank ·) = true := by decide
  have hjmp : ∀ c ∈ ['J', 'M', 'P'], Text.isBlank c = false := fun c hc => by
    simpa using List.all_eq_true.1 hword c hc
  have hsolid : ∀ c ∈ (labelName n).toList, Text.isBlank c = false := fun c hc =>
    (Line.isSolid_iff.1 (List.all_eq_true.1 (all_isSolid_labelName n) c hc)).1
  have hwords : Text.words (Instruction.jump (labelName n)).text = ["JMP", labelName n] := by
    rw [text_jump, Text.words, String.toList_ofList,
      List.splitOnP_append_cons_of_forall_mem hjmp _ (by decide),
      List.splitOnP_eq_singleton hsolid]
    simp [labelName_ne n]
  have hstart : "JMP".toList.isPrefixOf (Text.trim (Instruction.jump (labelName n)).text.toList)
      = true := by
    rw [text_jump_labelName, (solid_jump n).trim_text, ← text_jump_labelName, text_jump]
    simp
  rw [namedLabel?, hstart, hwords]
  rfl

theorem jumpsTo_iff {line next : String} : jumpsTo line next = true ↔
    ∃ l, Line.jump? line = some l ∧ Line.label? next = some l := by
  unfold jumpsTo Line.jump?
  split
  · rename_i target rest label hline hnext
    simpa [hline, hnext] using eq_comm
  · rename_i hother
    simp only [Bool.false_eq_true, Option.bind_eq_some_iff, false_iff]
    rintro ⟨l, ⟨⟨mnemonic, operands⟩, hline, hjump⟩, hnext⟩
    split at hjump
    · rename_i hmnemonic
      obtain ⟨rest, rfl⟩ := List.head?_eq_some_iff.1 hjump
      exact hother l rest l (hmnemonic ▸ hline) hnext
    · cases hjump

/-! ## The first passes -/

/-- **What dropping repeats leaves**: some of the lines, each once. -/
theorem dropRepeats_sublist_and_nodup : ∀ lines : List String,
    (dropRepeats lines).Sublist lines ∧ (dropRepeats lines).Nodup
  | [] => ⟨.slnil, List.nodup_nil⟩
  | line :: rest => by
    obtain ⟨hsublist, hnodup⟩ := dropRepeats_sublist_and_nodup (rest.filter fun x => !x == line)
    rw [dropRepeats, List.eraseDups_cons]
    refine ⟨(hsublist.trans List.filter_sublist).cons_cons line, List.nodup_cons.2 ⟨?_, hnodup⟩⟩
    intro hmem
    have hkept := (List.mem_filter.1 (List.mem_eraseDups.1 hmem)).2
    simp at hkept
termination_by lines => lines.length
decreasing_by exact Nat.lt_succ_of_le (List.length_filter_le _ _)

/-- **Joining moves** changes nothing that loads, stores and moves have no part in. -/
theorem filterMap_joinCode {f : Instruction → Option String} (hload : ∀ o r, f (.load o r) = none)
    (hstore : ∀ r a, f (.store r a) = none) (hmove : ∀ o a, f (.move o a) = none)
    (code : List Instruction) : (joinCode code).filterMap f = code.filterMap f := by
  fun_induction joinCode code with
  | case1 => rfl
  | case2 i => rfl
  | case3 i j rest joined hjoined ih =>
    obtain ⟨source, register, address, rfl, rfl, rfl⟩ := joined?_eq_some hjoined
    simp only [List.filterMap_cons, hload, hstore, hmove, ih]
  | case4 i j rest _ ih => rw [List.filterMap_cons, ih, ← List.filterMap_cons]

theorem defines_joinCode (code : List Instruction) :
    (joinCode code).filterMap defines? = code.filterMap defines? :=
  filterMap_joinCode (fun _ _ => rfl) (fun _ _ => rfl) (fun _ _ => rfl) code

theorem targets_joinCode (code : List Instruction) :
    (joinCode code).filterMap target? = code.filterMap target? :=
  filterMap_joinCode (fun _ _ => rfl) (fun _ _ => rfl) (fun _ _ => rfl) code

end Assembly

/-! ## Lines of numbered code -/

namespace Numbered

variable {code code' : List Instruction}

theorem of_mem (h : Numbered code) {i : Instruction} (hi : i ∈ code) : Numbered [i] := by
  intro l hl
  refine h l (hl.imp (fun hl => ?_) fun hl => ?_)
  all_goals
    obtain ⟨j, hj, hjl⟩ := List.mem_filterMap.1 hl
    obtain rfl := List.mem_singleton.1 hj
    exact List.mem_filterMap.2 ⟨j, hi, hjl⟩

theorem filterMap_text {f : String → Option String} {g : Instruction → Option String}
    (h : ∀ i ∈ code, f i.text = g i) :
    (code.map Instruction.text).filterMap f = code.filterMap g := by
  induction code with
  | nil => rfl
  | cons i code ih =>
    obtain ⟨hi, hcode⟩ := List.forall_mem_cons.1 h
    rw [List.map_cons, List.filterMap_cons, List.filterMap_cons, hi, ih hcode]

/-- **The labels of code** are those of its lines. -/
theorem labels_text (h : Numbered code) (hw : ∀ i ∈ code, i.WellFormed) :
    (code.map Instruction.text).filterMap Line.label? = code.filterMap Instruction.defines? :=
  filterMap_text fun i hi => Instruction.label?_text (hw i hi) (h.of_mem hi)

/-- **The jumps of code** are those of its lines. -/
theorem jumps_text (h : Numbered code) (hw : ∀ i ∈ code, i.WellFormed) :
    (code.map Instruction.text).filterMap Line.jump? = code.filterMap Instruction.target? :=
  filterMap_text fun i hi => Instruction.jump?_text (hw i hi) (h.of_mem hi)

theorem sublist (h : Numbered code) (hsub : code'.Sublist code) : Numbered code' :=
  fun l hl => h l (hl.imp (fun hl => (hsub.filterMap _).subset hl)
    fun hl => (hsub.filterMap _).subset hl)

theorem joinCode (h : Numbered code) : Numbered (Assembly.joinCode code) := by
  unfold Numbered
  rwa [Assembly.defines_joinCode, Assembly.targets_joinCode]

end Numbered

/-! ## Linked lines -/

namespace Assembly

/-- No label is defined twice, no jump is there twice, and what is jumped to is defined.  A jump is
read as one by every pass: it defines no label, and names the one it goes to. -/
structure Linked (lines : List String) : Prop where
  named : ∀ line ∈ lines, ∀ l, Line.jump? line = some l →
    Line.label? line = none ∧ namedLabel? line = some l
  labels : (lines.filterMap Line.label?).Nodup
  jumps : (lines.filterMap Line.jump?).Nodup
  targets : lines.filterMap Line.jump? ⊆ lines.filterMap Line.label?

/-- **Numbered code is linked** once repeats are dropped and moves are joined, if no label is
defined twice and what is jumped to is defined. -/
theorem linked_joinMoves {code : List Instruction} (hw : ∀ i ∈ code, i.WellFormed)
    (hn : Numbered code) (hlabels : (code.filterMap Instruction.defines?).Nodup)
    (htargets : code.filterMap Instruction.target? ⊆ code.filterMap Instruction.defines?) :
    Linked (joinMoves (dropRepeats (code.map Instruction.text))) := by
  obtain ⟨hsublist, hnodup⟩ := dropRepeats_sublist_and_nodup (code.map Instruction.text)
  obtain ⟨code₁, hcode₁, hdrop⟩ := List.sublist_map_iff.1 hsublist
  have hw₁ : ∀ i ∈ code₁, i.WellFormed := fun i hi => hw i (hcode₁.subset hi)
  have hn₁ : Numbered code₁ := hn.sublist hcode₁
  -- dropping repeats keeps a line of each kind, so every label is still defined
  have hdefines : code.filterMap Instruction.defines? ⊆ code₁.filterMap Instruction.defines? := by
    rw [← hn.labels_text hw, ← hn₁.labels_text hw₁, ← hdrop]
    intro l hl
    obtain ⟨line, hline, hlabel⟩ := List.mem_filterMap.1 hl
    exact List.mem_filterMap.2 ⟨line, List.mem_eraseDups.2 hline, hlabel⟩
  rw [hdrop, joinMoves_text hw₁]
  have hw₂ := wellFormed_joinCode hw₁
  have hn₂ := hn₁.joinCode
  constructor
  case named =>
    intro line hline l hjump
    obtain ⟨i, hi, rfl⟩ := List.mem_map.1 hline
    have hi' : Numbered [i] := hn₂.of_mem hi
    rw [Instruction.jump?_text (hw₂ i hi) hi'] at hjump
    rw [Instruction.label?_text (hw₂ i hi) hi']
    cases i with
    | jump target =>
      obtain rfl := Option.some.inj hjump
      obtain ⟨n, rfl⟩ := hi' target (.inr (List.mem_singleton_self _))
      exact ⟨rfl, namedLabel?_jump n⟩
    | _ => cases hjump
  case labels =>
    rw [hn₂.labels_text hw₂, defines_joinCode]
    exact hlabels.sublist (hcode₁.filterMap _)
  case jumps =>
    rw [hn₂.jumps_text hw₂, targets_joinCode]
    -- a line that jumps is known by its target, and no line is left twice
    rw [hdrop] at hnodup
    refine (List.pairwise_map.1 hnodup).filterMap _ fun i j hne l hl l' hl' heq => hne ?_
    subst heq
    cases i <;> cases hl
    cases j <;> cases hl'
    rfl
  case targets =>
    rw [hn₂.jumps_text hw₂, hn₂.labels_text hw₂, defines_joinCode, targets_joinCode]
    exact List.Subset.trans (hcode₁.filterMap _).subset (List.Subset.trans htargets hdefines)

namespace Linked

variable {lines : List String}

/-- **What is left of linked lines is linked** if what is jumped to is still defined. -/
theorem of_sublist {lines' : List String} (h : Linked lines) (hsub : lines'.Sublist lines)
    (htargets : lines'.filterMap Line.jump? ⊆ lines'.filterMap Line.label?) : Linked lines' where
  named line hline := h.named line (hsub.subset hline)
  labels := h.labels.sublist (hsub.filterMap _)
  jumps := h.jumps.sublist (hsub.filterMap _)
  targets := htargets

/-- **Dropping unused labels** drops no label that is jumped to. -/
theorem dropUnusedLabels (h : Linked lines) : Linked (dropUnusedLabels lines) := by
  refine h.of_sublist List.filter_sublist fun l hl => ?_
  have hjump := (List.filter_sublist.filterMap _).subset hl
  obtain ⟨line, hline, hlabel⟩ := List.mem_filterMap.1 (h.targets hjump)
  obtain ⟨jump, hmem, htarget⟩ := List.mem_filterMap.1 hjump
  have hnamed : l ∈ lines.filterMap namedLabel? :=
    List.mem_filterMap.2 ⟨jump, hmem, (h.named jump hmem l htarget).2⟩
  refine List.mem_filterMap.2 ⟨line, List.mem_filter.2 ⟨hline, ?_⟩, hlabel⟩
  simpa only [hlabel] using List.contains_iff_mem.2 hnamed

/-- **Dropping redundant jumps** drops no label. -/
theorem labels_dropRedundantJumps (h : Linked lines) :
    (dropRedundantJumps lines).filterMap Line.label? = lines.filterMap Line.label? := by
  have hnamed := h.named
  clear h
  fun_induction Assembly.dropRedundantJumps lines with
  | case1 => rfl
  | case2 line => rfl
  | case3 line next rest hjumps ih =>
    obtain ⟨hline, hrest⟩ := List.forall_mem_cons.1 hnamed
    obtain ⟨l, hl, -⟩ := jumpsTo_iff.1 hjumps
    rw [ih hrest, List.filterMap_cons_none (hline l hl).1]
  | case4 line next rest _ ih =>
    obtain ⟨-, hrest⟩ := List.forall_mem_cons.1 hnamed
    rw [List.filterMap_cons, ih hrest, ← List.filterMap_cons]

theorem dropRedundantJumps (h : Linked lines) : Linked (dropRedundantJumps lines) := by
  have hsub := dropRedundantJumps_sublist lines
  refine h.of_sublist hsub ?_
  rw [h.labels_dropRedundantJumps]
  exact List.Subset.trans (hsub.filterMap _).subset h.targets

end Linked

/-- **The first line that is left** when redundant jumps are dropped is the first, or the label that
it jumps to. -/
theorem head?_dropRedundantJumps {line : String} {rest : List String}
    (hnamed : ∀ x ∈ line :: rest, ∀ l, Line.jump? x = some l → Line.label? x = none) :
    ∃ first, (dropRedundantJumps (line :: rest)).head? = some first ∧
      (first = line ∨ jumpsTo line first = true) := by
  match rest with
  | [] => exact ⟨line, rfl, .inl rfl⟩
  | next :: rest =>
    rw [dropRedundantJumps]
    split
    · rename_i hjumps
      obtain ⟨l, -, hlabel⟩ := jumpsTo_iff.1 hjumps
      -- the next line defines a label, so it is no jump itself and stays
      have hstays (x : String) : jumpsTo next x = false := by
        rw [Bool.eq_false_iff]
        intro hnext
        obtain ⟨l', hjump, -⟩ := jumpsTo_iff.1 hnext
        rw [hnamed next (by simp) l' hjump] at hlabel
        cases hlabel
      refine ⟨next, ?_, .inr hjumps⟩
      match rest with
      | [] => rfl
      | x :: rest =>
        rw [dropRedundantJumps, hstays x]
        rfl
    · exact ⟨line, rfl, .inl rfl⟩

/-- **No jump to the next line is left** of linked lines. -/
theorem Linked.jumpsTo_eq_false {lines before after : List String} {a b : String}
    (h : Linked lines) (hsplit : Assembly.dropRedundantJumps lines = before ++ a :: b :: after) :
    jumpsTo a b = false := by
  obtain ⟨hnamed, -, hjumps, -⟩ := h
  fun_induction Assembly.dropRedundantJumps lines generalizing before with
  | case1 => simp at hsplit
  | case2 line => cases before <;> simp at hsplit
  | case3 line next rest _ ih =>
    exact ih hsplit (List.forall_mem_cons.1 hnamed).2
      (hjumps.sublist ((List.sublist_cons_self line _).filterMap _))
  | case4 line next rest hstays ih =>
    obtain ⟨-, hrest⟩ := List.forall_mem_cons.1 hnamed
    cases before with
    | cons x before =>
      exact ih (List.cons.inj hsplit).2 hrest
        (hjumps.sublist ((List.sublist_cons_self line _).filterMap _))
    | nil =>
      obtain ⟨rfl, hb⟩ := List.cons.inj hsplit
      obtain ⟨first, hfirst, hcase⟩ :=
        head?_dropRedundantJumps fun x hx l hl => (hrest x hx l hl).1
      rw [hb, List.head?_cons] at hfirst
      obtain rfl := Option.some.inj hfirst
      rcases hcase with rfl | hnext
      · exact Bool.eq_false_iff.2 hstays
      · -- the jump behind was dropped: two jumps do not go to one label
        refine Bool.eq_false_iff.2 fun hline => ?_
        obtain ⟨l, hl, hlabel⟩ := jumpsTo_iff.1 hline
        obtain ⟨l', hl', hlabel'⟩ := jumpsTo_iff.1 hnext
        obtain rfl := Option.some.inj (hlabel.symm.trans hlabel')
        rw [List.filterMap_cons_some hl, List.filterMap_cons_some hl', List.nodup_cons] at hjumps
        exact hjumps.1 (List.mem_cons_self ..)

end Assembly

/-! ## Compiled code -/

section Lays

variable {t : SymbolTable} {n : Nat} {body : List Stmt} {code : List Instruction}

/-- Outside of all loops what is jumped to is defined. -/
theorem blockLays.targets_subset (h : blockLays t none n body code) :
    code.filterMap Instruction.target? ⊆ code.filterMap Instruction.defines? :=
  h.targets

theorem blockLays.numbered (h : blockLays t none n body code) : Numbered code := by
  intro l hl
  have hdefined : l ∈ code.filterMap Instruction.defines? :=
    hl.elim id fun hl => h.targets_subset hl
  obtain ⟨k, -, hk⟩ := List.mem_map.1 (h.labels.subset hdefined)
  exact ⟨k, hk.symm⟩

/-- **Generated code is linked** when only the pass over redundant jumps is left to run. -/
theorem blockLays.linked (h : blockLays t none n body code) (hw : ∀ i ∈ code, i.WellFormed) :
    Assembly.Linked (Assembly.dropUnusedLabels (Assembly.joinMoves
      (Assembly.dropRepeats (code.map Instruction.text)))) :=
  (Assembly.linked_joinMoves hw h.numbered (h.labels.nodup_iff.2 (nodup_labelNames _ _))
    h.targets_subset).dropUnusedLabels

end Lays

/-- **Labels and jumps of a compiled source.**  The lines define the labels up to as many as the
program needs, each once; the code is laid out so that a control jumps to a label of the innermost
loop around it; and when the lines are optimised, what is still jumped to is defined once and no
jump goes to the next line. -/
theorem compile_jumps {source : String} {optimize : Bool} {c : Compilation}
    (hc : compile source optimize = .ok c) :
    (c.lines.filterMap Line.label?).Perm (labelNames 1 c.program.labels) ∧
      blockLays c.table none 1 c.program c.code ∧
      (∀ line ∈ Assembly.optimize c.lines, ∀ l, Line.jump? line = some l →
        ((Assembly.optimize c.lines).filterMap Line.label?).count l = 1) ∧
      ∀ before line next after l, Assembly.optimize c.lines = before ++ line :: next :: after →
        Line.jump? line = some l → Line.label? next ≠ some l := by
  obtain ⟨counters, -, hblock⟩ := Program.generate_eq_ok_iff.1 (compile_eq_ok_iff.1 hc).2.2.1
  have hw := wellFormed_of_compile hc
  have hlays : blockLays c.table none 1 c.program c.code := block_lays hblock
  have hlinked := hlays.linked hw
  rw [Compilation.lines, Assembly.optimize_eq]
  refine ⟨?_, hlays, ?_, ?_⟩
  · rw [hlays.numbered.labels_text hw]
    exact hlays.labels
  · intro line hline l hl
    have hdefined := hlinked.dropRedundantJumps.targets (List.mem_filterMap.2 ⟨line, hline, hl⟩)
    rw [hlinked.dropRedundantJumps.labels.count, if_pos hdefined]
  · intro before line next after l hsplit hjump hlabel
    have hnot := hlinked.jumpsTo_eq_false hsplit
    rw [Assembly.jumpsTo_iff.2 ⟨l, hjump, hlabel⟩] at hnot
    cases hnot

/-- Controls in a loop inside of another: a jump that is there twice, and one to the next line. -/
theorem compile_jumps_nested :
    let source := "iterate (enum v-i = 0, v-i < 9 v-i ++,) { whilst (v-i < 3) { br, cont, br, }
      iff (v-i < 5) { br, } cont, }"
    ∃ c, compile source true = .ok c ∧
      c.lines.filterMap Line.jump? = ["L5", "L4", "L5", "L3", "L2"] ∧
      (Assembly.optimize c.lines).filterMap Line.jump? = ["L5", "L4", "L3"] ∧
      (c.lines.filterMap Line.label?).Perm ["L1", "L2", "L3", "L4", "L5"] ∧
      ∀ l ∈ ["L5", "L4", "L3"],
        ((Assembly.optimize c.lines).filterMap Line.label?).count l = 1 := by
  intro source
  have hcheck : ((compile source true).toOption.any fun c =>
      c.lines.filterMap Line.jump? == ["L5", "L4", "L5", "L3", "L2"] &&
        (Assembly.optimize c.lines).filterMap Line.jump? == ["L5", "L4", "L3"] &&
        c.program.labels == 5) = true := by
    decide +kernel
  obtain ⟨c, hc, hcheck⟩ := exists_of_toOption_any hcheck
  simp only [Bool.and_eq_true, beq_iff_eq] at hcheck
  obtain ⟨⟨hjumps, hoptimized⟩, hlabels⟩ := hcheck
  obtain ⟨hperm, -, hcount, -⟩ := compile_jumps hc
  rw [hlabels] at hperm
  refine ⟨c, hc, hjumps, hoptimized, hperm, fun l hl => ?_⟩
  rw [← hoptimized] at hl
  obtain ⟨line, hline, hjump⟩ := List.mem_filterMap.1 hl
  exact hcount line hline l hjump

end Enigma
