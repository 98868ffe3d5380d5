import Enigma.Assembly.Instruction
import Enigma.Machine.Step

/-!
# Proofs/Lines — lines are read back as they were written

A line is a mnemonic, a space, and operands with a comma and a space between them.  If it is
**plain** — no blanks at the ends of its operands, no comma in them outside of quotes — taking it
apart gives them back.  If it is **solid** — no blank, comma, colon or semicolon outside of quotes —
it is no comment and no label either.

* `Line.Plain.split?_text` — writing and reading are inverse on plain lines;
* `Machine.step_text` — so the machine performs what the line says;
* `Machine.step_of_isMark` — on comments, labels, tests and jumps it does nothing.
-/

namespace Enigma

/-! ## Trimming -/

namespace Text

/-- What is kept at the end of a first part keeps all of that part. -/
theorem dropWhileEnd_append {p : Char → Bool} {a : List Char} (b : List Char)
    (ha : ∀ c, a.getLast? = some c → p c = false) :
    dropWhileEnd p (a ++ b) = a ++ dropWhileEnd p b := by
  have hrev : a.reverse.dropWhile p = a.reverse := by
    cases hcs : a.reverse with
    | nil => rfl
    | cons c cs =>
      have hc : a.getLast? = some c := by rw [← List.head?_reverse, hcs, List.head?_cons]
      rw [List.dropWhile_cons_of_neg (by rw [ha c hc]; simp)]
  unfold dropWhileEnd
  rw [List.reverse_append, List.dropWhile_append]
  split <;> rename_i hempty
  · rw [hrev, List.reverse_reverse, List.isEmpty_iff.1 hempty, List.reverse_nil, List.append_nil]
  · rw [List.reverse_append, List.reverse_reverse]

theorem dropWhileEnd_eq_self {p : Char → Bool} {s : List Char}
    (hs : ∀ c, s.getLast? = some c → p c = false) : dropWhileEnd p s = s := by
  have h := dropWhileEnd_append [] hs
  rwa [List.append_nil, show dropWhileEnd p [] = [] from rfl, List.append_nil] at h

theorem dropWhileEnd_prefix (p : Char → Bool) (s : List Char) : dropWhileEnd p s <+: s := by
  rw [dropWhileEnd, ← List.reverse_suffix, List.reverse_reverse]
  exact List.dropWhile_suffix p

theorem dropWhileEnd_append_takeWhile (p : Char → Bool) (s : List Char) :
    dropWhileEnd p s ++ (s.reverse.takeWhile p).reverse = s := by
  rw [dropWhileEnd, ← List.reverse_append, List.takeWhile_append_dropWhile, List.reverse_reverse]

/-- What is left does not end with what is dropped. -/
theorem getLast?_dropWhileEnd {p : Char → Bool} {s : List Char} {c : Char}
    (h : (dropWhileEnd p s).getLast? = some c) : p c = false := by
  have hhead := List.head?_dropWhile_not p s.reverse
  rw [dropWhileEnd, List.getLast?_reverse] at h
  rw [h] at hhead
  simpa using hhead

/-- A blank in front is trimmed. -/
theorem trim_cons_of_blank {c : Char} (hc : isBlank c = true) (s : List Char) :
    trim (c :: s) = trim s := by
  rw [trim, trimStart, List.dropWhile_cons_of_pos hc]
  rfl

/-- Text that starts with no blank is only trimmed behind. -/
theorem trim_cons {c : Char} (hc : isBlank c = false) (s : List Char) :
    trim (c :: s) = dropWhileEnd isBlank (c :: s) := by
  rw [trim, trimStart, List.dropWhile_cons_of_neg (by rw [hc]; simp)]

/-- Text that ends with no blank is only trimmed in front. -/
theorem trim_concat {c : Char} (hc : isBlank c = false) (s : List Char) :
    trim (s ++ [c]) = trimStart s ++ [c] := by
  have hstart : trimStart (s ++ [c]) = trimStart s ++ [c] := by
    rw [trimStart, List.dropWhile_append]
    split <;> rename_i hempty
    · rw [trimStart, List.isEmpty_iff.1 hempty, List.dropWhile_cons_of_neg (by rw [hc]; simp),
        List.nil_append]
    · rfl
  rw [trim, hstart, dropWhileEnd_eq_self]
  intro x hx
  rw [List.getLast?_concat] at hx
  exact Option.some.inj hx ▸ hc

/-- Text that blanks neither open nor close. -/
structure IsTrimmed (s : List Char) : Prop where
  ne_nil : s ≠ []
  head : ∀ c, s.head? = some c → isBlank c = false
  last : ∀ c, s.getLast? = some c → isBlank c = false

/-- **What is trimmed stays as it is.** -/
theorem IsTrimmed.trim_eq {s : List Char} (h : IsTrimmed s) : trim s = s := by
  cases s with
  | nil => rfl
  | cons c s =>
    rw [trim_cons (h.head c rfl)]
    exact dropWhileEnd_eq_self h.last

/-- **Trimming drops blanks** and nothing else. -/
theorem exists_blanks_trim (s : List Char) :
    ∃ l r, s = l ++ (trim s ++ r) ∧ l.all isBlank = true ∧ r.all isBlank = true := by
  refine ⟨s.takeWhile isBlank, ((trimStart s).reverse.takeWhile isBlank).reverse, ?_,
    List.all_takeWhile, ?_⟩
  · rw [trim, dropWhileEnd_append_takeWhile, trimStart, List.takeWhile_append_dropWhile]
  · rw [List.all_reverse, List.all_takeWhile]

/-- What is left of a trimmed text starts as the text does behind its blanks. -/
theorem head?_trim {s : List Char} (hne : trim s ≠ []) : (trim s).head? = (trimStart s).head? := by
  obtain ⟨t, ht⟩ := dropWhileEnd_prefix isBlank (trimStart s)
  rw [← ht, List.head?_append, ← trim, List.head?_eq_some_head hne, Option.some_or]

theorem isTrimmed_trim {s : List Char} (hne : trim s ≠ []) : IsTrimmed (trim s) where
  ne_nil := hne
  head c hc := by
    have hhead := List.head?_dropWhile_not isBlank s
    rw [head?_trim hne, trimStart] at hc
    rw [hc] at hhead
    simpa using hhead
  last _ hc := getLast?_dropWhileEnd hc

end Text

namespace Line

/-! ## Operands -/

/-- Whether a character can stand in an operand outside of quotes. -/
def isSolid (c : Char) : Bool := !Text.isBlank c && !([',', '"', ':', ';'].contains c)

/-- An operand that is written without quotes, or a text between two. -/
inductive IsOperand : List Char → Prop
  | solid {s : List Char} (hne : s ≠ []) (h : s.all isSolid = true) : IsOperand s
  | quoted {s : List Char} (h : '"' ∉ s) : IsOperand ('"' :: (s ++ ['"']))

theorem isSolid_iff {c : Char} :
    isSolid c = true ↔ Text.isBlank c = false ∧ c ≠ ',' ∧ c ≠ '"' ∧ c ≠ ':' ∧ c ≠ ';' := by
  simp [isSolid]

/-- Whether a quote is open behind a text, if one is or is not in front of it; nothing for a text
that is cut at a comma. -/
def pass? (quoted : Bool) : List Char → Option Bool
  | [] => some quoted
  | c :: s =>
    if c == ',' && !quoted then none else pass? (if c == '"' then !quoted else quoted) s

/-- Quotes are counted on from one part to the next. -/
theorem pass?_append (s t : List Char) (quoted : Bool) :
    pass? quoted (s ++ t) = (pass? quoted s).bind (pass? · t) := by
  induction s generalizing quoted with
  | nil => rfl
  | cons c s ih =>
    rw [List.cons_append, pass?, pass?]
    split
    · rfl
    · exact ih _

/-- **Text that is not cut goes to the first piece.** -/
theorem cutAtCommas_of_pass? {quoted quoted' : Bool} {s : List Char}
    (h : pass? quoted s = some quoted') (rest : List Char) :
    cutAtCommas quoted (s ++ rest) = (cutAtCommas quoted' rest).modifyHead (s ++ ·) := by
  induction s generalizing quoted with
  | nil =>
    obtain rfl := Option.some.inj h
    rw [List.nil_append]
    cases cutAtCommas quoted rest <;> rfl
  | cons c s ih =>
    rw [pass?] at h
    rw [List.cons_append, cutAtCommas]
    split at h
    · cases h
    · rename_i hcomma
      rw [if_neg hcomma, ih h, List.modifyHead_modifyHead]
      rfl

/-- Text without quotes leaves them as they are, if no comma in it divides. -/
theorem pass?_eq_self {quoted : Bool} {s : List Char}
    (h : ∀ c ∈ s, c ≠ '"' ∧ (c = ',' → quoted = true)) : pass? quoted s = some quoted := by
  induction s with
  | nil => rfl
  | cons c s ih =>
    obtain ⟨⟨hquote, hcomma⟩, hs⟩ := List.forall_mem_cons.1 h
    have hnot : ¬(c == ',' && !quoted) = true := by simpa using hcomma
    rw [pass?, if_neg hnot, if_neg (by simpa using hquote), ih hs]

/-- **No comma of an operand divides**, and its quotes are closed. -/
theorem IsOperand.pass? {s : List Char} (h : IsOperand s) : Line.pass? false s = some false := by
  cases h with
  | solid _ h =>
    refine pass?_eq_self fun c hc => ?_
    obtain ⟨-, hcomma, hquote, -⟩ := isSolid_iff.1 (List.all_eq_true.1 h c hc)
    exact ⟨hquote, fun heq => absurd heq hcomma⟩
  | @quoted s h =>
    have hinside : Line.pass? true s = some true :=
      pass?_eq_self fun c hc => ⟨fun heq => h (heq ▸ hc), fun _ => rfl⟩
    rw [Line.pass?, if_neg (by decide), if_pos (by decide), Bool.not_false, pass?_append, hinside]
    rfl

theorem IsOperand.ne_nil {s : List Char} (h : IsOperand s) : s ≠ [] := by
  cases h with
  | solid hne _ => exact hne
  | quoted _ => exact List.cons_ne_nil _ _

/-- The first and the last character of an operand are no blanks, and the last is no colon. -/
theorem IsOperand.ends {s : List Char} (h : IsOperand s) :
    (∀ c, s.head? = some c → Text.isBlank c = false) ∧
      ∀ c, s.getLast? = some c → Text.isBlank c = false ∧ c ≠ ':' := by
  cases h with
  | solid _ h =>
    rw [List.all_eq_true] at h
    refine ⟨fun c hc => (isSolid_iff.1 (h c (List.mem_of_head? hc))).1, fun c hc => ?_⟩
    obtain ⟨hblank, -, -, hcolon, -⟩ := isSolid_iff.1 (h c (List.mem_of_getLast? hc))
    exact ⟨hblank, hcolon⟩
  | @quoted s h =>
    have hquote : Text.isBlank '"' = false := by decide
    constructor
    · rintro c hc
      obtain rfl := Option.some.inj hc
      exact hquote
    · intro c hc
      rw [← List.cons_append, List.getLast?_concat] at hc
      obtain rfl := Option.some.inj hc
      exact ⟨hquote, by decide⟩

theorem IsOperand.isTrimmed {s : List Char} (h : IsOperand s) : Text.IsTrimmed s :=
  ⟨h.ne_nil, h.ends.1, fun c hc => (h.ends.2 c hc).1⟩

/-- Texts that can be the operands of one line: blanks around them have been dropped, and no comma
divides them.  Only in the last may a quote stay open. -/
inductive Row : List (List Char) → Prop
  | last {s : List Char} {quoted : Bool} (ht : Text.IsTrimmed s)
      (hs : pass? false s = some quoted) : Row [s]
  | cons {s : List Char} {rest : List (List Char)} (ht : Text.IsTrimmed s)
      (hs : pass? false s = some false) (hrest : Row rest) : Row (s :: rest)

/-- Operands can stand in a row, if there are any. -/
theorem row_of_isOperand {ops : List (List Char)} (hne : ops ≠ []) (h : ∀ s ∈ ops, IsOperand s) :
    Row ops := by
  induction ops with
  | nil => exact absurd rfl hne
  | cons s rest ih =>
    have hs := h s (List.mem_cons_self ..)
    by_cases hrest : rest = []
    · subst hrest
      exact .last hs.isTrimmed hs.pass?
    · exact .cons hs.isTrimmed hs.pass? (ih hrest fun s' hs' => h s' (List.mem_cons_of_mem s hs'))

namespace Row

variable {ops : List (List Char)}

theorem ne_nil (h : Row ops) : ops ≠ [] := by
  cases h <;> exact List.cons_ne_nil _ _

theorem isTrimmed (h : Row ops) : ∀ s ∈ ops, Text.IsTrimmed s := by
  induction h with
  | last ht _ => simpa using ht
  | cons ht _ _ ih => exact List.forall_mem_cons.2 ⟨ht, ih⟩

end Row

/-- Operands as they are written. -/
def joined : List (List Char) → List Char
  | [] => []
  | [s] => s
  | s :: rest => s ++ ',' :: ' ' :: joined rest

theorem joined_cons {s : List Char} {rest : List (List Char)} (hne : rest ≠ []) :
    joined (s :: rest) = s ++ ',' :: ' ' :: joined rest := by
  cases rest with
  | nil => exact absurd rfl hne
  | cons s' rest => rfl

/-- **Operands are read back as they were written.** -/
theorem Row.map_trim_cutAtCommas_joined {ops : List (List Char)} (h : Row ops) :
    (cutAtCommas false (joined ops)).map Text.trim = ops := by
  have hblank : Text.isBlank ' ' = true := by decide
  induction h with
  | @last s quoted ht hs =>
    have hcut := cutAtCommas_of_pass? hs []
    rw [List.append_nil] at hcut
    rw [joined, hcut, cutAtCommas, List.modifyHead_cons, List.append_nil, List.map_singleton,
      ht.trim_eq]
  | @cons s rest ht hs hrest ih =>
    -- the space behind the comma opens the next piece, where trimming drops it
    have hspace : (cutAtCommas false (' ' :: joined rest)).map Text.trim
        = (cutAtCommas false (joined rest)).map Text.trim := by
      rw [cutAtCommas, if_neg (by decide), if_neg (by decide)]
      cases cutAtCommas false (joined rest) with
      | nil => rfl
      | cons x xs =>
        rw [List.modifyHead_cons, List.map_cons, List.map_cons, Text.trim_cons_of_blank hblank]
    rw [joined_cons hrest.ne_nil, cutAtCommas_of_pass? hs, cutAtCommas, if_pos (by decide),
      List.modifyHead_cons, List.append_nil, List.map_cons, ht.trim_eq, hspace, ih]

/-- **Joined operands are split again.** -/
theorem Row.operandsOf_joined {ops : List (List Char)} (h : Row ops) :
    operandsOf (joined ops) = ops.map String.ofList := by
  rw [operandsOf, h.map_trim_cutAtCommas_joined, List.filter_eq_self.2]
  intro s hs
  simpa using (h.isTrimmed s hs).ne_nil

/-- Operands as they are written end as the last of them. -/
theorem Row.getLast?_joined {ops : List (List Char)} (h : Row ops) :
    ∃ s c, ops.getLast? = some s ∧ s.getLast? = some c ∧ (joined ops).getLast? = some c := by
  induction h with
  | @last s quoted ht hs =>
    have hlast := List.getLast?_eq_some_getLast ht.ne_nil
    exact ⟨s, s.getLast ht.ne_nil, rfl, hlast, hlast⟩
  | @cons s rest ht hs hrest ih =>
    obtain ⟨s', c, hlast, hc, hjoined⟩ := ih
    refine ⟨s', c, by rw [List.getLast?_cons, hlast, Option.getD_some], hc, ?_⟩
    rw [joined_cons hrest.ne_nil, List.getLast?_append, List.getLast?_cons_cons, List.getLast?_cons,
      hjoined, Option.getD_some, Option.some_or]

/-! ## Lines -/

/-- **A line starts with its mnemonic**, whatever stands behind the space. -/
theorem split?_mnemonic {w : List Char} (hne : w ≠ []) (hw : w.all (!Text.isBlank ·) = true)
    (rest : List Char) :
    split? (String.ofList (w ++ ' ' :: rest)) = some ⟨String.ofList w,
      operandsOf ((Text.dropWhileEnd Text.isBlank (' ' :: rest)).drop 1)⟩ := by
  have hsolid (c : Char) (hc : c ∈ w) : Text.isBlank c = false := by
    simpa using List.all_eq_true.1 hw c hc
  have htrim : Text.trim (w ++ ' ' :: rest)
      = w ++ Text.dropWhileEnd Text.isBlank (' ' :: rest) := by
    rw [← Text.dropWhileEnd_append _ fun c hc => hsolid c (List.mem_of_getLast? hc)]
    cases w with
    | nil => exact absurd rfl hne
    | cons c w => exact Text.trim_cons (hsolid c (List.mem_cons_self ..)) _
  -- what is left of the rest is nothing, or starts with the space
  generalize hd : Text.dropWhileEnd Text.isBlank (' ' :: rest) = d at htrim ⊢
  have htake : (w ++ d).takeWhile (!Text.isBlank ·) = w := by
    have hd' : d.takeWhile (!Text.isBlank ·) = [] := by
      cases d with
      | nil => rfl
      | cons x d =>
        have hprefix := Text.dropWhileEnd_prefix Text.isBlank (' ' :: rest)
        rw [hd] at hprefix
        obtain ⟨rfl, -⟩ := List.cons_prefix_cons.1 hprefix
        rfl
    rw [List.takeWhile_append_of_pos fun c hc => by simp [hsolid c hc], hd', List.append_nil]
  unfold split?
  rw [String.toList_ofList, htrim]
  cases hwd : w ++ d with
  | nil => exact absurd (List.append_eq_nil_iff.1 hwd).1 hne
  | cons x xs =>
    dsimp only
    rw [← hwd, htake, ← List.drop_drop, List.drop_left]

/-- A line that is one word is a mnemonic. -/
theorem split?_word {w : List Char} (hne : w ≠ []) (hw : w.all (!Text.isBlank ·) = true) :
    split? (String.ofList w) = some ⟨String.ofList w, []⟩ := by
  have hsolid (c : Char) (hc : c ∈ w) : Text.isBlank c = false := by
    simpa using List.all_eq_true.1 hw c hc
  have htake : w.takeWhile (!Text.isBlank ·) = w := by
    rw [← List.append_nil w, List.takeWhile_append_of_pos (List.all_eq_true.1 hw)]
    rfl
  unfold split?
  rw [String.toList_ofList]
  cases w with
  | nil => exact absurd rfl hne
  | cons c w =>
    rw [Text.trim_cons (hsolid c (List.mem_cons_self ..)),
      Text.dropWhileEnd_eq_self fun c hc => hsolid c (List.mem_of_getLast? hc)]
    dsimp only
    rw [htake, List.drop_of_length_le (by simp)]
    rfl

/-- **A line is its mnemonic**, and operands behind a blank. -/
theorem exists_of_split? {line : String} {l : Line} (h : split? line = some l) :
    ∃ rest, Text.trim line.toList = l.mnemonic.toList ++ rest ∧ l.mnemonic.toList ≠ [] ∧
      l.operands = operandsOf (rest.drop 1) := by
  unfold split? at h
  split at h
  · cases h
  · rename_i c s hs
    obtain rfl := Option.some.inj h
    have hc : Text.isBlank c = false :=
      (Text.isTrimmed_trim (by rw [hs]; exact List.cons_ne_nil _ _)).head c (by rw [hs]; rfl)
    have hdrop {w d : List Char} (hwd : w ++ d = c :: s) :
        (c :: s).drop (w.length + 1) = d.drop 1 := by
      rw [← hwd, ← List.drop_drop, List.drop_left]
    refine ⟨(c :: s).dropWhile (!Text.isBlank ·), ?_, ?_, ?_⟩
    · rw [String.toList_ofList, hs, List.takeWhile_append_dropWhile]
    · rw [String.toList_ofList, List.takeWhile_cons_of_pos (by simp [hc])]
      exact List.cons_ne_nil _ _
    · rw [← hdrop List.takeWhile_append_dropWhile]

/-- A line that is taken apart is a comment if its mnemonic starts as one. -/
theorem isComment_of_split? {line : String} {l : Line} (h : split? line = some l) :
    isComment line = (l.mnemonic.toList.head? == some ';') := by
  obtain ⟨rest, htrim, hne, -⟩ := exists_of_split? h
  have hhead := Text.head?_trim (s := line.toList) (by rw [htrim]; simp [hne])
  rw [isComment, ← hhead, htrim, List.head?_append, List.head?_eq_some_head hne, Option.some_or]

theorem isSome_label? {line : String} (h : isComment line = false) :
    (label? line).isSome = ((Text.trim line.toList).getLast? == some ':') := by
  rw [label?, h, if_neg Bool.false_ne_true]
  split <;> rename_i hlast
  · exact hlast.symm
  · exact (Bool.eq_false_iff.2 hlast).symm

/-- A line as it is written. -/
def text (l : Line) : String :=
  String.ofList (l.mnemonic.toList ++ ' ' :: joined (l.operands.map String.toList))

/-- A line that keeps its form: a mnemonic without blanks, and operands that one line can have. -/
structure Plain (l : Line) : Prop where
  mnemonic_ne : l.mnemonic.toList ≠ []
  mnemonic : l.mnemonic.toList.all (!Text.isBlank ·) = true
  row : Row (l.operands.map String.toList)

namespace Plain

variable {l : Line}

/-- The last character of the last operand is no blank, and ends the line. -/
theorem getLast?_text (h : l.Plain) :
    ∃ s c, l.operands.getLast? = some s ∧ s.toList.getLast? = some c ∧ Text.isBlank c = false ∧
      (' ' :: joined (l.operands.map String.toList)).getLast? = some c ∧
      l.text.toList.getLast? = some c := by
  obtain ⟨s, c, hs, hc, hjoined⟩ := h.row.getLast?_joined
  rw [List.getLast?_map, Option.map_eq_some_iff] at hs
  obtain ⟨s, hs, rfl⟩ := hs
  have hmem := List.mem_map_of_mem (f := String.toList) (List.mem_of_getLast? hs)
  have hspace : (' ' :: joined (l.operands.map String.toList)).getLast? = some c := by
    rw [List.getLast?_cons, hjoined, Option.getD_some]
  refine ⟨s, c, hs, hc, (h.row.isTrimmed _ hmem).last c hc, hspace, ?_⟩
  rw [text, String.toList_ofList, List.getLast?_append, hspace, Option.some_or]

/-- **A plain line is read back as it was written.** -/
theorem split?_text (h : l.Plain) : split? l.text = some l := by
  obtain ⟨s, c, -, -, hblank, hlast, -⟩ := h.getLast?_text
  rw [text, split?_mnemonic h.mnemonic_ne h.mnemonic, Text.dropWhileEnd_eq_self, List.drop_one,
    List.tail_cons, h.row.operandsOf_joined]
  · simp
  · rintro d hd
    rw [hlast] at hd
    exact Option.some.inj hd ▸ hblank

theorem isTrimmed_text (h : l.Plain) : Text.IsTrimmed l.text.toList := by
  obtain ⟨s, c, -, -, hblank, -, hlast⟩ := h.getLast?_text
  refine ⟨?_, ?_, ?_⟩
  · rw [text, String.toList_ofList]
    exact List.append_ne_nil_of_left_ne_nil h.mnemonic_ne _
  · intro d hd
    rw [text, String.toList_ofList, List.head?_append, List.head?_eq_some_head h.mnemonic_ne,
      Option.some_or, ← List.head?_eq_some_head h.mnemonic_ne] at hd
    simpa using List.all_eq_true.1 h.mnemonic d (List.mem_of_head? hd)
  · rintro d hd
    rw [hlast] at hd
    exact Option.some.inj hd ▸ hblank

end Plain

/-- A solid mnemonic, and operands. -/
structure Solid (l : Line) : Prop where
  mnemonic_ne : l.mnemonic.toList ≠ []
  mnemonic : l.mnemonic.toList.all isSolid = true
  operands_ne : l.operands ≠ []
  operands : ∀ s ∈ l.operands, IsOperand s.toList

namespace Solid

variable {l : Line}

/-- A line of solid parts is plain. -/
theorem plain (h : l.Solid) : l.Plain where
  mnemonic_ne := h.mnemonic_ne
  mnemonic := by
    refine List.all_eq_true.2 fun c hc => ?_
    rw [(isSolid_iff.1 (List.all_eq_true.1 h.mnemonic c hc)).1]
    rfl
  row := row_of_isOperand (by simpa using h.operands_ne) (by simpa using h.operands)

/-- **A solid line is read back as it was written.** -/
theorem split?_text (h : l.Solid) : split? l.text = some l := h.plain.split?_text

/-- A line of operands is no comment. -/
theorem isComment_text (h : l.Solid) : isComment l.text = false := by
  rw [isComment_of_split? h.split?_text, beq_eq_false_iff_ne]
  intro hhead
  have hsolid := List.all_eq_true.1 h.mnemonic ';' (List.mem_of_head? hhead)
  exact absurd hsolid (by decide)

theorem trim_text (h : l.Solid) : Text.trim l.text.toList = l.text.toList :=
  h.plain.isTrimmed_text.trim_eq

/-- A line of operands is no label. -/
theorem label?_text (h : l.Solid) : label? l.text = none := by
  obtain ⟨s, c, hs, hc, -, -, hlast⟩ := h.plain.getLast?_text
  have hcolon : c ≠ ':' := ((h.operands s (List.mem_of_getLast? hs)).ends.2 c hc).2
  rw [label?, h.trim_text, h.isComment_text, hlast, if_neg Bool.false_ne_true,
    if_neg (by simpa using hcolon)]

end Solid

end Line

namespace Machine

/-! ## Steps -/

/-- **The machine performs what a solid line says.** -/
theorem step_text (m : Machine) {l : Line} (h : l.Solid) :
    m.step l.text = m.perform l.text l.mnemonic l.operands := by
  rw [step, h.isComment_text, h.label?_text, h.split?_text]
  rfl

end Machine

/-- Whether an instruction only marks a place or says something. -/
def Instruction.isMark : Instruction → Bool
  | jump _ | test _ | label _ | comment _ => true
  | _ => false

namespace Instruction

theorem text_comment (text : String) :
    (comment text).text = String.ofList ([';'] ++ ' ' :: text.toList) := by
  rw [← String.toList_inj]
  simp [Instruction.text]

theorem text_label (name : String) : (label name).text = String.ofList (name.toList ++ [':']) := by
  rw [← String.toList_inj]
  simp [Instruction.text]

theorem text_test (condition : String) :
    (test condition).text = String.ofList (['I', 'F'] ++ ' ' :: (condition ++ " THEN").toList) := by
  rw [← String.toList_inj]
  simp [Instruction.text]

theorem text_jump (target : String) :
    (jump target).text = String.ofList (['J', 'M', 'P'] ++ ' ' :: target.toList) := by
  rw [← String.toList_inj]
  simp [Instruction.text]

end Instruction

theorem Line.isComment_semicolon (s : List Char) : isComment (String.ofList (';' :: s)) = true := by
  have hblank : Text.isBlank ';' = false := by decide
  rw [isComment, String.toList_ofList, Text.trimStart,
    List.dropWhile_cons_of_neg (by rw [hblank]; simp)]
  rfl

/-- What ends with a colon is a comment or defines a label. -/
theorem Line.label?_colon (s : List Char) (h : isComment (String.ofList (s ++ [':'])) = false) :
    (label? (String.ofList (s ++ [':']))).isSome = true := by
  have hblank : Text.isBlank ':' = false := by decide
  rw [isSome_label? h, String.toList_ofList, Text.trim_concat hblank, List.getLast?_concat]
  rfl

/-- Whether a line is a comment, defines a label, or is a test or a jump. -/
def Line.isMark (line : String) : Bool :=
  isComment line || (label? line).isSome ||
    (split? line).any fun l => l.mnemonic == "IF" || l.mnemonic == "JMP"

/-- **On a mark the machine does nothing.** -/
theorem Machine.step_of_isMark (m : Machine) {line : String} (h : Line.isMark line = true) :
    m.step line = .ok m := by
  rw [step]
  split
  · rfl
  · rename_i hskip
    rw [Line.isMark, Bool.eq_false_iff.2 hskip, Bool.false_or] at h
    cases hsplit : Line.split? line with
    | none => rfl
    | some l =>
      rw [hsplit, Option.any_some, Bool.or_eq_true_iff, beq_iff_eq, beq_iff_eq] at h
      exact if_pos h

/-- Every mark is written as one, whatever it says. -/
theorem Instruction.isMark_text {i : Instruction} (hi : i.isMark = true) :
    Line.isMark i.text = true := by
  -- a jump and a test are known by their mnemonic
  have hword {w : List Char} (hne : w ≠ []) (hw : w.all (!Text.isBlank ·) = true)
      (hwords : (String.ofList w == "IF" || String.ofList w == "JMP") = true) (rest : List Char) :
      Line.isMark (String.ofList (w ++ ' ' :: rest)) = true := by
    rw [Line.isMark, Line.split?_mnemonic hne hw, Option.any_some, hwords, Bool.or_true]
  cases i with
  | comment text =>
    rw [text_comment, Line.isMark, List.singleton_append, Line.isComment_semicolon]
    rfl
  | label name =>
    rw [text_label, Line.isMark]
    cases hcomment : Line.isComment (String.ofList (name.toList ++ [':'])) with
    | true => rfl
    | false =>
      rw [Line.label?_colon _ hcomment]
      rfl
  | test condition =>
    rw [text_test]
    exact hword (by simp) (by decide) (by decide) _
  | jump target =>
    rw [text_jump]
    exact hword (by simp) (by decide) (by decide) _
  | _ => cases hi

end Enigma
