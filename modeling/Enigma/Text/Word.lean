import Enigma.Text.Blank
import Enigma.Text.Digit
import Enigma.Text.WordRanges

/-!
# Text/Word — the characters words are made of

A word character is a letter, mark, decimal digit, connector punctuation or join control of any
script. Keywords and names end where no word character follows. The classes around it are settled
here:

* `isWord_of_isDigit` — digits are word characters;
* `isWord_eq_false_of_isBlank` — blanks are not;
* `isWord_of_isAlphanum` — ASCII letters and digits are.
-/

namespace Enigma.Text

/-- Whether the character can be part of a word. -/
def isWord (c : Char) : Bool :=
  if c.toNat < 0x80 then c.isAlphanum || c == '_' else wordRanges.contains c

/-- **ASCII letters and digits are word characters.** -/
theorem isWord_of_isAlphanum {c : Char} (h : c.isAlphanum = true) : isWord c = true := by
  have hle {a : Char} (ha : a.toNat < 0x80) (hc : c.val ≤ a.val) : c.toNat < 0x80 :=
    Nat.lt_of_le_of_lt (UInt32.le_iff_toNat_le.1 hc) ha
  have hc : c.toNat < 0x80 := by
    rcases Bool.or_eq_true_iff.1 h with h | h
    · rcases Bool.or_eq_true_iff.1 h with h | h
      · exact hle (a := 'Z') (by decide) (of_decide_eq_true h).2
      · exact hle (a := 'z') (by decide) (of_decide_eq_true (Bool.and_eq_true_iff.1 h).2)
    · exact hle (a := '9') (by decide) (of_decide_eq_true (Bool.and_eq_true_iff.1 h).2)
  simp [isWord, hc, h]

/-- **Digits are word characters.** -/
theorem isWord_of_isDigit {c : Char} (h : isDigit c = true) : isWord c = true := by
  unfold isDigit at h
  split at h
  · exact isWord_of_isAlphanum (by simp [Char.isAlphanum, h])
  · rename_i hc
    have : digitRanges.coveredBy wordRanges = true := by decide +kernel
    simpa [isWord, hc] using Ranges.contains_of_covered this h

/-- The ASCII characters of a class, checked one by one. -/
theorem forall_ascii {p : Char → Bool}
    (h : (List.range 0x80).all (fun n => p (Char.ofNat n)) = true)
    {c : Char} (hc : c.toNat < 0x80) : p c = true := by
  have := List.all_eq_true.1 h c.toNat (List.mem_range.2 hc)
  rwa [Char.ofNat_toNat] at this

/-- **Blanks are not word characters.** -/
theorem isWord_eq_false_of_isBlank {c : Char} (h : isBlank c = true) : isWord c = false := by
  by_cases hc : c.toNat < 0x80
  · have := forall_ascii (p := fun c => !(isBlank c && isWord c)) (by decide +kernel) hc
    simpa [h] using this
  · have : blankRanges.apartFrom wordRanges = true := by decide +kernel
    simpa [isWord, hc] using Ranges.not_contains_of_apart this h

/-- Whether no word goes on here: the text has ended or a character that is not a word's is next. -/
def atWordEnd : List Char → Bool
  | [] => true
  | c :: _ => !isWord c

end Enigma.Text
