/-!
# Text/Ranges — sets of characters as lists of code point ranges

A character class of the language is a list of closed ranges of code points. The list is meant to be
short or rarely searched: membership walks it once.

* `Ranges.contains_iff` — a character belongs exactly when one of the ranges holds its code point;
* `Ranges.contains_of_covered` — a class whose ranges each lie inside a range of another is a subset
  of it, so inclusions between classes are settled on their tables.
-/

namespace Enigma.Text

/-- Closed ranges of code points, each written as its first and last member. -/
abbrev Ranges := List (Nat × Nat)

namespace Ranges

/-- Whether one of the ranges holds the character. -/
def contains (rs : Ranges) (c : Char) : Bool :=
  rs.any fun r => Nat.ble r.1 c.toNat && Nat.ble c.toNat r.2

/-- Whether every range of `rs` lies inside some range of `ss`. -/
def coveredBy (rs ss : Ranges) : Bool :=
  rs.all fun r => ss.any fun s => Nat.ble s.1 r.1 && Nat.ble r.2 s.2

/-- Whether no range of `rs` meets a range of `ss`. -/
def apartFrom (rs ss : Ranges) : Bool :=
  rs.all fun r => ss.all fun s => Nat.blt r.2 s.1 || Nat.blt s.2 r.1

theorem contains_iff {rs : Ranges} {c : Char} :
    rs.contains c = true ↔ ∃ r ∈ rs, r.1 ≤ c.toNat ∧ c.toNat ≤ r.2 := by
  simp [contains, Nat.ble_eq]

/-- **A covered class is a subset.** -/
theorem contains_of_covered {rs ss : Ranges} (h : rs.coveredBy ss = true) {c : Char}
    (hc : rs.contains c = true) : ss.contains c = true := by
  simp only [coveredBy, List.all_eq_true, List.any_eq_true, Bool.and_eq_true,
    Nat.ble_eq] at h
  obtain ⟨r, hr, hlo, hhi⟩ := contains_iff.1 hc
  obtain ⟨s, hs, h1, h2⟩ := h r hr
  exact contains_iff.2 ⟨s, hs, Nat.le_trans h1 hlo, Nat.le_trans hhi h2⟩

/-- **Classes whose ranges never meet have no common member.** -/
theorem not_contains_of_apart {rs ss : Ranges} (h : rs.apartFrom ss = true) {c : Char}
    (hc : rs.contains c = true) : ss.contains c = false := by
  simp only [apartFrom, List.all_eq_true, Bool.or_eq_true, Nat.blt_eq] at h
  obtain ⟨r, hr, hlo, hhi⟩ := contains_iff.1 hc
  cases hs : ss.contains c with
  | false => rfl
  | true =>
    obtain ⟨s, hs, h1, h2⟩ := contains_iff.1 hs
    have := h r hr s hs
    omega

end Ranges

end Enigma.Text
