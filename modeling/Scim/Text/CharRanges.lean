/-!
# `Scim.Text.CharRanges`: sets of characters as ascending ranges

A property of characters that a standard lists as ranges of code points is kept as that list. The
ranges of a table ascend and do not overlap, so a search may stop at the first range that starts
beyond the character. `covers_iff` says that nothing is missed.

That a table ascends is checked by computation (`ascendFrom`), once for each table.

A long table is kept in three parts, of which one is searched. Each part ends before the next one
starts, so the one that a character belongs to can be told by two limits. `covers_append` is the
step for two parts and one limit, and `covers_planes_iff` says that nothing is missed in three.
-/

set_option autoImplicit false

namespace Scim.Text

/-- Ranges of code points, both ends included, in ascending order. -/
abbrev CharRanges := List (Nat × Nat)

/-- Whether a code point lies in one of the ranges. -/
def CharRanges.covers : CharRanges → Nat → Bool
  | [], _ => false
  | (first, last) :: rest, n =>
    if n < first then false else if n ≤ last then true else CharRanges.covers rest n

/-- Whether the first range starts at the bound or later, and each other one beyond the range before
it. No range is empty. -/
def CharRanges.ascendFrom (bound : Nat) : CharRanges → Bool
  | [] => true
  | (first, last) :: rest =>
    decide (bound ≤ first) && decide (first ≤ last) && CharRanges.ascendFrom (last + 1) rest

/-- No range of a table starts in front of the bound that the table ascends from. -/
theorem CharRanges.le_of_ascendFrom {ranges : CharRanges} {bound : Nat} {range : Nat × Nat}
    (h : ranges.ascendFrom bound = true) (hmem : range ∈ ranges) : bound ≤ range.1 := by
  induction ranges generalizing bound with
  | nil => simp at hmem
  | cons first rest ih =>
    simp only [ascendFrom, Bool.and_eq_true, decide_eq_true_eq] at h
    rcases List.mem_cons.mp hmem with rfl | hmem
    · exact h.1.1
    · have := ih h.2 hmem
      omega

/-- Among ascending ranges the search finds the range of a code point if there is one. -/
theorem CharRanges.covers_iff {ranges : CharRanges} {bound : Nat}
    (h : ranges.ascendFrom bound = true) (n : Nat) :
    ranges.covers n = true ↔ ∃ range ∈ ranges, range.1 ≤ n ∧ n ≤ range.2 := by
  induction ranges generalizing bound with
  | nil => simp [covers]
  | cons range rest ih =>
    obtain ⟨first, last⟩ := range
    simp only [ascendFrom, Bool.and_eq_true, decide_eq_true_eq] at h
    simp only [covers, List.mem_cons, exists_eq_or_imp]
    split
    · -- Every later range starts even further beyond the code point.
      constructor
      · intro habs; contradiction
      · rintro (⟨hfirst, -⟩ | ⟨r, hr, hfirst, -⟩)
        · omega
        · have := le_of_ascendFrom h.2 hr
          omega
    · split
      · exact ⟨fun _ => Or.inl ⟨by omega, by omega⟩, fun _ => rfl⟩
      · rw [ih h.2]
        constructor
        · exact Or.inr
        · rintro (⟨-, hlast⟩ | h)
          · contradiction
          · exact h

/-- A table in two parts, on the two sides of a limit, is searched in the part that is on the side
of the code point. -/
theorem CharRanges.covers_append {left right : CharRanges} {limit : Nat}
    (hleft : ∀ range ∈ left, range.1 ≤ range.2 ∧ range.2 < limit)
    (hright : ∀ range ∈ right, limit ≤ range.1) (n : Nat) :
    (left ++ right).covers n = if n < limit then left.covers n else right.covers n := by
  induction left with
  | nil =>
    split
    · -- All the ranges on the right start beyond the code point.
      cases right with
      | nil => rfl
      | cons range rest =>
        have := hright range List.mem_cons_self
        simp only [List.nil_append, covers]
        rw [if_pos (by omega)]
    · rfl
  | cons range left ih =>
    have hrange := hleft range List.mem_cons_self
    simp only [List.cons_append, covers, ih fun r hr => hleft r (List.mem_cons_of_mem range hr)]
    split <;> split <;> grind

/-- A table in three parts, below U+1000, up to the end of the basic plane and beyond it, has the
code points of all its ranges. -/
theorem CharRanges.covers_planes_iff {low basic supplementary : CharRanges}
    (h : (low ++ (basic ++ supplementary)).ascendFrom 0 = true)
    (hlow : ∀ range ∈ low, range.1 ≤ range.2 ∧ range.2 < 0x1000)
    (hbasic : ∀ range ∈ basic, 0x1000 ≤ range.1 ∧ range.1 ≤ range.2 ∧ range.2 < 0x10000)
    (hsupplementary : ∀ range ∈ supplementary, 0x10000 ≤ range.1) (n : Nat) :
    (if n < 0x1000 then low.covers n
      else if n < 0x10000 then basic.covers n
      else supplementary.covers n) = true ↔
      ∃ range ∈ low ++ (basic ++ supplementary), range.1 ≤ n ∧ n ≤ range.2 := by
  have hbehind : ∀ range ∈ basic ++ supplementary, 0x1000 ≤ range.1 := by
    intro range hrange
    rcases List.mem_append.mp hrange with hrange | hrange
    · exact (hbasic range hrange).1
    · exact Nat.le_trans (by decide) (hsupplementary range hrange)
  rw [← covers_iff h, covers_append hlow hbehind,
    covers_append (fun range hrange => (hbasic range hrange).2) hsupplementary]

end Scim.Text
