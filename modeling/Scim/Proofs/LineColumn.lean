import Mathlib.Data.List.DropRight
import Mathlib.Data.Prod.Lex
import Mathlib.Order.Bounds.Basic
import Scim.Proofs.Location

/-!
# `Scim.Proofs.LineColumn`: lines and columns are in the order of the text

An offset stands for the last boundary between two characters that is not behind it
(`exists_boundary_locate`). All else about a place is told by the characters in front of that
boundary: the newlines among them give the line, and those since the last newline the column
(`line_foldl_after`, `column_foldl_after`).

One more character moves a place on, to the next column or to the next line
(`lineColumn_lt_after`). So the places of two boundaries are in the order of the boundaries, if
lines come first and columns second (`lineColumn_lt_foldl_after`), and no two boundaries have the
same line and column.

* `isGreatest_position_locate`: the position of a place is the greatest boundary up to the offset.
* `position_le_iff_lineColumn_le`: places are in the order of their positions, which is a linear
  order. `lineColumn` puts the line in front of the column for this.
* `position_locate_of_isValid`: on a boundary, nothing is rounded.

`locate_orders_boundaries` states all of it for every text and every offset.

Boundaries are `String.Pos.Raw.IsValid`. `isValid_iff_exists_parts` says that these are the places
where a text can be divided in two, and `prefix_of_utf8Len_le` that the one with fewer bytes in
front is the earlier one.
-/

set_option autoImplicit false

namespace Scim

/-! ### Boundaries between characters -/

/-- A boundary is where a text can be divided in two. -/
theorem isValid_iff_exists_parts {source : String} {b : Nat} :
    (⟨b⟩ : String.Pos.Raw).IsValid source ↔
      ∃ before after, source.toList = before ++ after ∧ b = String.utf8Len before := by
  constructor
  · intro h
    obtain ⟨before, after, rfl, hb⟩ := String.Pos.Raw.isValid_iff_exists_append.mp h
    refine ⟨before.toList, after.toList, String.toList_append, ?_⟩
    rw [String.utf8Len_toList]
    exact congrArg String.Pos.Raw.byteIdx hb
  · rintro ⟨before, after, hparts, rfl⟩
    exact isValid_of_toList_eq hparts

/-- Of two ways to divide a text, the one with fewer bytes in front divides it earlier. -/
theorem prefix_of_utf8Len_le {cs before after before' after' : List Char}
    (h : cs = before ++ after) (h' : cs = before' ++ after')
    (hle : String.utf8Len before ≤ String.utf8Len before') : before <+: before' := by
  rcases List.append_eq_append_iff.mp (h.symm.trans h') with ⟨between, rfl, -⟩ | ⟨between, rfl, -⟩
  · exact List.prefix_append _ _
  · rw [String.utf8Len_append] at hle
    obtain rfl : between = [] := String.utf8Len_eq_zero.mp (by omega)
    simp

/-- What a text has in front of a byte offset. -/
def textUpTo (source : String) (offset : Nat) : String :=
  String.Pos.Raw.extract source 0 ⟨offset⟩

/-- What is in front of a boundary is the first of the two parts. -/
theorem textUpTo_of_toList_eq {source : String} {before after : List Char}
    (h : source.toList = before ++ after) :
    textUpTo source (String.utf8Len before) = String.ofList before := by
  have hsource : source = String.ofList ([] ++ before ++ after) := by
    rw [List.nil_append, ← h, String.ofList_toList]
  have hextract := String.extract_of_valid [] before after
  rw [← hsource, String.utf8Len_nil, Nat.zero_add] at hextract
  exact hextract

namespace Location

/-! ### Where the walk stops -/

/-- The walk stops behind the last character that fits into the bytes. -/
theorem exists_boundary_walk (l : Location) (cs : List Char) (bytes : Nat) :
    ∃ before after, cs = before ++ after ∧ l.walk cs bytes = before.foldl Location.after l ∧
      String.utf8Len before ≤ bytes ∧
      ∀ c ∈ after.head?, bytes < String.utf8Len before + c.utf8Size := by
  induction cs generalizing l bytes with
  | nil => exact ⟨[], [], rfl, rfl, Nat.zero_le _, by simp⟩
  | cons c cs ih =>
      rw [walk]
      split
      · next hfits =>
          -- The walk goes over this character and on.
          obtain ⟨before, after, rfl, hwalk, hle, hnext⟩ := ih (l.after c) (bytes - c.utf8Size)
          refine ⟨c :: before, after, rfl, hwalk, ?_, ?_⟩
          · rw [String.utf8Len_cons]
            omega
          · intro d hd
            have := hnext d hd
            rw [String.utf8Len_cons]
            omega
      · next hfits =>
          -- The offset is inside of this character, so the walk stops in front of it.
          refine ⟨[], c :: cs, rfl, rfl, Nat.zero_le _, ?_⟩
          rintro _ ⟨rfl⟩
          rw [String.utf8Len_nil]
          omega

/-- The place of an offset is behind some characters of the text, and no boundary up to the offset
has more in front of it. -/
theorem exists_boundary_locate (source : String) (p : Nat) :
    ∃ before after, source.toList = before ++ after ∧
      locate source p = before.foldl Location.after start ∧
      IsGreatest {b | (⟨b⟩ : String.Pos.Raw).IsValid source ∧ b ≤ min p source.utf8ByteSize}
        (String.utf8Len before) := by
  obtain ⟨before, after, hparts, hwalk, hle, hnext⟩ :=
    exists_boundary_walk start source.toList p
  refine ⟨before, after, hparts, hwalk, ⟨isValid_of_toList_eq hparts, le_min hle ?_⟩, ?_⟩
  · exact (isValid_of_toList_eq hparts).le_utf8ByteSize
  · rintro b ⟨hvalid, hb⟩
    obtain ⟨before', after', hparts', rfl⟩ := isValid_iff_exists_parts.mp hvalid
    by_contra hlt
    -- A later boundary would have the next character in front of it, which does not fit.
    obtain ⟨more, rfl⟩ := prefix_of_utf8Len_le hparts hparts' (by omega)
    cases more with
    | nil => simp at hlt
    | cons c more =>
        have hafter : after = c :: more ++ after' := by
          rw [hparts, List.append_assoc] at hparts'
          exact List.append_cancel_left hparts'
        have hc := hnext c (by rw [hafter]; rfl)
        rw [String.utf8Len_append, String.utf8Len_cons] at hb
        omega

/-! ### Lines and columns count characters -/

/-- Behind a newline a new line starts. -/
theorem after_newline (l : Location) :
    l.after '\n' = ⟨l.line + 1, 1, l.position + '\n'.utf8Size⟩ :=
  if_pos rfl

/-- Behind any other character the column is the next one. -/
theorem after_of_ne (l : Location) {c : Char} (h : c ≠ '\n') :
    l.after c = ⟨l.line, l.column + 1, l.position + c.utf8Size⟩ :=
  if_neg h

/-- Each newline counts one line. -/
theorem line_foldl_after (l : Location) (cs : List Char) :
    (cs.foldl Location.after l).line = l.line + cs.count '\n' := by
  induction cs generalizing l with
  | nil => rfl
  | cons c cs ih =>
      rw [List.foldl_cons, ih]
      by_cases hc : c = '\n'
      · rw [hc, after_newline, List.count_cons_self]
        dsimp only
        omega
      · rw [after_of_ne l hc, List.count_cons_of_ne hc]

/-- The column counts the characters since the last newline. -/
theorem column_foldl_after (cs : List Char) :
    (cs.foldl Location.after start).column = 1 + (cs.rtakeWhile (· ≠ '\n')).length := by
  -- The last character decides, so the induction is from the end.
  induction cs using List.reverseRecOn with
  | nil => rfl
  | append_singleton cs c ih =>
      rw [List.foldl_append, List.foldl_cons, List.foldl_nil]
      by_cases hc : c = '\n'
      · rw [hc, after_newline, List.rtakeWhile_concat_neg _ _ _ (by simp)]
        rfl
      · rw [after_of_ne _ hc, List.rtakeWhile_concat_pos _ _ _ (by simpa using hc),
          List.length_append, ih]
        rfl

/-! ### The order of places -/

/-- The line and the column of a place. The line counts first. -/
def lineColumn (l : Location) : Nat ×ₗ Nat :=
  toLex (l.line, l.column)

/-- A character moves the place on. -/
theorem lineColumn_lt_after (l : Location) (c : Char) : l.lineColumn < (l.after c).lineColumn := by
  by_cases hc : c = '\n'
  · rw [hc, after_newline]
    exact Prod.Lex.toLex_lt_toLex.mpr (.inl (Nat.lt_succ_self _))
  · rw [after_of_ne l hc]
    exact Prod.Lex.toLex_lt_toLex.mpr (.inr ⟨rfl, Nat.lt_succ_self _⟩)

/-- So do several characters. -/
theorem lineColumn_lt_foldl_after (l : Location) {cs : List Char} (h : cs ≠ []) :
    l.lineColumn < (cs.foldl Location.after l).lineColumn := by
  induction cs generalizing l with
  | nil => contradiction
  | cons c cs ih =>
      have hstep := lineColumn_lt_after l c
      cases cs with
      | nil => exact hstep
      | cons d cs => exact hstep.trans (ih (l.after c) (by simp))

/-- A position is the number of bytes in front of it. -/
theorem position_foldl_start (cs : List Char) :
    (cs.foldl Location.after start).position = String.utf8Len cs :=
  (position_foldl_after start cs).trans (Nat.zero_add _)

/-- The place behind some characters. -/
theorem foldl_after_start (cs : List Char) :
    cs.foldl Location.after start
      = ⟨cs.count '\n' + 1, (cs.rtakeWhile (· ≠ '\n')).length + 1, String.utf8Len cs⟩ := by
  have hline := line_foldl_after start cs
  have hcolumn := column_foldl_after cs
  have hposition := position_foldl_start cs
  cases hplace : cs.foldl Location.after start with
  | mk line column position =>
      rw [hplace] at hline hcolumn hposition
      rw [mk.injEq]
      exact ⟨hline.trans (Nat.add_comm _ _), hcolumn.trans (Nat.add_comm _ _), hposition⟩

/-- Of two boundaries the later one has the later place. -/
theorem lineColumn_foldl_lt {cs before after before' after' : List Char}
    (h : cs = before ++ after) (h' : cs = before' ++ after')
    (hlt : String.utf8Len before < String.utf8Len before') :
    (before.foldl Location.after start).lineColumn
      < (before'.foldl Location.after start).lineColumn := by
  obtain ⟨more, rfl⟩ := prefix_of_utf8Len_le h h' hlt.le
  rw [List.foldl_append]
  refine lineColumn_lt_foldl_after _ ?_
  rintro rfl
  simp at hlt

/-- Two places of a text are the same if their positions are. -/
theorem locate_eq_of_position_eq {source : String} {p q : Nat}
    (h : (locate source p).position = (locate source q).position) :
    locate source p = locate source q := by
  obtain ⟨before, after, hparts, hp, -⟩ := exists_boundary_locate source p
  obtain ⟨before', after', hparts', hq, -⟩ := exists_boundary_locate source q
  rw [hp, hq, position_foldl_start, position_foldl_start] at h
  have hprefix := prefix_of_utf8Len_le hparts hparts' h.le
  have hprefix' := prefix_of_utf8Len_le hparts' hparts h.ge
  rw [hp, hq, hprefix.eq_of_length_le hprefix'.length_le]

/-- Places are in the order of their positions. -/
theorem lineColumn_lt_of_position_lt {source : String} {p q : Nat}
    (h : (locate source p).position < (locate source q).position) :
    (locate source p).lineColumn < (locate source q).lineColumn := by
  obtain ⟨before, after, hparts, hp, -⟩ := exists_boundary_locate source p
  obtain ⟨before', after', hparts', hq, -⟩ := exists_boundary_locate source q
  rw [hp, hq, position_foldl_start, position_foldl_start] at h
  rw [hp, hq]
  exact lineColumn_foldl_lt hparts hparts' h

/-- Positions and places are in the same order. -/
theorem position_le_iff_lineColumn_le {source : String} {p q : Nat} :
    (locate source p).position ≤ (locate source q).position ↔
      (locate source p).lineColumn ≤ (locate source q).lineColumn := by
  constructor
  · intro h
    rcases Nat.lt_or_eq_of_le h with hlt | heq
    · exact (lineColumn_lt_of_position_lt hlt).le
    · rw [locate_eq_of_position_eq heq]
  · intro h
    by_contra hlt
    exact absurd h (lineColumn_lt_of_position_lt (Nat.lt_of_not_le hlt)).not_ge

/-- The position of a place is the last boundary that is not behind the offset. -/
theorem isGreatest_position_locate (source : String) (p : Nat) :
    IsGreatest {b | (⟨b⟩ : String.Pos.Raw).IsValid source ∧ b ≤ min p source.utf8ByteSize}
      (locate source p).position := by
  obtain ⟨before, after, hparts, hp, hgreatest⟩ := exists_boundary_locate source p
  rw [hp, position_foldl_start]
  exact hgreatest

/-- A boundary is the position of its place. -/
theorem position_locate_of_isValid {source : String} {b : Nat}
    (h : (⟨b⟩ : String.Pos.Raw).IsValid source) : (locate source b).position = b := by
  obtain ⟨before, after, hparts, rfl⟩ := isValid_iff_exists_parts.mp h
  exact position_locate hparts

end Location

open Location

/-- Places are the boundaries between characters, in their order.

1. The position of the place of an offset is the greatest boundary that is neither behind the offset
   nor behind the end of the text. Its line is one more than the newlines in front of it, and its
   column one more than the characters in front of it since the last newline. It is the place of its
   own position.
2. A greater offset has no earlier place. If its position is another one, its line and column come
   later.
3. The order of lines and columns is the order of positions, so two boundaries never share their
   line and column. -/
theorem locate_orders_boundaries (source : String) :
    (∀ p : Nat,
      IsGreatest {b | (⟨b⟩ : String.Pos.Raw).IsValid source ∧ b ≤ min p source.utf8ByteSize}
        (locate source p).position ∧
      (locate source p).line
        = 1 + (textUpTo source (locate source p).position).toList.count '\n' ∧
      (locate source p).column
        = 1 + ((textUpTo source (locate source p).position).toList.rtakeWhile (· ≠ '\n')).length ∧
      locate source (locate source p).position = locate source p) ∧
    (∀ p q : Nat, p ≤ q →
      (locate source p).position ≤ (locate source q).position ∧
      (locate source p).lineColumn ≤ (locate source q).lineColumn ∧
      ((locate source p).position ≠ (locate source q).position →
        (locate source p).lineColumn < (locate source q).lineColumn)) ∧
    (∀ p q : Nat, (locate source p).position ≤ (locate source q).position ↔
      (locate source p).lineColumn ≤ (locate source q).lineColumn) ∧
    ∀ a b : Nat, (⟨a⟩ : String.Pos.Raw).IsValid source → (⟨b⟩ : String.Pos.Raw).IsValid source →
      a ≠ b → (locate source a).lineColumn ≠ (locate source b).lineColumn := by
  refine ⟨fun p => ⟨isGreatest_position_locate source p, ?_, ?_, ?_⟩, fun p q hpq => ?_,
    fun p q => position_le_iff_lineColumn_le, fun a b ha hb hne heq => hne ?_⟩
  · obtain ⟨before, after, hparts, hp, -⟩ := exists_boundary_locate source p
    rw [hp, position_foldl_start, textUpTo_of_toList_eq hparts, String.toList_ofList]
    exact line_foldl_after start before
  · obtain ⟨before, after, hparts, hp, -⟩ := exists_boundary_locate source p
    rw [hp, position_foldl_start, textUpTo_of_toList_eq hparts, String.toList_ofList]
    exact column_foldl_after before
  · exact locate_eq_of_position_eq
      (position_locate_of_isValid (isGreatest_position_locate source p).1.1)
  · have hp := isGreatest_position_locate source p
    -- What is not behind the smaller offset is not behind the greater one.
    have hle : (locate source p).position ≤ (locate source q).position :=
      (isGreatest_position_locate source q).2
        ⟨hp.1.1, hp.1.2.trans (min_le_min_right _ hpq)⟩
    exact ⟨hle, position_le_iff_lineColumn_le.mp hle,
      fun hne => lineColumn_lt_of_position_lt (Nat.lt_of_le_of_ne hle hne)⟩
  · have hle := position_le_iff_lineColumn_le.mpr heq.le
    have hge := position_le_iff_lineColumn_le.mpr heq.ge
    rw [position_locate_of_isValid ha, position_locate_of_isValid hb] at hle hge
    exact Nat.le_antisymm hle hge

/-- In this text of three lines the offset 3 is inside of `é`, which starts at byte 2, and offset 9
is behind the end. -/
theorem locate_orders_boundaries_multibyte :
    locate "a\né\nb" 3 = ⟨2, 1, 2⟩ ∧ locate "a\né\nb" 9 = ⟨3, 2, 6⟩ ∧
    (⟨2⟩ : String.Pos.Raw).IsValid "a\né\nb" ∧ (⟨4⟩ : String.Pos.Raw).IsValid "a\né\nb" ∧
    (locate "a\né\nb" 3).lineColumn < (locate "a\né\nb" 9).lineColumn ∧
    (locate "a\né\nb" 2).lineColumn ≠ (locate "a\né\nb" 4).lineColumn := by
  obtain ⟨-, hmono, -, hne⟩ := locate_orders_boundaries "a\né\nb"
  have hvalid : (⟨2⟩ : String.Pos.Raw).IsValid "a\né\nb" := by decide +kernel
  have hvalid' : (⟨4⟩ : String.Pos.Raw).IsValid "a\né\nb" := by decide +kernel
  exact ⟨by decide +kernel, by decide +kernel, hvalid, hvalid',
    (hmono 3 9 (by decide)).2.2 (by decide +kernel), hne 2 4 hvalid hvalid' (by decide)⟩

end Scim
