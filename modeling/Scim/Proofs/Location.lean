import Mathlib.Data.String.Basic
import Scim.Location

/-!
# `Scim.Proofs.Location`: places between two characters

`Location.locate` takes any number for an offset. Offsets that come from a scan are better than
that: they are the widths of the characters in front of them. For such an offset the walk stops
exactly behind those characters (`locate_of_toList_eq`), so nothing is rounded, and the position is
the offset (`position_locate`).

`textFrom` is what a text has behind an offset. A text that is divided in two is found again from
its second part on (`textFrom_of_toList_eq`), and the offset is on a boundary between characters
(`isValid_of_toList_eq`).

`locate_between` says all of this at once of a place behind some characters. Errors come with such
places, and this is what they are taken apart with.
-/

set_option autoImplicit false

namespace Scim

namespace Location

/-- The walk over as many bytes as some characters have is the walk over these characters. -/
theorem walk_append (l : Location) (before after : List Char) :
    l.walk (before ++ after) (String.utf8Len before) = before.foldl Location.after l := by
  induction before generalizing l with
  | nil =>
      cases after with
      | nil => rfl
      | cons c cs =>
          -- No bytes are left, and a character has at least one.
          have hpos := c.utf8Size_pos
          rw [List.nil_append, walk, if_neg (by rw [String.utf8Len_nil]; omega), List.foldl_nil]
  | cons c before ih =>
      rw [List.cons_append, walk, String.utf8Len_cons, if_pos (Nat.le_add_left _ _),
        Nat.add_sub_cancel, List.foldl_cons]
      exact ih (l.after c)

/-- A walk over characters goes on by their bytes. -/
theorem position_foldl_after (l : Location) (cs : List Char) :
    (cs.foldl Location.after l).position = l.position + String.utf8Len cs := by
  induction cs generalizing l with
  | nil => rfl
  | cons c cs ih =>
      have hafter : (l.after c).position = l.position + c.utf8Size := by
        unfold Location.after
        split <;> rfl
      rw [List.foldl_cons, ih, hafter, String.utf8Len_cons]
      omega

/-- The walk for an offset between two characters stops right there. -/
theorem locate_of_toList_eq {source : String} {before after : List Char}
    (h : source.toList = before ++ after) :
    locate source (String.utf8Len before) = before.foldl Location.after start := by
  unfold locate
  rw [h]
  exact walk_append start before after

/-- An offset between two characters is the position of its place. -/
theorem position_locate {source : String} {before after : List Char}
    (h : source.toList = before ++ after) :
    (locate source (String.utf8Len before)).position = String.utf8Len before := by
  rw [locate_of_toList_eq h, position_foldl_after]
  exact Nat.zero_add _

end Location

/-- What a text has behind a byte offset. -/
def textFrom (source : String) (offset : Nat) : String :=
  String.Pos.Raw.extract source ⟨offset⟩ source.rawEndPos

/-- What is behind such an offset is the second part of the text. -/
theorem textFrom_of_toList_eq {source : String} {before after : List Char}
    (h : source.toList = before ++ after) :
    textFrom source (String.utf8Len before) = String.ofList after := by
  have hsource : source = String.ofList (before ++ after ++ []) := by
    rw [List.append_nil, ← h, String.ofList_toList]
  have hstop : source.rawEndPos = ⟨String.utf8Len before + String.utf8Len after⟩ := by
    rw [hsource, String.rawEndPos_ofList, List.append_nil, String.utf8Len_append]
  rw [textFrom, hstop, hsource]
  exact String.extract_of_valid before after []

/-- Such an offset is a boundary. -/
theorem isValid_of_toList_eq {source : String} {before after : List Char}
    (h : source.toList = before ++ after) :
    (⟨String.utf8Len before⟩ : String.Pos.Raw).IsValid source := by
  rw [String.Pos.Raw.isValid_iff_exists_append]
  refine ⟨String.ofList before, String.ofList after, ?_, ?_⟩
  · rw [← String.ofList_append, ← h, String.ofList_toList]
  · rw [String.rawEndPos_ofList]

/-- The place behind some characters of a text is given back by its position, and what follows there
is the rest of the text. -/
theorem locate_between {source : String} {before after : List Char} {l : Location}
    (h : source.toList = before ++ after)
    (hl : l = Location.locate source (String.utf8Len before)) :
    l.position = String.utf8Len before ∧ l = Location.locate source l.position ∧
      (⟨l.position⟩ : String.Pos.Raw).IsValid source ∧
      (textFrom source l.position).toList = after := by
  have hposition : l.position = String.utf8Len before := by
    rw [hl]
    exact Location.position_locate h
  rw [hposition]
  refine ⟨rfl, hl, isValid_of_toList_eq h, ?_⟩
  rw [textFrom_of_toList_eq h, String.toList_ofList]

end Scim
