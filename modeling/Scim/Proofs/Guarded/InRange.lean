import Scim.Proofs.Guarded.Steps

/-!
# `Scim.Proofs.Guarded.InRange`: reading never leaves its range

For every text, the reader by offsets and cursors does what `attemptFilter` and `attemptPath` do,
with the same events, and none of its operations is out of range (`attempts_stay_in_range`). A scan
that stays in place and a call that does not go down are out of range too. So the reader neither
breaks off nor goes on forever.

The grammar is the same for both readers, so only what it is carried out with is compared, in the
simulation `inRange`:

* `operations_simulates`: the steps on a text, which `Scim.Proofs.Guarded.Steps` has one by one.
* `reading_simulates`: what is read inside of an expression. The predicate of a value path and the
  right operand of a connective are read from the same stream, and a token has been taken before
  (`Frame.Reaches.below`). The body of a group is read from a new stream over a shorter range
  (`readRange_eq`). What is carried along is that the stream at hand can be reached from a frame
  (`Frame.Reaches`) and that the frame holds the tokens of its range (`Frame.Cuts`).
* `readExpression_eq` ties the knot, by induction on the weight of the stream.
-/

set_option autoImplicit false

namespace Scim

namespace Guarded

variable {mode : Mode} {s : TokenStream}

/-- Staying in range, and doing what an attempt does. -/
def inRange : Simulation Guarded where
  Rel g a := g = within a
  rel_pure _ := rfl
  rel_bind h hk := runs_id_iff.mp ((runs_id_iff.mpr h).bind fun x hx => runs_id_iff.mpr (hk x hx))

/-- The steps on a text stay in range and do what those on lists of tokens do. -/
theorem operations_simulates (mode : Mode) : operations.Simulates inRange mode where
  scan input := (runs_scanRange (isPart_self input)).eq_within_view
  take := take_eq
  pathOf := pathOf_eq
  literal? := literal?_eq
  subAttribute := slice_subAttribute
  remaining s := by
    show difference s.tokens.length s.position = pure s.rest.length
    rw [TokenStream.tokens, List.length_append, List.length_reverse, TokenStream.position,
      difference_eq (Nat.le_add_right _ _), Nat.add_sub_cancel_left]
  note _ := rfl
  refuse s fault _ := refuse_eq s fault

/-! ### Expressions -/

/-- What a frame knows of the streams that reading from it leads to. -/
def Frame.Cuts.invariant {f : Frame} (hcuts : f.Cuts mode) : Invariant mode where
  Holds := f.Reaches
  scanned := hcuts.scanned
  follow h ht := h.follow ht

section
variable {f : Frame} {calls : Calls f} {read : Lighter Attempt f.stream}

/-- Calls stay in range, and lead to what reading the stream from lists leads to. -/
def Agrees (mode : Mode) (f : Frame) (calls : Calls f) (read : Lighter Attempt f.stream) : Prop :=
  ∀ g hg hw v, g.Cuts mode → calls g hg v = within (read g.stream hw v)

variable (hcuts : f.Cuts mode) (h : Agrees mode f calls read)
include hcuts h

/-- Reading goes on further behind in the same stream. -/
theorem call_eq {t : TokenStream} (ht : f.Reaches t) (hw : t.weight < f.stream.weight) (v : Bool) :
    call calls ⟨f.start, f.stop, t⟩ v = within (read t hw v) := by
  rw [call, dif_pos (ht.below hw)]
  exact h ⟨f.start, f.stop, t⟩ _ hw v (hcuts.reach ht)

/-- The body of a group is scanned and read in a range of its own. -/
theorem readRange_eq {t : TokenStream} (ht : f.Reaches t) (hw : t.weight ≤ f.stream.weight)
    (group : Group t) (v : Bool) :
    readRange mode f calls t.source group.opening.stop group.closing.offset v
      = within (readBody mode t (fun u hu => read u (Nat.lt_of_lt_of_le hu hw)) group v) := by
  obtain ⟨hrange, hshorter⟩ := hcuts.between ht group.front
  refine runs_id_iff.mp ((runs_scanRange hrange).bind fun inner hinner => ?_)
  have hbelow : Frame.Below ⟨group.opening.stop, group.closing.offset, inner.val⟩ f :=
    ⟨by rw [eq_make_of_scan hinner]; exact ht.source_eq, .inr hshorter⟩
  rw [call, dif_pos hbelow]
  have hstep := h _ hbelow (Nat.lt_of_le_of_lt inner.property (Nat.lt_of_le_of_lt
    (length_charsOf_le group.body) (Nat.lt_of_lt_of_le group.body_lighter hw))) v
    (cuts_of_scan hinner hrange)
  exact (runs_id_iff.mpr hstep).bind fun _ _ => runs_pure rfl

/-- Parentheses and what is between them are read in range. -/
theorem readEnclosed_eq {t : TokenStream} (ht : f.Reaches t) (hw : t.weight ≤ f.stream.weight)
    (empty : Nat → Event) (v : Bool) :
    readEnclosed mode f calls empty t v
      = within ((Policy.rescanning mode).enclosed t
          (fun u hu => read u (Nat.lt_of_lt_of_le hu hw)) empty v) := by
  refine runs_id_iff.mp ((runs_enclosed hcuts ht).bind fun group _ => ?_)
  -- There is nothing in the range exactly if there are no tokens in it.
  show Runs (if group.closing.offset ≤ group.opening.stop then _ else _) _ id
  simp only [offset_le_stop_iff hcuts ht group]
  split
  · exact (runs_note _).bind fun _ _ => runs_pure rfl
  · exact (runs_id_iff.mpr (readRange_eq hcuts h ht hw group v)).bind fun _ _ => runs_pure rfl

/-- Reading from a frame simulates reading from its stream, if calls below the frame do. -/
theorem reading_simulates : (reading mode f calls).Simulates inRange hcuts.invariant read where
  toSimulates := operations_simulates mode
  enclosed empty _ hw v ht := readEnclosed_eq hcuts h ht hw empty v
  read _ hw v ht := call_eq hcuts h ht hw v

end

/-- An expression is read in range, and as from lists. -/
theorem readExpression_eq {f : Frame} (hcuts : f.Cuts mode) (v : Bool) :
    readExpression mode f v = within ((Policy.rescanning mode).expression f.stream v) := by
  -- Below the frame the stream is lighter, for which the other reader has the proofs.
  induction hw : f.stream.weight using Nat.strongRecOn generalizing f v with
  | ind w ih =>
      subst hw
      have hread : Agrees mode f (fun g _ => readExpression mode g)
          fun t _ => (Policy.rescanning mode).expression t :=
        fun g _ hw v hg => ih g.stream.weight hw hg v rfl
      rw [readExpression, Policy.expression]
      exact (reading_simulates hcuts hread).expression (Frame.Reaches.refl f) v

/-! ### Filters and paths -/

/-- A text is scanned to a frame of all of it, so reading from there simulates the parser. -/
theorem parser_simulates (mode : Mode) (input : String) :
    (parser mode input).Simulates inRange mode input where
  toSimulates := operations_simulates mode
  reading htokens :=
    have hcuts := cuts_of_scan htokens (isPart_self input)
    ⟨hcuts.invariant, Frame.Reaches.refl _,
      reading_simulates hcuts fun _ _ _ v hg => readExpression_eq hg v⟩

end Guarded

/-- No operation is out of range, whatever the text. Slices are those of a scan and its tokens, of
the bodies of groups, of strings, sub-attributes and names, and of lines; differences are those of
the counts of parentheses, tokens and bytes; and calls are those of `readExpression`, which would
have to be made on frames below each other forever to go on forever. -/
theorem attempts_stay_in_range :
    (∀ input, Guarded.attemptFilter input = .within (attemptFilter input)) ∧
      (∀ input, Guarded.attemptPath input = .within (attemptPath input)) ∧
      (∀ source offset, Guarded.locate source offset = pure (Location.locate source offset)) ∧
      WellFounded Guarded.Frame.Below :=
  ⟨fun input => ((Guarded.parser_simulates .filter input).filter),
    fun input => ((Guarded.parser_simulates .path input).path), Guarded.locate_eq,
    Guarded.Frame.wellFounded_below⟩

end Scim
