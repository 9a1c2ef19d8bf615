import Scim.Parse.Attempt
import Scim.Proofs.LineColumn
import Scim.Proofs.Token.Names

/-!
# `Scim.Proofs.Guarded.Basic`: operations that have a range

Parsing takes lists apart, and that cannot go wrong. A parser that leaves the text in one piece
works with byte offsets into it instead, and with numbers that count up and down. Its operations
have a range: a slice must start in front of its end and cut no character in two, and a count must
not go below zero.

`Guarded` is reading with such operations. It says more than `Attempt`: a result with its events, or
that an operation was out of range, and then there is no result at all, not even an error.
`Guarded.Runs` says that everything stays in range and that the result is that of an attempt. It is
kept by steps in a row (`Runs.bind`), which is how it is proved of whole readers.

The two operations are:

* `difference`, which is in range if nothing is taken away that is not there (`difference_eq`);
* `slice`, which is in range if its offsets are those of a part of the text. `IsPart` is how this is
  known: these characters stand between the two offsets (`slice_eq`).

The first reader made of them is `Guarded.locate`, which finds lines and columns by offsets. It goes
back to a boundary byte by byte (`roundDown_eq`) and cuts out the last line (`slice_line`), and it
is in range for every text and every offset (`locate_eq`).
-/

set_option autoImplicit false

namespace Scim

/-- Reading with operations that have a range: nothing if one of them is out of range, and else an
attempt. -/
def Guarded (α : Type) : Type := Option (Attempt α)

namespace Guarded

variable {α β γ δ : Type}

/-- Everything is in range. -/
def within (a : Attempt α) : Guarded α := some a

/-- An operation is out of range. -/
def outOfRange : Guarded α := none

/-- One step after another. Nothing comes after a step that is out of range. -/
def andThen (g : Guarded α) (k : α → Guarded β) : Guarded β :=
  match g with
  | none => none
  | some a =>
    match a.outcome with
    | .ok x => (k x).map fun b => ⟨a.events ++ b.events, b.outcome⟩
    | .error e => some ⟨a.events, .error e⟩

/-- Steps in a row, as `do` writes them. -/
instance : Monad Guarded where
  pure a := within (pure a)
  bind := andThen

/-- Reading fails. -/
def fail (e : ParseError) : Guarded α := within (.fail e)

/-- Records an event. -/
def note (e : Event) : Guarded Unit := within (.note e)

/-! ### Staying in range -/

/-- Everything stays in range, and the result is that of an attempt, seen through a function. -/
def Runs (g : Guarded α) (a : Attempt β) (view : β → α) : Prop :=
  g = within ⟨a.events, a.outcome.map view⟩

/-- There is nothing to do before the next step. -/
theorem pure_bind (x : α) (k : α → Guarded β) : (pure x >>= k) = k x := by
  show (k x).map _ = k x
  cases k x with
  | none => rfl
  | some b => rfl

/-- A value stays in range, and it is that of the attempt if it is what is seen of it. -/
theorem runs_pure {x : β} {y : α} {view : β → α} (h : view x = y) :
    Runs (pure y) (pure x) view := by
  subst h
  rfl

/-- Recording an event stays in range. -/
theorem runs_note (e : Event) : Runs (note e) (.note e) id := rfl

/-- What stays in range is nothing but the attempt, seen through the function. -/
theorem Runs.eq_within_view {g : Guarded α} {a : Attempt β} {view : β → α} (h : Runs g a view) :
    g = within (a >>= fun x => pure (view x)) := by
  refine h.trans (congrArg within ?_)
  show _ = a.andThen _
  unfold Attempt.andThen
  cases houtcome : a.outcome with
  | ok x =>
      show Attempt.mk a.events (.ok (view x)) = ⟨a.events ++ [], .ok (view x)⟩
      rw [List.append_nil]
  | error e => rfl

/-- If the result is seen as it is, it is the attempt itself. -/
theorem runs_id_iff {g : Guarded α} {a : Attempt α} : Runs g a id ↔ g = within a := by
  obtain ⟨events, outcome⟩ := a
  cases outcome <;> exact Iff.rfl

/-- Steps that stay in range one after the other stay in range together. -/
theorem Runs.bind {g : Guarded α} {a : Attempt β} {view : β → α} {k : α → Guarded γ}
    {k' : β → Attempt δ} {view' : δ → γ} (h : Runs g a view)
    (hk : ∀ x, a.outcome = .ok x → Runs (k (view x)) (k' x) view') :
    Runs (g >>= k) (a >>= k') view' := by
  subst h
  show andThen _ k = within ⟨(a.andThen k').events, (a.andThen k').outcome.map view'⟩
  unfold andThen Attempt.andThen within
  cases houtcome : a.outcome with
  | error e => rfl
  | ok x =>
      have hx := hk x houtcome
      unfold Runs within at hx
      simp only [Except.map, hx]
      rfl

/-- A step that has no counterpart in the attempt. -/
theorem Runs.of_pure {g : Guarded γ} {x : γ} {k : γ → Guarded α} {a : Attempt β} {view : β → α}
    (hg : g = pure x) (h : Runs (k x) a view) : Runs (g >>= k) a view := by
  rw [hg, pure_bind]
  exact h

/-! ### Operations -/

/-- A difference, which must not be below zero. -/
def difference (m n : Nat) : Guarded Nat :=
  if n ≤ m then pure (m - n) else outOfRange

/-- A difference that is not below zero is in range. -/
theorem difference_eq {m n : Nat} (h : n ≤ m) : difference m n = pure (m - n) :=
  if_pos h

/-- The part of a text between two byte offsets. The first must not be behind the second, and both
must be between characters. -/
def slice (text : String) (start stop : Nat) : Guarded String :=
  if start ≤ stop ∧ (⟨start⟩ : String.Pos.Raw).IsValid text ∧
      (⟨stop⟩ : String.Pos.Raw).IsValid text then
    pure (String.Pos.Raw.extract text ⟨start⟩ ⟨stop⟩)
  else outOfRange

example : slice "é" 1 2 = outOfRange := if_neg (by decide)

/-- These characters stand between two byte offsets of a text. -/
def IsPart (text : String) (start stop : Nat) (part : List Char) : Prop :=
  ∃ before after, text.toList = before ++ (part ++ after) ∧ start = String.utf8Len before ∧
    stop = start + String.utf8Len part

/-- A part of the text is in range, and it is the text of its characters. -/
theorem slice_eq {text : String} {part : List Char} {start stop : Nat}
    (h : IsPart text start stop part) : slice text start stop = pure (String.ofList part) := by
  obtain ⟨before, after, h, rfl, rfl⟩ := h
  have hstop : (⟨String.utf8Len before + String.utf8Len part⟩ : String.Pos.Raw).IsValid text := by
    rw [← List.append_assoc] at h
    rw [← String.utf8Len_append]
    exact isValid_of_toList_eq h
  have htext : text = String.ofList (before ++ part ++ after) := by
    rw [List.append_assoc, ← h, String.ofList_toList]
  rw [slice, if_pos ⟨Nat.le_add_right _ _, isValid_of_toList_eq h, hstop⟩, htext,
    String.extract_of_valid]

/-- A part ends as many bytes behind its start as its characters have. -/
theorem IsPart.stop_eq {text : String} {part : List Char} {start stop : Nat}
    (h : IsPart text start stop part) : stop = start + String.utf8Len part := by
  obtain ⟨_, _, _, _, hstop⟩ := h
  exact hstop

/-- What is left of a part behind its first characters is a part. -/
theorem IsPart.tail {text : String} {part rest : List Char} {start stop : Nat}
    (h : IsPart text start stop (part ++ rest)) :
    IsPart text (start + String.utf8Len part) stop rest := by
  obtain ⟨before, after, htext, hstart, hstop⟩ := h
  refine ⟨before ++ part, after, ?_, ?_, ?_⟩
  · rw [htext, List.append_assoc, List.append_assoc]
  · rw [hstart, String.utf8Len_append]
  · rw [hstop, String.utf8Len_append, Nat.add_assoc]

/-- All of a text is a part of it. -/
theorem isPart_self (text : String) : IsPart text 0 text.utf8ByteSize text.toList := by
  refine ⟨[], [], by simp, rfl, ?_⟩
  rw [Nat.zero_add, String.utf8Len_toList]

/-- The byte offset of the last occurrence of a character. -/
def lastIndex? (c : Char) : List Char → Option Nat
  | [] => none
  | d :: ds =>
    match lastIndex? c ds with
    | some index => some (d.utf8Size + index)
    | none => if d = c then some 0 else none

/-- The last occurrence of a character is behind all others, or there is none. -/
theorem lastIndex?_cases (c : Char) (cs : List Char) :
    (lastIndex? c cs = none ∧ c ∉ cs) ∨
      ∃ before after, cs = before ++ c :: after ∧ c ∉ after ∧
        lastIndex? c cs = some (String.utf8Len before) := by
  induction cs with
  | nil => exact .inl ⟨rfl, by simp⟩
  | cons d ds ih =>
      -- An occurrence further on is the last one. Only without any does the first character count.
      rcases ih with ⟨hnone, hc⟩ | ⟨before, after, rfl, hc, hsome⟩
      · by_cases hd : d = c
        · subst hd
          refine .inr ⟨[], ds, rfl, hc, ?_⟩
          rw [lastIndex?, hnone]
          exact if_pos rfl
        · refine .inl ⟨?_, ?_⟩
          · rw [lastIndex?, hnone]
            exact if_neg hd
          · rw [List.mem_cons, not_or]
            exact ⟨fun h => hd h.symm, hc⟩
      · refine .inr ⟨d :: before, after, rfl, hc, ?_⟩
        rw [lastIndex?, hsome, String.utf8Len_cons, Nat.add_comm]

/-! ### Lines and columns -/

/-- The last boundary between characters that is not behind an offset, found by going back byte by
byte. -/
def roundDown (source : String) (position : Nat) : Guarded Nat :=
  if (⟨position⟩ : String.Pos.Raw).IsValid source then pure position
  else
    match position with
    | 0 => outOfRange
    | position + 1 => roundDown source position

/-- The place of a byte offset in a text. -/
def locate (source : String) (offset : Nat) : Guarded Location := do
  let position ← roundDown source (min offset source.utf8ByteSize)
  let consumed ← slice source 0 position
  let lineStart := match lastIndex? '\n' consumed.toList with
    | some index => index + 1
    | none => 0
  let line ← slice consumed lineStart consumed.utf8ByteSize
  return ⟨consumed.toList.count '\n' + 1, line.length + 1, position⟩

/-- Going back stops at a boundary before it is below zero, since zero is one. -/
theorem roundDown_eq {source : String} {p b : Nat}
    (h : IsGreatest {b | (⟨b⟩ : String.Pos.Raw).IsValid source ∧ b ≤ p} b) :
    roundDown source p = pure b := by
  induction p with
  | zero =>
      obtain rfl : b = 0 := Nat.le_zero.mp h.1.2
      rw [roundDown, if_pos h.1.1]
  | succ p ih =>
      rw [roundDown]
      by_cases hvalid : (⟨p + 1⟩ : String.Pos.Raw).IsValid source
      · obtain rfl : b = p + 1 := Nat.le_antisymm h.1.2 (h.2 ⟨hvalid, Nat.le_refl _⟩)
        rw [if_pos hvalid]
      · rw [if_neg hvalid]
        have hb : b ≠ p + 1 := fun hb => hvalid (hb ▸ h.1.1)
        have hle : b ≤ p + 1 := h.1.2
        exact ih ⟨⟨h.1.1, by omega⟩, fun c hc => h.2 ⟨hc.1, Nat.le_succ_of_le hc.2⟩⟩

/-- The last line of a text is what stands behind the last newline. -/
theorem rtakeWhile_append_newline (front : List Char) {line : List Char} (h : '\n' ∉ line) :
    (front ++ '\n' :: line).rtakeWhile (· ≠ '\n') = line := by
  have hall : ∀ c ∈ line.reverse, decide (c ≠ '\n') = true := by
    intro c hc
    rw [decide_eq_true_eq]
    rintro rfl
    exact h (List.mem_reverse.mp hc)
  rw [List.rtakeWhile, List.reverse_append, List.reverse_cons, List.append_assoc,
    List.takeWhile_append_of_pos hall, List.singleton_append,
    List.takeWhile_cons_of_neg (by simp), List.append_nil, List.reverse_reverse]

/-- The last line of a text starts behind its last newline. -/
theorem slice_line (before : List Char) :
    slice (String.ofList before)
        (match lastIndex? '\n' before with
          | some index => index + 1
          | none => 0) (String.ofList before).utf8ByteSize
      = pure (String.ofList (before.rtakeWhile (· ≠ '\n'))) := by
  rcases lastIndex?_cases '\n' before with ⟨hnone, hc⟩ | ⟨front, line, rfl, hc, hsome⟩
  · -- There is no newline, so the whole text is its last line.
    have hall : before.rtakeWhile (· ≠ '\n') = before := by
      refine List.rtakeWhile_eq_self_iff.mpr fun c hmem => ?_
      rw [decide_eq_true_eq]
      rintro rfl
      exact hc hmem
    rw [hnone, hall]
    refine slice_eq ⟨[], [], by simp, rfl, ?_⟩
    rw [String.utf8ByteSize_ofList, Nat.zero_add]
  · -- The line starts one byte behind the newline, which is the size of that character.
    rw [hsome, rtakeWhile_append_newline front hc]
    refine slice_eq ⟨front ++ ['\n'], [], by simp, ?_, ?_⟩
    · rw [String.utf8Len_append]
      rfl
    · rw [String.utf8ByteSize_ofList, String.utf8Len_append, String.utf8Len_cons]
      show _ + (_ + 1) = _ + 1 + _
      omega

/-- The place of an offset is found in range, whatever the text and the offset. -/
theorem locate_eq (source : String) (offset : Nat) :
    locate source offset = pure (Location.locate source offset) := by
  obtain ⟨before, after, hparts, hlocate, hgreatest⟩ :=
    Location.exists_boundary_locate source offset
  have hconsumed : slice source 0 (String.utf8Len before) = pure (String.ofList before) :=
    slice_eq ⟨[], after, hparts, rfl, (Nat.zero_add _).symm⟩
  rw [locate, roundDown_eq hgreatest, pure_bind, hconsumed, pure_bind]
  dsimp only
  rw [String.toList_ofList, slice_line, pure_bind, String.length_ofList, hlocate,
    Location.foldl_after_start]

end Guarded

end Scim
