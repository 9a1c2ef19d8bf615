import Scim.Proofs.Guarded.Reader
import Scim.Proofs.Parse.Accepted
import Scim.Proofs.Token.Partition

/-!
# `Scim.Proofs.Guarded.Steps`: what a single step does in a scanned range

The steps of `Scim.Proofs.Guarded.Reader` that do not read an expression, each with the step of the
parser that it stands for. Taking a token and cutting a name at its last colon are always in range.
The others need to know where they are:

* A scan needs that its range is one of the text, `IsPart` (`runs_scanRange`). Each token leaves
  such a range for the rest of the scan.
* A string and a sub-attribute are cut out of a token at fixed offsets. The token has to come from a
  scan, which shows what stands at its ends (`literal?_eq`, `slice_subAttribute`).
* A group needs that its tokens are those of a range, `Frame.Cuts`. Then its body is a range again,
  and a shorter one (`Frame.Cuts.between`). Counting parentheses down needs nothing: it stops at
  zero (`closingIndex_eq`).

`Frame.Cuts` is the invariant of reading. It is about all tokens of a stream, so it stays true when
the cursor moves (`Frame.Cuts.reach`).
-/

set_option autoImplicit false

namespace Scim

namespace Guarded

variable {α β : Type} {mode : Mode} {s : TokenStream}

/-! ### Errors and tokens -/

/-- Locating the token at fault is in range, so reading fails with the error at that place. -/
theorem failAt_eq (s : TokenStream) (t : Token) (error : Token → Location → ParseError) :
    (failAt s t error : Guarded α) = fail (error t (s.locationOf t)) := by
  rw [failAt, locate_eq, pure_bind]
  rfl

/-- If there is no token at fault, reading fails for the other reason. -/
theorem failAt?_eq (s : TokenStream) (t? : Option Token) (error : Token → Location → ParseError)
    (otherwise : ParseError) :
    (failAt? s t? error otherwise : Guarded α)
      = fail (match t? with
        | some t => error t (s.locationOf t)
        | none => otherwise) := by
  cases t? with
  | some t => exact failAt_eq s t error
  | none => rfl

/-- What is wrong with a stream leads to the same error, since the token is found where it
stands. -/
theorem refuse_eq (s : TokenStream) (fault : Fault) :
    (refuse s fault : Guarded α) = fail (s.error fault) := by
  cases fault with
  | operator t | literal t | connective t => exact failAt_eq s t notAllowed
  | last | next | predicate | path => exact failAt?_eq s _ _ _

/-- Taking a token is in range, and it is taken as from a list. -/
theorem take_eq (kinds : List TokenKind) (s : TokenStream) :
    take kinds s = within (takeToken kinds s) := by
  unfold take
  split
  · next hnone =>
      have hconsume : s.consume kinds = .error .unexpectedEnd := by
        rw [TokenStream.consume, List.head?_eq_none_iff.mp hnone]
      rw [takeToken_of_consume_eq_error hconsume]
      rfl
  · next t hpeek =>
      obtain ⟨ts, hrest⟩ := List.head?_eq_some_iff.mp hpeek
      split
      · next hkind =>
          have hconsume : s.consume kinds = .ok (t, s.advance) := by
            rw [TokenStream.consume, hrest]
            exact if_pos hkind
          rw [takeToken_of_consume hconsume]
          rfl
      · next hkind =>
          have hconsume : s.consume kinds
              = .error (.tokenMismatch t.text t.kind kinds (s.locationOf t)) := by
            rw [TokenStream.consume, hrest]
            exact if_neg hkind
          rw [takeToken_of_consume_eq_error hconsume, failAt_eq]
          rfl

/-! ### Names and literals -/

/-- A name is cut at its last colon in range, and on both sides stands what it is cut into. -/
theorem pathOf_eq (text : String) : pathOf text = pure (AttributePath.ofName text) := by
  unfold pathOf AttributePath.ofName
  rcases lastIndex?_cases ':' text.toList with
    ⟨hnone, hcolon⟩ | ⟨schema, dotted, htext, hcolon, hsome⟩
  · rw [hnone, AttributePath.splitAtLastColon_eq_none hcolon]
    exact pure_bind _ _
  · have hschema : slice text 0 (String.utf8Len schema) = pure (String.ofList schema) :=
      slice_eq ⟨[], ':' :: dotted, htext, rfl, (Nat.zero_add _).symm⟩
    -- The colon is a single byte, so the names start at the next offset.
    have hcolonEnd : 0 + String.utf8Len (schema ++ [':']) = String.utf8Len schema + 1 := by
      rw [String.utf8Len_append, Nat.zero_add]
      rfl
    have hdotted : slice text (String.utf8Len schema + 1) text.utf8ByteSize
        = pure (String.ofList dotted) := by
      have hwhole := isPart_self text
      rw [htext, List.append_cons] at hwhole
      rw [← hcolonEnd]
      exact slice_eq hwhole.tail
    rw [hsome, htext, AttributePath.splitAtLastColon_append schema hcolon]
    dsimp only
    rw [hschema, pure_bind, hdotted, pure_bind, pure_bind]
    dsimp only
    rw [String.toList_ofList]

/-- A string starts and ends with a quote, so there is something to take away at both ends. -/
theorem literal?_eq {t : Token} {ts : List Token} (h : Scanned mode (t :: ts)) :
    literal? t = pure t.literal? := by
  unfold literal?
  split
  · next hkind =>
      -- The quotes of a string are one byte each, so what is cut off is in range.
      obtain ⟨rest, -, hlex⟩ := h.first
      rw [hkind] at hlex
      have hfound : Recogniser.string _ = some _ := recogniserOf_of_lexeme? hlex
      obtain ⟨content, -, htext, -⟩ := Recogniser.string_eq_some_iff.mp hfound
      have hsize : t.text.utf8ByteSize = 1 + String.utf8Len content + 1 := by
        rw [← String.utf8Len_toList, htext, String.utf8Len_cons, String.utf8Len_append,
          Nat.add_comm, Nat.add_assoc]
        rfl
      have hcontent : slice t.text 1 (1 + String.utf8Len content) = pure (String.ofList content) :=
        slice_eq ⟨['"'], ['"'], htext, rfl, rfl⟩
      rw [difference_eq (by omega), hsize, pure_bind, Nat.add_sub_cancel, hcontent, pure_bind,
        Token.literal?, hkind, Token.unquoted, htext, List.tail_cons, List.dropLast_concat]
  · rfl

/-- A sub-attribute has a dot in front, so there is something to cut off. -/
theorem slice_subAttribute {t : Token} {ts : List Token} (h : Scanned mode (t :: ts))
    (hkind : t.kind = .subAttribute) :
    slice t.text 1 t.text.utf8ByteSize = pure (String.ofList t.text.toList.tail) := by
  obtain ⟨rest, -, hlex⟩ := h.first
  rw [hkind] at hlex
  obtain ⟨-, name, htext⟩ := lexeme?_eq_subAttribute hlex
  have hwhole : IsPart t.text 0 t.text.utf8ByteSize (['.'] ++ name) := by
    rw [List.singleton_append, ← htext]
    exact isPart_self t.text
  rw [htext, List.tail_cons]
  exact slice_eq hwhole.tail

/-! ### Scanning a range -/

/-- What comes of scanning a text: its tokens, or the error at the first place without one. -/
def scanOutcome (source : String) :
    Except (Nat × List Char) (List Token) → Attempt (List Token)
  | .ok tokens => pure tokens
  | .error found => ⟨[.unscannable found.1 source], .error (unreadable source found)⟩

/-- A token in front of a scan is in front of its outcome. -/
theorem scanOutcome_map_cons (source : String) (t : Token)
    (found : Except (Nat × List Char) (List Token)) :
    scanOutcome source (found.map (t :: ·))
      = scanOutcome source found >>= fun ts => pure (t :: ts) := by
  cases found <;> rfl

/-- A scan by offsets stays in its range and finds the tokens that a scan of the characters finds.
-/
theorem runs_scanTokens {source : String} {offset stop : Nat} {cs : List Char}
    (h : IsPart source offset stop cs) :
    Runs (scanTokens mode source offset stop) (scanOutcome source (tokensFrom mode offset cs))
      id := by
  have hstop := h.stop_eq
  fun_induction tokensFrom mode offset cs with
  | case1 offset =>
      rw [scanTokens, dif_neg (by rw [hstop]; exact Nat.lt_irrefl _)]
      rfl
  | case2 offset cs hcs hlex =>
      have hpos : 0 < String.utf8Len cs := Nat.pos_of_ne_zero (mt String.utf8Len_eq_zero.mp hcs)
      rw [scanTokens, dif_pos (by omega), slice_eq h, pure_bind, String.toList_ofList, hlex]
      dsimp only
      rw [locate_eq]
      rfl
  | case3 offset cs hcs kind m rest hlex hlt ih =>
      obtain ⟨rfl, hm⟩ := lexeme?_splits hlex
      have hpos : 0 < String.utf8Len m := Nat.pos_of_ne_zero (mt String.utf8Len_eq_zero.mp hm)
      have htext : slice (String.ofList (m ++ rest)) 0 (String.utf8Len m)
          = pure (String.ofList m) :=
        slice_eq ⟨[], rest, String.toList_ofList, rfl, (Nat.zero_add _).symm⟩
      -- The token takes at least a byte, and the rest of the range starts behind it.
      have hnext : (Token.mk kind (String.ofList m) offset).stop = offset + String.utf8Len m := by
        rw [Token.stop, String.utf8ByteSize_ofList]
      have hrest : IsPart source (Token.mk kind (String.ofList m) offset).stop stop rest := by
        rw [hnext]
        exact h.tail
      rw [scanTokens, dif_pos (by rw [hstop, String.utf8Len_append]; omega), slice_eq h, pure_bind,
        String.toList_ofList, hlex]
      dsimp only
      rw [htext, pure_bind, dif_pos (by rw [hnext]; omega), scanOutcome_map_cons]
      exact (ih hrest hrest.stop_eq).bind fun ts _ => runs_pure rfl

/-- So does the stream of such a scan, with the same record. -/
theorem runs_scanRange {source : String} {start stop : Nat} {cs : List Char}
    (h : IsPart source start stop cs) :
    Runs (scanRange mode source start stop) (scan mode source start cs) Subtype.val := by
  have htokens : Runs (scanTokens mode source start stop)
      (scanOutcome source (tokensFrom mode start cs)) id := runs_scanTokens h
  unfold scanRange scan
  split
  · next tokens hok =>
      rw [hok] at htokens
      have htokens : scanTokens mode source start stop = pure tokens := htokens
      rw [htokens, pure_bind, slice_eq h, pure_bind]
      rfl
  · next offset rest herror =>
      rw [herror] at htokens
      rw [htokens]
      rfl

/-- A scan gives a stream at its start. -/
theorem eq_make_of_scan {source : String} {start : Nat} {cs : List Char}
    {inner : { s : TokenStream // s.weight ≤ cs.length }}
    (h : (scan mode source start cs).outcome = .ok inner) :
    inner.val = .make source inner.val.rest := by
  rw [outcome_scan (tokensFrom_of_scan h)] at h
  exact congrArg Subtype.val (Except.ok.inj h).symm

/-! ### Frames that cut out a scan -/

/-- The tokens of the stream are those of the range. -/
def Frame.Cuts (mode : Mode) (f : Frame) : Prop :=
  ∃ cs, IsPart f.stream.source f.start f.stop cs ∧ Scans mode f.start cs f.stream.tokens []

/-- The stream of a scan holds the tokens of its range. -/
theorem cuts_of_scan {source : String} {start stop : Nat} {cs : List Char}
    {inner : { s : TokenStream // s.weight ≤ cs.length }}
    (h : (scan mode source start cs).outcome = .ok inner) (hpart : IsPart source start stop cs) :
    Frame.Cuts mode ⟨start, stop, inner.val⟩ := by
  have hscan := tokensFrom_eq_ok_iff.mp (tokensFrom_of_scan h)
  unfold Frame.Cuts
  rw [eq_make_of_scan h]
  exact ⟨cs, hpart, hscan⟩

/-- A stream that reading from a frame leads to: the same tokens, with the cursor not further
back. -/
structure Frame.Reaches (f : Frame) (s : TokenStream) : Prop where
  source_eq : s.source = f.stream.source
  tokens_eq : s.tokens = f.stream.tokens
  position_le : f.stream.position ≤ s.position

/-- Reading moves the cursor on. -/
theorem position_lt_of_follows {s t : TokenStream} (h : t.Follows s) :
    s.position < t.position := by
  obtain ⟨taken, htaken⟩ := h.suffix
  have hne : taken ≠ [] := by
    rintro rfl
    have hlighter := h.lighter
    rw [TokenStream.weight, TokenStream.weight, ← htaken] at hlighter
    exact Nat.lt_irrefl _ hlighter
  have hpos := List.length_pos_iff.mpr hne
  have hlength := congrArg List.length h.tokens_eq
  simp only [TokenStream.tokens, ← htaken, List.length_append, List.length_reverse] at hlength
  unfold TokenStream.position
  omega

namespace Frame

variable {f : Frame}

/-- Reading that has done nothing yet is at the start of the frame. -/
theorem Reaches.refl (f : Frame) : f.Reaches f.stream :=
  ⟨rfl, rfl, Nat.le_refl _⟩

/-- Reading on leads to a stream of the same frame. -/
theorem Reaches.follow (h : f.Reaches s) {t : TokenStream} (ht : t.Follows s) : f.Reaches t :=
  ⟨ht.source_eq.trans h.source_eq, ht.tokens_eq.trans h.tokens_eq,
    Nat.le_trans h.position_le (Nat.le_of_lt (position_lt_of_follows ht))⟩

/-- A lighter stream has the cursor further on, so it is below the frame. -/
theorem Reaches.below (h : f.Reaches s) (hw : s.weight < f.stream.weight) :
    Below ⟨f.start, f.stop, s⟩ f := by
  refine ⟨h.source_eq, .inl ⟨rfl, rfl, h.tokens_eq, Nat.lt_of_le_of_ne h.position_le ?_⟩⟩
  intro hposition
  -- At the same cursor there are the same tokens left.
  have hparts : s.consumed.reverse ++ s.rest = f.stream.consumed.reverse ++ f.stream.rest :=
    h.tokens_eq
  have hlength : s.consumed.reverse.length = f.stream.consumed.reverse.length := by
    rw [List.length_reverse, List.length_reverse]
    exact hposition.symm
  rw [TokenStream.weight, TokenStream.weight, (List.append_inj hparts hlength).2] at hw
  exact Nat.lt_irrefl _ hw

/-- A frame still holds the tokens of its range where the cursor has moved. -/
theorem Cuts.reach (h : f.Cuts mode) (hs : f.Reaches s) : Cuts mode ⟨f.start, f.stop, s⟩ := by
  unfold Cuts
  rw [hs.source_eq, hs.tokens_eq]
  exact h

/-- Where reading from a frame leads, the tokens are those of a scan. -/
theorem Cuts.scanned (h : f.Cuts mode) (hs : f.Reaches s) : Scanned mode s.rest := by
  obtain ⟨cs, -, hscan⟩ := h.reach hs
  exact ⟨_, cs, _, hscan, List.infix_append_right⟩

/-- The body of a group is a range of the text, and a shorter one than that of the frame. -/
theorem Cuts.between (h : f.Cuts mode) (hs : f.Reaches s) {opening closing : Token}
    {body behind : List Token} (hfront : s.rest = opening :: (body ++ closing :: behind)) :
    IsPart s.source opening.stop closing.offset (Token.charsOf body) ∧
      closing.offset - opening.stop < f.stop - f.start := by
  obtain ⟨cs, ⟨before, after, hsource, hstart, hstop⟩, hscan⟩ := h.reach hs
  dsimp only at hsource hstart hstop hscan
  rw [TokenStream.tokens, hfront] at hscan
  have hopening := hscan.stop_eq
  have hcs := hscan.charsOf_append
  -- The parenthesis in front of the body makes the range of the frame longer.
  have hpos : 0 < String.utf8Len opening.text.toList := by
    refine Nat.pos_of_ne_zero fun hzero => hscan.text_ne_empty opening (by simp) ?_
    exact String.toList_eq_nil_iff.mp (String.utf8Len_eq_zero.mp hzero)
  rw [List.append_cons, ← List.append_assoc] at hscan
  have hclosing : closing.offset = opening.stop + String.utf8Len (Token.charsOf body) := by
    rw [hscan.offset_eq, hopening, Token.charsOf_append _ body, String.utf8Len_append,
      Nat.add_assoc]
  refine ⟨⟨before ++ Token.charsOf (s.consumed.reverse ++ [opening]),
    Token.charsOf (closing :: behind) ++ after, ?_, ?_, hclosing⟩, ?_⟩
  · rw [hsource, ← hcs]
    simp only [Token.charsOf_append, Token.charsOf_cons, Token.charsOf_nil, List.append_nil,
      List.append_assoc]
  · rw [hopening, hstart, String.utf8Len_append]
  · rw [hclosing, hstop, ← hcs]
    simp only [Token.charsOf_append, Token.charsOf_cons, String.utf8Len_append, List.append_nil]
    omega

end Frame

/-! ### Groups -/

/-- Counting up and down finds the closing parenthesis that splits the tokens, and stops at zero. -/
theorem closingIndex_eq (depth : Nat) (ts : List Token) :
    closingIndex (depth + 1) ts
      = pure ((splitAtClosing depth ts).map fun parts => parts.1.length) := by
  induction ts generalizing depth with
  | nil => rfl
  | cons t ts ih =>
      -- The search goes on at some depth, with one more token in front.
      have hnext : ∀ depth,
          (closingIndex (depth + 1) ts >>= fun index? => pure (index?.map (· + 1)))
            = pure (((splitAtClosing depth ts).map fun parts => (t :: parts.1, parts.2)).map
                fun parts => parts.1.length) := by
        intro depth
        rw [ih, pure_bind, Option.map_map, Option.map_map]
        rfl
      obtain ⟨kind, text, offset⟩ := t
      cases kind with
      | parenOpen => exact (pure_bind _ _).trans (hnext (depth + 1))
      | parenClose =>
          cases depth with
          | zero => rfl
          | succ depth => exact (pure_bind _ _).trans (hnext depth)
      | _ => exact (pure_bind _ _).trans (hnext depth)

/-- The tokens behind the cursor are those from its index on. -/
theorem tokensBehind_eq (s : TokenStream) : tokensBehind s.tokens s.position = pure s.rest := by
  unfold tokensBehind TokenStream.tokens TokenStream.position
  rw [if_pos (by simp), List.drop_left' List.length_reverse]

/-- Moving the cursor on by so many tokens takes these tokens off the stream. -/
theorem resetTo_eq {s : TokenStream} {taken behind : List Token} (h : s.rest = taken ++ behind) :
    s.resetTo (s.position + taken.length) = ⟨s.source, taken.reverse ++ s.consumed, behind⟩ := by
  have hlength : (s.consumed.reverse ++ taken).length = s.position + taken.length := by
    rw [List.length_append, List.length_reverse, TokenStream.position]
  unfold TokenStream.resetTo TokenStream.tokens
  rw [h, ← List.append_assoc, List.take_left' hlength, List.drop_left' hlength,
    List.reverse_append, List.reverse_reverse]

/-- The range between the parentheses of a group, and the stream after it. -/
def rangeOf (group : Group s) : Step s (Nat × Nat) :=
  ⟨(group.opening.stop, group.closing.offset), group.rest, group.follows⟩

/-- A group is found in range, and with the offsets that its body is scanned between. -/
theorem runs_enclosed {f : Frame} (hcuts : f.Cuts mode) (hs : f.Reaches s) :
    Runs (enclosed s) (takeGroup s) rangeOf := by
  unfold enclosed takeGroup
  rw [take_eq]
  split
  · next e h =>
      rw [takeToken_of_consume_eq_error h]
      rfl
  · next opening inner h =>
      rw [takeToken_of_consume h]
      refine .of_pure rfl (.of_pure (tokensBehind_eq inner) ?_)
      split
      · next hsplit =>
          have hindex : closingIndex 1 inner.rest = pure none := by
            rw [closingIndex_eq 0, hsplit]
            rfl
          exact .of_pure hindex rfl
      · next body closing behind hsplit =>
          have hindex : closingIndex 1 inner.rest = pure (some body.length) := by
            rw [closingIndex_eq 0, hsplit]
            rfl
          refine .of_pure hindex ?_
          obtain ⟨hrest, -, hinner⟩ := TokenStream.rest_eq_of_consume h
          have hbody := eq_append_of_splitAtClosing hsplit
          -- With the cursor moved over the body, the parenthesis that closes it is next.
          have hconsume : (inner.resetTo (inner.position + body.length)).consume [.parenClose]
              = .ok (closing,
                  ⟨s.source, (opening :: (body ++ [closing])).reverse ++ s.consumed, behind⟩) := by
            rw [resetTo_eq hbody, TokenStream.consume_of_rest_eq rfl
              (by simp [kind_of_splitAtClosing hsplit]), hinner]
            simp
          have hrange := (hcuts.between hs (hrest.trans (congrArg _ hbody))).1
          dsimp only
          rw [take_eq, takeToken_of_consume hconsume]
          exact .of_pure rfl (.of_pure (slice_eq hrange) rfl)

/-- The range of a body is empty exactly if there are no tokens in it. -/
theorem offset_le_stop_iff {f : Frame} (hcuts : f.Cuts mode) (hs : f.Reaches s) (group : Group s) :
    group.closing.offset ≤ group.opening.stop ↔ group.body = [] := by
  have hstop := (hcuts.between hs group.front).1.stop_eq
  constructor
  · intro hle
    -- Nothing is scanned from nothing.
    have hbody := group.tokensFrom_body (hcuts.scanned hs)
    have hnil : Token.charsOf group.body = [] := String.utf8Len_eq_zero.mp (by omega)
    rw [hnil, tokensFrom, if_pos rfl] at hbody
    exact (Except.ok.inj hbody).symm
  · intro hbody
    rw [hstop, hbody]
    exact Nat.le_refl _

end Guarded

end Scim
