import Mathlib.Order.Bounds.Basic
import Scim.Proofs.Guarded.Steps
import Scim.Proofs.Parse.Grammar
import Scim.Proofs.Token.Cursor

/-!
# `Scim.Proofs.Parse.Closing`: the parenthesis that closes another one

`takeGroup` looks for the end of a group. Here is what it finds, for any tokens, whether they come
from a scan or not. `openBehind` counts the open parentheses by the kinds of the tokens, so that one
in a string does not count, and `ClosesAt` says with it which tokens close the parenthesis in front
of the others.

The count goes down at closing parentheses only, and by one (`closesAt_of_openBehind`). So it is
zero for the first time at a token that closes the one in front, and above zero up to there
(`openBehind_pos_of_not_closesAt`). This is why counting down never goes below zero, and why the
tokens in between match (`parensMatch_of_closesAt`).

* `isLeast_of_balanced`: tokens that match end at the least place where the count is zero.
* `exists_closesAt_iff`: there is such a place if and only if the parenthesis is closed.
* `Group.endsFirst`: the group that is found ends there. `Group.EndsFirst` says what that means for
  the cursor and for the tokens.
* `closingIndex_eq_takeGroup`: counting up and down by an index finds the same place.
* `ClosesAt.of_kinds_eq`: nothing depends on the texts of the tokens.

The result is `takeGroup_endsFirst`. For tokens that come from a scan it also says which range of
the text the group is, `Group.Spans`.
-/

set_option autoImplicit false

namespace Scim

/-! ### Counting what is open -/

/-- How many parentheses are open behind these tokens, if one is open in front of them. -/
def openBehind (ts : List Token) : Int :=
  1 + countKind .parenOpen ts - countKind .parenClose ts

/-- The token at an index closes a parenthesis in front of the tokens: it is a closing one, and
behind it nothing is open. -/
structure ClosesAt (ts : List Token) (index : Nat) : Prop where
  kind_eq : ts[index]?.map (·.kind) = some .parenClose
  openBehind_eq : openBehind (ts.take (index + 1)) = 0

/-- In front of all tokens, one parenthesis is open. -/
@[simp]
theorem openBehind_nil : openBehind [] = 1 := rfl

/-- A closing parenthesis closes one. -/
theorem openBehind_concat_closing {t : Token} (ts : List Token) (h : t.kind = .parenClose) :
    openBehind (ts ++ [t]) = openBehind ts - 1 := by
  simp only [openBehind, countKind_append, countKind_cons, countKind_nil, h, reduceCtorEq, if_false,
    if_true]
  omega

/-- No other token does. -/
theorem openBehind_le_concat {t : Token} (ts : List Token) (h : t.kind ≠ .parenClose) :
    openBehind ts ≤ openBehind (ts ++ [t]) := by
  simp only [openBehind, countKind_append, countKind_cons, countKind_nil, h, if_false]
  omega

/-- With one token more nothing is open, so this token closes the last one that was. -/
theorem closesAt_of_openBehind {ts : List Token} {n : Nat} (hopen : 0 < openBehind (ts.take n))
    (hclosed : openBehind (ts.take (n + 1)) ≤ 0) : ClosesAt ts n := by
  rw [List.take_add_one] at hclosed
  cases hget : ts[n]? with
  | none =>
      rw [hget, Option.toList_none, List.append_nil] at hclosed
      omega
  | some t =>
      rw [hget, Option.toList_some] at hclosed
      by_cases hkind : t.kind = .parenClose
      · have hone := openBehind_concat_closing (ts.take n) hkind
        refine ⟨by rw [hget, Option.map_some, hkind], ?_⟩
        rw [List.take_add_one, hget, Option.toList_some]
        omega
      · have hle := openBehind_le_concat (ts.take n) hkind
        omega

/-- As long as the parenthesis in front has not been closed, something is open. -/
theorem openBehind_pos_of_not_closesAt {ts : List Token} {n : Nat}
    (h : ∀ i < n, ¬ ClosesAt ts i) : 0 < openBehind (ts.take n) := by
  induction n with
  | zero => simp
  | succ n ih =>
      have hopen := ih fun i hi => h i (Nat.lt_succ_of_lt hi)
      by_contra hclosed
      exact h n (Nat.lt_succ_self n) (closesAt_of_openBehind hopen (Int.not_lt.mp hclosed))

/-- Tokens that match close nothing in front of them. -/
theorem ParensMatch.openBehind_pos {ts us : List Token} (h : ParensMatch ts) (hus : us <+: ts) :
    0 < openBehind us := by
  have hle := h.closed_le us hus
  unfold openBehind
  omega

/-- Behind tokens that match, a closing parenthesis leaves nothing open. -/
theorem ParensMatch.openBehind_closing {ts : List Token} (h : ParensMatch ts) {closing : Token}
    (hclose : closing.kind = .parenClose) : openBehind (ts ++ [closing]) = 0 := by
  have heq := h.closed_eq
  rw [openBehind_concat_closing ts hclose, openBehind]
  omega

/-! ### The first closing parenthesis -/

section
variable {body rest : List Token} {closing : Token}

/-- So it closes the one in front of them. -/
theorem closesAt_of_balanced (hbody : Balanced body) (hclose : closing.kind = .parenClose) :
    ClosesAt (body ++ closing :: rest) body.length where
  kind_eq := by simp [hclose]
  openBehind_eq := by
    rw [List.append_cons, List.take_left' (by simp)]
    exact hbody.parensMatch.openBehind_closing hclose

/-- And it is the first one that does. -/
theorem isLeast_of_balanced (hbody : Balanced body) (hclose : closing.kind = .parenClose) :
    IsLeast {i | openBehind ((body ++ closing :: rest).take (i + 1)) = 0} body.length := by
  refine ⟨(closesAt_of_balanced hbody hclose).openBehind_eq, fun i hi => ?_⟩
  by_contra hlt
  -- Up to there the first tokens are some of those in between, and something is open.
  have htake : (body ++ closing :: rest).take (i + 1) <+: body := by
    rw [List.take_append_of_le_length (by omega)]
    exact List.take_prefix _ _
  have hpos := hbody.parensMatch.openBehind_pos htake
  exact absurd hi (Int.ne_of_gt hpos)

end

/-- Up to the first token that closes the parenthesis in front, parentheses match. -/
theorem parensMatch_of_closesAt {ts : List Token} {i : Nat} (h : ClosesAt ts i)
    (hfirst : ∀ j < i, ¬ ClosesAt ts j) : ParensMatch (ts.take i) := by
  refine ⟨fun us hus => ?_, ?_⟩
  · have hlength := hus.length_le
    rw [List.length_take] at hlength
    have hus : us = ts.take us.length :=
      List.prefix_iff_eq_take.mp (hus.trans (List.take_prefix i ts))
    have hpos : 0 < openBehind (ts.take us.length) :=
      openBehind_pos_of_not_closesAt fun j hj => hfirst j (by omega)
    rw [← hus, openBehind] at hpos
    omega
  · obtain ⟨closing, hget, hclose⟩ := Option.map_eq_some_iff.mp h.kind_eq
    have heq := h.openBehind_eq
    rw [List.take_add_one, hget, Option.toList_some, openBehind_concat_closing _ hclose,
      openBehind] at heq
    omega

/-- Some token closes a parenthesis exactly if it is closed. -/
theorem exists_closesAt_iff {ts : List Token} : (∃ i, ClosesAt ts i) ↔ ClosedIn ts := by
  constructor
  · intro h
    classical
    have hclose := Nat.find_spec h
    have hmatch := parensMatch_of_closesAt hclose fun j hj => Nat.find_min h hj
    obtain ⟨closing, hget, hkind⟩ := Option.map_eq_some_iff.mp hclose.kind_eq
    refine ⟨ts.take (Nat.find h), closing, ts.drop (Nat.find h + 1), ?_,
      balanced_iff_parensMatch.mpr hmatch, hkind⟩
    obtain ⟨hlt, rfl⟩ := List.getElem?_eq_some_iff.mp hget
    rw [← List.drop_eq_getElem_cons hlt, List.take_append_drop]
  · rintro ⟨body, closing, rest, rfl, hbody, hclose⟩
    exact ⟨body.length, closesAt_of_balanced hbody hclose⟩

/-- Where it is not, the search finds nothing. -/
theorem splitAtClosing_eq_none {ts : List Token} (h : ¬ ClosedIn ts) :
    splitAtClosing 0 ts = none := by
  rw [Option.eq_none_iff_forall_ne_some]
  rintro ⟨body, closing, rest⟩ hsome
  exact h ⟨body, closing, rest, splitAtClosing_eq_some_iff.mp hsome⟩

/-! ### Only kinds count -/

section
variable {ts us : List Token} (h : us.map (·.kind) = ts.map (·.kind))

include h

/-- Tokens of the same kinds have as many of each kind. -/
theorem countKind_eq_of_kinds_eq (kind : TokenKind) : countKind kind us = countKind kind ts := by
  have hcount : ∀ vs : List Token, countKind kind vs = (vs.map (·.kind)).countP (· = kind) :=
    fun vs => by rw [List.countP_map]; rfl
  rw [hcount, hcount, h]

/-- So as many parentheses are open behind some of them. -/
theorem openBehind_take_eq_of_kinds_eq (n : Nat) :
    openBehind (us.take n) = openBehind (ts.take n) := by
  have htake : (us.take n).map (·.kind) = (ts.take n).map (·.kind) := by
    rw [List.map_take, List.map_take, h]
  rw [openBehind, openBehind, countKind_eq_of_kinds_eq htake, countKind_eq_of_kinds_eq htake]

/-- And the same token closes the one in front. -/
theorem ClosesAt.of_kinds_eq {i : Nat} (hclose : ClosesAt ts i) : ClosesAt us i where
  kind_eq := by rw [← List.getElem?_map, h, List.getElem?_map, hclose.kind_eq]
  openBehind_eq := by rw [openBehind_take_eq_of_kinds_eq h, hclose.openBehind_eq]

end

/-! ### What is found -/

section
variable {s : TokenStream} {opening : Token} {ts : List Token}

/-- A group that ends at the first parenthesis that closes the one in front of these tokens. -/
structure Group.EndsFirst (group : Group s) (ts : List Token) : Prop where
  front : ts = group.body ++ group.closing :: group.rest.rest
  closing_kind : group.closing.kind = .parenClose
  /-- Behind the closing parenthesis the count is zero for the first time. -/
  isLeast : IsLeast {i | openBehind (ts.take (i + 1)) = 0} group.body.length
  parensMatch_body : ParensMatch group.body
  /-- The cursor is behind the closing parenthesis, and nothing else has changed. -/
  position_eq : group.rest.position = s.position + (group.body.length + 2)
  unchanged : group.rest.Over s.source s.tokens
  /-- It is moved in front of the closing parenthesis, which is then consumed. -/
  consume_eq : (s.resetTo (s.position + (group.body.length + 1))).consume [.parenClose]
    = .ok (group.closing, group.rest)

/-- All tokens of the group have been consumed. -/
theorem Group.rest_eq (group : Group s) :
    group.rest = ⟨s.source, group.closing :: ((group.opening :: group.body).reverse ++ s.consumed),
      group.rest.rest⟩ := by
  have htokens : group.rest.consumed.reverse ++ group.rest.rest
      = (s.consumed.reverse ++ group.opening :: (group.body ++ [group.closing]))
        ++ group.rest.rest := by
    simpa [TokenStream.tokens, group.front] using group.follows.tokens_eq
  have hconsumed := congrArg List.reverse (List.append_cancel_right htokens)
  rw [List.reverse_reverse] at hconsumed
  calc group.rest
    _ = ⟨group.rest.source, group.rest.consumed, group.rest.rest⟩ := rfl
    _ = _ := by rw [group.follows.source_eq, hconsumed]; simp

/-- The closing parenthesis is the token behind the body, and consuming it leaves what is behind the
group. -/
theorem Group.consume_closing (group : Group s) (hclose : group.closing.kind = .parenClose) :
    (s.resetTo (s.position + (group.body.length + 1))).consume [.parenClose]
      = .ok (group.closing, group.rest) := by
  have hfront : s.rest = (group.opening :: group.body) ++ group.closing :: group.rest.rest :=
    group.front
  rw [← List.length_cons, Guarded.resetTo_eq hfront,
    TokenStream.consume_of_rest_eq rfl (List.mem_singleton.mpr hclose), ← group.rest_eq]

/-- The cursor has moved on by the body and both parentheses. -/
theorem Group.position_rest (group : Group s) :
    group.rest.position = s.position + (group.body.length + 2) := by
  rw [group.rest_eq]
  simp only [TokenStream.position, List.length_cons, List.length_append, List.length_reverse]
  omega

/-- A group that is found ends at the first token that closes its parenthesis. -/
theorem Group.endsFirst (group : Group s) (hrest : s.rest = opening :: ts) :
    group.opening = opening ∧ group.EndsFirst ts := by
  obtain ⟨rfl, rfl⟩ := List.cons.inj (group.front.symm.trans hrest)
  obtain ⟨hbody, hclose⟩ := group.balanced
  exact ⟨rfl, rfl, hclose, isLeast_of_balanced hbody hclose, hbody.parensMatch,
    group.position_rest, ⟨group.follows.source_eq, group.follows.tokens_eq⟩,
    group.consume_closing hclose⟩

/-- A parenthesis that is not closed is an error at the end of the tokens. -/
theorem takeGroup_of_not_closedIn (hrest : s.rest = opening :: ts)
    (hopen : opening.kind = .parenOpen) (h : ¬ ClosedIn ts) :
    (takeGroup s).outcome = .error .unexpectedEnd := by
  have hconsume := TokenStream.consume_of_rest_eq hrest (List.mem_singleton.mpr hopen)
  unfold takeGroup
  split
  · next heq =>
      rw [hconsume] at heq
      cases heq
  · next heq =>
      rw [hconsume] at heq
      cases heq
      split
      · rfl
      · next hsome =>
          rw [splitAtClosing_eq_none h] at hsome
          cases hsome

/-- A group is found exactly if the parenthesis is closed. -/
theorem takeGroup_cases (hrest : s.rest = opening :: ts) (hopen : opening.kind = .parenOpen) :
    (∃ group, (takeGroup s).outcome = .ok group ∧ ∃ i, ClosesAt ts i) ∨
      (takeGroup s).outcome = .error .unexpectedEnd ∧ ¬ ∃ i, ClosesAt ts i := by
  by_cases h : ∃ i, ClosesAt ts i
  · obtain ⟨body, closing, rest, rfl, hbody, hclose⟩ := exists_closesAt_iff.mp h
    obtain ⟨group, hgroup, -⟩ := takeGroup_of_rest_eq hrest hopen hbody hclose
    exact .inl ⟨group, hgroup, h⟩
  · exact .inr ⟨takeGroup_of_not_closedIn hrest hopen (mt exists_closesAt_iff.mpr h), h⟩

/-- The search for the closing parenthesis that counts up and down finds the same place. -/
theorem closingIndex_eq_takeGroup (hrest : s.rest = opening :: ts)
    (hopen : opening.kind = .parenOpen) :
    Guarded.closingIndex 1 ts = pure ((takeGroup s).outcome.toOption.map (·.body.length)) := by
  rw [Guarded.closingIndex_eq 0 ts]
  congr 1
  rcases takeGroup_cases hrest hopen with ⟨group, hgroup, -⟩ | ⟨herror, hopened⟩
  · have hsplit : splitAtClosing 0 ts = some (group.body, group.closing, group.rest.rest) := by
      rw [(group.endsFirst hrest).2.front]
      exact group.matched
    rw [hgroup, hsplit]
    rfl
  · rw [herror, splitAtClosing_eq_none (mt exists_closesAt_iff.mpr hopened)]
    rfl

/-! ### Groups in a text -/

/-- The tokens of the stream are those of a scan of part of its text. -/
def TokenStream.FromScan (mode : Mode) (s : TokenStream) : Prop :=
  ∃ start stop cs inner, Guarded.IsPart s.source start stop cs ∧
    (scan mode s.source start cs).outcome = .ok inner ∧ s.tokens = inner.val.tokens

/-- A group as a range of the text. -/
structure Group.Spans (group : Group s) : Prop where
  /-- The tokens from one parenthesis to the other are a part of the text. -/
  whole : Guarded.IsPart s.source group.opening.offset group.closing.stop
    (Token.charsOf (group.opening :: (group.body ++ [group.closing])))
  /-- So are those in between. -/
  between : Guarded.IsPart s.source group.opening.stop group.closing.offset
    (Token.charsOf group.body)
  empty_iff : group.closing.offset ≤ group.opening.stop ↔ group.body = []
  /-- Reading by offsets finds this range. -/
  enclosed_eq : Guarded.enclosed s
    = pure ⟨(group.opening.stop, group.closing.offset), group.rest, group.follows⟩

/-- Tokens of a scan are those of a range of the text, so what is known of ranges applies to them.
-/
theorem TokenStream.FromScan.cuts {mode : Mode} (h : s.FromScan mode) :
    ∃ start stop, Guarded.Frame.Cuts mode ⟨start, stop, s⟩ := by
  obtain ⟨start, stop, cs, inner, hpart, hscan, htokens⟩ := h
  refine ⟨start, stop, cs, hpart, ?_⟩
  rw [htokens, Guarded.eq_make_of_scan hscan]
  exact tokensFrom_eq_ok_iff.mp (tokensFrom_of_scan hscan)

/-- From one token of a scan to another one, the tokens are a part of the text. -/
theorem Guarded.IsPart.of_scans {mode : Mode} {source : String} {start stop : Nat} {cs : List Char}
    {before us after : List Token} {first last : Token} (hpart : IsPart source start stop cs)
    (hscan : Scans mode start cs (before ++ first :: (us ++ last :: after)) []) :
    IsPart source first.offset last.stop (Token.charsOf (first :: (us ++ [last]))) := by
  obtain ⟨front, back, hsource, rfl, -⟩ := hpart
  have hchars := hscan.charsOf_append
  have hfirst := hscan.offset_eq
  rw [← List.cons_append, ← List.append_assoc] at hscan
  refine ⟨front ++ Token.charsOf before, Token.charsOf after ++ back, ?_, ?_, ?_⟩
  · rw [hsource, ← hchars]
    simp
  · rw [hfirst, String.utf8Len_append]
  · rw [hscan.stop_eq, hfirst]
    simp only [Token.charsOf_append, Token.charsOf_cons, String.utf8Len_append]
    omega

/-- Nothing is recorded while a group is looked for. -/
theorem events_takeGroup (s : TokenStream) : (takeGroup s).events = [] := by
  unfold takeGroup
  split
  · rfl
  · split <;> rfl

/-- A group in a scan is the range of the text from one parenthesis to the other. -/
theorem Group.spans {mode : Mode} {group : Group s} (hscan : s.FromScan mode)
    (hgroup : (takeGroup s).outcome = .ok group) : group.Spans := by
  obtain ⟨start, stop, hcuts⟩ := hscan.cuts
  have hreach := Guarded.Frame.Reaches.refl ⟨start, stop, s⟩
  have hbetween := (hcuts.between hreach group.front).1
  refine ⟨?_, hbetween, Guarded.offset_le_stop_iff hcuts hreach group, ?_⟩
  · obtain ⟨cs, hpart, htokens⟩ := hcuts
    dsimp only at hpart htokens
    rw [TokenStream.tokens, group.front] at htokens
    exact hpart.of_scans htokens
  · have hruns : Guarded.Runs (Guarded.enclosed s) (takeGroup s) Guarded.rangeOf :=
      Guarded.runs_enclosed hcuts hreach
    rw [Guarded.Runs, events_takeGroup, hgroup] at hruns
    exact hruns

/-- How long the body of a group is depends on the kinds of the tokens alone. -/
theorem length_body_eq_of_kinds_eq (hrest : s.rest = opening :: ts)
    (hopen : opening.kind = .parenOpen) {s' : TokenStream}
    (hkinds : s'.rest.map (·.kind) = s.rest.map (·.kind)) :
    (takeGroup s').outcome.map (·.body.length) = (takeGroup s).outcome.map (·.body.length) := by
  rw [hrest, List.map_cons] at hkinds
  obtain ⟨opening', us, hrest', hkind, hkinds⟩ := List.map_eq_cons_iff.mp hkinds
  have hclose : (∃ i, ClosesAt us i) ↔ ∃ i, ClosesAt ts i :=
    exists_congr fun i => ⟨.of_kinds_eq hkinds.symm, .of_kinds_eq hkinds⟩
  rcases takeGroup_cases hrest hopen with ⟨group, hgroup, hfound⟩ | ⟨herror, hnone⟩
  · rcases takeGroup_cases hrest' (hkind.trans hopen) with
      ⟨group', hgroup', -⟩ | ⟨-, hnone'⟩
    · -- Both end where the same count is zero for the first time.
      have hleast := (group'.endsFirst hrest').2.isLeast
      simp only [openBehind_take_eq_of_kinds_eq hkinds] at hleast
      rw [hgroup, hgroup']
      exact congrArg Except.ok (hleast.unique (group.endsFirst hrest).2.isLeast)
    · exact absurd (hclose.mpr hfound) hnone'
  · rcases takeGroup_cases hrest' (hkind.trans hopen) with
      ⟨-, -, hfound'⟩ | ⟨herror', -⟩
    · exact absurd (hclose.mp hfound') hnone
    · rw [herror, herror']
      rfl

/-- A group ends at the first parenthesis that closes the one at the front of the stream.

1. It is found exactly if there is such a parenthesis.
2. What is found is that group, with the cursor behind it. If the tokens come from a scan, it is a
   range of the text.
3. Otherwise the end of the text is what is unexpected.
4. Something is open up to the closing parenthesis, or up to the end if there is none, so the count
   never goes below zero.
5. Searching with a counter that must not go below zero finds the same place.
6. Only the kinds of the tokens count. -/
theorem takeGroup_endsFirst (hrest : s.rest = opening :: ts) (hopen : opening.kind = .parenOpen) :
    ((∃ group, (takeGroup s).outcome = .ok group) ↔ ∃ i, ClosesAt ts i) ∧
    (∀ group, (takeGroup s).outcome = .ok group →
      group.opening = opening ∧ group.EndsFirst ts ∧ ∀ mode, s.FromScan mode → group.Spans) ∧
    ((¬ ∃ i, ClosesAt ts i) → (takeGroup s).outcome = .error .unexpectedEnd) ∧
    (∀ n, (∀ i < n, ¬ ClosesAt ts i) → 0 < openBehind (ts.take n)) ∧
    Guarded.closingIndex 1 ts = pure ((takeGroup s).outcome.toOption.map (·.body.length)) ∧
    ∀ s' : TokenStream, s'.rest.map (·.kind) = s.rest.map (·.kind) →
      (takeGroup s').outcome.map (·.body.length)
        = (takeGroup s).outcome.map (·.body.length) := by
  refine ⟨?_, ?_, ?_, fun n => openBehind_pos_of_not_closesAt,
    closingIndex_eq_takeGroup hrest hopen, fun s' => length_body_eq_of_kinds_eq hrest hopen⟩
  · -- A group is taken exactly if there is something that closes it.
    rcases takeGroup_cases hrest hopen with ⟨group, hgroup, hfound⟩ | ⟨herror, hnone⟩
    · exact ⟨fun _ => hfound, fun _ => ⟨group, hgroup⟩⟩
    · rw [herror]
      exact iff_of_false (by simp) hnone
  · intro group hgroup
    obtain ⟨hopening, hends⟩ := group.endsFirst hrest
    exact ⟨hopening, hends, fun mode hscan => group.spans hscan hgroup⟩
  · intro h
    rcases takeGroup_cases hrest hopen with ⟨-, -, hfound⟩ | ⟨herror, -⟩
    · exact absurd hfound h
    · exact herror

/-- The group in `not ((é:a eq ")")) or b pr` goes from byte 5 to byte 18. The parenthesis in the
string is not counted. Without the last two closing parentheses there is no group. -/
theorem takeGroup_endsFirst_quoted :
    let text := "not ((é:a eq \")\")) or b pr"
    let opening : Token := ⟨.parenOpen, "(", 4⟩
    let inner : List Token := [⟨.parenOpen, "(", 5⟩, ⟨.name, "é:a", 6⟩,
      ⟨.comparisonOperator, " eq ", 10⟩, ⟨.string, "\")\"", 14⟩]
    let ts : List Token := inner ++ [⟨.parenClose, ")", 17⟩, ⟨.parenClose, ")", 18⟩,
      ⟨.logicalOperator, " or ", 19⟩, ⟨.name, "b", 23⟩, ⟨.comparisonOperator, " pr", 24⟩]
    let s : TokenStream := ⟨text, [⟨.negation, "not ", 0⟩], opening :: ts⟩
    s.FromScan .filter ∧
    (∃ group, (takeGroup s).outcome = .ok group ∧ group.EndsFirst ts ∧ group.Spans ∧
      ∃ step, Guarded.enclosed s = pure step ∧ step.value = (5, 18) ∧ step.rest.position = 8) ∧
    (takeGroup ⟨text, [], opening :: inner⟩).outcome = .error .unexpectedEnd := by
  intro text opening inner ts s
  have htokens : tokensFrom .filter 0 text.toList
      = .ok (⟨.negation, "not ", 0⟩ :: opening :: ts) := by decide +kernel
  have hscan : s.FromScan .filter :=
    ⟨0, _, text.toList, _, Guarded.isPart_self text, outcome_scan htokens text, rfl⟩
  have hrest : s.rest = opening :: ts := rfl
  obtain ⟨hfound, hgroup, -, -, hindex, -⟩ := takeGroup_endsFirst hrest rfl
  obtain ⟨group, hok⟩ := hfound.mpr ⟨5, ⟨by decide, by decide⟩⟩
  obtain ⟨hopening, hends, hspans⟩ := hgroup group hok
  have hspans := hspans .filter hscan
  -- The search finds the closing parenthesis behind five tokens.
  rw [hok] at hindex
  have hlength : 5 = group.body.length :=
    Option.some.inj (Except.ok.inj (congrArg Attempt.outcome (Option.some.inj hindex)))
  have hclosing : ts[5]? = some group.closing := by
    rw [hends.front, hlength, List.getElem?_append_right (Nat.le_refl _), Nat.sub_self,
      List.getElem?_cons_zero]
  have hrange : (group.opening.stop, group.closing.offset) = (5, 18) := by
    rw [hopening, ← Option.some.inj hclosing]
    rfl
  refine ⟨hscan, ⟨group, hok, hends, hspans, _, hspans.enclosed_eq, hrange, ?_⟩, ?_⟩
  · rw [hends.position_eq, ← hlength]
    rfl
  · have hrest : TokenStream.rest ⟨text, [], opening :: inner⟩ = opening :: inner := rfl
    obtain ⟨-, -, hunclosed, -⟩ := takeGroup_endsFirst hrest rfl
    refine hunclosed ?_
    rintro ⟨i, hi⟩
    obtain ⟨t, hget, hkind⟩ := Option.map_eq_some_iff.mp hi.kind_eq
    have hnone : ∀ t ∈ inner, t.kind ≠ .parenClose := by decide
    exact hnone t (List.mem_of_getElem? hget) hkind

end

end Scim
