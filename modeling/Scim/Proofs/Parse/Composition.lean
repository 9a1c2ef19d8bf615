import Scim.Proofs.Location
import Scim.Proofs.Parse.Likeness
import Scim.Proofs.Parse.RoundTrip

/-!
# `Scim.Proofs.Parse.Composition`: filters inside of filters

A filter that is put between parentheses is an operand of a larger filter, and the operand has the
tree that the filter has on its own. Nothing else is asked of the text than that its parentheses
match; tokens that are ignored at its end are ignored in front of the closing parenthesis too.

The step is `IsFilter.readAs_enclosed`. In the larger text the tokens stand elsewhere, which neither
the scan (`Scans.shifted`) nor the grammar (`readLike_shifted`) takes notice of, and a parenthesis
follows them, which leaves the scan as it is (`Scans.extend`). From there on the text is followed
piece by piece as in `Scim.Proofs.Parse.RoundTrip`.

A `Chain` is any number of operands with operators between them. It has a text and a tree, and
`readAs_chain` says by induction on the chain that the text is read as the tree.

A predicate with a value path in it is refused. `parseFilter_eq_invalidValuePath` follows the reader
to the bracket that the error points at: through the value path (`outcome_valuePath_eq_error`) and
through the expression that it is the first operand of (`outcome_expression_eq_error`).

`parseFilter_parenthesised` is the result.
-/

set_option autoImplicit false

namespace Scim

open Recogniser Attempt

/-! ### The same tokens elsewhere -/

/-- The token so many bytes further on. -/
def Token.shifted (distance : Nat) (t : Token) : Token :=
  { t with offset := t.offset + distance }

/-- What a text is scanned to does not depend on where it stands, but for the offsets. -/
theorem Scans.shifted {mode : Mode} {offset : Nat} {cs rest : List Char} {ts : List Token}
    (h : Scans mode offset cs ts rest) (distance : Nat) :
    Scans mode (offset + distance) cs (ts.map (Token.shifted distance)) rest := by
  induction h with
  | done offset cs => exact .done _ cs
  | @step offset cs m rest kind ts rest' hlex hscan ih =>
      have hstop : (Token.mk kind (String.ofList m) (offset + distance)).stop
          = (Token.mk kind (String.ofList m) offset).stop + distance := by
        simp only [Token.stop]
        omega
      refine .step hlex ?_
      rw [hstop]
      exact ih

/-- Tokens that stand elsewhere read alike. -/
theorem readLike_shifted (distance : Nat) (ts : List Token) :
    ReadLike ts (ts.map (Token.shifted distance)) := by
  induction ts with
  | nil => exact .nil
  | cons t ts ih => exact .cons ⟨rfl, fun _ => rfl, fun _ _ h => h, fun _ _ h => h, rfl⟩ ih

/-! ### Between parentheses -/

/-- A filter of this tree whose parentheses match. -/
structure IsFilter (text : String) (n : Node) : Prop where
  parse : parseFilter text = .ok (some n)
  parens : ∃ tokens, tokensFrom .filter 0 text.toList = .ok tokens ∧ ParensMatch tokens

/-- In front of a closing parenthesis, a filter is scanned to a derivation and tokens that are
ignored. -/
theorem IsFilter.yields {text : String} {n : Node} (h : IsFilter text n) (more : List Char) :
    Yields (text.toList ++ ')' :: more) (')' :: more) fun tokens =>
      ∃ body ignored, tokens = body ++ ignored ∧ Derives .expression false body n ∧
        EndsBefore ignored ∧ Balanced (body ++ ignored) := by
  obtain ⟨tokens, hscan, hmatch⟩ := h.parens
  obtain ⟨body, ignored, hscan', hends, hderives⟩ := derives_of_parseFilter h.parse
  obtain rfl : tokens = body ++ ignored := by
    rw [hscan] at hscan'
    exact Except.ok.inj hscan'
  intro offset
  have hshifted := (tokensFrom_eq_ok_iff.mp hscan).shifted offset
  have hbalanced :=
    (balanced_iff_parensMatch.mpr hmatch).of_readsLike (readLike_shifted offset _)
  rw [Nat.zero_add] at hshifted
  rw [List.map_append] at hbalanced
  refine ⟨_, hshifted.extend (by decide) more, _, _, List.map_append, ?_, ?_, hbalanced⟩
  · exact hderives.of_readsLike (readLike_shifted offset body)
  · exact hends.of_readsLike (readLike_shifted offset ignored)

/-- Between parentheses, a filter is read as its tree. -/
theorem IsFilter.readAs_enclosed {text : String} {n : Node} (h : IsFilter text n) :
    ReadAs .enclosed false ("(" ++ text ++ ")") n := by
  intro rest _
  have htext : ("(" ++ text ++ ")").toList ++ rest = '(' :: (text.toList ++ ')' :: rest) := by
    simp
  rw [htext]
  refine .step (lexeme?_bracket .filter (by decide : (.parenOpen, '(') ∈ decisive.dropLast) _)
    fun opening hopen _ => ?_
  refine .append (h.yields rest) fun tokens htokens => ?_
  obtain ⟨body, ignored, rfl, hbody, hends, hbalanced⟩ := htokens
  refine .step (lexeme?_bracket .filter (by decide : (.parenClose, ')') ∈ decisive.dropLast) rest)
    fun closing hclose _ => .done ?_
  exact .enclosed hopen hbody hends hbalanced hclose

/-! ### Operands in a row -/

/-- Operands with a logical operator between each two of them. -/
inductive Chain (α : Type) where
  | last (operand : α)
  | link (operand : α) (operator : LogicalOperator) (others : Chain α)

namespace Chain

variable {α β : Type}

/-- The operands, in order. -/
def operands : Chain α → List α
  | last operand => [operand]
  | link operand _ others => operand :: others.operands

/-- The chain of the same operators over other operands. -/
def map (f : α → β) : Chain α → Chain β
  | last operand => last (f operand)
  | link operand operator others => link (f operand) operator (others.map f)

/-- The text of a chain, every operand between parentheses. -/
def text : Chain String → String
  | last operand => "(" ++ operand ++ ")"
  | link operand operator others =>
    "(" ++ operand ++ ")" ++ " " ++ operator.keyword ++ " " ++ others.text

/-- The tree of a chain: each operand is joined to what is on its right. -/
def node? : Chain Node → Option Node
  | last operand => some operand
  | link operand operator others =>
    others.node?.bind fun right => Node.connective? operator [operand, right]

end Chain

/-- A chain of filters has a tree, and its text is read as that tree. -/
theorem readAs_chain (chain : Chain (String × Node))
    (h : ∀ operand ∈ chain.operands, IsFilter operand.1 operand.2) :
    ∃ n, (chain.map Prod.snd).node? = some n ∧
      ReadAs .expression false (chain.map Prod.fst).text n := by
  induction chain with
  | last operand =>
      have hfirst := h operand List.mem_cons_self
      exact ⟨operand.2, rfl, (hfirst.readAs_enclosed.group false).single⟩
  | link operand operator others ih =>
      have hfirst := h operand List.mem_cons_self
      obtain ⟨right, hright, hread⟩ := ih fun o ho => h o (List.mem_cons_of_mem operand ho)
      refine ⟨.joined operator operand.2 right, ?_, ?_⟩
      · rw [Chain.map, Chain.node?, hright]
        rfl
      · exact (hfirst.readAs_enclosed.group false).joined hread operator

/-! ### A value path in a predicate -/

section
variable {s : TokenStream} {read : Lighter Attempt s}

/-- A predicate that cannot be put below the collection is refused at the opening bracket. -/
theorem outcome_valuePath_eq_error (h : FollowsGrammar s read) {opening closing : Token}
    {body us : List Token} {n : Node} (hrest : s.rest = opening :: (body ++ closing :: us))
    (hopen : opening.kind = .bracketOpen) (hbody : Derives .expression true body n)
    (hclose : closing.kind = .bracketClose) (hsimple : ¬ n.Simple) (collection : AttributePath) :
    ((Policy.slicing.reading s read).valuePath collection).outcome
      = .error (.invalidValuePath opening.text (s.locationOf opening)) := by
  obtain ⟨bracket, hbracket, rfl, hinner⟩ :=
    takeToken_of_rest_eq hrest (by simp [hopen] : opening.kind ∈ [TokenKind.bracketOpen])
  have hends : EndsBefore (closing :: us) := by
    intro t ht
    obtain rfl : closing = t := by simpa using ht
    simp [hclose]
  obtain ⟨predicate, hpredicate, hvalue, hafter⟩ :=
    (h bracket.rest bracket.lighter true n (closing :: us)).mpr ⟨body, hinner, hends, hbody⟩
  obtain ⟨close, hclosing, -, -⟩ :=
    takeToken_of_rest_eq hafter (by simp [hclose] : closing.kind ∈ [TokenKind.bracketClose])
  have hrooted : predicate.value.bind (Node.rootedAt? collection) = none := by
    rw [hvalue, Option.bind_some, Option.eq_none_iff_forall_ne_some]
    intro rooted hrooted
    exact hsimple (Node.rootedAt?_eq_some_iff.mp hrooted).1
  -- All three parts are read, and then the predicate cannot be rooted.
  unfold Reading.valuePath
  refine outcome_bind_eq_error_iff.mpr (.inr ⟨bracket, hbracket, ?_⟩)
  refine outcome_bind_eq_error_iff.mpr (.inr ⟨predicate, hpredicate, ?_⟩)
  refine outcome_bind_eq_error_iff.mpr (.inr ⟨close, hclosing, ?_⟩)
  rw [hrooted]
  show Except.error bracket.rest.invalidValuePath = _
  rw [TokenStream.invalidValuePath, current?_of_takeToken hbracket]
  show Except.error (ParseError.invalidValuePath _ (Location.locate bracket.rest.source _)) = _
  rw [bracket.follows.source_eq]
  rfl

end

/-- The same for an expression that starts with the value path. -/
theorem outcome_expression_eq_error {s : TokenStream} {name opening closing : Token}
    {body us : List Token} {n : Node}
    (hrest : s.rest = name :: opening :: (body ++ closing :: us)) (hname : name.kind = .name)
    (hsingle : (AttributePath.ofName name.text).length = 1) (hopen : opening.kind = .bracketOpen)
    (hbody : Derives .expression true body n) (hclose : closing.kind = .bracketClose)
    (hsimple : ¬ n.Simple) :
    (Policy.slicing.expression s false).outcome
      = .error (.invalidValuePath opening.text (s.locationOf opening)) := by
  obtain ⟨first, hfirst, rfl, hafter⟩ :=
    takeToken_of_rest_eq hrest (by simp [hname] : name.kind ∈ [TokenKind.name])
  have hread : FollowsGrammar s fun t _ => Policy.slicing.expression t :=
    fun t ht v n us => reads_expression_iff
  have hvaluePath := outcome_valuePath_eq_error (hread.follow first.follows) hafter hopen hbody
    hclose hsimple (.ofName first.value.text)
  rw [TokenStream.locationOf, first.follows.source_eq] at hvaluePath
  rw [Policy.expression]
  refine outcome_bind_eq_error_iff.mpr (.inl ?_)
  -- The first token is a name, and a bracket follows it.
  rw [Reading.primary, isNext_of_rest_eq hrest, isNext_of_rest_eq hrest, isNext_of_rest_eq hrest,
    if_neg (by simp [hname]), if_neg (by simp [hname]), if_pos (by simp [hname])]
  refine outcome_bind_eq_error_iff.mpr (.inl ?_)
  unfold Reading.named
  refine outcome_bind_eq_error_iff.mpr (.inr ⟨first, hfirst, ?_⟩)
  rw [Policy.reading_toOperations, Policy.operations_pathOf, pure_bind, isNext_of_rest_eq hafter,
    if_pos (by simp [hopen]), if_neg (by simp [hsingle])]
  exact outcome_bind_eq_error_iff.mpr (.inl hvaluePath)

/-- A filter that starts with such a value path is refused at the bracket, one token behind the
name. -/
theorem parseFilter_eq_invalidValuePath {input name : String} {n : Node} {ts : List Token}
    (hscan : tokensFrom .filter 0 input.toList = .ok ts) (hbracketed : Bracketed name n ts)
    (hsingle : (AttributePath.ofName name).length = 1) (hsimple : ¬ n.Simple) :
    parseFilter input
      = .error (.invalidValuePath "[" (Location.locate input name.utf8ByteSize)) := by
  obtain ⟨first, opening, body, closing, rfl, hfirst, rfl, hopen, htext, hbody, hclose⟩ :=
    hbracketed
  -- The bracket comes right after the name.
  have hoffset : opening.offset = first.text.utf8ByteSize := by
    have hscans : Scans .filter 0 input.toList ([first] ++ opening :: (body ++ [closing])) [] :=
      tokensFrom_eq_ok_iff.mp hscan
    rw [hscans.offset_eq, Token.charsOf_cons, Token.charsOf_nil, List.append_nil,
      String.utf8Len_toList, Nat.zero_add]
  rw [parseFilter_eq_slices]
  refine outcome_bind_eq_error_iff.mpr (.inr ⟨_, outcome_scan hscan input, ?_⟩)
  refine outcome_bind_eq_error_iff.mpr (.inl ?_)
  rw [← hoffset, ← htext]
  exact outcome_expression_eq_error rfl hfirst hsingle hopen hbody hclose hsimple

/-! ### The result -/

/-- The tree of a filter between parentheses does not depend on what is around it.

1. Filters `a₁`, …, `aₖ` that are chained as `(a₁) o₁ (a₂) o₂ … (aₖ)` are joined from the right.
2. `not (a)` is the negation of `a`.
3. `c[(a)]` is the value path of `a` below `c`, unless `a` has a value path in it, which is an error
   at the bracket behind `c`. -/
theorem parseFilter_parenthesised :
    (∀ chain : Chain (String × Node),
      (∀ operand ∈ chain.operands, IsFilter operand.1 operand.2) →
      ∃ n, (chain.map Prod.snd).node? = some n ∧
        parseFilter (chain.map Prod.fst).text = .ok (some n)) ∧
    ∀ (a : String) (x : Node), IsFilter a x →
      parseFilter ("not (" ++ a ++ ")") = .ok (some (.negation x)) ∧
      ∀ c : String, tokensFrom .filter 0 c.toList = .ok [⟨.name, c, 0⟩] →
        (AttributePath.ofName c).length = 1 →
        ((∀ m ∈ x.preorder, m.kind ≠ .valuePath) →
          parseFilter (c ++ "[(" ++ a ++ ")]")
            = .ok (some (.valuePath (.ofName c) (x.under (.ofName c)) none))) ∧
        ((∃ m ∈ x.preorder, m.kind = .valuePath) →
          ∃ place : Location, parseFilter (c ++ "[(" ++ a ++ ")]")
              = .error (.invalidValuePath "[" place) ∧
            place = Location.locate (c ++ "[(" ++ a ++ ")]") c.utf8ByteSize ∧
            place.position = c.utf8ByteSize) := by
  constructor
  · intro chain h
    obtain ⟨n, hn, hread⟩ := readAs_chain chain h
    exact ⟨n, hn, parseFilter_of_readAs hread⟩
  intro a x h
  have hgroup := h.readAs_enclosed
  constructor
  · have htext : "not " ++ ("(" ++ a ++ ")") = "not (" ++ a ++ ")" := by
      rw [← String.append_assoc, ← String.append_assoc]
      rfl
    have hread := hgroup.negation.single
    rw [htext] at hread
    exact parseFilter_of_readAs hread
  intro c hname hsingle
  have hname := isName_iff.mpr hname
  have htext : c ++ "[" ++ ("(" ++ a ++ ")") ++ "]" = c ++ "[(" ++ a ++ ")]" := by
    apply String.toList_injective
    simp
  have hattribute : ∀ m ∈ x.preorder, m.kind ≠ .attributePath := by
    obtain ⟨_, _, -, -, hderives⟩ := derives_of_parseFilter h.parse
    exact hderives.kind_ne_attributePath
  constructor
  · intro hplain
    have hsimple : x.Simple := fun m hm => ⟨hattribute m hm, hplain m hm⟩
    have hread := (ReadAs.valuePath hname hsingle hsimple (hgroup.group true).single).single
    rw [htext] at hread
    exact parseFilter_of_readAs hread
  · rintro ⟨m, hm, hkind⟩
    have hsimple : ¬ x.Simple := fun hsimple => (hsimple m hm).2 hkind
    obtain ⟨ts, hscan, hbracketed⟩ := (hgroup.group true).single.bracketed hname [] 0
    rw [List.append_nil, htext, ← tokensFrom_eq_ok_iff] at hscan
    refine ⟨_, parseFilter_eq_invalidValuePath hscan hbracketed hsingle hsimple, rfl, ?_⟩
    -- The name is in front of that place.
    have hbefore : (c ++ "[(" ++ a ++ ")]").toList
        = c.toList ++ ("[(" ++ a ++ ")]").toList := by
      simp
    rw [← String.utf8Len_toList]
    exact Location.position_locate hbefore

/-- A group with a string behind it that is ignored, and a value path, once in a row with the group
and once in a predicate. -/
theorem parseFilter_parenthesised_ignored :
    parseFilter "((a pr)\"x\") and (v[b pr])"
      = .ok (some (.connective .and [.comparison (.present (.ofSingle "a")),
          .valuePath (.ofSingle "v") (.comparison (.present ⟨none, "v", ["b"]⟩)) none])) ∧
    parseFilter "not ((a pr)\"x\")"
      = .ok (some (.negation (.comparison (.present (.ofSingle "a"))))) ∧
    parseFilter "e[((a pr)\"x\")]"
      = .ok (some (.valuePath (.ofSingle "e") (.comparison (.present ⟨none, "e", ["a"]⟩)) none)) ∧
    parseFilter "e[(v[b pr])]" = .error (.invalidValuePath "[" ⟨1, 2, 1⟩) := by
  have hgroup : IsFilter "(a pr)\"x\"" (.comparison (.present (.ofSingle "a"))) :=
    ⟨by decide +kernel, [⟨.parenOpen, "(", 0⟩, ⟨.name, "a", 1⟩, ⟨.comparisonOperator, " pr", 2⟩,
      ⟨.parenClose, ")", 5⟩, ⟨.string, "\"x\"", 6⟩], by decide +kernel, by decide⟩
  have hpath : IsFilter "v[b pr]"
      (.valuePath (.ofSingle "v") (.comparison (.present ⟨none, "v", ["b"]⟩)) none) :=
    ⟨by decide +kernel, [⟨.name, "v", 0⟩, ⟨.bracketOpen, "[", 1⟩, ⟨.name, "b", 2⟩,
      ⟨.comparisonOperator, " pr", 3⟩, ⟨.bracketClose, "]", 6⟩], by decide +kernel, by decide⟩
  have hname : tokensFrom .filter 0 "e".toList = .ok [⟨.name, "e", 0⟩] := by decide +kernel
  obtain ⟨n, hn, hchain⟩ := parseFilter_parenthesised.1
    (.link (_, _) .and (.last (_, _))) (by
      simp only [Chain.operands, List.forall_mem_cons, List.not_mem_nil, false_implies,
        implies_true, and_true]
      exact ⟨hgroup, hpath⟩)
  obtain ⟨hnegation, hbelow⟩ := parseFilter_parenthesised.2 _ _ hgroup
  obtain ⟨place, hrefused, rfl, -⟩ :=
    ((parseFilter_parenthesised.2 _ _ hpath).2 "e" hname rfl).2 ⟨_, List.mem_cons_self, rfl⟩
  cases hn
  refine ⟨hchain, hnegation, (hbelow "e" hname rfl).1 ?_, hrefused⟩
  simp [Node.preorder, Node.kind]

end Scim
