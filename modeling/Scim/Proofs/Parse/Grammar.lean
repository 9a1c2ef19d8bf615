import Scim.Proofs.Node.Shape
import Scim.Proofs.Parse.Parens

/-!
# `Scim.Proofs.Parse.Grammar`: the grammar of filters

`Derives` is the grammar of filters over lists of tokens, with the tree of each derivation. It says
nothing of cursors and of the order in which things are looked at. An expression goes on as long as
a logical operator follows, so a derivation in the middle of other tokens counts only where none
does (`EndsBefore`). What stands in a body after its expression is ignored.

The result is `parseFilter_eq_ok_iff_derives`: the parser finds a tree exactly if the grammar does,
and it is the same tree. All of this is about the reader that does not scan bodies again, which is
enough by `parseFilter_eq_slices`.

`Reads a x us` says that an attempt reads `x` and leaves the tokens `us`. It is kept by steps in a
row (`reads_bind_iff`, `reads_takeToken_bind_iff`), and there is one lemma for each rule of the
grammar, which says what it takes off the front of a stream:

* `reads_comparison_iff`, which reads no expression inside;
* `reads_enclosed_iff` and `reads_negation_iff` for what is in parentheses, of which
  `outcome_sliceBody_iff` and `takeGroup_sliceBody_iff` are the parts;
* `reads_valuePath_iff` and `reads_named_iff` for what starts with a name;
* `reads_primary_iff` and `reads_connective_iff`, given that the expressions inside follow the
  grammar (`FollowsGrammar`).

`reads_expression_iff` closes the circle by induction on the weight.
-/

set_option autoImplicit false

namespace Scim

open Attempt

/-! ### The grammar -/

/-- Whether an expression can end before these tokens: a logical operator would continue it. -/
def EndsBefore (ts : List Token) : Prop :=
  ∀ t ∈ ts.head?, t.kind ≠ .logicalOperator

/-- What can be derived. -/
inductive Nonterminal where
  /-- Operands with logical operators between them. -/
  | expression
  /-- One operand. -/
  | primary
  /-- An expression between parentheses. -/
  | enclosed

/-- The grammar of filters, inside a value path or not, and the tree of each derivation. -/
inductive Derives : Nonterminal → Bool → List Token → Node → Prop where
  | single {v : Bool} {ts : List Token} {n : Node} (h : Derives .primary v ts n) :
    Derives .expression v ts n
  | joined {v : Bool} {ts us : List Token} {left right : Node} {word : Token}
    {operator : LogicalOperator} (hleft : Derives .primary v ts left)
    (hword : word.kind = .logicalOperator) (hread : LogicalOperator.read word.text = .ok operator)
    (hright : Derives .expression v us right) :
    Derives .expression v (ts ++ word :: us) (.joined operator left right)
  /-- `( … )`. What is left in front of the closing parenthesis is ignored. -/
  | enclosed {v : Bool} {opening closing : Token} {body ignored : List Token} {n : Node}
    (hopen : opening.kind = .parenOpen) (hbody : Derives .expression v body n)
    (hignored : EndsBefore ignored) (hmatch : Balanced (body ++ ignored))
    (hclose : closing.kind = .parenClose) :
    Derives .enclosed v (opening :: (body ++ ignored ++ [closing])) n
  /-- A group. A value path may stand in it even if the group is inside of one. -/
  | group {v : Bool} {ts : List Token} {n : Node} (h : Derives .enclosed false ts n) :
    Derives .primary v ts n
  | negation {v : Bool} {word : Token} {ts : List Token} {n : Node}
    (hword : word.kind = .negation) (h : Derives .enclosed v ts n) :
    Derives .primary v (word :: ts) (.negation n)
  /-- `name pr`. -/
  | present {v : Bool} {name word : Token} (hname : name.kind = .name)
    (hword : word.kind = .comparisonOperator) (hread : Operator.read word.text = .ok .pr) :
    Derives .primary v [name, word] (.comparison (.present (.ofName name.text)))
  /-- `name operator literal`. -/
  | comparison {v : Bool} {name word literal : Token} {operator : Operator} {value : Value}
    (hname : name.kind = .name) (hword : word.kind = .comparisonOperator)
    (hread : Operator.read word.text = .ok operator) (hoperator : operator ≠ .pr)
    (hliteral : literal.kind ∈ TokenKind.literals) (hvalue : literal.literal? = some value) :
    Derives .primary v [name, word, literal]
      (.comparison (.make (.ofName name.text) operator (some value)))
  /-- `name[ … ]`, where the name is a single one and the predicate holds no value path. -/
  | valuePath {name opening closing : Token} {body : List Token} {n : Node}
    (hname : name.kind = .name) (hsingle : (AttributePath.ofName name.text).length = 1)
    (hopen : opening.kind = .bracketOpen) (hbody : Derives .expression true body n)
    (hplain : ∀ m ∈ n.preorder, m.kind ≠ .valuePath) (hclose : closing.kind = .bracketClose) :
    Derives .primary false (name :: opening :: (body ++ [closing]))
      (.valuePath (.ofName name.text) (n.under (.ofName name.text)) none)

/-! ### What a reader takes -/

/-- An attempt that reads a value and leaves these tokens. -/
def Reads {s : TokenStream} {α : Type} (a : Attempt (Step s α)) (x : α) (us : List Token) : Prop :=
  ∃ step, a.outcome = .ok step ∧ step.value = x ∧ step.rest.rest = us

section
variable {s : TokenStream} {α β : Type}

/-- A value that is there has been read, and what is left behind it is left. -/
@[simp]
theorem reads_pure_iff {step : Step s α} {x : α} {us : List Token} :
    Reads (pure step) x us ↔ step.value = x ∧ step.rest.rest = us := by
  simp [Reads]

/-- Nothing is read by failing. -/
@[simp]
theorem not_reads_fail {e : ParseError} {x : α} {us : List Token} :
    ¬ Reads (.fail e : Attempt (Step s α)) x us := by
  simp [Reads]

/-- After a first step, what is read is read by the second one. -/
theorem reads_bind_iff {a : Attempt β} {f : β → Attempt (Step s α)} {x : α} {us : List Token} :
    Reads (a >>= f) x us ↔ ∃ y, a.outcome = .ok y ∧ Reads (f y) x us := by
  simp only [Reads, outcome_bind_eq_ok_iff]
  grind

/-- A token of one of the kinds is taken off the front. -/
theorem takeToken_of_rest_eq {kinds : List TokenKind} {t : Token} {ts : List Token}
    (h : s.rest = t :: ts) (hkind : t.kind ∈ kinds) :
    ∃ step, (takeToken kinds s).outcome = .ok step ∧ step.value = t ∧ step.rest.rest = ts := by
  have hconsume := TokenStream.consume_of_rest_eq h hkind
  unfold takeToken
  split
  · next heq =>
      rw [hconsume] at heq
      cases heq
      exact ⟨_, rfl, rfl, rfl⟩
  · next heq =>
      rw [hconsume] at heq
      cases heq

/-- Matching tokens between parentheses are a group. -/
theorem takeGroup_of_rest_eq {opening closing : Token} {body ts : List Token}
    (h : s.rest = opening :: (body ++ closing :: ts)) (hopen : opening.kind = .parenOpen)
    (hbody : Balanced body) (hclose : closing.kind = .parenClose) :
    ∃ group, (takeGroup s).outcome = .ok group ∧ group.body = body ∧ group.rest.rest = ts := by
  have hconsume := TokenStream.consume_of_rest_eq h (List.mem_singleton.mpr hopen)
  have hsplit : splitAtClosing 0 (body ++ closing :: ts) = some (body, closing, ts) :=
    splitAtClosing_eq_some_iff.mpr ⟨rfl, hbody, hclose⟩
  unfold takeGroup
  split
  · next heq =>
      rw [hconsume] at heq
      cases heq
  · next heq =>
      rw [hconsume] at heq
      cases heq
      split
      · next hnone => rw [hsplit] at hnone; cases hnone
      · next hsome =>
          rw [hsplit] at hsome
          cases hsome
          exact ⟨_, rfl, rfl, rfl⟩

/-- The body of a group matches, and it ends at a closing parenthesis. -/
theorem Group.balanced (group : Group s) :
    Balanced group.body ∧ group.closing.kind = .parenClose :=
  (splitAtClosing_eq_some_iff.mp group.matched).2

/-- After a token has been taken, what is read is read from the tokens behind it. -/
theorem reads_takeToken_bind_iff {r : TokenStream} {kinds : List TokenKind}
    {f : Step r Token → Attempt (Step s α)} {x : α} {us : List Token}
    {P : Token → List Token → Prop}
    (hf : ∀ step : Step r Token, step.value.kind ∈ kinds →
      (Reads (f step) x us ↔ P step.value step.rest.rest)) :
    Reads (takeToken kinds r >>= f) x us ↔
      ∃ t ts, r.rest = t :: ts ∧ t.kind ∈ kinds ∧ P t ts := by
  rw [reads_bind_iff]
  constructor
  · rintro ⟨step, hstep, hreads⟩
    obtain ⟨hrest, hkind⟩ := rest_of_takeToken hstep
    exact ⟨step.value, step.rest.rest, hrest, hkind, (hf step hkind).mp hreads⟩
  · rintro ⟨t, ts, hrest, hkind, hP⟩
    obtain ⟨step, hstep, rfl, rfl⟩ := takeToken_of_rest_eq hrest hkind
    exact ⟨step, hstep, (hf step hkind).mpr hP⟩

/-- Every operator but `pr` takes a value. -/
theorem isUnary_of_ne_pr {operator : Operator} (h : operator ≠ .pr) :
    operator.isUnary = false := by
  cases operator <;> first | rfl | exact absurd rfl h

/-- A comparison with such an operator has the literal it is made with. -/
theorem value?_make {operator : Operator} (h : operator ≠ .pr) (path : AttributePath)
    (value : Value) : (Comparison.make path operator (some value)).value? = some value := by
  simp [Comparison.make, Comparison.literalFor, isUnary_of_ne_pr h]

/-- A comparison is an operator and, unless that is `pr`, a literal with a value behind it. -/
theorem reads_comparison_iff {policy : Policy} {path : AttributePath} {c : Comparison}
    {us : List Token} :
    Reads (policy.operations.comparison path s) c us ↔
      ∃ word ts, s.rest = word :: ts ∧ word.kind ∈ [TokenKind.comparisonOperator] ∧
        ((Operator.read word.text = .ok .pr ∧ c = .present path ∧ ts = us) ∨
          ∃ operator literal value, Operator.read word.text = .ok operator ∧ operator ≠ .pr ∧
            ts = literal :: us ∧ literal.kind ∈ TokenKind.literals ∧
            literal.literal? = some value ∧ c = .make path operator (some value)) := by
  unfold Operations.comparison
  refine reads_takeToken_bind_iff fun word _ => ?_
  cases hread : Operator.read word.value.text with
  | error e => simp
  | ok operator =>
      by_cases hunary : operator = .pr
      · subst hunary
        simp [Operator.isUnary, Step.map, eq_comm]
      · have hbinary := isUnary_of_ne_pr hunary
        simp only [hbinary, Except.ok.injEq, hunary, false_and, false_or]
        refine (reads_takeToken_bind_iff (P := fun literal ts =>
          ∃ value, literal.literal? = some value ∧ c = .make path operator (some value) ∧ ts = us)
          fun literal _ => ?_).trans ?_
        · rw [Policy.operations_literal?, pure_bind]
          cases literal.value.literal? with
          | none => simp
          | some value => simp [Step.map, Step.andThen, eq_comm]
        · grind

/-! ### The reader and the grammar -/

/-- A way to read expressions that follows the grammar. -/
def FollowsGrammar (s : TokenStream) (read : Lighter Attempt s) : Prop :=
  ∀ t ht v n us, Reads (read t ht v) (some n) us ↔
    ∃ ts, t.rest = ts ++ us ∧ EndsBefore us ∧ Derives .expression v ts n

/-- What follows the grammar on lighter streams does so further on. -/
theorem FollowsGrammar.follow {read : Lighter Attempt s} (h : FollowsGrammar s read)
    {t : TokenStream} (ht : t.Follows s) :
    FollowsGrammar t fun u hu => read u (Nat.lt_trans hu ht.lighter) :=
  fun u _ v n us => h u _ v n us

/-- A body is read to what derives from its first tokens. The others are ignored. -/
theorem outcome_sliceBody_iff {read : Lighter Attempt s} (h : FollowsGrammar s read)
    (group : Group s) {v : Bool} {n : Node} :
    (sliceBody s read group v).outcome = .ok (some n) ↔
      ∃ body ignored, group.body = body ++ ignored ∧ EndsBefore ignored ∧
        Derives .expression v body n := by
  unfold sliceBody
  rw [outcome_bind_eq_ok_iff]
  constructor
  · rintro ⟨step, hstep, hvalue⟩
    have hvalue : step.value = some n := by simpa using hvalue
    obtain ⟨body, hrest, hends, hbody⟩ := (h _ _ v n _).mp ⟨step, hstep, hvalue, rfl⟩
    exact ⟨body, step.rest.rest, hrest, hends, hbody⟩
  · rintro ⟨body, ignored, hrest, hends, hbody⟩
    obtain ⟨step, hstep, hvalue, -⟩ :=
      (h (.make s.source group.body) group.body_lighter v n ignored).mpr
        ⟨body, hrest, hends, hbody⟩
    exact ⟨step, hstep, by simp [hvalue]⟩

end

/-- Nothing derives from no tokens. -/
theorem Derives.ne_nil {nt : Nonterminal} {v : Bool} {ts : List Token} {n : Node}
    (h : Derives nt v ts n) : ts ≠ [] := by
  induction h with
  | single h ih => exact ih
  | joined hleft hword hread hright ihleft ihright => simp
  | enclosed hopen hbody hignored hmatch hclose ih => simp
  | group h ih => exact ih
  | negation hword h ih => simp
  | present hname hword hread => simp
  | comparison hname hword hread hoperator hliteral hvalue => simp
  | valuePath hname hsingle hopen hbody hplain hclose ih => simp

/-- A filter holds no attribute on its own. -/
theorem Derives.kind_ne_attributePath {nt : Nonterminal} {v : Bool} {ts : List Token} {n : Node}
    (h : Derives nt v ts n) : ∀ m ∈ n.preorder, m.kind ≠ .attributePath := by
  induction h with
  | single h ih => exact ih
  | @joined _ _ _ left right _ operator hleft hword hread hright ihleft ihright =>
      intro m hm
      rcases Node.mem_preorder_joined hm with rfl | hm | hm
      · cases operator <;> simp [Node.joined, Node.flattened, Node.kind]
      · exact ihleft m hm
      · exact ihright m hm
  | enclosed hopen hbody hignored hmatch hclose ih => exact ih
  | group h ih => exact ih
  | negation hword h ih => simpa [Node.preorder, Node.kind] using ih
  | present hname hword hread => simp [Node.preorder, Node.kind]
  | comparison hname hword hread hoperator hliteral hvalue => simp [Node.preorder, Node.kind]
  | @valuePath name _ _ _ n hname hsingle hopen hbody hplain hclose ih =>
      intro m hm
      rcases List.mem_cons.mp hm with rfl | hm
      · simp [Node.kind]
      · -- Rooting keeps the kinds of the nodes.
        obtain ⟨m', hm', hkind⟩ := Node.exists_kind_eq_of_mem_mapPaths hm
        rw [← hkind]
        exact ih m' hm'

section
variable {s : TokenStream} {read : Lighter Attempt s}

/-- A group whose body is read is what derives as enclosed. -/
theorem takeGroup_sliceBody_iff (h : FollowsGrammar s read) {v : Bool} {n : Node}
    {us : List Token} :
    (∃ group, (takeGroup s).outcome = .ok group ∧ group.body ≠ [] ∧
        (sliceBody s read group v).outcome = .ok (some n) ∧ group.rest.rest = us) ↔
      ∃ ts, s.rest = ts ++ us ∧ Derives .enclosed v ts n := by
  constructor
  · rintro ⟨group, -, -, hbody, rfl⟩
    obtain ⟨body, ignored, heq, hends, hderives⟩ := (outcome_sliceBody_iff h group).mp hbody
    obtain ⟨hbalanced, hclose⟩ := group.balanced
    rw [heq] at hbalanced
    refine ⟨_, ?_, .enclosed group.opening_kind hderives hends hbalanced hclose⟩
    rw [group.front, heq]
    simp
  · rintro ⟨ts, hrest, hderives⟩
    cases hderives with
    | @enclosed _ opening closing body ignored _ hopen hbody hends hmatch hclose =>
        obtain ⟨group, hgroup, heq, hus⟩ :=
          takeGroup_of_rest_eq (s := s) (by simpa using hrest) hopen hmatch hclose
        refine ⟨group, hgroup, ?_, ?_, hus⟩
        · rw [heq]
          simp [hbody.ne_nil]
        · exact (outcome_sliceBody_iff h group).mpr ⟨body, ignored, heq, hends, hbody⟩

/-- Parentheses are read to what derives between them, unless there is nothing in between. -/
theorem reads_enclosed_iff (h : FollowsGrammar s read) {empty : Nat → Event} {v : Bool} {n : Node}
    {us : List Token} :
    Reads (Policy.slicing.enclosed s read empty v) (some n) us ↔
      ∃ ts, s.rest = ts ++ us ∧ Derives .enclosed v ts n := by
  rw [← takeGroup_sliceBody_iff h]
  unfold Policy.enclosed
  rw [reads_bind_iff]
  refine exists_congr fun group => and_congr_right fun _ => ?_
  split
  -- An empty group is read, but to no node.
  · next hempty => simp [reads_bind_iff, hempty]
  · next hbody => simp [reads_bind_iff, hbody, Policy.slicing]

/-- A negation is read to the negation of what derives behind its keyword. -/
theorem reads_negation_iff (h : FollowsGrammar s read) {v : Bool} {n : Node} {us : List Token} :
    Reads ((Policy.slicing.reading s read).negation v) (some n) us ↔
      ∃ word ts inner, s.rest = word :: ts ++ us ∧ word.kind ∈ [TokenKind.negation] ∧
        Derives .enclosed v ts inner ∧ n = .negation inner := by
  unfold Reading.negation
  refine (reads_takeToken_bind_iff (P := fun _ ts => ∃ taken inner, ts = taken ++ us ∧
    Derives .enclosed v taken inner ∧ n = .negation inner) fun word _ => ?_).trans (by grind)
  have hfollow := h.follow word.follows
  rw [Policy.reading_enclosed, reads_bind_iff]
  constructor
  · rintro ⟨body, hbody, hreads⟩
    obtain ⟨hvalue, hus⟩ := reads_pure_iff.mp hreads
    obtain ⟨inner, hinner, rfl⟩ := Option.map_eq_some_iff.mp hvalue
    obtain ⟨taken, hrest, hderives⟩ :=
      (reads_enclosed_iff hfollow).mp ⟨body, hbody, hinner, hus⟩
    exact ⟨taken, inner, hrest, hderives, rfl⟩
  · rintro ⟨taken, inner, hrest, hderives, rfl⟩
    obtain ⟨body, hbody, hinner, hus⟩ :=
      (reads_enclosed_iff hfollow).mpr ⟨taken, hrest, hderives⟩
    refine ⟨body, hbody, reads_pure_iff.mpr ⟨?_, hus⟩⟩
    exact congrArg (Option.map Node.negation) hinner

/-- A value path is read to what derives between brackets, put below the collection if that is
possible. -/
theorem reads_valuePath_iff (h : FollowsGrammar s read) {policy : Policy}
    {collection : AttributePath} {x : ValuePath} {us : List Token} :
    Reads ((policy.reading s read).valuePath collection) x us ↔
      ∃ opening body closing n, s.rest = opening :: (body ++ closing :: us) ∧
        opening.kind ∈ [TokenKind.bracketOpen] ∧ Derives .expression true body n ∧
        closing.kind ∈ [TokenKind.bracketClose] ∧ n.Simple ∧
        x = .make collection (n.under collection) := by
  unfold Reading.valuePath
  refine (reads_takeToken_bind_iff (P := fun _ ts => ∃ body closing n,
    ts = body ++ closing :: us ∧ Derives .expression true body n ∧
    closing.kind ∈ [TokenKind.bracketClose] ∧ n.Simple ∧
    x = .make collection (n.under collection)) fun opening _ => ?_).trans (by grind)
  rw [reads_bind_iff]
  constructor
  · rintro ⟨predicate, hpredicate, hreads⟩
    obtain ⟨closing, hclosing, hmatch⟩ := reads_bind_iff.mp hreads
    obtain ⟨hrest, hkind⟩ := rest_of_takeToken hclosing
    split at hmatch
    -- There is no predicate, or it cannot be rooted.
    · simp [reads_bind_iff] at hmatch
    · next rooted hrooted =>
        obtain ⟨hvalue, hus⟩ := reads_pure_iff.mp hmatch
        obtain ⟨n, hn, hroot⟩ := Option.bind_eq_some_iff.mp hrooted
        obtain ⟨hsimple, rfl⟩ := Node.rootedAt?_eq_some_iff.mp hroot
        obtain ⟨body, hbody, -, hderives⟩ := (h _ _ true n _).mp ⟨predicate, hpredicate, hn, rfl⟩
        refine ⟨body, closing.value, n, ?_, hderives, hkind, hsimple, hvalue.symm⟩
        rw [hbody, hrest, ← hus]
        rfl
  · rintro ⟨body, closing, n, hrest, hderives, hkind, hsimple, rfl⟩
    -- The bracket ends the expression, as the reader wants it.
    have hends : EndsBefore (closing :: us) := by
      intro t ht
      have : closing.kind = .bracketClose := by simpa using hkind
      simp_all
    obtain ⟨predicate, hpredicate, hn, hafter⟩ :=
      (h opening.rest opening.lighter true n (closing :: us)).mpr ⟨body, hrest, hends, hderives⟩
    obtain ⟨close, hclose, -, hus⟩ := takeToken_of_rest_eq hafter hkind
    refine ⟨predicate, hpredicate, reads_bind_iff.mpr ⟨close, hclose, ?_⟩⟩
    rw [hn, Option.bind_some, Node.rootedAt?_eq_some_iff.mpr ⟨hsimple, rfl⟩]
    exact reads_pure_iff.mpr ⟨rfl, hus⟩

/-- What starts with a name is read to what derives from it, a comparison or a value path. -/
theorem reads_named_iff (h : FollowsGrammar s read) {policy : Policy} {v : Bool} {n : Node}
    {us : List Token} :
    Reads ((policy.reading s read).named v) n us ↔
      ∃ name ts, s.rest = name :: ts ++ us ∧ name.kind ∈ [TokenKind.name] ∧
        Derives .primary v (name :: ts) n := by
  unfold Reading.named
  refine (reads_takeToken_bind_iff (P := fun name ts =>
    ∃ taken, ts = taken ++ us ∧ Derives .primary v (name :: taken) n) fun name hkind => ?_).trans
    (by grind)
  have hname : name.value.kind = .name := by simpa using hkind
  have hfollow := h.follow name.follows
  rw [Policy.reading_toOperations, Policy.operations_pathOf, pure_bind, Policy.reading_after]
  constructor
  · intro hreads
    split at hreads
    · -- A value path.
      split at hreads
      · simp at hreads
      · next hguard =>
          obtain ⟨x, hx, hstep⟩ := reads_bind_iff.mp hreads
          obtain ⟨hvalue, hus⟩ := reads_pure_iff.mp hstep
          obtain ⟨opening, body, closing, inner, hrest, hopen, hbody, hclose, hsimple, hmake⟩ :=
            (reads_valuePath_iff hfollow).mp ⟨x, hx, rfl, hus⟩
          obtain ⟨rfl, hshort⟩ : v = false ∧ (AttributePath.ofName name.value.text).length ≤ 1 := by
            simpa using hguard
          have hsingle : (AttributePath.ofName name.value.text).length = 1 :=
            Nat.le_antisymm hshort (by simp [AttributePath.length, AttributePath.names])
          refine ⟨opening :: (body ++ [closing]), by simpa using hrest, ?_⟩
          rw [← hvalue]
          show Derives _ _ _ x.value.toNode
          rw [hmake]
          exact .valuePath hname hsingle (by simpa using hopen) hbody
            (fun m hm => (hsimple m hm).2) (by simpa using hclose)
    · -- A comparison.
      obtain ⟨c, hc, hstep⟩ := reads_bind_iff.mp hreads
      obtain ⟨hvalue, hus⟩ := reads_pure_iff.mp hstep
      obtain ⟨word, ts, hrest, hword, htest⟩ := reads_comparison_iff.mp ⟨c, hc, rfl, hus⟩
      have hword : word.kind = .comparisonOperator := by simpa using hword
      rw [← hvalue]
      show ∃ taken, _ ∧ Derives _ _ _ (.comparison c.value)
      rcases htest with ⟨hread, hpresent, rfl⟩ |
        ⟨operator, literal, value, hread, hoperator, rfl, hliteral, hlit, hmake⟩
      · rw [hpresent]
        exact ⟨[word], hrest, .present hname hword hread⟩
      · rw [hmake]
        exact ⟨[word, literal], hrest, .comparison hname hword hread hoperator hliteral hlit⟩
  · rintro ⟨taken, hrest, hderives⟩
    cases hderives with
    -- These do not start with a name.
    | group henclosed => cases henclosed; simp_all
    | negation hword => simp_all
    | @present _ _ word _ hword hread =>
        have hnext : name.rest.isNext [.bracketOpen] = false := by
          simp [TokenStream.isNext, TokenStream.peek?, hrest, hword]
        obtain ⟨c, hc, hvalue, hus⟩ := reads_comparison_iff.mpr
          ⟨word, us, hrest, by simp [hword], .inl ⟨hread, rfl, rfl⟩⟩
        rw [hnext, if_neg (by simp), reads_bind_iff]
        refine ⟨c, hc, reads_pure_iff.mpr ⟨?_, hus⟩⟩
        exact congrArg Node.comparison hvalue
    | @comparison _ _ word literal operator value _ hword hread hoperator hliteral hlit =>
        have hnext : name.rest.isNext [.bracketOpen] = false := by
          simp [TokenStream.isNext, TokenStream.peek?, hrest, hword]
        obtain ⟨c, hc, hvalue, hus⟩ := reads_comparison_iff.mpr
          ⟨word, literal :: us, hrest, by simp [hword],
            .inr ⟨operator, literal, value, hread, hoperator, rfl, hliteral, hlit, rfl⟩⟩
        rw [hnext, if_neg (by simp), reads_bind_iff]
        refine ⟨c, hc, reads_pure_iff.mpr ⟨?_, hus⟩⟩
        exact congrArg Node.comparison hvalue
    | @valuePath _ opening closing body inner _ hsingle hopen hbody hplain hclose =>
        have hnext : name.rest.isNext [.bracketOpen] = true := by
          simp [TokenStream.isNext, TokenStream.peek?, hrest, hopen]
        have hsimple : inner.Simple := fun m hm =>
          ⟨hbody.kind_ne_attributePath m hm, hplain m hm⟩
        obtain ⟨x, hx, hvalue, hus⟩ := (reads_valuePath_iff hfollow).mpr
          ⟨opening, body, closing, inner, by simpa using hrest, by simp [hopen], hbody,
            by simp [hclose], hsimple, rfl⟩
        rw [if_pos hnext, if_neg (by simp [hsingle]), reads_bind_iff]
        refine ⟨x, hx, reads_pure_iff.mpr ⟨?_, hus⟩⟩
        exact congrArg ValuePath.toNode hvalue

/-- The next token is the first one that is left. -/
theorem isNext_of_rest_eq {kinds : List TokenKind} {t : Token} {ts : List Token}
    (h : s.rest = t :: ts) : s.isNext kinds = decide (t.kind ∈ kinds) := by
  simp [TokenStream.isNext, TokenStream.peek?, h]

/-- An operand is read to what derives as one. The first token tells which rule that can be. -/
theorem reads_primary_iff (h : FollowsGrammar s read) {v : Bool} {n : Node} {us : List Token} :
    Reads ((Policy.slicing.reading s read).primary v) (some n) us ↔
      ∃ ts, s.rest = ts ++ us ∧ Derives .primary v ts n := by
  have hnamed :
      Reads (do
        let node ← (Policy.slicing.reading s read).named v
        return node.map some) (some n) us ↔
      Reads ((Policy.slicing.reading s read).named v) n us := by
    rw [reads_bind_iff]
    refine exists_congr fun step => and_congr_right fun _ => ?_
    simp [Step.map]
  unfold Reading.primary
  constructor
  · intro hreads
    split at hreads
    · obtain ⟨ts, hrest, henclosed⟩ := (reads_enclosed_iff h).mp hreads
      exact ⟨ts, hrest, .group henclosed⟩
    · split at hreads
      · obtain ⟨word, ts, inner, hrest, hword, henclosed, rfl⟩ :=
          (reads_negation_iff h).mp hreads
        exact ⟨word :: ts, hrest, .negation (by simpa using hword) henclosed⟩
      · split at hreads
        · obtain ⟨name, ts, hrest, -, hderives⟩ := (reads_named_iff h).mp (hnamed.mp hreads)
          exact ⟨name :: ts, hrest, hderives⟩
        · exact absurd hreads not_reads_fail
  · rintro ⟨ts, hrest, hderives⟩
    -- Which rule was used shows in the first token.
    have hfirst : ∀ {t : Token} {taken : List Token} {kinds : List TokenKind}, ts = t :: taken →
        s.isNext kinds = decide (t.kind ∈ kinds) := by
      intro t taken kinds hts
      rw [hts] at hrest
      exact isNext_of_rest_eq hrest
    have hreadNamed : ∀ {name : Token} {taken : List Token}, ts = name :: taken →
        name.kind = .name → Reads ((Policy.slicing.reading s read).primary v) (some n) us := by
      intro name taken hts hname
      unfold Reading.primary
      rw [hfirst hts, hfirst hts, hfirst hts, if_neg (by simp [hname]), if_neg (by simp [hname]),
        if_pos (by simp [hname]), hnamed]
      subst hts
      exact (reads_named_iff h).mpr ⟨name, taken, hrest, by simp [hname], hderives⟩
    cases hderives with
    | group henclosed =>
        have hreads : Reads (Policy.slicing.enclosed s read .emptyGroup false) (some n) us :=
          (reads_enclosed_iff h).mpr ⟨ts, hrest, henclosed⟩
        cases henclosed with
        | enclosed hopen =>
            rw [hfirst rfl, if_pos (by simp [hopen])]
            exact hreads
    | negation hword henclosed =>
        rw [hfirst rfl, hfirst rfl, if_neg (by simp [hword]), if_pos (by simp [hword])]
        exact (reads_negation_iff h).mpr ⟨_, _, _, hrest, by simp [hword], henclosed, rfl⟩
    | present hname hword hread => exact hreadNamed rfl hname
    | comparison hname hword hread hoperator hliteral hvalue => exact hreadNamed rfl hname
    | valuePath hname hsingle hopen hbody hplain hclose => exact hreadNamed rfl hname

/-- A connective is read to what is on the left joined with what derives behind the operator. -/
theorem reads_connective_iff (h : FollowsGrammar s read) {policy : Policy} {v : Bool}
    {left n : Node} {us : List Token} :
    Reads ((policy.reading s read).connective left v) n us ↔
      ∃ word ts operator right, s.rest = word :: ts ++ us ∧ EndsBefore us ∧
        word.kind ∈ [TokenKind.logicalOperator] ∧ LogicalOperator.read word.text = .ok operator ∧
        Derives .expression v ts right ∧ n = .joined operator left right := by
  unfold Reading.connective
  refine (reads_takeToken_bind_iff (P := fun word ts => ∃ operator right taken,
    ts = taken ++ us ∧ EndsBefore us ∧ LogicalOperator.read word.text = .ok operator ∧
    Derives .expression v taken right ∧ n = .joined operator left right) fun word _ => ?_).trans
    (by grind)
  cases LogicalOperator.read word.value.text with
  | error e => simp
  | ok operator =>
      dsimp only
      rw [reads_bind_iff]
      constructor
      · rintro ⟨right, hright, hreads⟩
        split at hreads
        · simp [reads_bind_iff] at hreads
        · next node hnode =>
            obtain ⟨hvalue, hus⟩ := reads_pure_iff.mp hreads
            obtain ⟨taken, hrest, hends, hderives⟩ :=
              (h _ _ v node us).mp ⟨right, hright, hnode, hus⟩
            exact ⟨operator, node, taken, hrest, hends, rfl, hderives, hvalue.symm⟩
      · rintro ⟨_, right, taken, hrest, hends, ⟨rfl⟩, hderives, rfl⟩
        obtain ⟨step, hstep, hvalue, hus⟩ :=
          (h word.rest word.lighter v right us).mpr ⟨taken, hrest, hends, hderives⟩
        refine ⟨step, hstep, ?_⟩
        rw [hvalue]
        exact reads_pure_iff.mpr ⟨rfl, hus⟩

end

/-- An expression can end where the next token is no logical operator. -/
theorem isNext_logicalOperator_iff {s : TokenStream} :
    s.isNext [.logicalOperator] = false ↔ EndsBefore s.rest := by
  unfold EndsBefore TokenStream.isNext TokenStream.peek?
  cases s.rest with
  | nil => simp
  | cons t ts => simp

/-- The reader of expressions follows the grammar. -/
theorem reads_expression_iff {s : TokenStream} {v : Bool} {n : Node} {us : List Token} :
    Reads (Policy.slicing.expression s v) (some n) us ↔
      ∃ ts, s.rest = ts ++ us ∧ EndsBefore us ∧ Derives .expression v ts n := by
  induction hw : s.weight using Nat.strongRecOn generalizing s v n us with
  | ind w ih =>
      subst hw
      -- What the lemmas about the other readers ask for is the induction hypothesis.
      have hread : FollowsGrammar s fun t _ => Policy.slicing.expression t :=
        fun t ht v n us => ih t.weight ht rfl
      rw [Policy.expression, Reading.expression, reads_bind_iff]
      constructor
      · rintro ⟨first, hfirst, hreads⟩
        cases hvalue : first.value with
        | none => simp [hvalue] at hreads
        | some left =>
            rw [hvalue] at hreads
            dsimp only at hreads
            obtain ⟨ts, hrest, hleft⟩ := (reads_primary_iff hread).mp ⟨first, hfirst, hvalue, rfl⟩
            split at hreads
            -- An operator follows: the expression goes on.
            · obtain ⟨whole, hwhole, hstep⟩ := reads_bind_iff.mp hreads
              obtain ⟨hn, hus⟩ := reads_pure_iff.mp hstep
              obtain ⟨word, taken, operator, right, hafter, hends, hword, hop, hright, hjoined⟩ :=
                (reads_connective_iff (hread.follow first.follows)).mp ⟨whole, hwhole, rfl, hus⟩
              refine ⟨ts ++ word :: taken, by rw [hrest, hafter]; simp, hends, ?_⟩
              obtain rfl : Node.joined operator left right = n := by
                rw [← hjoined]
                exact Option.some.inj hn
              exact .joined hleft (by simpa using hword) hop hright
            · next hnext =>
                obtain ⟨hn, rfl⟩ := reads_pure_iff.mp hreads
                obtain rfl : left = n := Option.some.inj (hvalue.symm.trans hn)
                refine ⟨ts, hrest, ?_, .single hleft⟩
                exact isNext_logicalOperator_iff.mp (by simpa using hnext)
      · rintro ⟨ts, hrest, hends, hderives⟩
        cases hderives with
        | single hprimary =>
            obtain ⟨first, hfirst, hvalue, hus⟩ :=
              (reads_primary_iff hread).mpr ⟨ts, hrest, hprimary⟩
            have hnext : first.rest.isNext [.logicalOperator] = false :=
              isNext_logicalOperator_iff.mpr (hus ▸ hends)
            refine ⟨first, hfirst, ?_⟩
            rw [hvalue]
            dsimp only
            rw [hnext, if_neg (by simp)]
            exact reads_pure_iff.mpr ⟨hvalue, hus⟩
        | @joined _ ts taken left right word operator hleft hword hop hright =>
            obtain ⟨first, hfirst, hvalue, hafter⟩ :=
              (reads_primary_iff hread).mpr ⟨ts, by simpa using hrest, hleft⟩
            obtain ⟨whole, hwhole, hjoined, hus⟩ :=
              (reads_connective_iff (hread.follow first.follows)).mpr
                ⟨word, taken, operator, right, hafter, hends, by simp [hword], hop, hright, rfl⟩
            have hnext : first.rest.isNext [.logicalOperator] = true := by
              simp [isNext_of_rest_eq hafter, hword]
            refine ⟨first, hfirst, ?_⟩
            rw [hvalue]
            dsimp only
            rw [if_pos hnext, reads_bind_iff]
            exact ⟨whole, hwhole, reads_pure_iff.mpr ⟨congrArg some hjoined, hus⟩⟩

/-! ### Filters -/

/-- The tree of a filter derives from the first tokens of its scan. -/
theorem derives_of_parseFilter {input : String} {n : Node} (h : parseFilter input = .ok (some n)) :
    ∃ ts us, tokensFrom .filter 0 input.toList = .ok (ts ++ us) ∧ EndsBefore us ∧
      Derives .expression false ts n := by
  rw [parseFilter_eq_slices] at h
  obtain ⟨tokens, htokens, hread⟩ := outcome_bind_eq_ok_iff.mp h
  obtain ⟨step, hstep, hvalue⟩ := outcome_bind_eq_ok_iff.mp hread
  have hvalue : step.value = some n := by simpa using hvalue
  obtain ⟨ts, hrest, hends, hderives⟩ := reads_expression_iff.mp ⟨step, hstep, hvalue, rfl⟩
  refine ⟨ts, step.rest.rest, ?_, hends, hderives⟩
  rw [← hrest]
  exact tokensFrom_of_scan htokens

/-- What derives from the first tokens of a scan is the tree of the filter, if the expression can
end there. -/
theorem parseFilter_of_derives {input : String} {n : Node} {ts us : List Token}
    (hscan : tokensFrom .filter 0 input.toList = .ok (ts ++ us)) (hends : EndsBefore us)
    (hderives : Derives .expression false ts n) : parseFilter input = .ok (some n) := by
  rw [parseFilter_eq_slices]
  refine outcome_bind_eq_ok_iff.mpr ⟨_, outcome_scan hscan input, ?_⟩
  obtain ⟨step, hstep, hvalue, -⟩ := (reads_expression_iff
    (s := TokenStream.make input (ts ++ us))).mpr ⟨ts, rfl, hends, hderives⟩
  exact outcome_bind_eq_ok_iff.mpr ⟨step, hstep, by simp [hvalue]⟩

/-- The parser of filters accepts exactly the texts that scan to tokens of which some first ones
derive from the grammar, no logical operator following, and it finds the tree of the derivation. -/
theorem parseFilter_eq_ok_iff_derives (input : String) (n : Node) :
    parseFilter input = .ok (some n) ↔
      ∃ ts us, tokensFrom .filter 0 input.toList = .ok (ts ++ us) ∧ EndsBefore us ∧
        Derives .expression false ts n := by
  constructor
  · exact derives_of_parseFilter
  · intro h
    obtain ⟨ts, us, hscan, hends, hderives⟩ := h
    exact parseFilter_of_derives hscan hends hderives

end Scim
