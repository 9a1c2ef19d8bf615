import Scim.Proofs.Number.Range
import Scim.Proofs.Parse.Grammar
import Scim.Proofs.Token.Names

/-!
# `Scim.Proofs.Parse.Accepted`: the trees of accepted filters

The tokens of a derivation come from a scan, and that limits what the tree can hold. `Derives.built`
says where its parts are from, for filters and for paths: every comparison was read from a name, an
operator and a literal of the scan (`Comparison.ReadFrom`), and every value path from a name and
from a predicate that was put below it afterwards (`ValuePath.ReadFrom`). It goes by induction on
the derivation, where joining two trees keeps what they are built from (`Built.joined`).

What a token of a scan can be depends on the token behind it:

* `Scanned.comparable`: a name in front of an operator stands for a path that can be compared.
* `Scanned.lexable`: a name in front of a bracket stands for a path that is lexable.
* `Scanned.length_le_two`: any name stands for a path of one name or two.
* `Scanned.unsigned`: a literal has neither a quote nor a sign in its value. For numbers this is
  about how their digits are read (`unsigned_of_number`).

`accepted_of_derives` collects this for the parts of a filter.

What is missing for `Node.Writable` is that floats are finite, and that the comparisons of a value
path can be written without the schema that they were read with.
-/

set_option autoImplicit false

namespace Scim

open Text Recogniser Number

/-! ### Tokens of a scan -/

/-- The first one of consecutive tokens is the first token of a text that goes on with the
characters of the others. -/
theorem Scanned.first {mode : Mode} {t : Token} {ts : List Token} (h : Scanned mode (t :: ts)) :
    ∃ rest, Token.charsOf ts <+: rest ∧
      lexeme? mode (t.text.toList ++ rest) = some (t.kind, t.text.toList, rest) := by
  obtain ⟨offset, cs, all, hscan, before, after, rfl⟩ := h
  rw [List.append_assoc] at hscan
  obtain ⟨mid, -, hscan⟩ := hscan.of_append
  rw [List.cons_append] at hscan
  cases hscan with
  | @step _ _ m rest kind _ _ hlex hrest =>
      -- Behind the token come the characters of the next ones.
      have hchars := hrest.charsOf_append
      rw [List.append_nil, Token.charsOf_append] at hchars
      refine ⟨rest, ⟨_, hchars⟩, ?_⟩
      rw [String.toList_ofList, (lexeme?_splits hlex).1]
      exact hlex

/-- A comparison operator starts with a blank. -/
theorem Scanned.blank_of_comparisonOperator {mode : Mode} {word : Token} {ts : List Token}
    (h : Scanned mode (word :: ts)) (hkind : word.kind = .comparisonOperator) :
    ∃ d cs, isBlank d = true ∧ word.text.toList = d :: cs := by
  obtain ⟨rest, -, hlex⟩ := h.first
  have hfound := recogniserOf_of_lexeme? hlex
  rw [hkind] at hfound
  obtain ⟨m₁, mid, m₂, hblank, -, htext⟩ := andThen_eq_some_iff.mp hfound
  obtain ⟨c, cs, hcs⟩ := List.exists_cons_of_ne_nil (ne_nil_of_lexeme? hlex)
  rw [hcs, one] at hblank
  split at hblank
  · next hc =>
      cases hblank
      exact ⟨c, m₂, hc, htext⟩
  · contradiction

/-- An opening bracket is a bracket. -/
theorem Scanned.bracket_of_bracketOpen {mode : Mode} {opening : Token} {ts : List Token}
    (h : Scanned mode (opening :: ts)) (hkind : opening.kind = .bracketOpen) :
    opening.text.toList = ['['] := by
  obtain ⟨rest, -, hlex⟩ := h.first
  have hfound := recogniserOf_of_lexeme? hlex
  rw [hkind] at hfound
  exact (exactly_eq_some_iff.mp hfound).1

/-- A name in front of an operator stands for a path that can be compared. -/
theorem Scanned.comparable {name word : Token} {ts : List Token}
    (h : Scanned .filter (name :: word :: ts)) (hname : name.kind = .name)
    (hword : word.kind = .comparisonOperator) : (AttributePath.ofName name.text).Comparable := by
  obtain ⟨rest, ⟨after, hrest⟩, hlex⟩ := h.first
  obtain ⟨d, cs, hd, htext⟩ := h.tail.blank_of_comparisonOperator hword
  rw [hname, ← hrest, Token.charsOf_cons, htext, List.cons_append, List.cons_append] at hlex
  exact comparable_of_lexeme? hd hlex

/-- A name in front of a bracket stands for a path that is lexable. -/
theorem Scanned.lexable {name opening : Token} {ts : List Token}
    (h : Scanned .filter (name :: opening :: ts)) (hname : name.kind = .name)
    (hopen : opening.kind = .bracketOpen) : (AttributePath.ofName name.text).Lexable := by
  obtain ⟨rest, ⟨after, hrest⟩, hlex⟩ := h.first
  have htext := h.tail.bracket_of_bracketOpen hopen
  rw [hname, ← hrest, Token.charsOf_cons, htext, List.append_assoc] at hlex
  exact lexable_of_lexeme? hlex

/-- A name stands for a path of one name or two. -/
theorem Scanned.length_le_two {mode : Mode} {name : Token} {ts : List Token}
    (h : Scanned mode (name :: ts)) (hname : name.kind = .name) :
    (AttributePath.ofName name.text).length ≤ 2 := by
  obtain ⟨rest, -, hlex⟩ := h.first
  rw [hname] at hlex
  exact length_ofName_le hlex

/-! ### Literals -/

/-- A literal as it can be read: without a quote and without a sign. -/
def Value.Unsigned : Value → Prop
  | .string text => '"' ∉ text.toList
  | .integer n => 0 ≤ n.toInt
  | .float x => x.isNegative = false
  | .boolean _ | .null => True

/-- A literal without a sign and a quote can be written if it is finite. -/
theorem Value.Unsigned.writable {v : Value} (h : v.Unsigned)
    (hfinite : ∀ x, v = .float x → x.isFinite = true) : v.Writable := by
  cases v with
  | float x => exact ⟨hfinite x rfl, h⟩
  | _ => exact h

/-- A number is a run of digits, or two with a point between them. -/
theorem digits_of_number {cs m rest : List Char} (h : number cs = some (m, rest)) :
    Digits m ∨ ∃ whole fraction, m = whole ++ '.' :: fraction ∧ Digits whole ∧ Digits fraction := by
  have hdigits : ∀ {cs m rest : List Char}, many1 Char.isDigit cs = some (m, rest) → Digits m := by
    intro cs m rest hmany
    obtain ⟨hne, rfl, -⟩ := many1_eq_some_iff.mp hmany
    exact ⟨hne, List.all_eq_true.mp List.all_takeWhile⟩
  obtain ⟨whole, mid, m₂, hwhole, hoptional, rfl⟩ := andThen_eq_some_iff.mp h
  rcases optional_eq_some_iff.mp hoptional with hpoint | ⟨-, hnone⟩
  · obtain ⟨point, mid', fraction, hdot, hfraction, rfl⟩ := andThen_eq_some_iff.mp hpoint
    obtain ⟨rfl, -⟩ := exactly_eq_some_iff.mp hdot
    exact .inr ⟨whole, fraction, rfl, hdigits hwhole, hdigits hfraction⟩
  · cases hnone
    rw [List.append_nil]
    exact .inl (hdigits hwhole)

/-- A number is read as a decimal, and the float of its text is what the decimal is rounded to. -/
theorem read?_of_number {cs m rest : List Char} (h : number cs = some (m, rest)) :
    ∃ d, Decimal.read? m = some d ∧
      Binary64.read? (String.ofList m) = some (Binary64.ofMagnitude false d.magnitude) := by
  obtain ⟨d, hd, hwhole⟩ : ∃ d, Decimal.read? m = some d ∧ Digits (m.takeWhile Char.isDigit) := by
    rcases digits_of_number h with hds | ⟨whole, fraction, rfl, hwhole, hfraction⟩
    · exact ⟨_, Decimal.read?_digits hds, by rwa [hds.takeWhile_eq]⟩
    · exact ⟨_, Decimal.read?_point hwhole hfraction, by rwa [hwhole.takeWhile_point]⟩
  obtain ⟨c, cs, rfl⟩ : ∃ c cs, m = c :: cs := by
    refine List.exists_cons_of_ne_nil ?_
    rintro rfl
    exact hwhole.ne_nil rfl
  have hc : c.isDigit = true := by
    by_contra hc
    exact hwhole.ne_nil (by simp [hc])
  exact ⟨d, hd, Binary64.read?_of_decimal hc hd⟩

/-- The value of a number is a natural number that fits into 64 bits, or a float. -/
theorem ofNumber?_of_number {cs m rest : List Char} (h : number cs = some (m, rest)) :
    ∃ d, Decimal.read? m = some d ∧
      (Value.ofNumber? (String.ofList m) = some (.float (Binary64.ofMagnitude false d.magnitude)) ∨
        ∃ n : Int64, Value.ofNumber? (String.ofList m) = some (.integer n) ∧
          d.exponent = 0 ∧ n.toInt = d.coefficient) := by
  obtain ⟨d, hd, hfloat⟩ := read?_of_number h
  refine ⟨d, hd, ?_⟩
  rw [Value.ofNumber?, String.toList_ofList, hfloat]
  rcases digits_of_number h with hds | ⟨whole, fraction, rfl, -, -⟩
  · have hpoint : '.' ∉ m := fun hmem => by simpa using hds.all '.' hmem
    rw [Decimal.read?_digits hds] at hd
    cases hd
    rw [if_neg hpoint, readInteger?_of_digits hds.ne_nil hds.all, Option.bind_some]
    split
    · next n hn =>
        refine .inr ⟨n, rfl, rfl, ?_⟩
        unfold toInt64? at hn
        split at hn
        · next hrange =>
            -- A natural number that fits is not changed by being made to.
            cases hn
            exact Int64.toInt_ofInt_of_le hrange.1 (Int.lt_of_le_of_lt hrange.2 (by decide))
        · contradiction
    · exact .inl rfl
  · rw [if_pos (by simp)]
    exact .inl rfl

/-- The value of a number has no sign. -/
theorem unsigned_of_number {cs m rest : List Char} (h : number cs = some (m, rest)) {v : Value}
    (hv : Value.ofNumber? (String.ofList m) = some v) : v.Unsigned := by
  obtain ⟨d, -, hfloat | ⟨n, hinteger, -, hn⟩⟩ := ofNumber?_of_number h
  · rw [hfloat] at hv
    cases hv
    exact Binary64.isNegative_ofMagnitude d
  · rw [hinteger] at hv
    cases hv
    show 0 ≤ n.toInt
    omega

/-- The value of a literal has neither a quote nor a sign. -/
theorem Scanned.unsigned {mode : Mode} {t : Token} {ts : List Token} (h : Scanned mode (t :: ts))
    {v : Value} (hv : t.literal? = some v) : v.Unsigned := by
  obtain ⟨rest, -, hlex⟩ := h.first
  have hfound := recogniserOf_of_lexeme? hlex
  unfold Token.literal? at hv
  split at hv
  · next hkind =>
      rw [hkind] at hfound
      cases hv
      obtain ⟨body, hbody, htext, -⟩ := string_eq_some_iff.mp hfound
      show '"' ∉ (Token.unquoted t.text).toList
      simpa [Token.unquoted, htext] using hbody
  · next hkind =>
      rw [hkind] at hfound
      refine unsigned_of_number hfound ?_
      rwa [String.ofList_toList]
  · cases hv
    trivial
  · cases hv
    trivial
  · contradiction

/-! ### Trees -/

namespace Node

variable {C C' : Comparison → Prop} {V V' : AttributePath → Node → Prop}

/-- A tree that is built from some parts is built from others, if these are among its nodes. -/
theorem Built.imp {n : Node} (h : n.Built C V)
    (hC : ∀ c, .comparison c ∈ n.preorder → C c → C' c)
    (hV : ∀ path predicate, .valuePath path predicate none ∈ n.preorder →
      V path predicate → V' path predicate) : n.Built C' V' := by
  induction h with
  | comparison hc => exact .comparison (hC _ (by simp [preorder]) hc)
  | negation hinner ih =>
      refine .negation (ih ?_ ?_)
      · exact fun c hc => hC c (List.mem_cons_of_mem _ hc)
      · exact fun path predicate hv => hV path predicate (List.mem_cons_of_mem _ hv)
  | @connective operator operands htwo hkind hoperands ih =>
      have hbelow : ∀ operand ∈ operands, ∀ m ∈ operand.preorder,
          m ∈ (Node.connective operator operands).preorder := by
        intro operand hoperand m hm
        exact mem_preorder_connective_iff.mpr (.inr ⟨operand, hoperand, hm⟩)
      refine .connective htwo hkind fun operand hoperand => ih operand hoperand ?_ ?_
      · exact fun c hc => hC c (hbelow operand hoperand _ hc)
      · exact fun path predicate hv => hV path predicate (hbelow operand hoperand _ hv)
  | valuePath hv => exact .valuePath (hV _ _ (by simp [preorder]) hv)

/-- A tree without value paths is a predicate. -/
theorem Built.isPredicate {n : Node} (h : n.Built C V)
    (hplain : ∀ m ∈ n.preorder, m.kind ≠ .valuePath) : n.IsPredicate C :=
  h.imp (fun _ _ hc => hc) fun _ _ hmem _ => hplain _ hmem rfl

/-- What a tree contributes to a connective is built from the same parts, and it is none of its
kind. -/
theorem Built.spliced {n : Node} (h : n.Built C V) (operator : LogicalOperator) :
    0 < (n.spliced operator).length ∧ ∀ operand ∈ n.spliced operator,
      operand.logicalOperator? ≠ some operator ∧ operand.Built C V := by
  refine forall_mem_spliced h ?_
  rintro operands rfl
  cases h with
  | connective htwo hkind hoperands => exact ⟨htwo, fun o ho => ⟨hkind o ho, hoperands o ho⟩⟩

/-- Two trees that are built from the same parts are joined to one that is. -/
theorem Built.joined {left right : Node} (hleft : left.Built C V) (hright : right.Built C V)
    (operator : LogicalOperator) : (Node.joined operator left right).Built C V := by
  obtain ⟨hlengthLeft, hpartsLeft⟩ := hleft.spliced operator
  obtain ⟨hlengthRight, hpartsRight⟩ := hright.spliced operator
  have hparts : ∀ operand ∈ left.spliced operator ++ right.spliced operator,
      operand.logicalOperator? ≠ some operator ∧ operand.Built C V := by
    intro operand hoperand
    rcases List.mem_append.mp hoperand with hoperand | hoperand
    · exact hpartsLeft operand hoperand
    · exact hpartsRight operand hoperand
  rw [joined_eq]
  refine .connective ?_ (fun o ho => (hparts o ho).1) fun o ho => (hparts o ho).2
  rw [List.length_append]
  omega

end Node

/-- A comparison that was read from a scan: its path is a name in front of an operator, and its
value is the literal behind it. -/
def Comparison.ReadFrom (mode : Mode) (c : Comparison) : Prop :=
  ∃ name word ts, Scanned mode (name :: word :: ts) ∧ name.kind = .name ∧
    word.kind = .comparisonOperator ∧ c.path = .ofName name.text ∧
    ∀ v ∈ c.value?, ∃ literal us, ts = literal :: us ∧ literal.literal? = some v

/-- A value path that was read from a scan: the collection is a single name in front of a bracket.
The predicate is read like any other expression, and is put below the collection afterwards. -/
structure ValuePath.ReadFrom (mode : Mode) (collection : AttributePath) (predicate : Node) :
    Prop where
  name : ∃ name opening ts, Scanned mode (name :: opening :: ts) ∧ name.kind = .name ∧
    opening.kind = .bracketOpen ∧ collection = .ofName name.text
  single : collection.length = 1
  body : ∃ body : Node, body.IsPredicate (Comparison.ReadFrom mode) ∧
    predicate = body.under collection

/-- Below its collection, a predicate is still one. -/
theorem ValuePath.ReadFrom.isPredicate {mode : Mode} {collection : AttributePath} {predicate : Node}
    (h : ReadFrom mode collection predicate) : predicate.IsPredicate fun _ => True := by
  obtain ⟨body, hbody, rfl⟩ := h.body
  exact hbody.mapPaths fun _ _ => trivial

/-- What derives from the tokens of a scan is built from comparisons and value paths of it. -/
theorem Derives.built {mode : Mode} {nt : Nonterminal} {v : Bool} {ts : List Token} {n : Node}
    (h : Derives nt v ts n) (hscan : Scanned mode ts) :
    n.Built (Comparison.ReadFrom mode) (ValuePath.ReadFrom mode) := by
  induction h with
  | single h ih => exact ih hscan
  | @joined v ts us left right word operator hleft hword hread hright ihleft ihright =>
      exact (ihleft hscan.left).joined (ihright hscan.right.tail) operator
  | enclosed hopen hbody hignored hmatch hclose ih => exact ih hscan.tail.left.left
  | group h ih => exact ih hscan
  | negation hword h ih => exact .negation (ih hscan.tail)
  | present hname hword hread =>
      exact .comparison ⟨_, _, _, hscan, hname, hword, rfl, by
        simp [Comparison.present, Comparison.make, Comparison.literalFor, Operator.isUnary]⟩
  | @comparison v name word literal operator value hname hword hread hoperator hliteral hvalue =>
      refine .comparison ⟨name, word, [literal], hscan, hname, hword, rfl, ?_⟩
      intro v hv
      rw [value?_make hoperator] at hv
      cases hv
      exact ⟨literal, [], rfl, hvalue⟩
  | @valuePath name opening closing body n hname hsingle hopen hbody hplain hclose ih =>
      -- The predicate is one before it is put below the collection.
      have hbody := (ih hscan.tail.tail.left).isPredicate hplain
      exact .valuePath ⟨⟨_, _, _, hscan, hname, hopen, rfl⟩, hsingle, n, hbody, rfl⟩

/-- A comparison as it can be read. -/
structure Comparison.Accepted (c : Comparison) : Prop where
  path : c.path.Comparable
  value : ∀ v ∈ c.value?, v.Unsigned

/-- A comparison that was read from a filter is one that can be read. -/
theorem Comparison.ReadFrom.accepted {c : Comparison} (h : c.ReadFrom .filter) : c.Accepted := by
  obtain ⟨name, word, ts, hscan, hname, hword, hpath, hvalue⟩ := h
  refine ⟨?_, fun v hv => ?_⟩
  · rw [hpath]
    exact hscan.comparable hname hword
  · obtain ⟨literal, us, rfl, hv⟩ := hvalue v hv
    exact hscan.tail.tail.unsigned hv

/-- A tree as it can be read. -/
def Node.Accepted (n : Node) : Prop :=
  Node.Built Comparison.Accepted (fun collection predicate =>
    collection.Lexable ∧ collection.length = 1 ∧
      ∃ body : Node, body.IsPredicate Comparison.Accepted ∧ predicate = body.under collection) n

/-- What derives from the tokens of a scan is a tree as it can be read. -/
theorem accepted_of_derives {nt : Nonterminal} {v : Bool} {ts : List Token} {n : Node}
    (h : Derives nt v ts n) (hscan : Scanned .filter ts) : n.Accepted := by
  refine (h.built hscan).imp (fun c _ hc => hc.accepted) ?_
  rintro _ _ - ⟨⟨name, opening, ts, hname, hkind, hopen, rfl⟩, hsingle, body, hbody, rfl⟩
  refine ⟨hname.lexable hkind hopen, hsingle, body, ?_, rfl⟩
  exact hbody.imp (fun c _ hc => hc.accepted) fun _ _ _ hv => hv.elim

end Scim
